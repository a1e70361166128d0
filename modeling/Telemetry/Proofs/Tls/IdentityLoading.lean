import Mathlib
import Telemetry.Proofs.Pem.Passages
import Telemetry.Proofs.Tls.Tolerance
import Telemetry.Proofs.Results

/-! What an identity is loaded from. All certificates of its file are taken, with the first key of
the other file, or nothing is. A certificate that cannot be read is taken with any key, which is the
only thing that is not checked (`Identity.load_loadsWhole`). -/

namespace Telemetry

open Pem (Passage Divides Kind linesOf)

/-! ## Certificates -/

namespace Pem

namespace Passage

/-- The content of a section for a certificate. -/
def certificateContent? : Passage → Option Bytes
  | .whole label content => if label = Text.utf8 Kind.certificate.label then some content else none
  | .broken _ => none
  | .unfinished _ => none

/-- What is read of a certificate from a passage. -/
def certificate? (p : Passage) : Option (Except Fault Bytes) :=
  match p.result? with
  | some (.error fault) => some (.error fault)
  | some (.ok ⟨.certificate, content⟩) => some (.ok content)
  | _ => none

end Passage

theorem certificates_of_divides {text : Bytes} {ps : List Passage} (h : Divides (linesOf text) ps) :
    certificates text = ps.filterMap Passage.certificate? := by
  rw [certificates, read_of_divides h, List.filterMap_filterMap]
  refine List.filterMap_congr fun p _ => ?_
  rw [Passage.certificate?]
  cases p.result? with
  | none => rfl
  | some result =>
    cases result with
    | error fault => rfl
    | ok block =>
      obtain ⟨kind, content⟩ := block
      cases kind <;> rfl

/-- The certificates of a file can be read if all its passages can be, and then they are those of
all sections for certificates. -/
theorem readsAll_certificates_iff {ps : List Passage} {chain : List Bytes} :
    List.Forall₂ (fun result der => result = .ok der) (ps.filterMap Passage.certificate?) chain ↔
      (∀ p ∈ ps, p.IsSound) ∧ List.Forall₂ (fun content der => Base64.decode content = .ok der)
        (ps.filterMap Passage.certificateContent?) chain := by
  induction ps generalizing chain with
  | nil => simp
  | cons p ps ih =>
    rw [List.forall_mem_cons]
    rcases p.sound_cases with ⟨hs, fault, hr⟩ | ⟨label, content, rfl, hl⟩ |
      ⟨kind, content, bytes, rfl, hd⟩
    · have hp : p.certificate? = some (.error fault) := by rw [Passage.certificate?, hr]
      rw [List.filterMap_cons_some hp, List.forall₂_cons_left_iff]
      simp [hs]
    · have hp : (Passage.whole label content).certificate? = none := by
        rw [Passage.certificate?, Passage.result?_of_unknown hl]
      have hc : (Passage.whole label content).certificateContent? = none :=
        if_neg (Passage.label_ne_of_unknown hl .certificate)
      rw [List.filterMap_cons_none hp, List.filterMap_cons_none hc, ih]
      simp only [Passage.isSound_of_unknown hl, true_and]
    · by_cases hkind : kind = .certificate
      · subst hkind
        have hp : (Passage.whole (Text.utf8 Kind.certificate.label) content).certificate? =
            some (.ok bytes) := by rw [Passage.certificate?, Passage.result?_of_decode hd]
        have hc : (Passage.whole (Text.utf8 Kind.certificate.label) content).certificateContent? =
            some content := by
          rw [Passage.certificateContent?]
          exact if_pos rfl
        rw [List.filterMap_cons_some hp, List.filterMap_cons_some hc]
        cases chain with
        | nil => simp
        | cons der chain =>
          rw [List.forall₂_cons, List.forall₂_cons, ih, hd]
          simp only [Except.ok.injEq, Passage.isSound_of_decode hd, true_and, and_left_comm]
      · have hp : (Passage.whole (Text.utf8 kind.label) content).certificate? = none := by
          rw [Passage.certificate?, Passage.result?_of_decode hd]
          cases kind <;> first | rfl | exact absurd rfl hkind
        have hc : (Passage.whole (Text.utf8 kind.label) content).certificateContent? = none :=
          if_neg (mt Kind.label_eq_iff.mp hkind)
        rw [List.filterMap_cons_none hp, List.filterMap_cons_none hc, ih]
        simp only [Passage.isSound_of_decode hd, true_and]

end Pem

/-! ## Keys -/

/-- The sections that keys of a format stand in. -/
def KeyFormat.kind : KeyFormat → Kind
  | .rsa => .rsaPrivateKey
  | .curve => .ecPrivateKey
  | .general => .privateKey

theorem KeyFormat.kind_inj {format format' : KeyFormat} (h : format.kind = format'.kind) :
    format = format' := by
  cases format <;> cases format' <;> first | rfl | cases h

/-- The passage is a section for a key, of any format. -/
def Pem.Passage.IsKey (p : Passage) : Prop :=
  ∃ (format : KeyFormat) (content : Bytes), p = .whole (Text.utf8 format.kind.label) content

namespace Identity

/-- The key is what can be decoded in the first section for a key, and all passages before that
can be read. -/
def IsFirstKey (ps : List Passage) (key : PrivateKey) : Prop :=
  ∃ before content after, ps = before ++ .whole (Text.utf8 key.format.kind.label) content :: after ∧
    Base64.decode content = .ok key.content ∧ ∀ p ∈ before, p.IsSound ∧ ¬p.IsKey

variable {p : Passage} {ps : List Passage} {key : PrivateKey}

theorem not_isFirstKey_nil : ¬IsFirstKey [] key := by
  rintro ⟨before, content, after, h, -⟩
  cases before <;> cases h

/-- Behind a passage that can be read and is no key the first key is looked for. -/
theorem isFirstKey_cons_of_not_isKey (hs : p.IsSound) (hk : ¬p.IsKey) :
    IsFirstKey (p :: ps) key ↔ IsFirstKey ps key := by
  constructor
  · rintro ⟨before, content, after, h, hd, hbefore⟩
    cases before with
    | nil =>
      cases h
      exact absurd ⟨_, _, rfl⟩ hk
    | cons q before =>
      cases h
      exact ⟨before, content, after, rfl, hd, (List.forall_mem_cons.mp hbefore).2⟩
  · rintro ⟨before, content, after, rfl, hd, hbefore⟩
    exact ⟨p :: before, content, after, rfl, hd, List.forall_mem_cons.mpr ⟨⟨hs, hk⟩, hbefore⟩⟩

theorem isFirstKey_cons_of_isKey {format : KeyFormat} {content bytes : Bytes}
    (hd : Base64.decode content = .ok bytes) :
    IsFirstKey (.whole (Text.utf8 format.kind.label) content :: ps) key ↔
      ⟨format, bytes⟩ = key := by
  constructor
  · rintro ⟨before, content', after, h, hd', hbefore⟩
    cases before with
    | nil =>
      obtain ⟨hlabel, rfl⟩ := Passage.whole.inj (List.cons.inj h).1
      have hformat : format = key.format := KeyFormat.kind_inj (Kind.label_eq_iff.mp hlabel)
      rw [hd, Except.ok.injEq] at hd'
      rw [hformat, hd']
    | cons q before =>
      cases h
      exact absurd ⟨_, _, rfl⟩ (List.forall_mem_cons.mp hbefore).1.2
  · rintro rfl
    exact ⟨[], content, ps, rfl, hd, by simp⟩

theorem isSound_of_isFirstKey (h : IsFirstKey (p :: ps) key) : p.IsSound := by
  obtain ⟨before, content, after, h, hd, hbefore⟩ := h
  cases before with
  | nil =>
    cases h
    exact Passage.isSound_of_decode hd
  | cons q before =>
    cases h
    exact (List.forall_mem_cons.mp hbefore).1.1

section FirstKey

variable {path : String} {bytes : Bytes} {rest : List (Except Pem.Fault Pem.Block)}

theorem firstKey_cons_of_format (format : KeyFormat) :
    firstKey path (.ok ⟨format.kind, bytes⟩ :: rest) = .ok ⟨format, bytes⟩ := by
  cases format <;> rfl

theorem firstKey_cons_of_ne {kind : Kind} (h : ∀ format : KeyFormat, kind ≠ format.kind) :
    firstKey path (.ok ⟨kind, bytes⟩ :: rest) = firstKey path rest := by
  cases kind with
  | rsaPrivateKey => exact absurd rfl (h .rsa)
  | ecPrivateKey => exact absurd rfl (h .curve)
  | privateKey => exact absurd rfl (h .general)
  | _ => rfl

theorem firstKey_eq_ok_iff :
    firstKey path (ps.filterMap Passage.result?) = .ok key ↔ IsFirstKey ps key := by
  induction ps with
  | nil => exact ⟨nofun, fun h => absurd h not_isFirstKey_nil⟩
  | cons p ps ih =>
    rcases p.sound_cases with ⟨hs, fault, hr⟩ | ⟨label, content, rfl, hl⟩ |
      ⟨kind, content, bytes, rfl, hd⟩
    · rw [List.filterMap_cons_some hr]
      exact ⟨nofun, fun h => absurd (isSound_of_isFirstKey h) hs⟩
    · have hk : ¬(Passage.whole label content).IsKey := by
        rintro ⟨format, content', h⟩
        exact Passage.label_ne_of_unknown hl format.kind (Passage.whole.inj h).1
      rw [List.filterMap_cons_none (Passage.result?_of_unknown hl), ih,
        isFirstKey_cons_of_not_isKey (Passage.isSound_of_unknown hl) hk]
    · rw [List.filterMap_cons_some (Passage.result?_of_decode hd)]
      by_cases hformat : ∃ format : KeyFormat, kind = format.kind
      · obtain ⟨format, rfl⟩ := hformat
        rw [firstKey_cons_of_format, isFirstKey_cons_of_isKey hd, Except.ok.injEq]
      · have hk : ¬(Passage.whole (Text.utf8 kind.label) content).IsKey := by
          rintro ⟨format, content', h⟩
          exact hformat ⟨format, Kind.label_eq_iff.mp (Passage.whole.inj h).1⟩
        rw [firstKey_cons_of_ne (not_exists.mp hformat), ih,
          isFirstKey_cons_of_not_isKey (Passage.isSound_of_decode hd) hk]

end FirstKey

/-! ## Both files -/

/-- The key can be used, and its public key is the one that the certificate names, if that can be
read at all. -/
structure Belongs (leaf : Bytes) (key : PrivateKey) : Prop where
  usable : ∃ publicKey, key.publicKey? = some publicKey
  same : ∀ certificate, Certificate.parse leaf = .ok certificate →
    key.publicKey? = some certificate.publicKey

/-- Such a key and its certificate are let through when they are compared. -/
theorem belongs_iff {leaf : Bytes} {key : PrivateKey} : Belongs leaf key ↔
    compareKeys leaf key = .same ∨ ∃ fault, compareKeys leaf key = .badCertificate fault := by
  unfold compareKeys
  constructor
  · rintro ⟨⟨publicKey, hp⟩, hsame⟩
    rw [hp] at hsame ⊢
    cases hc : Certificate.parse leaf with
    | error fault => exact .inr ⟨fault, rfl⟩
    | ok certificate => exact .inl (if_pos (Option.some.inj (hsame certificate hc)).symm)
  · intro h
    cases hp : key.publicKey? with
    | none => simp [hp] at h
    | some publicKey =>
      refine ⟨⟨publicKey, hp⟩, fun certificate hc => ?_⟩
      simp only [hp, hc] at h
      split at h
      case isTrue he => rw [hp, he]
      case isFalse => simp at h

/-- The certificates of a file are those of a chain: all passages of the file can be read, and the
chain is what can be decoded in its sections for certificates, one by one. -/
def HoldsChain (text : Bytes) (chain : List Bytes) : Prop :=
  ∀ ps, Divides (linesOf text) ps → (∀ p ∈ ps, p.IsSound) ∧
    List.Forall₂ (fun content der => Base64.decode content = .ok der)
      (ps.filterMap Passage.certificateContent?) chain

def HoldsKey (text : Bytes) (key : PrivateKey) : Prop :=
  ∀ ps, Divides (linesOf text) ps → IsFirstKey ps key

theorem readChain_eq_ok_iff {path : String} {text : Bytes} {chain : List Bytes} :
    readChain path text = .ok chain ↔ HoldsChain text chain := by
  have hread : readChain path text = .ok chain ↔
      List.Forall₂ (fun result der => result = .ok der) (Pem.certificates text) chain := by
    rw [readChain, mapError_eq_ok_iff]
    exact mapM_eq_ok_iff
  rw [hread]
  constructor
  · intro h ps hps
    rwa [Pem.certificates_of_divides hps, Pem.readsAll_certificates_iff] at h
  · intro h
    obtain ⟨ps, hps⟩ := Pem.exists_divides (linesOf text)
    rw [Pem.certificates_of_divides hps, Pem.readsAll_certificates_iff]
    exact h ps hps

theorem firstKey_read_eq_ok_iff {path : String} {text : Bytes} {key : PrivateKey} :
    firstKey path (Pem.read text) = .ok key ↔ HoldsKey text key := by
  constructor
  · intro h ps hps
    rwa [Pem.read_of_divides hps, firstKey_eq_ok_iff] at h
  · intro h
    obtain ⟨ps, hps⟩ := Pem.exists_divides (linesOf text)
    rw [Pem.read_of_divides hps, firstKey_eq_ok_iff]
    exact h ps hps

/-- What the two files of an identity hold. -/
structure IsHeldBy (i : Identity) (files : Files) (certificatePath keyPath : String) : Prop where
  chain : ∃ text, files.read certificatePath = .ok text ∧ HoldsChain text i.chain
  key : ∃ text, files.read keyPath = .ok text ∧ HoldsKey text i.key
  belongs : Belongs i.leaf i.key

theorem readFile_eq_ok_iff {files : Files} {path : String} {text : Bytes} :
    readFile files path = .ok text ↔ files.read path = .ok text := mapError_eq_ok_iff

theorem isHeldBy_of_loadFiles {files : Files} {certificatePath keyPath : String} {i : Identity}
    (h : loadFiles files certificatePath keyPath = .ok i) :
    i.IsHeldBy files certificatePath keyPath := by
  have hbelongs : Belongs i.leaf i.key := belongs_iff.mpr (compareKeys_of_loadFiles h)
  rw [loadFiles] at h
  obtain ⟨certificates, hc, h⟩ := exists_of_bind_eq_ok h
  obtain ⟨chain, hchain, h⟩ := exists_of_bind_eq_ok h
  cases chain with
  | nil => cases h
  | cons leaf issuers =>
    obtain ⟨keys, hk, h⟩ := exists_of_bind_eq_ok h
    obtain ⟨key, hkey, h⟩ := exists_of_bind_eq_ok h
    have hi : i = ⟨leaf, issuers, key⟩ := by
      split at h <;> cases h <;> rfl
    subst hi
    exact ⟨⟨certificates, readFile_eq_ok_iff.mp hc, readChain_eq_ok_iff.mp hchain⟩,
      ⟨keys, readFile_eq_ok_iff.mp hk, firstKey_read_eq_ok_iff.mp hkey⟩, hbelongs⟩

theorem loadFiles_of_isHeldBy {files : Files} {certificatePath keyPath : String} {i : Identity}
    (h : i.IsHeldBy files certificatePath keyPath) :
    loadFiles files certificatePath keyPath = .ok i := by
  obtain ⟨⟨certificates, hc, hchain⟩, ⟨keys, hk, hkey⟩, hbelongs⟩ := h
  have hc : readFile files certificatePath = .ok certificates := readFile_eq_ok_iff.mpr hc
  have hk : readFile files keyPath = .ok keys := readFile_eq_ok_iff.mpr hk
  have hchain : readChain certificatePath certificates = .ok i.chain :=
    readChain_eq_ok_iff.mpr hchain
  have hkey : firstKey keyPath (Pem.read keys) = .ok i.key := firstKey_read_eq_ok_iff.mpr hkey
  simp only [loadFiles, hc, hk, hchain, hkey, chain, bind, Except.bind]
  rcases belongs_iff.mp hbelongs with hs | ⟨fault, hb⟩
  · rw [hs]
    rfl
  · rw [hb]
    rfl

section Load

variable {files : Files} {certificatePath keyPath : String}

theorem load_of_no_certificate (hk : keyPath ≠ "") :
    load files "" keyPath = .error (.incomplete .certificate) := if_neg hk

theorem load_of_no_key (hc : certificatePath ≠ "") :
    load files certificatePath "" = .error (.incomplete .key) := if_neg hc

theorem load_of_paths (hc : certificatePath ≠ "") (hk : keyPath ≠ "") :
    load files certificatePath keyPath = (loadFiles files certificatePath keyPath).map some := by
  rw [load, if_neg hc, if_neg hk]

theorem load_eq_some_iff {i : Identity} : load files certificatePath keyPath = .ok (some i) ↔
    certificatePath ≠ "" ∧ keyPath ≠ "" ∧ i.IsHeldBy files certificatePath keyPath := by
  by_cases hc : certificatePath = ""
  · subst hc
    by_cases hk : keyPath = ""
    · subst hk
      exact ⟨nofun, fun h => absurd rfl h.1⟩
    · rw [load_of_no_certificate hk]
      exact ⟨nofun, fun h => absurd rfl h.1⟩
  · by_cases hk : keyPath = ""
    · subst hk
      rw [load_of_no_key hc]
      exact ⟨nofun, fun h => absurd rfl h.2.1⟩
    · rw [load_of_paths hc hk]
      constructor
      · intro h
        obtain ⟨j, hj, hji⟩ := exists_of_map_eq_ok h
        cases hji
        exact ⟨hc, hk, isHeldBy_of_loadFiles hj⟩
      · rintro ⟨-, -, h⟩
        rw [loadFiles_of_isHeldBy h]
        rfl

theorem load_eq_none_iff : load files certificatePath keyPath = .ok none ↔
    certificatePath = "" ∧ keyPath = "" := by
  constructor
  · intro h
    by_contra hne
    by_cases hc : certificatePath = ""
    · subst hc
      rw [load_of_no_certificate fun hk => hne ⟨rfl, hk⟩] at h
      cases h
    · by_cases hk : keyPath = ""
      · subst hk
        rw [load_of_no_key hc] at h
        cases h
      · rw [load_of_paths hc hk] at h
        obtain ⟨_, _, h⟩ := exists_of_map_eq_ok h
        cases h
  · rintro ⟨rfl, rfl⟩
    rfl

end Load

/-- How an identity is loaded, by its two paths and what the files hold. -/
structure LoadsWhole (files : Files) (certificatePath keyPath : String) : Prop where
  none_iff : load files certificatePath keyPath = .ok none ↔ certificatePath = "" ∧ keyPath = ""
  noKey : certificatePath ≠ "" → keyPath = "" →
    load files certificatePath keyPath = .error (.incomplete .key)
  noCertificate : certificatePath = "" → keyPath ≠ "" →
    load files certificatePath keyPath = .error (.incomplete .certificate)
  /-- In every other case there is a fault, or an identity that the files hold. -/
  some_iff : ∀ i, load files certificatePath keyPath = .ok (some i) ↔
    certificatePath ≠ "" ∧ keyPath ≠ "" ∧ i.IsHeldBy files certificatePath keyPath

/-- **An identity is loaded whole, or not at all.** Its chain is made of all certificates of the one
file, in their order, and its key is the first one of the other file. Only the match of the two can
be missing: a key that can be used belongs to any certificate that cannot be read. -/
theorem load_loadsWhole (files : Files) (certificatePath keyPath : String) :
    LoadsWhole files certificatePath keyPath where
  none_iff := load_eq_none_iff
  noKey := by
    rintro hc rfl
    exact load_of_no_key hc
  noCertificate := by
    rintro rfl hk
    exact load_of_no_certificate hk
  some_iff := fun _ => load_eq_some_iff

/-- A certificate of three zero bytes is loaded with a key that cannot be its own. -/
theorem load_loadsWhole_unreadable_leaf :
    let files := Dialer.unreadableLeafFiles
    LoadsWhole files "leaf.pem" "key.pem" ∧ ∃ i, load files "leaf.pem" "key.pem" = .ok (some i) ∧
      i.chain = [[0, 0, 0]] ∧ i.IsHeldBy files "leaf.pem" "key.pem" ∧
      ∀ certificate, Certificate.parse i.leaf ≠ .ok certificate := by
  intro files
  have hwhole := load_loadsWhole files "leaf.pem" "key.pem"
  -- only the chain is evaluated: the key need not be known
  have hchain : (load files "leaf.pem" "key.pem").toOption.map (Option.map chain) =
      some (some [[0, 0, 0]]) := by decide +kernel
  have hparse : (Certificate.parse [0, 0, 0]).toOption = none := by decide
  cases hl : load files "leaf.pem" "key.pem" with
  | error fault =>
    rw [hl] at hchain
    cases hchain
  | ok identity =>
    rw [hl] at hchain
    obtain ⟨i, rfl, hi⟩ := Option.map_eq_some_iff.mp (Option.some.inj hchain)
    refine ⟨hwhole, i, rfl, hi, ((hwhole.some_iff i).mp hl).2.2, fun certificate hc => ?_⟩
    have hleaf : i.leaf = [0, 0, 0] := (List.cons.inj hi).1
    rw [hleaf] at hc
    rw [hc] at hparse
    cases hparse

end Identity

end Telemetry
