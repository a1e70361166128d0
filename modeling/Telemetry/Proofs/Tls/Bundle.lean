import Mathlib
import Telemetry.Proofs.Pem.Sections
import Telemetry.Proofs.Tls.FailClosed

/-! Bundles of trusted certificates. Of a bundle that is made of whole sections, in any order and
number, the trust pool holds the usable certificates and nothing else; no other section, whatever is
wrong with it, takes one away (`TrustPool.load_keepsUsable`). -/

namespace Telemetry

namespace Pem

/-- The certificate that a part of a bundle adds to a trust pool: that of a section for certificates
whose content can be decoded and is trusted by itself. -/
def Part.anchor? : Part → Option Certificate
  | .line _ => none
  | .block label _ body _ =>
    if label.text = Text.utf8 "CERTIFICATE" then
      match Base64.decode (content body) with
      | .ok content => Certificate.anchor? content
      | .error _ => none
    else none

/-- The part is a section with a certificate that can be trusted. -/
def Part.IsUsable (p : Part) : Prop := ∃ anchor, p.anchor? = some anchor

theorem Part.filterMap_anchor?_eq_nil_iff {parts : List Part} :
    parts.filterMap Part.anchor? = [] ↔ ∀ p ∈ parts, ¬p.IsUsable := by
  simp only [List.filterMap_eq_nil_iff, Part.IsUsable, not_exists,
    Option.eq_none_iff_forall_ne_some, ne_eq]

end Pem

namespace TrustPool

open Pem

/-- Among the results of reading, only the certificates of usable parts are trusted. -/
theorem anchorsOf_certificates {parts : List Part} {text : Bytes} (h : IsText parts text) :
    anchorsOf (certificates text) = parts.filterMap Part.anchor? := by
  rw [anchorsOf, certificates, read_of_isText h, List.filterMap_filterMap, List.filterMap_filterMap]
  refine List.filterMap_congr fun p _ => ?_
  cases p with
  | line l => rfl
  | block label startEnd body stopEnd =>
    rw [Part.result?, Part.anchor?]
    by_cases hc : label.text = Text.utf8 "CERTIFICATE"
    · have hkind : Kind.ofLabel? label.text = some .certificate := Kind.ofLabel?_eq_some_iff.mpr hc
      rw [if_pos hc, hkind]
      cases Base64.decode (Part.content body) <;> rfl
    · rw [if_neg hc]
      cases hkind : Kind.ofLabel? label.text with
      | none => rfl
      | some kind =>
        cases Base64.decode (Part.content body) with
        | error fault => rfl
        | ok content =>
          cases kind
          case certificate => exact absurd (Kind.ofLabel?_eq_some_iff.mp hkind) hc
          all_goals rfl

theorem ofBundle_of_isText {path : String} {parts : List Part} {text : Bytes}
    (h : IsText parts text) : (ofBundle path text).1 =
      if parts.filterMap Part.anchor? = [] then .error (.noCertificates path)
      else .ok ⟨parts.filterMap Part.anchor?⟩ := by
  simp only [ofBundle, anchorsOf_certificates h, List.isEmpty_iff]

/-- What the trust pool of a bundle holds, if the bundle is made of whole sections. -/
structure KeepsUsable (files : Files) (path : String) (parts : List Part) : Prop where
  ok_iff : (∃ pool, (load files path).1 = .ok pool) ↔ ∃ p ∈ parts, p.IsUsable
  /-- The pool holds the certificates of the usable sections in their order. -/
  anchors : ∀ pool, (load files path).1 = .ok pool → pool.anchors = parts.filterMap Part.anchor?
  /-- A usable section is kept, whatever stands before and behind it. -/
  kept : ∀ before p after anchor, parts = before ++ p :: after → p.anchor? = some anchor →
    ∃ pool, (load files path).1 = .ok pool ∧ pool.anchors =
      before.filterMap Part.anchor? ++ anchor :: after.filterMap Part.anchor?
  nothing : (∀ p ∈ parts, ¬p.IsUsable) → (load files path).1 = .error (.noCertificates path)

/-- **A trust pool keeps every usable certificate of its bundle, and nothing else.** The bundle may
be any sequence of whole sections and of lines outside of them. -/
theorem load_keepsUsable {files : Files} {path : String} {parts : List Part} {text : Bytes}
    (hp : path ≠ "") (hr : files.read path = .ok text) (ht : IsText parts text) :
    KeepsUsable files path parts := by
  have hload : (load files path).1 =
      if parts.filterMap Part.anchor? = [] then .error (.noCertificates path)
      else .ok ⟨parts.filterMap Part.anchor?⟩ := by
    rw [load_of_read hp hr, ofBundle_of_isText ht]
  refine ⟨?_, ?_, ?_, ?_⟩
  · rw [hload]
    by_cases h : parts.filterMap Part.anchor? = []
    · simp only [if_pos h, reduceCtorEq, exists_false, false_iff, not_exists, not_and]
      exact Part.filterMap_anchor?_eq_nil_iff.mp h
    · simp only [if_neg h, Except.ok.injEq, exists_eq', true_iff]
      rw [Part.filterMap_anchor?_eq_nil_iff] at h
      simpa using h
  · intro pool hpool
    rw [hload] at hpool
    split at hpool
    · cases hpool
    · cases hpool
      rfl
  · rintro before p after anchor rfl ha
    have hall : (before ++ p :: after).filterMap Part.anchor? =
        before.filterMap Part.anchor? ++ anchor :: after.filterMap Part.anchor? := by
      rw [List.filterMap_append, List.filterMap_cons_some ha]
    refine ⟨_, ?_, rfl⟩
    rw [hload, hall, if_neg (by simp)]
  · intro h
    rw [hload, if_pos (Part.filterMap_anchor?_eq_nil_iff.mpr h)]

/-- The lines of the certificate of an authority. -/
def labAuthority : List PlainLine :=
  [ { text := Text.utf8 "MIIBgTCCASegAwIBAgIUCk7IXhaK1dOD/UefUrjScdbhVuYwCgYIKoZIzj0EAwIw" },
    { text := Text.utf8 "HzEPMA0GA1UEAwwGTGFiIENBMQwwCgYDVQQKDANMYWIwIBcNMDAwMTAxMDAwMDAw" },
    { text := Text.utf8 "WhgPMjA5OTEyMzEyMzU5NTlaMB8xDzANBgNVBAMMBkxhYiBDQTEMMAoGA1UECgwD" },
    { text := Text.utf8 "TGFiMFkwEwYHKoZIzj0CAQYIKoZIzj0DAQcDQgAEfRJ73WuFdqt87W9CGCdSEQxi" },
    { text := Text.utf8 "IT6VRg1uAlfxllp6ZRQHPejDp19iDXuF3g+AtNUyAs7bG3K1rlggnqc3mHM1n6M/" },
    { text := Text.utf8 "MD0wDwYDVR0TAQH/BAUwAwEB/zALBgNVHQ8EBAMCAQYwHQYDVR0OBBYEFPDpOR5H" },
    { text := Text.utf8 "nkVaNudjLiiMgkHv2jeFMAoGCCqGSM49BAMCA0gAMEUCIQCWM7ZBUr/tMNBbfS2G" },
    { text := Text.utf8 "dVUnaXWqUhjQt8mPShunjbEHPwIgKHkkGwp/CKuh4g+PEJC+2vL0OXYfE/l+9pxy" },
    { text := Text.utf8 "sU3X5ZA=" } ]

/-- A bundle with the authority twice, among sections that cannot be used. -/
def labParts : List Part :=
  let certificate : Label := { text := Text.utf8 "CERTIFICATE" }
  let parameters : Label := { text := Text.utf8 "DH PARAMETERS" }
  [ .line { text := Text.utf8 "# authorities", ending := .both },
    .block certificate .lineFeed [{ text := Text.utf8 "not base 64!" }] .lineFeed,
    .block certificate .lineFeed labAuthority .lineFeed,
    .block parameters .both [{ text := Text.utf8 "AAAA", ending := .both }] .both,
    .block certificate .carriageReturn [{ text := Text.utf8 "AAAA" }] .lineFeed,
    .block certificate .lineFeed labAuthority .lineFeed ]

def labBundle : Bytes :=
  Text.utf8 "# authorities\r\n"
    ++ Text.utf8 "-----BEGIN CERTIFICATE-----\nnot base 64!\n-----END CERTIFICATE-----\n"
    ++ Text.utf8 "-----BEGIN CERTIFICATE-----\n" ++ labAuthority.flatMap PlainLine.bytes
    ++ Text.utf8 "-----END CERTIFICATE-----\n"
    ++ Text.utf8 "-----BEGIN DH PARAMETERS-----\r\nAAAA\r\n-----END DH PARAMETERS-----\r\n"
    ++ Text.utf8 "-----BEGIN CERTIFICATE-----\rAAAA\n-----END CERTIFICATE-----\n"
    ++ Text.utf8 "-----BEGIN CERTIFICATE-----\n" ++ labAuthority.flatMap PlainLine.bytes
    ++ Text.utf8 "-----END CERTIFICATE-----"

/-- Both certificates of the authority are trusted. -/
theorem load_keepsUsable_lab :
    let files := Files.ofList [("ca.pem", .ok labBundle)]
    files.read "ca.pem" = .ok labBundle ∧ IsText labParts labBundle ∧
      KeepsUsable files "ca.pem" labParts ∧ ∃ pool, (load files "ca.pem").1 = .ok pool ∧
        pool.anchors.map (·.subject.length) = [31, 31] := by
  intro files
  have hr : files.read "ca.pem" = .ok labBundle := rfl
  have ht : IsText labParts labBundle := .inr (by decide +kernel)
  have hkeeps := load_keepsUsable (by decide) hr ht
  have hanchors : (labParts.filterMap Part.anchor?).map (·.subject.length) = [31, 31] := by
    decide +kernel
  have husable : ∃ p ∈ labParts, p.IsUsable := by
    by_contra hnone
    rw [Part.filterMap_anchor?_eq_nil_iff.mpr (by simpa using hnone)] at hanchors
    cases hanchors
  obtain ⟨pool, hpool⟩ := hkeeps.ok_iff.mpr husable
  exact ⟨hr, ht, hkeeps, pool, hpool, by rw [hkeeps.anchors pool hpool, hanchors]⟩

end TrustPool

end Telemetry
