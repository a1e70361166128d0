import Mathlib
import Telemetry.Proofs.Net.AuthorityParts

/-! The proxy that a name names. A name that is a host and perhaps a number of sixteen bits is read
as that proxy. Others are read as well: a port that is no such number counts for none, the host may
be empty, and text beside its brackets is dropped or taken for a part of it (`Proxy.parse_names`). -/

namespace Telemetry

namespace Authority

/-- A text that is not made up of a host and perhaps a port. -/
inductive IsIrregular : List Char → Prop
  | noHost {rest : List Char} : IsIrregular (':' :: rest)
  | emptyBrackets {rest : List Char} : IsIrregular ('[' :: ']' :: rest)
  | noPort {host digits : List Char} (hhost : IsHostText host)
      (hport : ∀ n ≤ 65535, ¬Text.IsNumeral n digits) : IsIrregular (host ++ ':' :: digits)
  | beforeBrackets {before rest : List Char} (h : before ≠ []) : IsIrregular (before ++ '[' :: rest)
  | afterBrackets {inside rest : List Char} {c : Char} (h : c ≠ ':') :
      IsIrregular ('[' :: inside ++ ']' :: c :: rest)

end Authority

namespace Proxy

open Authority

/-- The text is the host of the proxy, and its port unless that is 80. -/
inductive IsNamedBy : Proxy → List Char → Prop
  | host {host : List Char} (hhost : IsHostText host) : IsNamedBy ⟨host, 80⟩ host
  | hostPort {host digits : List Char} {n : Nat} (hhost : IsHostText host)
      (hport : Text.IsNumeral n digits) (hn : n ≤ 65535) :
      IsNamedBy ⟨host, n⟩ (host ++ ':' :: digits)

/-- What is read from an authority. -/
def ofAuthority (t : List Char) : Proxy :=
  ⟨Authority.host ⟨t⟩, (Authority.port? ⟨t⟩).getD defaultPort⟩

section Named

variable {p : Proxy} {t : List Char}

theorem IsNamedBy.exists_parts (h : p.IsNamedBy t) : IsHostText p.host ∧ ∃ port,
    t = p.host ++ portChars port ∧ (∀ ds, port = some ds → ∃ n ≤ 65535, Text.IsNumeral n ds) ∧
      (port.bind Text.readPort?).getD defaultPort = p.port := by
  cases h with
  | host hhost => exact ⟨hhost, none, (List.append_nil t).symm, nofun, rfl⟩
  | @hostPort host digits n hhost hport hn =>
    refine ⟨hhost, some digits, rfl, fun ds hds => ?_, ?_⟩
    · cases hds
      exact ⟨n, hn, hport⟩
    · rw [Option.bind_some, Text.readPort?, Text.readNat?_eq_some_iff.mpr ⟨hport, hn⟩]
      rfl

/-- The characters of a number, and the colon in front of it. -/
theorem not_mem_portChars {port : Option (List Char)}
    (hport : ∀ ds, port = some ds → ∃ n ≤ 65535, Text.IsNumeral n ds) {c : Char}
    (hc : c ≠ ':' ∧ c ≠ '+' ∧ c.isDigit = false) : c ∉ portChars port := by
  cases port with
  | none => exact List.not_mem_nil
  | some ds =>
    obtain ⟨n, -, hn⟩ := hport ds rfl
    refine List.not_mem_cons_of_ne_of_not_mem hc.1 fun hm => ?_
    rcases hn.mem_cases hm with h | h
    · exact hc.2.1 h
    · rw [hc.2.2] at h
      cases h

/-- What names a proxy is read as that proxy. -/
theorem IsNamedBy.eq_ofAuthority (h : p.IsNamedBy t) (hat : '@' ∉ t) : p = ofAuthority t := by
  obtain ⟨hhost, port, rfl, hport, hvalue⟩ := h.exists_parts
  have hcolon : ∀ ds, port = some ds → ':' ∉ ds := by
    intro ds hds hm
    obtain ⟨n, -, hn⟩ := hport ds hds
    rcases hn.mem_cases hm with hc | hc <;> cases hc
  rw [ofAuthority, host_of_hostText hhost hat, port?_of_hostText hhost hcolon, hvalue]

theorem ofAuthority_of_noNumber {host digits : List Char} (hhost : IsHostText host)
    (hat : '@' ∉ host ++ ':' :: digits) (hcolon : ':' ∉ digits)
    (hno : ∀ n ≤ 65535, ¬Text.IsNumeral n digits) :
    ofAuthority (host ++ ':' :: digits) = ⟨host, 80⟩ := by
  have hread : Text.readPort? digits = none := by
    rw [Option.eq_none_iff_forall_ne_some]
    intro n hn
    obtain ⟨hnumeral, hle⟩ := Text.readNat?_eq_some_iff.mp hn
    exact hno n hle hnumeral
  have hport : (Authority.port? ⟨host ++ portChars (some digits)⟩) = none :=
    (port?_of_last rfl hcolon).trans hread
  have hself : Authority.host ⟨host ++ portChars (some digits)⟩ = host := host_of_hostText hhost hat
  rw [portChars] at hport hself
  rw [ofAuthority, hself, hport]
  rfl

/-- A text that names a proxy is not irregular. -/
theorem IsNamedBy.not_isIrregular (h : p.IsNamedBy t) (hat : '@' ∉ t) : ¬IsIrregular t := by
  obtain ⟨hhost, port, ht, hport, -⟩ := h.exists_parts
  have hopen : '[' ∉ portChars port := not_mem_portChars hport (by decide)
  have hclose : ']' ∉ portChars port := not_mem_portChars hport (by decide)
  have hhead : t.head? ≠ some ':' := by
    rw [ht]
    exact hhost.head?_append_ne
  have hbrackets (hm : '[' ∈ t) := ht ▸ hhost.exists_of_bracket hopen (ht ▸ hm)
  intro hir
  cases hir with
  | noHost => exact hhead rfl
  | emptyBrackets =>
    obtain ⟨inside, hne, -, hclose', heq⟩ := hbrackets List.mem_cons_self
    obtain ⟨c, cs, rfl⟩ := List.exists_cons_of_ne_nil hne
    exact hclose' ((List.cons.inj (List.cons.inj heq).2).1 ▸ List.mem_cons_self)
  | @noPort host digits hhost' hno =>
    have hhosts : Authority.host ⟨host ++ portChars (some digits)⟩ = host :=
      host_of_hostText hhost' hat
    rw [portChars, ht, host_of_hostText hhost (ht ▸ hat)] at hhosts
    rw [hhosts] at ht
    have hrest := List.append_cancel_left ht
    cases port with
    | none => cases hrest
    | some ds =>
      cases hrest
      obtain ⟨n, hn, hnumeral⟩ := hport digits rfl
      exact hno n hn hnumeral
  | @beforeBrackets before rest hne =>
    obtain ⟨inside, -, hopen', -, heq⟩ := hbrackets (by simp)
    obtain ⟨c, cs, rfl⟩ := List.exists_cons_of_ne_nil hne
    have hm : '[' ∈ inside ++ ']' :: portChars port := by
      rw [← (List.cons.inj heq).2]
      simp
    simp [hopen', hopen] at hm
  | @afterBrackets inside rest c hc =>
    obtain ⟨inside', -, -, hclose', heq⟩ := hbrackets List.mem_cons_self
    have hafter :=
      ((List.append_cons_inj_of_notMem hclose' hclose).mp (List.cons.inj heq).2.symm).2.2
    cases port with
    | none => cases hafter
    | some ds => exact hc (List.cons.inj hafter).1.symm

theorem IsNamedBy.port_le (h : p.IsNamedBy t) : p.port ≤ 65535 := by
  cases h with
  | host => exact (by decide : 80 ≤ 65535)
  | hostPort _ _ hn => exact hn

theorem exists_isNamedBy_of_port {host digits : List Char} (hhost : IsHostText host)
    (h : ¬IsIrregular (host ++ ':' :: digits)) :
    ∃ q : Proxy, q.IsNamedBy (host ++ ':' :: digits) := by
  by_contra hnone
  exact h (.noPort hhost fun n hn hnumeral => hnone ⟨_, .hostPort hhost hnumeral hn⟩)

/-- An authority names a proxy unless it is irregular. -/
theorem exists_isNamedBy {a : Authority} (hparse : Authority.parse t = .ok a) (hne : t ≠ [])
    (h : ¬IsIrregular t) : ∃ q : Proxy, q.IsNamedBy t := by
  obtain ⟨hcount, hle⟩ := count_brackets_of_parse hparse
  by_cases hopen : '[' ∈ t
  · obtain ⟨before, rest, rfl, -⟩ := List.eq_append_cons_of_mem hopen
    obtain rfl : before = [] := by_contra fun hb => h (.beforeBrackets hb)
    have hclose : ']' ∈ rest := by
      have hpos : 0 < ('[' :: rest).count ']' := hcount ▸ List.count_pos_iff.mpr hopen
      exact (List.mem_cons.mp (List.count_pos_iff.mp hpos)).resolve_left (by decide)
    obtain ⟨inside, after, rfl, hinside⟩ := List.eq_append_cons_of_mem hclose
    have hinner : inside ≠ [] := by
      rintro rfl
      exact h .emptyBrackets
    have hopen' : '[' ∉ inside := by
      rw [← hcount, List.nil_append, List.count_cons_self, List.count_append] at hle
      rw [← List.count_eq_zero]
      omega
    have hhost : IsHostText ('[' :: inside ++ [']']) := .bracketed hinner hopen' hinside
    rcases after with _ | ⟨c, digits⟩
    · exact ⟨_, .host hhost⟩
    · obtain rfl : c = ':' := by_contra fun hc => h (.afterBrackets hc)
      have ht : '[' :: (inside ++ ']' :: ':' :: digits) =
          '[' :: inside ++ [']'] ++ ':' :: digits := by simp
      rw [List.nil_append, ht] at h ⊢
      exact exists_isNamedBy_of_port hhost h
  · have hclose : ']' ∉ t := by
      rw [← List.count_eq_zero, ← hcount, List.count_eq_zero.mpr hopen]
    by_cases hcolon : ':' ∈ t
    · obtain ⟨name, digits, rfl, hname⟩ := List.eq_append_cons_of_mem hcolon
      have hne' : name ≠ [] := by
        rintro rfl
        exact h .noHost
      rw [List.mem_append, not_or] at hopen hclose
      exact exists_isNamedBy_of_port (.name hne' hname hopen.1 hclose.1) h
    · exact ⟨_, .host (.name hne hcolon hopen hclose)⟩

theorem isNamedBy_iff {a : Authority} (hparse : Authority.parse t = .ok a) (hne : t ≠ [])
    (hat : '@' ∉ t) : (ofAuthority t).IsNamedBy t ↔ ¬IsIrregular t := by
  refine ⟨fun h => h.not_isIrregular hat, fun h => ?_⟩
  obtain ⟨q, hq⟩ := exists_isNamedBy hparse hne h
  exact hq.eq_ofAuthority hat ▸ hq

end Named

/-! ## Reading -/

theorem namesScheme_iff {cs : List Char} : namesScheme cs = true ↔ "://".toList <:+: cs := by
  induction cs with
  | nil => simp [namesScheme]
  | cons c cs ih =>
    rw [namesScheme, Bool.or_eq_true, ih, List.isPrefixOf_iff_prefix, List.infix_cons_iff]

theorem namesScheme_of_isMark {cs : List Char} (h : Uri.IsMark (cs.take 7)) :
    namesScheme cs = true := by
  have hself : (cs.take 7).drop 4 = "://".toList := by
    refine Text.eq_of_map_toLower_eq ?_ ?_
    · simp
    · rw [List.map_drop, h]
      rfl
  rw [namesScheme_iff, ← hself]
  exact (List.drop_suffix 4 _).isInfix.trans (List.take_prefix 7 cs).isInfix

/-- What is read as the name of a proxy. -/
theorem read_eq_ok_iff {cs : List Char} {p : Proxy} : read cs = .ok p ↔
    ("://".toList <:+: cs → Uri.IsMark (cs.take 7)) ∧
      (∃ u, Uri.parse ("http://".toList ++ Uri.dropMark cs) = .ok u) ∧
      '@' ∉ Uri.authorityPart (Uri.dropMark cs) ∧
      p = ofAuthority (Uri.authorityPart (Uri.dropMark cs)) := by
  have hhttp {u : Uri} (hu : Uri.parse ("http://".toList ++ Uri.dropMark cs) = .ok u) :
      u = ⟨some .http, some ⟨Uri.authorityPart (Uri.dropMark cs)⟩⟩ :=
    ((Uri.parse_eq_ok_iff .http).mp hu).2.2.2.2
  -- Whatever else the name holds, the text is read as the mark and what is left without it.
  have htext (hmark : "://".toList <:+: cs → Uri.IsMark (cs.take 7)) :
      Uri.parse (if namesScheme cs then cs else "http://".toList ++ cs) =
        Uri.parse ("http://".toList ++ Uri.dropMark cs) := by
    by_cases hcs : Uri.IsMark (cs.take 7)
    · rw [if_pos (namesScheme_of_isMark hcs), Uri.parse_of_isMark hcs, Uri.dropMark, if_pos hcs]
    · rw [if_neg fun hn => hcs (hmark (namesScheme_iff.mp hn)), Uri.dropMark, if_neg hcs]
  constructor
  · intro h
    obtain ⟨u, hu, h⟩ := exists_of_bind_eq_ok h
    rw [mapError_eq_ok_iff] at hu
    split at h
    · cases h
    rename_i hscheme
    rw [not_not] at hscheme
    have hmark : "://".toList <:+: cs → Uri.IsMark (cs.take 7) := by
      intro hwithin
      rw [if_pos (namesScheme_iff.mpr hwithin)] at hu
      exact Uri.isMark_of_parse hu hscheme
    rw [htext hmark] at hu
    obtain rfl := hhttp hu
    simp only at h
    split at h
    · cases h
    · rename_i hat
      cases h
      exact ⟨hmark, ⟨_, hu⟩, by simpa using hat, rfl⟩
  · rintro ⟨hmark, ⟨u, hu⟩, hat, rfl⟩
    have hparsed := hu
    rw [hhttp hu, ← htext hmark] at hparsed
    have hcontains : (Uri.authorityPart (Uri.dropMark cs)).contains '@' = false := by
      simpa using hat
    simp only [read, hparsed, Except.mapError, bind, Except.bind, ne_eq, not_true_eq_false,
      if_false, hcontains, Bool.false_eq_true]
    rfl

theorem parse_eq_ok_iff {value : String} {p : Proxy} :
    parse value = .ok p ↔ read (Text.trim value.toList) = .ok p := mapError_eq_ok_iff

/-- What stands for the proxy in its name: what follows the scheme, up to the path. -/
def writtenAuthority (value : String) : List Char :=
  Uri.authorityPart (Uri.dropMark (Text.trim value.toList))

/-- A proxy that is named has a name of its own, unless it is too long for a URI. -/
theorem parse_authority_iff {p : Proxy} {t : List Char} {a : Authority} (h : p.IsNamedBy t)
    (hat : '@' ∉ t) (hparse : Authority.parse t = .ok a) :
    parse p.authority = .ok p ↔ 7 + p.authority.length ≤ Uri.maxLength := by
  obtain ⟨hhost, port, rfl, hport, -⟩ := h.exists_parts
  have hclose : ∀ ds, port = some ds → ']' ∉ ds := by
    rintro ds rfl hm
    exact not_mem_portChars hport (c := ']') (by decide) (List.mem_cons_of_mem _ hm)
  have hagain : Authority.parse p.authorityChars = .ok ⟨p.authorityChars⟩ :=
    parse_withPort hhost hat hclose p.port hparse
  have hchars := forall_of_parse hagain
  have htrim : Text.trim p.authority.toList = p.authorityChars := by
    rw [authority, String.toList_ofList, Text.trim_eq_self]
    exact fun c hc => Text.isBlank_of_lt (hchars c hc).1.1 (hchars c hc).1.2
  have hplain : ¬"://".toList <:+: p.authorityChars := fun hwithin =>
    absurd (hchars '/' (hwithin.subset (by simp))).2 (by decide)
  have hdrop : Uri.dropMark p.authorityChars = p.authorityChars :=
    if_neg fun hmark => hplain (namesScheme_iff.mp (namesScheme_of_isMark hmark))
  obtain ⟨hpart, htail⟩ := Uri.authorityPart_eq p.authorityChars fun c hc => (hchars c hc).2
  have hat' : '@' ∉ p.authorityChars := by
    rw [List.mem_append, not_or] at hat
    refine List.not_mem_append hat.1 (List.not_mem_cons_of_ne_of_not_mem (by decide) ?_)
    exact Text.not_mem_decimal rfl
  have hself : p = ofAuthority p.authorityChars :=
    (IsNamedBy.hostPort hhost (Text.isNumeral_decimal p.port) h.port_le).eq_ofAuthority hat'
  have hne : p.authorityChars ≠ [] := List.append_ne_nil_of_right_ne_nil _ (List.cons_ne_nil _ _)
  have hbytes :
      Text.utf8Length ("http://".toList ++ p.authorityChars) = 7 + p.authority.length := by
    rw [Text.utf8Length_append, authority, String.length_ofList,
      Text.utf8Length_eq_length fun c hc => (hchars c hc).1.2.trans (by decide)]
    rfl
  rw [parse_eq_ok_iff, htrim, read_eq_ok_iff, hdrop, hpart]
  constructor
  · rintro ⟨-, ⟨u, hu⟩, -⟩
    exact hbytes ▸ ((Uri.parse_eq_ok_iff .http).mp hu).1
  · intro hle
    have huri : Uri.parse ("http://".toList ++ p.authorityChars) =
        .ok ⟨some .http, some ⟨p.authorityChars⟩⟩ := by
      rw [Uri.parse_eq_ok_iff .http, hpart, htail]
      exact ⟨hbytes ▸ hle, hne, hagain, rfl, rfl⟩
    exact ⟨fun hwithin => absurd hwithin hplain, ⟨_, huri⟩, hat', hself⟩

/-- What a proxy that is read has to do with the text that is written for it. -/
structure ReadsName (p : Proxy) (t : List Char) : Prop where
  isNamedBy_iff : p.IsNamedBy t ↔ ¬IsIrregular t
  eq_of_isNamedBy : ∀ q : Proxy, q.IsNamedBy t → q = p
  /-- A port that is no number of sixteen bits counts for none. -/
  eq_of_noNumber : ∀ host digits, t = host ++ ':' :: digits → IsHostText host → ':' ∉ digits →
    (∀ n ≤ 65535, ¬Text.IsNumeral n digits) → p = ⟨host, 80⟩
  /-- The name that the proxy is dialed by stands for it again, unless it is too long for a URI. -/
  parse_authority_iff : p.IsNamedBy t →
    (parse p.authority = .ok p ↔ 7 + p.authority.length ≤ Uri.maxLength)

/-- **Which proxy is dialed.** Every text that is refused is named by the fault. A text is read
exactly if it has no other scheme than the plain one, no user information, and is a URI; and the
proxy that is read is the one that is named, unless the host or the port is irregular: then none is
named, and one is read all the same. -/
theorem parse_names (value : String) :
    (∀ fault, parse value = .error fault → ∃ reason, fault = .proxy value reason) ∧
    ((∃ p, parse value = .ok p) ↔
      ("://".toList <:+: Text.trim value.toList → Uri.IsMark ((Text.trim value.toList).take 7)) ∧
      '@' ∉ writtenAuthority value ∧
      ∃ u, Uri.parse ("http://".toList ++ Uri.dropMark (Text.trim value.toList)) = .ok u) ∧
    ∀ p, parse value = .ok p → ReadsName p (writtenAuthority value) := by
  refine ⟨fun fault h => ?_, ?_, fun p h => ?_⟩
  · obtain ⟨reason, -, rfl⟩ := exists_of_mapError_eq_error h
    exact ⟨reason, rfl⟩
  · simp only [parse_eq_ok_iff, read_eq_ok_iff, writtenAuthority]
    constructor
    · rintro ⟨p, hmark, hu, hat, -⟩
      exact ⟨hmark, hat, hu⟩
    · rintro ⟨hmark, hat, hu⟩
      exact ⟨_, hmark, hu, hat, rfl⟩
  · obtain ⟨-, ⟨u, hu⟩, hat, rfl⟩ := read_eq_ok_iff.mp (parse_eq_ok_iff.mp h)
    obtain ⟨-, hne, hparse, -⟩ := (Uri.parse_eq_ok_iff .http).mp hu
    exact ⟨isNamedBy_iff hparse hne hat, fun q hq => hq.eq_ofAuthority hat,
      fun host digits ht hhost hcolon hno =>
        (congrArg ofAuthority ht).trans (ofAuthority_of_noNumber hhost (ht ▸ hat) hcolon hno),
      fun hnamed => parse_authority_iff hnamed hat hparse⟩

/-- A port beyond sixteen bits is read as 80, and the text names no proxy. -/
theorem parse_names_overflow :
    parse "http://proxy.lab:99999/" = .ok ⟨"proxy.lab".toList, 80⟩ ∧
      ∀ q : Proxy, ¬q.IsNamedBy "proxy.lab:99999".toList := by
  have hparse : parse "http://proxy.lab:99999/" = .ok ⟨"proxy.lab".toList, 80⟩ := by decide +kernel
  have hwritten : writtenAuthority "http://proxy.lab:99999/" = "proxy.lab:99999".toList := by
    decide +kernel
  have hreads := (parse_names "http://proxy.lab:99999/").2.2 _ hparse
  rw [hwritten] at hreads
  have hhost : IsHostText "proxy.lab".toList :=
    .name (by decide) (by decide) (by decide) (by decide)
  have hirregular : IsIrregular ("proxy.lab".toList ++ ':' :: "99999".toList) := by
    refine .noPort hhost fun n hn hnumeral => ?_
    have hread : Text.readNat? 65535 "99999".toList = none := by decide
    rw [Text.readNat?_eq_some_iff.mpr ⟨hnumeral, hn⟩] at hread
    cases hread
  refine ⟨hparse, fun q hq => hreads.isNamedBy_iff.mp ?_ hirregular⟩
  rwa [← hreads.eq_of_isNamedBy q hq]

end Proxy

end Telemetry
