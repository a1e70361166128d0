import Mathlib
import Telemetry.Proofs.Net.HostSpelling
import Telemetry.Proxy.Exclusions

/-! The entries of a list of exclusions as they are written, with a port or without one, and what
each of them is read as (`Exclusion.ofList_listChars`). -/

namespace Telemetry.Exclusion

/-- An entry as it is written. -/
inductive Entry
  | blank
  | domain (dotted : Bool) (name : DomainName) (port : Option UInt16)
  | v4 (address : Ip.V4Text) (port : Option UInt16)
  | v6 (address : Ip.V6Text)
  | bracketed (address : Ip.V6Text) (port : Option UInt16)
  | v4Range (base : Ip.V4Text) (length : Fin 33) (port : Option UInt16)
  | v6Range (base : Ip.V6Text) (length : Fin 129)

namespace Entry

def portChars : Option UInt16 → List Char
  | none => []
  | some port => ':' :: Text.decimal port.toNat

def domainChars (dotted : Bool) (name : DomainName) : List Char :=
  if dotted then '.' :: name.chars else name.chars

def rangeChars (base : List Char) (length : Nat) : List Char := base ++ '/' :: Text.decimal length

def chars : Entry → List Char
  | .blank => []
  | .domain dotted name port => domainChars dotted name ++ portChars port
  | .v4 t port => t.chars ++ portChars port
  | .v6 t => t.chars
  | .bracketed t port => '[' :: t.chars ++ ']' :: portChars port
  | .v4Range base length port => rangeChars base.chars length ++ portChars port
  | .v6Range base length => rangeChars base.chars length

/-- The entry without its port and its brackets. -/
def bareChars : Entry → List Char
  | .blank => []
  | .domain dotted name _ => domainChars dotted name
  | .v4 t _ => t.chars
  | .v6 t => t.chars
  | .bracketed t _ => t.chars
  | .v4Range base length _ => rangeChars base.chars length
  | .v6Range base length => rangeChars base.chars length

/-- What the entry is read as, if it is not blank. -/
def exclusion? : Entry → Option Exclusion
  | .blank => none
  | .domain dotted name _ => some (.domain (domainChars dotted name))
  | .v4 t _ => some (.address (.v4 t.value))
  | .v6 t => some (.address (.v6 t.value))
  | .bracketed t _ => some (.address (.v6 t.value))
  | .v4Range base length _ => some (.network (.v4 base.value length))
  | .v6Range base length => some (.network (.v6 base.value length))

theorem domainChars_ne_nil (dotted : Bool) (name : DomainName) : domainChars dotted name ≠ [] := by
  cases dotted with
  | true => exact List.cons_ne_nil _ _
  | false => exact name.chars_ne_nil

theorem isHostChar_of_mem_domainChars {dotted : Bool} {name : DomainName} :
    ∀ c ∈ domainChars dotted name, isHostChar c = true := by
  cases dotted with
  | true => exact List.forall_mem_cons.mpr ⟨by decide, fun c => name.isHostChar_of_mem⟩
  | false => exact fun c => name.isHostChar_of_mem

end Entry

/-- An entry with blanks around it. -/
structure Listed where
  before : List Char
  entry : Entry
  after : List Char
  isBlank_before : before.all Text.isBlank = true
  isBlank_after : after.all Text.isBlank = true

def Listed.chars (l : Listed) : List Char := l.before ++ l.entry.chars ++ l.after

/-- Entries with commas between them. -/
def listChars (list : List Listed) : List Char := [','].intercalate (list.map Listed.chars)

section WithoutPort

variable {text : List Char}

theorem withoutPort_of_head (hhead : text.head? ≠ some '[') :
    withoutPort text = match Text.splitLast ':' text with
      | some (host, port) =>
        if !host.contains ':' && (Text.readPort? port).isSome then host else text
      | none => text := by
  unfold withoutPort
  split
  · exact absurd rfl hhead
  · rfl

/-- A text with several colons has no port. -/
theorem withoutPort_of_colons (hhead : text.head? ≠ some '[') (h : 2 ≤ text.count ':') :
    withoutPort text = text := by
  rw [withoutPort_of_head hhead]
  cases hsplit : Text.splitLast ':' text with
  | none => rfl
  | some p =>
    obtain ⟨heq, hport⟩ := Text.splitLast_eq_some_iff.mp hsplit
    have hcount : 0 < p.1.count ':' := by
      rw [heq, List.count_append, List.count_cons_self, List.count_eq_zero.mpr hport] at h
      omega
    have hcolon : p.1.contains ':' = true :=
      List.contains_iff_mem.mpr (List.count_pos_iff.mp hcount)
    simp only [hcolon, Bool.not_true, Bool.false_and]
    rfl

/-- The port of a text without colons is left out. -/
theorem withoutPort_append (hhead : text.head? ≠ some '[') (hne : text ≠ []) (h : ':' ∉ text)
    (port : Option UInt16) : withoutPort (text ++ Entry.portChars port) = text := by
  rw [withoutPort_of_head (by rwa [List.head?_append_of_ne_nil _ hne])]
  cases port with
  | none => rw [Entry.portChars, List.append_nil, Text.splitLast_eq_none_iff.mpr h]
  | some port =>
    have hdigits : ':' ∉ Text.decimal port.toNat := Text.not_mem_decimal rfl
    have hcolon : text.contains ':' = false := by rwa [← Bool.not_eq_true, List.contains_iff_mem]
    have hread : Text.readPort? (Text.decimal port.toNat) = some port.toNat :=
      Text.readNat?_decimal (Nat.le_of_lt_succ port.toNat_lt)
    rw [Entry.portChars, Text.splitLast_eq_some_iff.mpr ⟨rfl, hdigits⟩]
    simp only [hcolon, hread, Option.isSome_some, Bool.not_false, Bool.and_true, if_true]

theorem withoutPort_brackets (h : ']' ∉ text) (rest : List Char) :
    withoutPort ('[' :: text ++ ']' :: rest) = text := by
  have hsplit : Text.splitFirst ']' (text ++ ']' :: rest) = some (text, rest) :=
    Text.splitFirst_eq_some_iff.mpr ⟨rfl, h⟩
  simp only [withoutPort, List.cons_append, hsplit]
  rfl

end WithoutPort

theorem classify_domain (dotted : Bool) (name : DomainName) :
    classify (Entry.domainChars dotted name) = .domain (Entry.domainChars dotted name) := by
  have hoctets (t : Ip.V4Text) : t.chars ≠ Entry.domainChars dotted name := by
    cases dotted with
    | true =>
      intro h
      exact t.head?_ne (c := '.') rfl (by rw [h]; rfl)
    | false => exact name.ne_octets t
  have hhost : ∀ c ∈ Entry.domainChars dotted name, isHostChar c = true :=
    Entry.isHostChar_of_mem_domainChars
  rw [classify, IpNetwork.parse?_eq_none (not_mem_of_isHostChar hhost rfl),
    IpAddress.parse?_eq_none (not_mem_of_isHostChar hhost rfl) hoctets]

theorem classify_v4 (t : Ip.V4Text) : classify t.chars = .address (.v4 t.value) := by
  have hslash : '/' ∉ t.chars := not_mem_of_isHostChar (fun c => t.isHostChar_of_mem) rfl
  rw [classify, IpNetwork.parse?_eq_none hslash, IpAddress.parse?_v4]

theorem classify_v6 (t : Ip.V6Text) : classify t.chars = .address (.v6 t.value) := by
  rw [classify, IpNetwork.parse?_eq_none (t.not_mem rfl (by decide)), IpAddress.parse?_v6]

theorem classify_v4Range (t : Ip.V4Text) (length : Fin 33) :
    classify (Entry.rangeChars t.chars length) = .network (.v4 t.value length) := by
  rw [classify, Entry.rangeChars, IpNetwork.parse?_v4 t (Nat.le_of_lt_succ length.isLt)]

theorem classify_v6Range (t : Ip.V6Text) (length : Fin 129) :
    classify (Entry.rangeChars t.chars length) = .network (.v6 t.value length) := by
  rw [classify, Entry.rangeChars, IpNetwork.parse?_v6 t (Nat.le_of_lt_succ length.isLt)]

namespace Entry

theorem withoutPort_chars (e : Entry) : withoutPort e.chars = e.bareChars := by
  have hv6 (t : Ip.V6Text) (rest : List Char) :
      withoutPort (t.chars ++ rest) = t.chars ++ rest := by
    refine withoutPort_of_colons ?_ ?_
    · rw [List.head?_append_of_ne_nil _ t.chars_ne_nil]
      exact fun hm => t.not_mem (x := '[') rfl (by decide) (List.mem_of_head? hm)
    · rw [List.count_append]
      exact Nat.le_add_right_of_le t.two_le_count_colon
  cases e with
  | blank => rfl
  | domain dotted name port =>
    exact withoutPort_append (head?_ne_of_isHostChar isHostChar_of_mem_domainChars rfl)
      (domainChars_ne_nil dotted name)
      (not_mem_of_isHostChar isHostChar_of_mem_domainChars rfl) port
  | v4 t port =>
    exact withoutPort_append (head?_ne_of_isHostChar (fun c => t.isHostChar_of_mem) rfl)
      t.chars_ne_nil
      (not_mem_of_isHostChar (fun c => t.isHostChar_of_mem) rfl) port
  | v6 t => simpa [chars, bareChars] using hv6 t []
  | bracketed t port => exact withoutPort_brackets (t.not_mem rfl (by decide)) _
  | v4Range t length port =>
    refine withoutPort_append ?_ (List.append_ne_nil_of_left_ne_nil t.chars_ne_nil _) ?_ port
    · rw [List.head?_append_of_ne_nil _ t.chars_ne_nil]
      exact head?_ne_of_isHostChar (fun c => t.isHostChar_of_mem) rfl
    · rw [List.mem_append, List.mem_cons, not_or, not_or]
      exact ⟨not_mem_of_isHostChar (fun c => t.isHostChar_of_mem) rfl, by decide,
        Text.not_mem_decimal rfl⟩
  | v6Range t length => exact hv6 t _

/-- A character of an entry. -/
def IsEntryChar (c : Char) : Prop :=
  isHostChar c = true ∨ c = ':' ∨ c = '[' ∨ c = ']' ∨ c = '/'

theorem isEntryChar_of_mem {e : Entry} {c : Char} (h : c ∈ e.chars) : IsEntryChar c := by
  have hdecimal {n : Nat} (h : c ∈ Text.decimal n) : IsEntryChar c :=
    .inl (isHostChar_of_isDigit (Text.isDigit_of_mem_decimal h))
  have hport {port : Option UInt16} (h : c ∈ portChars port) : IsEntryChar c := by
    cases port with
    | none => cases h
    | some port => exact (List.mem_cons.mp h).elim (.inr ∘ .inl) hdecimal
  have hv4 {t : Ip.V4Text} (h : c ∈ t.chars) : IsEntryChar c := .inl (t.isHostChar_of_mem h)
  have hv6 {t : Ip.V6Text} (h : c ∈ t.chars) : IsEntryChar c :=
    ((Host.v6 t).isHostChar_of_mem h).imp_right .inl
  have hslash (h : c = '/') : IsEntryChar c := .inr (.inr (.inr (.inr h)))
  cases e with
  | blank => cases h
  | domain dotted name port =>
    exact (List.mem_append.mp h).elim (fun h => .inl (isHostChar_of_mem_domainChars c h)) hport
  | v4 t port => exact (List.mem_append.mp h).elim hv4 hport
  | v6 t => exact hv6 h
  | bracketed t port =>
    simp only [chars, List.mem_append, List.mem_cons] at h
    rcases h with (h | h) | h | h
    · exact .inr (.inr (.inl h))
    · exact hv6 h
    · exact .inr (.inr (.inr (.inl h)))
    · exact hport h
  | v4Range t length port =>
    simp only [chars, rangeChars, List.mem_append, List.mem_cons] at h
    rcases h with (h | h | h) | h
    · exact hv4 h
    · exact hslash h
    · exact hdecimal h
    · exact hport h
  | v6Range t length =>
    simp only [chars, rangeChars, List.mem_append, List.mem_cons] at h
    rcases h with h | h | h
    · exact hv6 h
    · exact hslash h
    · exact hdecimal h

theorem bareChars_subset (e : Entry) : e.bareChars ⊆ e.chars := by
  cases e with
  | blank | v6 t | v6Range t length => exact List.Subset.refl _
  | domain dotted name port => exact List.subset_append_left ..
  | v4 t port => exact List.subset_append_left ..
  | v4Range t length port => exact List.subset_append_left ..
  | bracketed t port =>
    exact fun c hc => List.mem_append_left _ (List.mem_cons_of_mem _ hc)

end Entry

theorem isBlank_of_isEntryChar {c : Char} (h : Entry.IsEntryChar c) :
    Text.isBlank c = false ∧ c ≠ ',' := by
  rcases h with h | rfl | rfl | rfl | rfl
  · refine ⟨?_, ne_of_isHostChar h rfl⟩
    rw [isHostChar_iff] at h
    exact Text.isBlank_of_lt (by omega) (by omega)
  all_goals decide

/-- What an entry is read as, with any blanks around it. -/
theorem ofEntry?_chars (l : Listed) : ofEntry? l.chars = l.entry.exclusion? := by
  have hblank {c : Char} (h : c ∈ l.entry.chars) : Text.isBlank c = false :=
    (isBlank_of_isEntryChar (Entry.isEntryChar_of_mem h)).1
  have htrim : Text.trim l.chars = l.entry.chars :=
    Text.trim_padded (List.all_eq_true.mp l.isBlank_before) (List.all_eq_true.mp l.isBlank_after)
      fun c => hblank
  have hbare : Text.trim l.entry.bareChars = l.entry.bareChars :=
    Text.trim_eq_self fun c hc => hblank (l.entry.bareChars_subset hc)
  have hsome {cs : List Char} (h : cs ≠ []) : (if cs.isEmpty then none else some (classify cs)) =
      some (classify cs) := if_neg (by simpa using h)
  simp only [htrim, ofEntry?, Entry.withoutPort_chars, hbare]
  cases l.entry with
  | blank => rfl
  | domain dotted name port =>
    exact (hsome (Entry.domainChars_ne_nil dotted name)).trans
      (congrArg some (classify_domain dotted name))
  | v4 t port => exact (hsome t.chars_ne_nil).trans (congrArg some (classify_v4 t))
  | v6 t => exact (hsome t.chars_ne_nil).trans (congrArg some (classify_v6 t))
  | bracketed t port => exact (hsome t.chars_ne_nil).trans (congrArg some (classify_v6 t))
  | v4Range t length port =>
    exact (hsome (List.append_ne_nil_of_left_ne_nil t.chars_ne_nil _)).trans
      (congrArg some (classify_v4Range t length))
  | v6Range t length =>
    exact (hsome (List.append_ne_nil_of_left_ne_nil t.chars_ne_nil _)).trans
      (congrArg some (classify_v6Range t length))

/-- A list is read entry by entry, between its commas. -/
theorem ofList_intercalate {entries : List (List Char)} (h : ∀ e ∈ entries, ',' ∉ e)
    (hne : entries ≠ []) : ofList ([','].intercalate entries) = entries.filterMap ofEntry? := by
  rw [ofList, Text.fieldsAt, ← List.splitOn_eq_splitOnP, List.splitOn_intercalate ',' h hne]

theorem ofList_listChars (list : List Listed) :
    ofList (listChars list) = list.filterMap fun l => l.entry.exclusion? := by
  have hcomma : ∀ cs ∈ list.map Listed.chars, ',' ∉ cs := by
    simp only [List.mem_map, forall_exists_index, and_imp, forall_apply_eq_imp_iff₂]
    intro l hl hm
    rw [Listed.chars, List.mem_append, List.mem_append] at hm
    rcases hm with (hm | hm) | hm
    · exact absurd (List.all_eq_true.mp l.isBlank_before _ hm) (by decide)
    · exact (isBlank_of_isEntryChar (Entry.isEntryChar_of_mem hm)).2 rfl
    · exact absurd (List.all_eq_true.mp l.isBlank_after _ hm) (by decide)
  cases list with
  | nil => rfl
  | cons l list =>
    rw [listChars, ofList_intercalate hcomma (List.cons_ne_nil _ _), List.filterMap_map]
    exact List.filterMap_congr fun l _ => ofEntry?_chars l

end Telemetry.Exclusion
