import Telemetry.Proofs.Address.Display
import Telemetry.Proofs.Results

/-! The written forms of addresses. A host without brackets and blanks is read from each of its
forms, with the port that is written or the default one; and which texts are read at all is told by
their first character and the number of their colons (`Address.parse_reads`). -/

namespace Telemetry.Address

open Text

/-- A name, or an address of several colons, without brackets and blanks. -/
structure IsHost (host : List Char) : Prop where
  ne_nil : host ≠ []
  plain : ∀ c ∈ host, c ≠ '[' ∧ c ≠ ']' ∧ isBlank c = false
  colons : host.count ':' ≠ 1

/-- The forms in which a host and a port are written: with or without brackets, and the default
port not at all. A host with colons is in brackets where a port follows. -/
inductive Writes (host : List Char) : UInt16 → List Char → Prop
  | bare : Writes host defaultPort host
  | bracketed : Writes host defaultPort ('[' :: host ++ [']'])
  | barePort {port : UInt16} {digits : List Char} : ':' ∉ host → IsNumeral port.toNat digits →
    Writes host port (host ++ ':' :: digits)
  | bracketedPort {port : UInt16} {digits : List Char} : IsNumeral port.toNat digits →
    Writes host port ('[' :: host ++ ']' :: ':' :: digits)

theorem portReads_some_iff {digits : List Char} {port : UInt16} :
    PortReads (some digits) port ↔ IsNumeral port.toNat digits := by
  rw [PortReads, readPort?, readNat?_eq_some_iff]
  exact and_iff_left (Nat.le_of_lt_succ port.toNat_lt)

section Written

variable {host written : List Char} {port : UInt16}

theorem IsHost.not_mem (h : IsHost host) : ']' ∉ host := fun hm => (h.plain _ hm).2.1 rfl

theorem IsHost.head?_ne (h : IsHost host) : host.head? ≠ some '[' :=
  fun hh => (h.plain _ (List.mem_of_head? hh)).1 rfl

/-- Each form is split into its host and its port. -/
theorem Writes.splitsAs (h : IsHost host) (hw : Writes host port written) :
    ∃ digits, SplitsAs written host digits ∧ PortReads digits port := by
  cases hw with
  | bare => exact ⟨none, .plain h.head?_ne h.colons, rfl⟩
  | bracketed => exact ⟨none, .bracketed h.not_mem, rfl⟩
  | barePort hc hd =>
    have hcolon : ':' ∉ _ := fun hm => by rcases hd.mem_cases hm with he | he <;> cases he
    exact ⟨some _, .hostPort h.head?_ne hc hcolon, portReads_some_iff.mpr hd⟩
  | bracketedPort hd => exact ⟨some _, .bracketedPort h.not_mem, portReads_some_iff.mpr hd⟩

/-- Besides the host a form holds brackets, colons, and what numerals are made of. -/
theorem Writes.mem_cases (hw : Writes host port written) {c : Char} (hc : c ∈ written) :
    c ∈ host ∨ c = '[' ∨ c = ']' ∨ c = ':' ∨ c = '+' ∨ c.isDigit = true := by
  cases hw with
  | bare => exact .inl hc
  | bracketed =>
    simp only [List.cons_append, List.mem_cons, List.mem_append, List.not_mem_nil] at hc
    tauto
  | barePort _ hd =>
    rw [List.mem_append, List.mem_cons] at hc
    have hdigits := hd.mem_cases (c := c)
    tauto
  | bracketedPort hd =>
    simp only [List.cons_append, List.mem_cons, List.mem_append] at hc
    have hdigits := hd.mem_cases (c := c)
    tauto

theorem Writes.isBlank_eq_false (h : IsHost host) (hw : Writes host port written) :
    ∀ c ∈ written, isBlank c = false := by
  intro c hc
  rcases hw.mem_cases hc with hc | rfl | rfl | rfl | rfl | hc
  · exact (h.plain c hc).2.2
  · rfl
  · rfl
  · rfl
  · rfl
  · rw [isDigit_iff] at hc
    exact isBlank_of_lt (by omega) (by omega)

end Written

section Split

variable {cs host : List Char} {port : Option (List Char)}

/-- Behind an opening bracket there is the host up to the first closing one, and then nothing or the
port. -/
theorem splitsAs_iff_of_bracket (h : cs.head? = some '[') :
    SplitsAs cs host port ↔ ']' ∉ host ∧ (cs = '[' :: host ++ [']'] ∧ port = none ∨
      ∃ digits, cs = '[' :: host ++ ']' :: ':' :: digits ∧ port = some digits) := by
  constructor
  · intro hs
    cases hs with
    | bracketed hm => exact ⟨hm, .inl ⟨rfl, rfl⟩⟩
    | bracketedPort hm => exact ⟨hm, .inr ⟨_, rfl, rfl⟩⟩
    | plain hhead _ => exact absurd h hhead
    | hostPort hhead _ _ =>
      cases host with
      | nil => cases h
      | cons c host => exact absurd h hhead
  · rintro ⟨hm, ⟨rfl, rfl⟩ | ⟨digits, rfl, rfl⟩⟩
    · exact .bracketed hm
    · exact .bracketedPort hm

/-- Without brackets a single colon divides the host from the port. -/
theorem splitsAs_iff_of_one_colon (h : cs.head? ≠ some '[') (hc : cs.count ':' = 1) :
    SplitsAs cs host port ↔ ∃ digits, cs = host ++ ':' :: digits ∧ port = some digits := by
  constructor
  · intro hs
    cases hs with
    | bracketed _ | bracketedPort _ => exact absurd rfl h
    | plain _ hcount => exact absurd hc hcount
    | hostPort _ _ _ => exact ⟨_, rfl, rfl⟩
  · rintro ⟨digits, rfl, rfl⟩
    rw [List.count_append, List.count_cons_self] at hc
    refine .hostPort (fun hh => h ?_) ?_ ?_
    · rw [List.head?_append, hh]
      rfl
    · exact List.count_eq_zero.mp (by omega)
    · exact List.count_eq_zero.mp (by omega)

/-- Any other text is all host. -/
theorem splitsAs_iff_of_plain (h : cs.head? ≠ some '[') (hc : cs.count ':' ≠ 1) :
    SplitsAs cs host port ↔ cs = host ∧ port = none := by
  constructor
  · intro hs
    cases hs with
    | bracketed _ | bracketedPort _ => exact absurd rfl h
    | plain _ _ => exact ⟨rfl, rfl⟩
    | hostPort _ hh hp =>
      rw [List.count_append, List.count_cons_self, List.count_eq_zero.mpr hh,
        List.count_eq_zero.mpr hp] at hc
      exact absurd rfl hc
  · rintro ⟨rfl, rfl⟩
    exact .plain h hc

end Split

theorem eq_address_of_parse_error {text : String} {f : ConfigFault} (h : parse text = .error f) :
    ∃ reason, f = .address text reason := by
  obtain ⟨reason, -, rfl⟩ := exists_of_mapError_eq_error h
  exact ⟨reason, rfl⟩

/-- What a text is read as. `cs` is the text without the blanks around it. -/
structure Reads (text : String) (cs : List Char) : Prop where
  /-- A host in one of its forms, with blanks around it or without. -/
  written : ∀ before host port written after, text.toList = before ++ written ++ after →
    (∀ c ∈ before, isBlank c = true) → (∀ c ∈ after, isBlank c = true) →
    IsHost host → Writes host port written → parse text = .ok ⟨String.ofList host, port⟩
  bracketed : cs.head? = some '[' → ∀ a : Address, parse text = .ok a ↔
    a.host.toList ≠ [] ∧ ']' ∉ a.host.toList ∧ ∃ rest, cs = '[' :: a.host.toList ++ ']' :: rest ∧
      (rest = [] ∧ a.port = defaultPort ∨
        ∃ digits, rest = ':' :: digits ∧ IsNumeral a.port.toNat digits)
  oneColon : cs.head? ≠ some '[' → cs.count ':' = 1 → ∀ a : Address, parse text = .ok a ↔
    a.host.toList ≠ [] ∧
      ∃ digits, cs = a.host.toList ++ ':' :: digits ∧ IsNumeral a.port.toNat digits
  plain : cs.head? ≠ some '[' → cs.count ':' ≠ 1 → ∀ a : Address, parse text = .ok a ↔
    cs ≠ [] ∧ a = ⟨String.ofList cs, defaultPort⟩
  /-- No form goes without a host. -/
  noHost : ∀ rest, cs = [] ∨ cs = '[' :: ']' :: rest ∨ cs = ':' :: rest ∧ ':' ∉ rest →
    ∀ a, parse text ≠ .ok a
  fault : ∀ f, parse text = .error f → ∃ reason, f = .address text reason

section Parse

variable {text : String} {a : Address}

theorem parse_of_writes {before host written after : List Char} {port : UInt16}
    (ht : text.toList = before ++ written ++ after) (hb : ∀ c ∈ before, isBlank c = true)
    (ha : ∀ c ∈ after, isBlank c = true) (h : IsHost host) (hw : Writes host port written) :
    parse text = .ok ⟨String.ofList host, port⟩ := by
  obtain ⟨digits, hs, hp⟩ := hw.splitsAs h
  rw [parse_eq_ok_iff, ht, trim_padded hb ha (hw.isBlank_eq_false h), String.toList_ofList]
  exact ⟨h.ne_nil, digits, hs, hp⟩

theorem parse_iff_of_bracket (h : (trim text.toList).head? = some '[') :
    parse text = .ok a ↔ a.host.toList ≠ [] ∧ ']' ∉ a.host.toList ∧
      ∃ rest, trim text.toList = '[' :: a.host.toList ++ ']' :: rest ∧
        (rest = [] ∧ a.port = defaultPort ∨
          ∃ digits, rest = ':' :: digits ∧ IsNumeral a.port.toNat digits) := by
  rw [parse_eq_ok_iff]
  refine and_congr_right fun _ => ?_
  constructor
  · rintro ⟨port, hs, hp⟩
    obtain ⟨hm, ⟨hcs, rfl⟩ | ⟨digits, hcs, rfl⟩⟩ := (splitsAs_iff_of_bracket h).mp hs
    · exact ⟨hm, [], hcs, .inl ⟨rfl, hp⟩⟩
    · exact ⟨hm, ':' :: digits, hcs, .inr ⟨digits, rfl, portReads_some_iff.mp hp⟩⟩
  · rintro ⟨hm, rest, hcs, ⟨rfl, hp⟩ | ⟨digits, rfl, hd⟩⟩
    · exact ⟨none, (splitsAs_iff_of_bracket h).mpr ⟨hm, .inl ⟨hcs, rfl⟩⟩, hp⟩
    · exact ⟨some digits, (splitsAs_iff_of_bracket h).mpr ⟨hm, .inr ⟨digits, hcs, rfl⟩⟩,
        portReads_some_iff.mpr hd⟩

theorem parse_iff_of_one_colon (h : (trim text.toList).head? ≠ some '[')
    (hc : (trim text.toList).count ':' = 1) :
    parse text = .ok a ↔ a.host.toList ≠ [] ∧
      ∃ digits, trim text.toList = a.host.toList ++ ':' :: digits ∧
        IsNumeral a.port.toNat digits := by
  rw [parse_eq_ok_iff]
  refine and_congr_right fun _ => ?_
  constructor
  · rintro ⟨port, hs, hp⟩
    obtain ⟨digits, hcs, rfl⟩ := (splitsAs_iff_of_one_colon h hc).mp hs
    exact ⟨digits, hcs, portReads_some_iff.mp hp⟩
  · rintro ⟨digits, hcs, hd⟩
    exact ⟨some digits, (splitsAs_iff_of_one_colon h hc).mpr ⟨digits, hcs, rfl⟩,
      portReads_some_iff.mpr hd⟩

theorem parse_iff_of_plain (h : (trim text.toList).head? ≠ some '[')
    (hc : (trim text.toList).count ':' ≠ 1) :
    parse text = .ok a ↔
      trim text.toList ≠ [] ∧ a = ⟨String.ofList (trim text.toList), defaultPort⟩ := by
  obtain ⟨host, port⟩ := a
  rw [parse_eq_ok_iff, mk.injEq]
  constructor
  · rintro ⟨hne, digits, hs, hp⟩
    obtain ⟨hcs, rfl⟩ := (splitsAs_iff_of_plain h hc).mp hs
    rw [hcs, String.ofList_toList]
    exact ⟨hne, rfl, hp⟩
  · rintro ⟨hne, rfl, rfl⟩
    rw [String.toList_ofList]
    exact ⟨hne, none, (splitsAs_iff_of_plain h hc).mpr ⟨rfl, rfl⟩, rfl⟩

/-- Where the host would be there is nothing. -/
theorem parse_ne_ok_of_no_host {rest : List Char}
    (h : trim text.toList = [] ∨ trim text.toList = '[' :: ']' :: rest ∨
      trim text.toList = ':' :: rest ∧ ':' ∉ rest) : parse text ≠ .ok a := by
  intro hp
  rcases h with h | h | ⟨h, hrest⟩
  · have hhead : (trim text.toList).head? ≠ some '[' := by simp [h]
    have hcount : (trim text.toList).count ':' ≠ 1 := by simp [h]
    exact ((parse_iff_of_plain hhead hcount).mp hp).1 h
  · have hhead : (trim text.toList).head? = some '[' := by rw [h]; rfl
    obtain ⟨hne, hm, rest', hcs, -⟩ := (parse_iff_of_bracket hhead).mp hp
    obtain ⟨c, host, hhost⟩ := List.exists_cons_of_ne_nil hne
    rw [h, hhost] at hcs
    injection hcs with _ hcs
    injection hcs with hc _
    rw [hhost, ← hc] at hm
    exact hm List.mem_cons_self
  · have hhead : (trim text.toList).head? ≠ some '[' := by simp [h]
    have hcount : (trim text.toList).count ':' = 1 := by
      rw [h, List.count_cons_self, List.count_eq_zero.mpr hrest]
    obtain ⟨hne, digits, hcs, hd⟩ := (parse_iff_of_one_colon hhead hcount).mp hp
    obtain ⟨c, host, hhost⟩ := List.exists_cons_of_ne_nil hne
    rw [h, hhost] at hcs
    injection hcs with _ hcs
    rw [hcs] at hrest
    exact hrest (List.mem_append_right _ List.mem_cons_self)

end Parse

/-- **Every form of an address denotes what it says.** A host in any of its forms is read as that
host with the port that is written, or with the default one. A text in brackets is read only if
nothing or a colon and a port follows the first closing bracket, a text with a single colon only if
a port follows the colon, none without a host; and a fault names the text as it was given. -/
theorem parse_reads (text : String) : Reads text (trim text.toList) where
  written _ _ _ _ _ ht hb ha h hw := parse_of_writes ht hb ha h hw
  bracketed h _ := parse_iff_of_bracket h
  oneColon h hc _ := parse_iff_of_one_colon h hc
  plain h hc _ := parse_iff_of_plain h hc
  noHost _ h _ := parse_ne_ok_of_no_host h
  fault _ h := eq_address_of_parse_error h

/-- An IPv6 address in brackets, with a port and between blanks. -/
theorem parse_reads_padded :
    let host := "2001:db8::1".toList
    let written := '[' :: host ++ ']' :: ':' :: decimal 830
    IsHost host ∧ Writes host 830 written ∧
      "\t[2001:db8::1]:830 ".toList = ['\t'] ++ written ++ [' '] ∧
      parse "\t[2001:db8::1]:830 " = .ok ⟨"2001:db8::1", 830⟩ := by
  intro host written
  have hplain : host.all (fun c => c ≠ '[' && c ≠ ']' && !isBlank c) = true := by decide +kernel
  have h : IsHost host := ⟨by decide, by simpa [and_assoc] using hplain, by decide⟩
  have hw : Writes host 830 written := .bracketedPort (isNumeral_decimal 830)
  have ht : "\t[2001:db8::1]:830 ".toList = ['\t'] ++ written ++ [' '] := by decide +kernel
  have htab : ∀ c ∈ ['\t'], isBlank c = true := by simp; rfl
  have hspace : ∀ c ∈ [' '], isBlank c = true := by simp; rfl
  have hread := (parse_reads _).written ['\t'] host 830 written [' '] ht htab hspace h hw
  rw [String.ofList_toList] at hread
  exact ⟨h, hw, ht, hread⟩

end Telemetry.Address
