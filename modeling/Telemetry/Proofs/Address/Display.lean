import Telemetry.Address
import Telemetry.Proofs.Text.Digits
import Telemetry.Proofs.Text.Parts

/-! Addresses as they are written and as they are displayed. What a text is read as is told by its
form (`Address.parse_eq_ok_iff`), and a displayed address is read as the same address exactly if
nothing in the host is taken for a mark of the display (`Address.parse_display_iff`). -/

namespace Telemetry.Address

open Text

/-- The forms of an address: its host, and the text of its port if there is one. -/
inductive SplitsAs : List Char → List Char → Option (List Char) → Prop
  | bracketed {host : List Char} : ']' ∉ host → SplitsAs ('[' :: host ++ [']']) host none
  | bracketedPort {host port : List Char} : ']' ∉ host →
    SplitsAs ('[' :: host ++ ']' :: ':' :: port) host (some port)
  /-- A name, or an address of several colons. -/
  | plain {host : List Char} : host.head? ≠ some '[' → host.count ':' ≠ 1 →
    SplitsAs host host none
  | hostPort {host port : List Char} : host.head? ≠ some '[' → ':' ∉ host → ':' ∉ port →
    SplitsAs (host ++ ':' :: port) host (some port)

theorem splitsAs_of_split {cs host : List Char} {port : Option (List Char)}
    (h : split cs = .ok (host, port)) : SplitsAs cs host port := by
  unfold split at h
  split at h
  · split at h
    · cases h
    · rename_i hs
      cases h
      obtain ⟨rfl, hm⟩ := splitFirst_eq_some_iff.mp hs
      exact .bracketed hm
    · rename_i hs
      cases h
      obtain ⟨rfl, hm⟩ := splitFirst_eq_some_iff.mp hs
      exact .bracketedPort hm
    · cases h
  · rename_i hne
    have hhead : cs.head? ≠ some '[' := by
      intro hh
      obtain ⟨rest, rfl⟩ := List.head?_eq_some_iff.mp hh
      exact hne rest rfl
    split at h
    · cases h
      exact .plain hhead (by omega)
    · rename_i hcount
      split at h
      · rename_i hs
        cases h
        obtain ⟨rfl, hm⟩ := splitFirst_eq_some_iff.mp hs
        rw [List.count_append, List.count_cons_self, List.count_eq_zero.mpr hm] at hcount
        refine .hostPort (fun hh => hhead ?_) hm (List.count_eq_zero.mp (by omega))
        rw [List.head?_append, hh]
        rfl
      · rename_i hs
        cases h
        refine .plain hhead ?_
        rw [List.count_eq_zero.mpr (splitFirst_eq_none_iff.mp hs)]
        decide

theorem SplitsAs.split {cs host : List Char} {port : Option (List Char)}
    (h : SplitsAs cs host port) : Address.split cs = .ok (host, port) := by
  have hplain {cs : List Char} (hhead : cs.head? ≠ some '[') : ∀ rest, cs = '[' :: rest → False := by
    rintro rest rfl
    exact hhead rfl
  cases h with
  | bracketed hm =>
    simp only [Address.split, List.cons_append, splitFirst_eq_some_iff.mpr ⟨rfl, hm⟩]
  | bracketedPort hm =>
    simp only [Address.split, List.cons_append, splitFirst_eq_some_iff.mpr ⟨rfl, hm⟩]
  | plain hhead hcount =>
    rw [Address.split]
    · split
      · rfl
      · rw [splitFirst_eq_none_iff.mpr (List.count_eq_zero.mp (by omega))]
    · exact hplain hhead
  | @hostPort host port hhead hh hp =>
    have hcount : (host ++ ':' :: port).count ':' = 1 := by
      rw [List.count_append, List.count_cons_self, List.count_eq_zero.mpr hh,
        List.count_eq_zero.mpr hp]
    rw [Address.split, hcount, if_neg (by decide), splitFirst_eq_some_iff.mpr ⟨rfl, hh⟩]
    refine hplain fun h => hhead ?_
    cases host with
    | nil => cases h
    | cons c host => exact h

/-- The text of a port, or none, stands for a port. -/
def PortReads : Option (List Char) → UInt16 → Prop
  | none, port => port = defaultPort
  | some digits, port => readPort? digits = some port.toNat

theorem SplitsAs.ne_nil {cs host : List Char} {port : Option (List Char)}
    (h : SplitsAs cs host port) (hne : host ≠ []) : cs ≠ [] := by
  cases h with
  | plain _ _ => exact hne
  | hostPort _ _ _ => exact List.append_ne_nil_of_left_ne_nil hne _
  | _ => exact List.cons_ne_nil _ _

theorem read_of_splitsAs {cs host : List Char} {port : Option (List Char)} {n : UInt16}
    (h : SplitsAs cs host port) (hne : host ≠ []) (hp : PortReads port n) :
    read cs = .ok ⟨String.ofList host, n⟩ := by
  rw [read, if_neg (by simpa using h.ne_nil hne), h.split]
  simp only [bind, Except.bind]
  rw [if_neg (by simpa using hne)]
  cases port with
  | none =>
    rw [show n = defaultPort from hp]
    rfl
  | some digits =>
    simp only [show readPort? digits = some n.toNat from hp, UInt16.ofNat_toNat]
    rfl

theorem splitsAs_of_read {cs : List Char} {a : Address} (h : read cs = .ok a) :
    a.host.toList ≠ [] ∧ ∃ port, SplitsAs cs a.host.toList port ∧ PortReads port a.port := by
  rw [read] at h
  split at h
  · cases h
  · cases hs : Address.split cs with
    | error fault =>
      rw [hs] at h
      cases h
    | ok parts =>
      obtain ⟨host, port⟩ := parts
      rw [hs] at h
      simp only [bind, Except.bind] at h
      split at h
      · cases h
      · rename_i hne
        have hsplits := splitsAs_of_split hs
        cases port with
        | none =>
          cases h
          rw [String.toList_ofList]
          exact ⟨by simpa using hne, none, hsplits, rfl⟩
        | some digits =>
          dsimp only at h
          split at h
          · cases h
          · rename_i n hn
            cases h
            rw [String.toList_ofList]
            refine ⟨by simpa using hne, some digits, hsplits, ?_⟩
            have hle : n ≤ 65535 := le_of_readNat? hn
            rw [PortReads, hn, UInt16.toNat_ofNat', Nat.mod_eq_of_lt (by omega)]

/-- When a text without blanks around it is read as an address. -/
theorem read_eq_ok_iff {cs : List Char} {a : Address} : read cs = .ok a ↔
    a.host.toList ≠ [] ∧ ∃ port, SplitsAs cs a.host.toList port ∧ PortReads port a.port := by
  constructor
  · exact splitsAs_of_read
  · rintro ⟨hne, port, hs, hp⟩
    rw [read_of_splitsAs hs hne hp, String.ofList_toList]

/-- What a text is read as. -/
theorem parse_eq_ok_iff {text : String} {a : Address} : parse text = .ok a ↔
    a.host.toList ≠ [] ∧
      ∃ port, SplitsAs (trim text.toList) a.host.toList port ∧ PortReads port a.port := by
  rw [← read_eq_ok_iff, parse]
  cases read (trim text.toList) <;> simp [Except.mapError]

namespace SplitsAs

variable {cs host : List Char} {port : Option (List Char)} (h : SplitsAs cs host port)

include h

/-- A text with an opening bracket in front has its host in brackets. -/
theorem brackets_of_head (hh : cs.head? = some '[') : ']' ∈ cs ∧ ']' ∉ host := by
  cases h with
  | bracketed hm => exact ⟨by simp, hm⟩
  | bracketedPort hm => exact ⟨by simp, hm⟩
  | plain hhead _ => exact absurd hh hhead
  | hostPort hhead _ _ =>
    cases host with
    | nil => cases hh
    | cons c host => exact absurd hh hhead

/-- Another text starts with its host. -/
theorem head?_eq (hh : cs.head? ≠ some '[') (hne : host ≠ []) : cs.head? = host.head? := by
  cases h with
  | bracketed _ | bracketedPort _ => exact absurd rfl hh
  | plain _ _ => rfl
  | hostPort _ _ _ => exact List.head?_append_of_ne_nil _ hne

end SplitsAs

/-- A host that starts with an opening bracket was read from brackets. -/
theorem not_mem_of_parse {text : String} {a : Address} (h : parse text = .ok a)
    (hh : a.host.toList.head? = some '[') : ']' ∉ a.host.toList := by
  obtain ⟨hne, port, hs, -⟩ := parse_eq_ok_iff.mp h
  by_cases hcs : (trim text.toList).head? = some '['
  · exact (hs.brackets_of_head hcs).2
  · rw [← hs.head?_eq hcs hne] at hh
    exact absurd hh hcs

section Display

variable {a : Address} {c : Char}

theorem displayChars_of_mem (h : ':' ∈ a.host.toList) : a.displayChars =
    '[' :: a.host.toList ++ ']' :: ':' :: decimal a.port.toNat := by
  rw [displayChars, if_pos (List.contains_iff_mem.mpr h)]

theorem displayChars_of_not_mem (h : ':' ∉ a.host.toList) :
    a.displayChars = a.host.toList ++ ':' :: decimal a.port.toNat := by
  rw [displayChars, if_neg (mt List.contains_iff_mem.mp h)]

/-- Besides the host a display holds digits, a colon, and perhaps brackets. -/
theorem mem_displayChars (h : c ∈ a.displayChars) :
    c ∈ a.host.toList ∨ c.isDigit = true ∨ c = ':' ∨ c = '[' ∨ c = ']' := by
  have hport : c ∈ decimal a.port.toNat → c.isDigit = true := isDigit_of_mem_decimal
  by_cases hm : ':' ∈ a.host.toList
  · rw [displayChars_of_mem hm] at h
    simp only [List.cons_append, List.mem_cons, List.mem_append] at h
    tauto
  · rw [displayChars_of_not_mem hm, List.mem_append, List.mem_cons] at h
    tauto

theorem readPort?_decimal (port : UInt16) : readPort? (decimal port.toNat) = some port.toNat :=
  readNat?_decimal (Nat.le_of_lt_succ port.toNat_lt)

theorem displayChars_ends (a : Address) :
    ∃ before, a.displayChars = before ++ ':' :: decimal a.port.toNat := by
  by_cases hm : ':' ∈ a.host.toList
  · exact ⟨'[' :: a.host.toList ++ [']'], by simp [displayChars_of_mem hm]⟩
  · exact ⟨a.host.toList, displayChars_of_not_mem hm⟩

/-- The display ends in a digit, so that only its beginning can be trimmed. -/
theorem trim_displayChars (h : ∀ c, a.displayChars.head? = some c → isBlank c = false) :
    trim a.displayChars = a.displayChars := by
  obtain ⟨before, hb⟩ := a.displayChars_ends
  refine trim_of_ends h fun c hc => ?_
  rw [hb, List.append_cons, List.getLast?_append_of_ne_nil _ (decimal_ne_nil _)] at hc
  have hdigit := isDigit_iff.mp (isDigit_of_mem_decimal (List.mem_of_getLast? hc))
  exact isBlank_of_lt (by omega) (by omega)

/-- Where the host is displayed in brackets it holds no closing one, and where it is not it starts
with neither an opening bracket nor a blank. -/
def HasPlainHost (a : Address) : Prop :=
  if ':' ∈ a.host.toList then ']' ∉ a.host.toList
  else ∀ c, a.host.toList.head? = some c → c ≠ '[' ∧ isBlank c = false

theorem splitsAs_displayChars (h : a.HasPlainHost) :
    SplitsAs a.displayChars a.host.toList (some (decimal a.port.toNat)) := by
  by_cases hm : ':' ∈ a.host.toList
  · rw [HasPlainHost, if_pos hm] at h
    rw [displayChars_of_mem hm]
    exact .bracketedPort h
  · rw [HasPlainHost, if_neg hm] at h
    rw [displayChars_of_not_mem hm]
    exact .hostPort (fun hh => (h '[' hh).1 rfl) hm (not_mem_decimal rfl)

theorem trim_displayChars_of_plain (hne : a.host.toList ≠ []) (h : a.HasPlainHost) :
    trim a.displayChars = a.displayChars := by
  refine trim_displayChars fun c hc => ?_
  by_cases hm : ':' ∈ a.host.toList
  · rw [displayChars_of_mem hm] at hc
    cases hc
    decide
  · rw [HasPlainHost, if_neg hm] at h
    rw [displayChars_of_not_mem hm, List.head?_append_of_ne_nil _ hne] at hc
    exact (h c hc).2

theorem hasPlainHost_of_splitsAs {port : Option (List Char)} (hne : a.host.toList ≠ [])
    (h : SplitsAs (trim a.displayChars) a.host.toList port) : a.HasPlainHost := by
  by_cases hm : ':' ∈ a.host.toList
  · rw [HasPlainHost, if_pos hm]
    rw [trim_displayChars, displayChars_of_mem hm] at h
    · exact (h.brackets_of_head rfl).2
    · rw [displayChars_of_mem hm]
      rintro c ⟨⟩
      decide
  · rw [HasPlainHost, if_neg hm]
    have hhead : (trim a.displayChars).head? ≠ some '[' := by
      intro hh
      obtain ⟨hmem, hnot⟩ := h.brackets_of_head hh
      have hd := mem_of_mem_trim hmem
      rw [displayChars_of_not_mem hm] at hd
      rcases List.mem_append.mp hd with hd | hd
      · exact hnot hd
      · rcases List.mem_cons.mp hd with hd | hd
        · cases hd
        · exact not_mem_decimal rfl hd
    intro c hc
    rw [← h.head?_eq hhead hne] at hc
    exact ⟨fun he => hhead (he ▸ hc), isBlank_head_trim hc⟩

end Display

/-- **When the display of an address denotes it.** An address that was read, from any text, is read
again from its display exactly if its host is plain. -/
theorem parse_display_iff {text : String} {a : Address} (h : parse text = .ok a) :
    parse a.display = .ok a ↔ a.HasPlainHost := by
  have hne := (parse_eq_ok_iff.mp h).1
  rw [parse_eq_ok_iff, show a.display.toList = a.displayChars from String.toList_ofList]
  constructor
  · rintro ⟨-, port, hs, -⟩
    exact hasPlainHost_of_splitsAs hne hs
  · intro hp
    refine ⟨hne, some (decimal a.port.toNat), ?_, readPort?_decimal a.port⟩
    rw [trim_displayChars_of_plain hne hp]
    exact splitsAs_displayChars hp

/-- An address whose first bracket is missing is read as one long host, and the port of its display
is no number. -/
theorem parse_display_iff_missing_bracket :
    parse "2001:db8::1]:830" = .ok ⟨"2001:db8::1]:830", 57400⟩ ∧
      display ⟨"2001:db8::1]:830", 57400⟩ = "[2001:db8::1]:830]:57400" ∧
      parse "[2001:db8::1]:830]:57400" ≠ .ok ⟨"2001:db8::1]:830", 57400⟩ := by
  have h : parse "2001:db8::1]:830" = .ok ⟨"2001:db8::1]:830", 57400⟩ := by decide +kernel
  have hd : display ⟨"2001:db8::1]:830", 57400⟩ = "[2001:db8::1]:830]:57400" := by decide +kernel
  refine ⟨h, hd, ?_⟩
  rw [← hd, ne_eq, parse_display_iff h, HasPlainHost]
  decide

end Telemetry.Address
