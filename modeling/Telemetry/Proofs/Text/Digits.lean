import Mathlib
import Telemetry.Text.Blank
import Telemetry.Text.Decimal

/-! The characters of a number in decimal, and the texts that are read as that number
(`Text.readNat?_eq_some_iff`). -/

namespace Telemetry

theorem isDigit_iff {c : Char} : c.isDigit = true ↔ 48 ≤ c.toNat ∧ c.toNat ≤ 57 := by
  simp only [Char.isDigit, Bool.and_eq_true, decide_eq_true_eq, UInt32.le_iff_toNat_le, ge_iff_le]
  rfl

namespace Text

theorem isDigit_of_mem_decimal {n : Nat} {c : Char} (h : c ∈ decimal n) : c.isDigit = true := by
  have hdigit : ∀ d < 10, (Char.ofNat ('0'.toNat + d)).isDigit = true := by decide
  fun_induction decimal n with
  | case1 n hn =>
    rw [List.mem_singleton] at h
    exact h ▸ hdigit n hn
  | case2 n hn ih =>
    rcases List.mem_append.mp h with h | h
    · exact ih h
    · rw [List.mem_singleton] at h
      exact h ▸ hdigit (n % 10) (Nat.mod_lt n (by decide))

/-- A character that is no digit is in no number. -/
theorem not_mem_decimal {n : Nat} {c : Char} (h : c.isDigit = false) : c ∉ decimal n := by
  intro hm
  rw [isDigit_of_mem_decimal hm] at h
  cases h

theorem length_decimal_le {n k : Nat} (h : n < 10 ^ (k + 1)) : (decimal n).length ≤ k + 1 := by
  fun_induction decimal n generalizing k with
  | case1 n hn => exact Nat.succ_le_succ (Nat.zero_le k)
  | case2 n hn ih =>
    cases k with
    | zero => exact absurd h hn
    | succ k =>
      rw [List.length_append, List.length_singleton]
      refine Nat.succ_le_succ (ih ?_)
      rw [Nat.pow_succ] at h
      exact Nat.div_lt_of_lt_mul (by rwa [Nat.mul_comm])

theorem le_of_readNat? {max n : Nat} {cs : List Char} (h : readNat? max cs = some n) : n ≤ max := by
  simp only [readNat?] at h
  split at h
  · cases h
  · simpa using (Option.filter_eq_some_iff.mp h).2

/-- A number in decimal, which may have zeros and a plus sign in front of it. -/
inductive IsNumeral (n : Nat) : List Char → Prop
  | digits (zeros : Nat) : IsNumeral n (List.replicate zeros '0' ++ decimal n)
  | plus (zeros : Nat) : IsNumeral n ('+' :: (List.replicate zeros '0' ++ decimal n))

theorem isNumeral_decimal (n : Nat) : IsNumeral n (decimal n) := .digits 0

/-- A sign or a digit comes first. -/
theorem IsNumeral.mem_cases {n : Nat} {cs : List Char} (h : IsNumeral n cs) {c : Char}
    (hc : c ∈ cs) : c = '+' ∨ c.isDigit = true := by
  have hdigits (zeros : Nat) (hc : c ∈ List.replicate zeros '0' ++ decimal n) :
      c.isDigit = true := by
    rcases List.mem_append.mp hc with hc | hc
    · rw [List.eq_of_mem_replicate hc]
      rfl
    · exact isDigit_of_mem_decimal hc
  cases h with
  | digits zeros => exact .inr (hdigits zeros hc)
  | plus zeros => exact (List.mem_cons.mp hc).imp_right (hdigits zeros)

theorem readDigits_zeros (zeros : Nat) (cs : List Char) :
    readDigits 0 (List.replicate zeros '0' ++ cs) = readDigits 0 cs := by
  induction zeros with
  | zero => rfl
  | succ zeros ih => exact ih

theorem digit?_eq_some {c : Char} {d : Nat} (h : digit? c = some d) :
    d < 10 ∧ c = Char.ofNat ('0'.toNat + d) := by
  rw [digit?] at h
  split at h
  · rename_i hc
    simp only [Bool.and_eq_true, decide_eq_true_eq, Char.le_def, UInt32.le_iff_toNat_le] at hc
    obtain ⟨hlow, hhigh⟩ : 48 ≤ c.toNat ∧ c.toNat ≤ 57 := hc
    cases h
    refine ⟨by rw [show '0'.toNat = 48 from rfl]; omega, ?_⟩
    rw [show '0'.toNat = 48 from rfl, Nat.add_sub_cancel' hlow, Char.ofNat_toNat]
  · cases h

theorem isBlank_of_digit? {c : Char} {d : Nat} (h : digit? c = some d) : isBlank c = false := by
  obtain ⟨hlt, rfl⟩ := digit?_eq_some h
  revert d
  decide

theorem digit?_of_isBlank {c : Char} (h : isBlank c = true) : digit? c = none := by
  rw [Option.eq_none_iff_forall_ne_some]
  intro d hd
  rw [isBlank_of_digit? hd] at h
  cases h

/-- Reading on makes no number smaller. -/
theorem le_of_readDigits {acc n : Nat} {cs : List Char} (h : readDigits acc cs = some n) :
    acc ≤ n := by
  induction cs generalizing acc with
  | nil => exact (Option.some.inj h).le
  | cons c cs ih =>
    obtain ⟨d, -, hrest⟩ := Option.bind_eq_some_iff.mp h
    have := ih hrest
    omega

theorem readDigits_concat {acc n d : Nat} {cs : List Char} {c : Char}
    (h : readDigits acc cs = some n) (hd : digit? c = some d) :
    readDigits acc (cs ++ [c]) = some (n * 10 + d) := by
  rw [readDigits_append, h, Option.bind_some, readDigits, hd]
  rfl

theorem decimal_concat {n d : Nat} (hn : 0 < n) (hd : d < 10) :
    decimal (n * 10 + d) = decimal n ++ [Char.ofNat ('0'.toNat + d)] := by
  have hdiv : (n * 10 + d) / 10 = n := by omega
  have hmod : (n * 10 + d) % 10 = d := by omega
  rw [decimal, if_neg (by omega), hdiv, hmod]

/-- The digits read so far and those to come are the digits of the number. -/
theorem decimal_append_of_readDigits {acc n : Nat} {cs : List Char} (ha : 0 < acc)
    (h : readDigits acc cs = some n) : decimal acc ++ cs = decimal n := by
  induction cs generalizing acc with
  | nil =>
    cases h
    exact List.append_nil _
  | cons c cs ih =>
    obtain ⟨d, hd, hrest⟩ := Option.bind_eq_some_iff.mp h
    obtain ⟨hlt, rfl⟩ := digit?_eq_some hd
    rw [List.append_cons, ← decimal_concat ha hlt]
    exact ih (by omega) hrest

/-- By induction on the zeros in front: the first other digit begins the number. -/
theorem exists_zeros_of_readDigits {n : Nat} {cs : List Char} (hne : cs ≠ [])
    (h : readDigits 0 cs = some n) : ∃ zeros, cs = List.replicate zeros '0' ++ decimal n := by
  induction cs with
  | nil => exact absurd rfl hne
  | cons c cs ih =>
    obtain ⟨d, hd, hrest⟩ := Option.bind_eq_some_iff.mp h
    obtain ⟨hlt, rfl⟩ := digit?_eq_some hd
    rw [Nat.zero_mul, Nat.zero_add] at hrest
    have hdecimal : decimal d = [Char.ofNat ('0'.toNat + d)] := by rw [decimal, if_pos hlt]
    rcases Nat.eq_zero_or_pos d with rfl | hpos
    · by_cases hcs : cs = []
      · subst hcs
        cases hrest
        exact ⟨0, hdecimal.symm⟩
      · obtain ⟨zeros, rfl⟩ := ih hcs hrest
        exact ⟨zeros + 1, rfl⟩
    · exact ⟨0, by rw [← decimal_append_of_readDigits hpos hrest, hdecimal]; rfl⟩

theorem readNat?_plus (max : Nat) {ds : List Char} (h : ds ≠ []) :
    readNat? max ('+' :: ds) = (readDigits 0 ds).filter (· ≤ max) := by
  obtain ⟨d, ds, rfl⟩ := List.exists_cons_of_ne_nil h
  rfl

theorem readNat?_of_head (max : Nat) {cs : List Char} (h : cs ≠ []) (hc : cs.head? ≠ some '+') :
    readNat? max cs = (readDigits 0 cs).filter (· ≤ max) := by
  obtain ⟨c, ds, rfl⟩ := List.exists_cons_of_ne_nil h
  have hne : c ≠ '+' := fun he => hc (he ▸ rfl)
  simp [readNat?, hne]

/-- What is read as a number of at most `max`. -/
theorem readNat?_eq_some_iff {max n : Nat} {cs : List Char} :
    readNat? max cs = some n ↔ IsNumeral n cs ∧ n ≤ max := by
  constructor
  · intro h
    refine ⟨?_, le_of_readNat? h⟩
    rcases cs with _ | ⟨c, ds⟩
    · cases h
    · by_cases hc : c = '+'
      · subst hc
        by_cases hds : ds = []
        · subst hds
          cases h
        · rw [readNat?_plus max hds] at h
          obtain ⟨zeros, rfl⟩ := exists_zeros_of_readDigits hds (Option.filter_eq_some_iff.mp h).1
          exact .plus zeros
      · rw [readNat?_of_head max (List.cons_ne_nil c ds) (by simpa using hc)] at h
        obtain ⟨zeros, hz⟩ :=
          exists_zeros_of_readDigits (List.cons_ne_nil c ds) (Option.filter_eq_some_iff.mp h).1
        rw [hz]
        exact .digits zeros
  · rintro ⟨hcs, hle⟩
    have hread (zeros : Nat) :
        (readDigits 0 (List.replicate zeros '0' ++ decimal n)).filter (· ≤ max) = some n := by
      rw [readDigits_zeros, readDigits_decimal]
      simpa using hle
    have hne (zeros : Nat) : List.replicate zeros '0' ++ decimal n ≠ [] :=
      List.append_ne_nil_of_right_ne_nil _ (decimal_ne_nil n)
    cases hcs with
    | digits zeros =>
      rw [readNat?_of_head max (hne zeros), hread]
      intro hhead
      cases zeros with
      | zero => exact decimal_head?_ne_plus n hhead
      | succ zeros => cases hhead
    | plus zeros => rw [readNat?_plus max (hne zeros), hread]

end Text

end Telemetry
