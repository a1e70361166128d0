/-! Natural numbers in decimal: the digits of a number, and the reading of a text of digits that
may carry a plus sign and must not exceed a bound. -/

namespace Telemetry.Text

def digit? (c : Char) : Option Nat :=
  if '0' ≤ c && c ≤ '9' then some (c.toNat - '0'.toNat) else none

/-- The decimal digits of `n`, without leading zeros. -/
def decimal (n : Nat) : List Char :=
  if n < 10 then [Char.ofNat ('0'.toNat + n)]
  else decimal (n / 10) ++ [Char.ofNat ('0'.toNat + n % 10)]
termination_by n

/-- Continues the number `acc` with the digits of a text, all of whose characters must be
digits. -/
def readDigits (acc : Nat) : List Char → Option Nat
  | [] => some acc
  | c :: cs => (digit? c).bind fun d => readDigits (acc * 10 + d) cs

/-- An optional plus sign and at least one digit, for a number of at most `max`. -/
def readNat? (max : Nat) (cs : List Char) : Option Nat :=
  let digits := match cs with
    | '+' :: rest => rest
    | _ => cs
  match digits with
  | [] => none
  | _ :: _ => (readDigits 0 digits).filter (· ≤ max)

/-- A port: a number of sixteen bits. -/
def readPort? (cs : List Char) : Option Nat := readNat? 65535 cs

theorem digit?_ofNat {d : Nat} (h : d < 10) : digit? (Char.ofNat ('0'.toNat + d)) = some d := by
  revert d
  decide

theorem readDigits_append (acc : Nat) (a b : List Char) :
    readDigits acc (a ++ b) = (readDigits acc a).bind fun n => readDigits n b := by
  induction a generalizing acc with
  | nil => rfl
  | cons c a ih =>
    simp only [List.cons_append, readDigits, Option.bind_assoc]
    congr 1
    funext d
    exact ih _

theorem decimal_ne_nil (n : Nat) : decimal n ≠ [] := by
  unfold decimal
  split <;> simp

theorem decimal_head?_ne_plus (n : Nat) : (decimal n).head? ≠ some '+' := by
  fun_induction decimal n with
  | case1 n h =>
    revert n
    decide
  | case2 n h ih =>
    rwa [List.head?_append, Option.or_of_isSome (by simpa using decimal_ne_nil (n / 10))]

/-- The digits of a number are read as that number. -/
theorem readDigits_decimal (n : Nat) : readDigits 0 (decimal n) = some n := by
  fun_induction decimal n with
  | case1 n h =>
    simp only [readDigits, digit?_ofNat h, Option.bind_some, Nat.zero_mul, Nat.zero_add]
  | case2 n h ih =>
    rw [readDigits_append, ih]
    simp only [Option.bind_some, readDigits, digit?_ofNat (Nat.mod_lt n (by decide : 0 < 10))]
    rw [Nat.mul_comm, Nat.div_add_mod]

/-- A number within the bound is read from its digits. -/
theorem readNat?_decimal {max n : Nat} (h : n ≤ max) : readNat? max (decimal n) = some n := by
  have hd := readDigits_decimal n
  have hs := decimal_head?_ne_plus n
  obtain ⟨c, cs, hc⟩ := List.exists_cons_of_ne_nil (decimal_ne_nil n)
  rw [hc] at hd hs ⊢
  have hne : c ≠ '+' := by simpa using hs
  simp [readNat?, hne, hd, h]

end Telemetry.Text
