/-! Blanks: the characters with the Unicode property White_Space, and what it means to trim a
text, or to split it into words, at them. -/

namespace Telemetry.Text

/-- The characters with the Unicode property White_Space. -/
def isBlank (c : Char) : Bool :=
  let n := c.toNat
  (9 ≤ n && n ≤ 13) || n == 0x20 || n == 0x85 || n == 0xA0 || n == 0x1680 ||
    (0x2000 ≤ n && n ≤ 0x200A) || n == 0x2028 || n == 0x2029 || n == 0x202F ||
    n == 0x205F || n == 0x3000

/-- Without the blanks at both ends. -/
def trim (cs : List Char) : List Char :=
  ((cs.dropWhile isBlank).reverse.dropWhile isBlank).reverse

/-- The longest runs of characters that are not blank, in order. -/
def words (cs : List Char) : List (List Char) :=
  (cs.splitOnP isBlank).filter (!·.isEmpty)

/-- Splits at the first character equal to `c`, which belongs to neither half. -/
def splitFirst (c : Char) : List Char → Option (List Char × List Char)
  | [] => none
  | d :: ds => if d = c then some ([], ds) else (splitFirst c ds).map fun (a, b) => (d :: a, b)

theorem splitFirst_eq_none_iff {c : Char} {cs : List Char} : splitFirst c cs = none ↔ c ∉ cs := by
  induction cs with
  | nil => simp [splitFirst]
  | cons d ds ih =>
    by_cases h : d = c
    · simp [splitFirst, h]
    · simp [splitFirst, h, ih, Ne.symm h]

/-- The first half is the longest beginning without the character. -/
theorem splitFirst_eq_some_iff {c : Char} {cs a b : List Char} :
    splitFirst c cs = some (a, b) ↔ cs = a ++ c :: b ∧ c ∉ a := by
  induction cs generalizing a with
  | nil => simp [splitFirst]
  | cons d ds ih =>
    by_cases h : d = c
    · subst h
      simp only [splitFirst, if_true, Option.some.injEq, Prod.mk.injEq]
      constructor
      · rintro ⟨rfl, rfl⟩
        simp
      · rintro ⟨heq, hmem⟩
        cases a with
        | nil => simpa using heq
        | cons e es =>
          cases heq
          simp at hmem
    · simp only [splitFirst, if_neg h, Option.map_eq_some_iff, Prod.mk.injEq, Prod.exists]
      constructor
      · rintro ⟨a', b', hs, rfl, rfl⟩
        obtain ⟨rfl, hmem⟩ := ih.1 hs
        exact ⟨rfl, by simp [hmem, Ne.symm h]⟩
      · rintro ⟨heq, hmem⟩
        cases a with
        | nil =>
          cases heq
          exact absurd rfl h
        | cons e es =>
          cases heq
          exact ⟨es, b, ih.2 ⟨rfl, fun hc => hmem (List.mem_cons_of_mem _ hc)⟩, rfl, rfl⟩

/-- Splits at the last character equal to `c`, which belongs to neither half. -/
def splitLast (c : Char) (cs : List Char) : Option (List Char × List Char) :=
  (splitFirst c cs.reverse).map fun (a, b) => (b.reverse, a.reverse)

/-- The texts between the characters equal to `c`: one more than there are such characters. -/
def fieldsAt (c : Char) (cs : List Char) : List (List Char) :=
  cs.splitOnP (· == c)

/-- Equal up to the case of ASCII letters. -/
def eqIgnoringCase (a b : List Char) : Bool :=
  a.map Char.toLower == b.map Char.toLower

end Telemetry.Text
