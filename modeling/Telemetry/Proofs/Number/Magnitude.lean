import Telemetry.Proofs.Number.Rounding

/-! Products, powers and quotients by their magnitude. Numbers are ordered as their words are
(`word_le_iff`). A product with a number of at least one is no smaller than the other factor, so
that a power of such a number is at least that number (`IsGreat.pow`); a quotient is bounded by any
number that bounds the exact one (`div_word_le`, `le_div_word`). An integer is rounded to a multiple
of the last of its 53 binary digits (`lt_magnitude_ofInt_iff`). -/

namespace Telemetry.Binary64

variable {x y z : Binary64}

/-! ## Words -/

theorem word_ofWord {s : Bool} {w : Nat} (hw : w < 2 ^ 63) : (ofWord s w).word = w := by
  cases s <;> simp only [ofWord, word, Nat.pow_eq, UInt64.toNat_ofNat'] <;> simp <;> omega

theorem isNegative_ofWord {s : Bool} {w : Nat} (hw : w < 2 ^ 63) :
    (ofWord s w).isNegative = s := by
  cases s <;> simp only [ofWord, isNegative, Nat.pow_eq, UInt64.toNat_ofNat'] <;> simp <;> omega

theorem infinityWord_lt : infinityWord < 2 ^ 63 := by decide

theorem roundRatio_le_infinityWord (num den : Nat) : roundRatio num den ≤ infinityWord := by
  rw [roundRatio]
  split_ifs
  · exact Nat.zero_le _
  all_goals exact Nat.min_le_left _ _

theorem word_ofRatio (s : Bool) (num den : Nat) : (ofRatio s num den).word = roundRatio num den :=
  word_ofWord ((roundRatio_le_infinityWord num den).trans_lt infinityWord_lt)

theorem isNegative_ofRatio (s : Bool) (num den : Nat) : (ofRatio s num den).isNegative = s :=
  isNegative_ofWord ((roundRatio_le_infinityWord num den).trans_lt infinityWord_lt)

/-! ## The order of numbers -/

/-- What is a number already is not rounded. -/
theorem roundRatio_eq_word {num den : Nat} (hx : x.word ≤ infinityWord) (hden : 0 < den)
    (h : (num : ℚ) / den = x.magnitude) : roundRatio num den = x.word :=
  le_antisymm (roundRatio_le hden h.le) (le_roundRatio hx hden h.ge)

theorem word_le_iff (hx : x.word ≤ infinityWord) (hy : y.word ≤ infinityWord) :
    x.word ≤ y.word ↔ x.magnitude ≤ y.magnitude := by
  have hle {a b : Binary64} (ha : a.word ≤ infinityWord) (hb : b.word ≤ infinityWord)
      (h : a.magnitude ≤ b.magnitude) : a.word ≤ b.word :=
    (le_roundRatio ha b.den_pos h).trans_eq (roundRatio_eq_word hb b.den_pos rfl)
  refine ⟨fun h => ?_, hle hx hy⟩
  by_contra hlt
  have hword : x.word = y.word := le_antisymm h (hle hy hx (not_le.mp hlt).le)
  exact hlt (by simp only [magnitude, num, den, parts, hword, le_refl])

theorem exists_magnitude_eq {k : Int} (hlow : -1022 ≤ k) (hhigh : k ≤ 1023) :
    ∃ p : Binary64, p.word < infinityWord ∧ p.magnitude = 2 ^ k := by
  have hlt : (k + 1023).toNat * 2 ^ 52 < infinityWord := by
    rw [show infinityWord = 2047 * 2 ^ 52 from rfl]
    omega
  have hword : (ofWord false ((k + 1023).toNat * 2 ^ 52)).word = (k + 1023).toNat * 2 ^ 52 :=
    word_ofWord (hlt.trans infinityWord_lt)
  have hparts : (ofWord false ((k + 1023).toNat * 2 ^ 52)).parts = (2 ^ 52, k - 52) := by
    simp only [parts, hword, Nat.pow_eq, Nat.mul_div_cancel _ (Nat.two_pow_pos 52),
      Nat.mul_mod_left]
    rw [if_neg (by omega)]
    congr 1
    omega
  refine ⟨ofWord false ((k + 1023).toNat * 2 ^ 52), by rwa [hword], ?_⟩
  rw [magnitude_eq, hparts, Nat.cast_pow, Nat.cast_ofNat, pow_mul_zpow]
  congr 1
  omega

/-! ## Products and powers -/

theorem isNaN_eq_false (hx : x.word ≤ infinityWord) : x.isNaN = false :=
  decide_eq_false (Nat.not_lt.mpr hx)

theorem magnitude_eq_zero (h : x.word = 0) : x.magnitude = 0 := by
  simp [magnitude_eq, parts, h]

theorem word_ne_zero (h : 0 < x.magnitude) : x.word ≠ 0 :=
  fun hword => h.ne' (magnitude_eq_zero hword)

/-- A number of at least one, or infinity, without a sign. -/
structure IsGreat (x : Binary64) : Prop where
  isNegative : x.isNegative = false
  word_le : x.word ≤ infinityWord
  one_le : 1 ≤ x.magnitude

theorem IsGreat.word_ne_zero (hx : x.IsGreat) : x.word ≠ 0 :=
  Binary64.word_ne_zero (zero_lt_one.trans_le hx.one_le)

theorem IsGreat.isZero (hx : x.IsGreat) : x.isZero = false :=
  beq_eq_false_iff_ne.mpr hx.word_ne_zero

theorem IsGreat.mul_eq (hx : x.IsGreat) (hy : y.IsGreat) : x.mul y =
    if x.isInfinite || y.isInfinite then infinity false
    else ofRatio false (x.num * y.num) (x.den * y.den) := by
  simp only [Binary64.mul, isNaN_eq_false hx.word_le, isNaN_eq_false hy.word_le, hx.isZero,
    hy.isZero, hx.isNegative, hy.isNegative, Bool.or_false, Bool.false_eq_true, if_false,
    bne_self_eq_false]

/-- A product is at least any number that the exact one is at least. -/
theorem IsGreat.le_mul_word (hx : x.IsGreat) (hy : y.IsGreat) (hz : z.word ≤ infinityWord)
    (h : z.magnitude ≤ x.magnitude * y.magnitude) : z.word ≤ (x.mul y).word := by
  rw [hx.mul_eq hy]
  split_ifs
  · rwa [infinity, word_ofWord infinityWord_lt]
  · rw [word_ofRatio]
    refine le_roundRatio hz (Nat.mul_pos x.den_pos y.den_pos) (h.trans_eq ?_)
    rw [magnitude, magnitude, Nat.cast_mul, Nat.cast_mul, div_mul_div_comm]

theorem IsGreat.word_le_mul_left (hx : x.IsGreat) (hy : y.IsGreat) : x.word ≤ (x.mul y).word :=
  hx.le_mul_word hy hx.word_le
    (le_mul_of_one_le_right (zero_le_one.trans hx.one_le) hy.one_le)

theorem IsGreat.word_le_mul_right (hx : x.IsGreat) (hy : y.IsGreat) : y.word ≤ (x.mul y).word :=
  hx.le_mul_word hy hy.word_le
    (le_mul_of_one_le_left (zero_le_one.trans hy.one_le) hx.one_le)

theorem IsGreat.of_word_le (hx : x.IsGreat) (hneg : y.isNegative = false)
    (hy : y.word ≤ infinityWord) (h : x.word ≤ y.word) : y.IsGreat :=
  ⟨hneg, hy, hx.one_le.trans ((word_le_iff hx.word_le hy).mp h)⟩

theorem IsGreat.mul (hx : x.IsGreat) (hy : y.IsGreat) : (x.mul y).IsGreat := by
  refine hx.of_word_le ?_ ?_ (hx.word_le_mul_left hy)
  all_goals rw [hx.mul_eq hy]; split_ifs
  · exact isNegative_ofWord infinityWord_lt
  · exact isNegative_ofRatio ..
  · exact (word_ofWord infinityWord_lt).le
  · rw [word_ofRatio]
    exact roundRatio_le_infinityWord ..

/-- Squaring makes no number smaller that is at least one, so the factors only grow. -/
theorem IsGreat.powFrom (hx : x.IsGreat) (hacc : y.IsGreat) (digits n : Nat) :
    (powFrom digits x y n).IsGreat ∧ y.word ≤ (powFrom digits x y n).word ∧
      (0 < n → n < 2 ^ digits → x.word ≤ (powFrom digits x y n).word) := by
  induction digits generalizing x y n with
  | zero => exact ⟨hacc, le_rfl, by omega⟩
  | succ digits ih =>
    rw [Binary64.powFrom]
    have hsquare := hx.word_le_mul_left hx
    by_cases hodd : n % 2 = 1
    · rw [if_pos hodd]
      obtain ⟨hgreat, hle, -⟩ := ih (hx.mul hx) (hacc.mul hx) (n / 2)
      exact ⟨hgreat, (hacc.word_le_mul_left hx).trans hle,
        fun _ _ => (hacc.word_le_mul_right hx).trans hle⟩
    · rw [if_neg hodd]
      obtain ⟨hgreat, hle, hbase⟩ := ih (hx.mul hx) hacc (n / 2)
      exact ⟨hgreat, hle, fun hpos hlt => hsquare.trans (hbase (by omega) (by omega))⟩

theorem isGreat_ofNat {n : Nat} (hn : 0 < n) : (ofNat n).IsGreat := by
  obtain ⟨p, hp, hone⟩ := exists_magnitude_eq (k := 0) (by decide) (by decide)
  have hword : (ofNat n).word ≤ infinityWord :=
    (word_ofRatio ..).trans_le (roundRatio_le_infinityWord ..)
  refine ⟨isNegative_ofRatio .., hword, ?_⟩
  rw [zpow_zero] at hone
  rw [← hone, ← word_le_iff hp.le hword, ofNat, word_ofRatio]
  refine le_roundRatio hp.le Nat.one_pos ?_
  rw [hone, Nat.cast_one, div_one]
  exact_mod_cast hn

/-- A power of a number of at least one is at least one, and at least that number unless the
exponent is zero. -/
theorem IsGreat.pow (hx : x.IsGreat) (n : Nat) :
    (x.pow n).IsGreat ∧ (0 < n → x.word ≤ (x.pow n).word) := by
  obtain ⟨hgreat, -, hle⟩ := hx.powFrom (isGreat_ofNat Nat.one_pos) (n.log2 + 1) n
  have heq : x.pow n = Binary64.powFrom (n.log2 + 1) x (ofNat 1) n := by
    rw [Binary64.pow, if_neg (by omega), Int.natAbs_natCast]
  rw [heq]
  exact ⟨hgreat, fun hn => hle hn Nat.lt_log2_self⟩

/-! ## Quotients -/

theorem div_eq (hx : x.word < infinityWord) (hy : y.word ≤ infinityWord) : x.div y =
    if y.isInfinite then zero (x.isNegative != y.isNegative)
    else if y.isZero then (if x.isZero then nan else infinity (x.isNegative != y.isNegative))
    else ofRatio (x.isNegative != y.isNegative) (x.num * y.den) (x.den * y.num) := by
  have hinfinite : x.isInfinite = false := beq_eq_false_iff_ne.mpr hx.ne
  simp only [div, isNaN_eq_false hx.le, isNaN_eq_false hy, hinfinite, Bool.or_false,
    Bool.false_eq_true, if_false]

theorem num_pos (h : x.word ≠ 0) : 0 < x.num := by
  obtain ⟨hword, -, -, hnormal⟩ := x.hasParts
  have hm : x.parts.1 ≠ 0 := by
    intro hzero
    omega
  exact Nat.mul_pos (Nat.pos_of_ne_zero hm) (Nat.pow_pos (by decide))

theorem magnitude_pos (h : x.word ≠ 0) : 0 < x.magnitude :=
  div_pos (Nat.cast_pos.mpr (num_pos h)) (Nat.cast_pos.mpr x.den_pos)

theorem magnitude_div (x y : Binary64) :
    x.magnitude / y.magnitude = ((x.num * y.den : Nat) : ℚ) / (x.den * y.num : Nat) := by
  rw [magnitude, magnitude, div_div_div_eq, Nat.cast_mul, Nat.cast_mul]

/-- A quotient is at most any number that the exact one is at most. -/
theorem IsGreat.div_word_le (hy : y.IsGreat) (hx : x.word < infinityWord)
    (h : x.magnitude / y.magnitude ≤ z.magnitude) : (x.div y).word ≤ z.word := by
  simp only [div_eq hx hy.word_le, hy.isZero, Bool.false_eq_true, if_false]
  split_ifs
  · rw [zero, word_ofWord (by decide)]
    exact Nat.zero_le _
  · rw [word_ofRatio]
    refine roundRatio_le (Nat.mul_pos x.den_pos ?_) ((magnitude_div x y).symm.trans_le h)
    exact num_pos hy.word_ne_zero

/-- A quotient is at least any number that the exact one is at least. -/
theorem le_div_word (hx : x.word < infinityWord) (hy : y.word < infinityWord) (hzero : y.word ≠ 0)
    (hz : z.word ≤ infinityWord) (h : z.magnitude ≤ x.magnitude / y.magnitude) :
    z.word ≤ (x.div y).word := by
  have hinfinite : y.isInfinite = false := beq_eq_false_iff_ne.mpr hy.ne
  have hiszero : y.isZero = false := beq_eq_false_iff_ne.mpr hzero
  simp only [div_eq hx hy.le, hinfinite, hiszero, Bool.false_eq_true, if_false]
  rw [word_ofRatio]
  exact le_roundRatio hz (Nat.mul_pos x.den_pos (num_pos hzero))
    (h.trans_eq (magnitude_div x y))

theorem magnitude_one : (ofNat 1).magnitude = 1 := by
  rw [magnitude, show (ofNat 1).num = (ofNat 1).den by decide +kernel]
  exact div_self (Nat.cast_ne_zero.mpr (ofNat 1).den_pos.ne')

/-- What is divided by zero is no finite number. -/
theorem isFinite_div_zero (hx : x.word < infinityWord) (hzero : x.word ≠ 0) (hy : y.word = 0) :
    (x.div y).isFinite = false := by
  have hinfinite : y.isInfinite = false := beq_eq_false_iff_ne.mpr (by rw [hy]; decide)
  have hiszero : y.isZero = true := beq_iff_eq.mpr hy
  have hxzero : x.isZero = false := beq_eq_false_iff_ne.mpr hzero
  simp only [div_eq hx (hy.trans_le (Nat.zero_le _)), hinfinite, hiszero, hxzero,
    Bool.false_eq_true, if_false, if_true]
  rw [isFinite, infinity, word_ofWord infinityWord_lt, decide_eq_false_iff_not]
  exact lt_irrefl _

/-! ## Integers -/

theorem magnitude_eq_of_word {m : Nat} {q : Int} (hlow : -1074 ≤ q) (hm : m ≤ 2 ^ 53)
    (hnormal : q = -1074 ∨ 2 ^ 52 ≤ m) (h : (x.word : Int) = (q + 1074) * 2 ^ 52 + m) :
    x.magnitude = m * 2 ^ q := by
  obtain ⟨hword, hlowest, hlt, hparts⟩ := x.hasParts
  rw [magnitude_eq]
  by_cases hcarry : m = 2 ^ 53
  · obtain ⟨hp, hq⟩ : x.parts.1 = 2 ^ 52 ∧ x.parts.2 = q + 1 := by omega
    rw [hp, hq, hcarry, zpow_add₀ (by norm_num)]
    norm_num
    ring
  · obtain ⟨hp, hq⟩ : x.parts.1 = m ∧ x.parts.2 = q := by omega
    rw [hp, hq]

theorem magnitude_ofRatio {s : Bool} {num den : Nat} (hnum : 0 < num) (hden : 0 < den)
    (h : roundRatio num den < infinityWord) :
    (ofRatio s num den).magnitude = significand num den * 2 ^ lastPlace num den := by
  have hr := rounds hnum hden
  have hlow := hr.lowest
  refine magnitude_eq_of_word hlow hr.le_pow hr.pow_le ?_
  rw [roundRatio_eq hnum] at h
  rw [word_ofRatio, roundRatio_eq hnum]
  omega

theorem lastPlace_one {n : Nat} (hn : 0 < n) : lastPlace n 1 = (n.log2 : Int) - 52 := by
  obtain ⟨place, hplace, hlow, hhigh⟩ := exists_lastPlace hn Nat.one_pos
  rw [Nat.cast_one, div_one] at hlow hhigh
  have hlog : (2 : ℚ) ^ (n.log2 : Int) ≤ n := by exact_mod_cast Nat.log2_self_le hn.ne'
  have hlog' : (n : ℚ) < 2 ^ ((n.log2 : Int) + 1) := by exact_mod_cast Nat.lt_log2_self (n := n)
  have hle := (zpow_lt_zpow_iff_right₀ (by norm_num)).mp (hlog.trans_lt hhigh)
  have hge := (zpow_lt_zpow_iff_right₀ (by norm_num)).mp (hlow.trans_lt hlog')
  omega

/-- The value of the last of the first 53 binary digits. -/
def lastUnit (n : Nat) : Nat := 2 ^ (n.log2 - 52)

theorem lastUnit_pos (n : Nat) : 0 < lastUnit n := Nat.two_pow_pos _

theorem roundQuotient_one (a : Nat) : roundQuotient a 1 = a := by
  simp [roundQuotient, Nat.mod_one]

theorem significand_one {n : Nat} (hn : 0 < n) :
    (significand n 1 : ℚ) * 2 ^ lastPlace n 1 = roundQuotient n (lastUnit n) * lastUnit n := by
  rw [significand, lastPlace_one hn, scaledNum, scaledDen, lastUnit]
  rcases Nat.le_total 52 n.log2 with h | h
  · obtain ⟨k, hk⟩ := Nat.exists_eq_add_of_le h
    rw [hk]
    simp
  · obtain ⟨k, hk⟩ := Nat.exists_eq_add_of_le h
    rw [show (n.log2 : Int) - 52 = -(k : Int) by omega, Nat.sub_eq_zero_of_le h]
    simp [roundQuotient_one]

/-- A natural number lies behind the middle of its neighbours with 53 binary digits, or in the
middle and behind one that is odd. -/
def RoundsUp (n : Nat) : Prop :=
  lastUnit n < 2 * (n % lastUnit n) ∨ 2 * (n % lastUnit n) = lastUnit n ∧ n / lastUnit n % 2 = 1

instance (n : Nat) : Decidable (RoundsUp n) :=
  inferInstanceAs (Decidable (_ ∨ _))

theorem lt_roundQuotient_mul_iff (n : Nat) :
    n < roundQuotient n (lastUnit n) * lastUnit n ↔ RoundsUp n := by
  have hpos := lastUnit_pos n
  have hdiv := Nat.div_add_mod' n (lastUnit n)
  have hmod := Nat.mod_lt n hpos
  rw [RoundsUp, roundQuotient]
  generalize lastUnit n = u at *
  have hsucc := Nat.add_one_mul (n / u) u
  split_ifs <;> omega

/-- An integer is rounded away from zero exactly if its magnitude is rounded up. -/
theorem lt_magnitude_ofInt_iff {n : Int} (h : (ofInt n).word < infinityWord) :
    (n.natAbs : ℚ) < (ofInt n).magnitude ↔ RoundsUp n.natAbs := by
  rw [ofInt, word_ofRatio] at h
  rw [← lt_roundQuotient_mul_iff, ofInt]
  rcases Nat.eq_zero_or_pos n.natAbs with hzero | hpos
  · rw [hzero, magnitude_eq_zero (by rw [word_ofRatio]; decide +kernel)]
    simp [roundQuotient]
  · rw [magnitude_ofRatio hpos Nat.one_pos h, significand_one hpos]
    exact_mod_cast Iff.rfl

end Telemetry.Binary64
