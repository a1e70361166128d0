import Telemetry.Proofs.Number.Magnitude
import Telemetry.Proofs.Value.Conversion

/-! Decimals in documents. The precision of a decimal is taken for a signed exponent of 32 bits,
which it is exactly below 2^31. There the digits are scaled down, and the decimal is shown as a
number that is no larger than they are, unless they are rounded up to a number and not scaled at all
(`Decimal64.lt_magnitude_iff_roundsUp`); from there on they are scaled up instead. This is so at
every place in lists of values (`TypedValue.decimals_scaledDown_iff`). -/

namespace Telemetry

open Json (Document)

/-! ## Places -/

/-- The value at a place: a position in a list, a position in the value there, and so on. -/
def TypedValue.at? : TypedValue → List Nat → Option TypedValue
  | v, [] => some v
  | .leafList es, i :: place => es[i]?.bind fun e => e.at? place
  | _, _ :: _ => none

/-- The document at a place in arrays. -/
def Json.Document.at? : Document → List Nat → Option Document
  | doc, [] => some doc
  | .array items, i :: place => items[i]?.bind fun item => item.at? place
  | _, _ :: _ => none

/-- What mirrors a value has, at each of its places, what mirrors the value there. -/
theorem TypedValue.Mirrors.at? {v w : TypedValue} {doc : Document} {place : List Nat}
    (h : v.Mirrors doc) (hw : v.at? place = some w) :
    ∃ shown, doc.at? place = some shown ∧ w.Mirrors shown := by
  induction place generalizing v doc with
  | nil =>
    simp only [TypedValue.at?, Option.some.injEq] at hw
    exact ⟨doc, by simp only [Json.Document.at?], hw ▸ h⟩
  | cons i place ih =>
    cases h with
    | leafList hlength hall =>
      simp only [TypedValue.at?, Option.bind_eq_some_iff, List.getElem?_eq_some_iff] at hw
      obtain ⟨e, ⟨hi, rfl⟩, he⟩ := hw
      obtain ⟨shown, hshown, hmirrors⟩ := ih (hall i hi (hlength ▸ hi)) he
      refine ⟨shown, ?_, hmirrors⟩
      rw [Json.Document.at?, List.getElem?_eq_getElem (hlength ▸ hi)]
      exact hshown
    | _ => simp only [TypedValue.at?, reduceCtorEq] at hw

namespace Binary64

/-! ## Integers -/

section Integer

variable {n : Int} {p : Binary64}

theorem ofInt_word_le (h : (n.natAbs : ℚ) ≤ p.magnitude) : (ofInt n).word ≤ p.word := by
  rw [ofInt, word_ofRatio]
  exact roundRatio_le Nat.one_pos (by rwa [Nat.cast_one, div_one])

theorem le_ofInt_word (hp : p.word ≤ infinityWord) (h : p.magnitude ≤ (n.natAbs : ℚ)) :
    p.word ≤ (ofInt n).word := by
  rw [ofInt, word_ofRatio]
  exact le_roundRatio hp Nat.one_pos (by rwa [Nat.cast_one, div_one])

end Integer

end Binary64

namespace Decimal64

open Binary64

/-! ## Scaling -/

variable (d : Decimal64)

theorem exponent_eq : d.exponent =
    if d.precision.toNat < 2 ^ 31 then (d.precision.toNat : Int)
    else (d.precision.toNat : Int) - 2 ^ 32 := by
  change d.precision.toBitVec.toInt = _
  rw [BitVec.toInt_eq_toNat_cond, UInt32.toNat_toBitVec]
  split_ifs <;> omega

theorem natAbs_digits_le : d.digits.toInt.natAbs ≤ 2 ^ 63 := by
  have hlow := d.digits.le_toInt
  have hhigh := d.digits.toInt_lt
  omega

theorem ofInt_digits_finite : (ofInt d.digits.toInt).word < infinityWord := by
  obtain ⟨p, hp, hmagnitude⟩ := exists_magnitude_eq (k := 63) (by decide) (by decide)
  refine (ofInt_word_le ?_).trans_lt hp
  rw [hmagnitude]
  exact_mod_cast d.natAbs_digits_le

/-- The digits lie between two powers of two, and so does the number nearest to them. -/
theorem exists_powers (h : d.digits.toInt ≠ 0) : ∃ k : Nat, k ≤ 63 ∧
    (2 : ℚ) ^ (k : Int) ≤ d.digits.toInt.natAbs ∧
    (d.digits.toInt.natAbs : ℚ) < 2 ^ ((k : Int) + 1) ∧
    (2 : ℚ) ^ (k : Int) ≤ (ofInt d.digits.toInt).magnitude ∧
    (ofInt d.digits.toInt).magnitude ≤ 2 ^ ((k : Int) + 1) := by
  have hne : d.digits.toInt.natAbs ≠ 0 := Int.natAbs_ne_zero.mpr h
  have hk : d.digits.toInt.natAbs.log2 < 64 :=
    (Nat.log2_lt hne).mpr (d.natAbs_digits_le.trans_lt (by decide))
  have hlow : (2 : ℚ) ^ (d.digits.toInt.natAbs.log2 : Int) ≤ d.digits.toInt.natAbs := by
    exact_mod_cast Nat.log2_self_le hne
  have hhigh : (d.digits.toInt.natAbs : ℚ) < 2 ^ ((d.digits.toInt.natAbs.log2 : Int) + 1) := by
    exact_mod_cast (Nat.lt_log2_self (n := d.digits.toInt.natAbs))
  obtain ⟨p, hp, hpower⟩ := exists_magnitude_eq (k := d.digits.toInt.natAbs.log2) (by omega)
    (by omega)
  obtain ⟨p', hp', hpower'⟩ := exists_magnitude_eq (k := (d.digits.toInt.natAbs.log2 : Int) + 1)
    (by omega) (by omega)
  refine ⟨d.digits.toInt.natAbs.log2, by omega, hlow, hhigh, ?_, ?_⟩
  · rw [← hpower, ← word_le_iff hp.le d.ofInt_digits_finite.le]
    exact le_ofInt_word hp.le (hpower ▸ hlow)
  · rw [← hpower', ← word_le_iff d.ofInt_digits_finite.le hp'.le]
    exact ofInt_word_le (hpower' ▸ hhigh.le)

/-- A power of ten with a positive exponent is at least eight. -/
theorem eight_le_pow {n : Nat} (hn : 0 < n) : 8 ≤ ((ofNat 10).pow n).magnitude := by
  have hten := isGreat_ofNat (n := 10) (by decide)
  obtain ⟨hgreat, hle⟩ := hten.pow n
  obtain ⟨p, hp, hpower⟩ := exists_magnitude_eq (k := 3) (by decide) (by decide)
  have height : p.magnitude = 8 := hpower.trans (by norm_num)
  rw [← height, ← word_le_iff hp.le hgreat.word_le]
  refine le_trans ?_ (hle hn)
  rw [ofNat, word_ofRatio]
  refine le_roundRatio hp.le Nat.one_pos ?_
  rw [height]
  norm_num

/-! ### Below 2^31 -/

section Down

variable {d} (h : d.precision.toNat < 2 ^ 31)
include h

theorem toBinary64_of_lt : d.toBinary64 =
    (ofInt d.digits.toInt).div ((ofNat 10).pow d.precision.toNat) := by
  rw [toBinary64, exponent_eq, if_pos h]

theorem toBinary64_word_le : d.toBinary64.word ≤ (ofInt d.digits.toInt).word := by
  obtain ⟨hgreat, -⟩ := (isGreat_ofNat (n := 10) (by decide)).pow d.precision.toNat
  rw [toBinary64_of_lt h]
  refine hgreat.div_word_le d.ofInt_digits_finite (div_le_self ?_ hgreat.one_le)
  exact div_nonneg (Nat.cast_nonneg _) (Nat.cast_nonneg _)

/-- The number is not larger than the digits, and not only than the number nearest to them. -/
theorem magnitude_le_digits (hpos : 0 < d.precision.toNat) :
    d.toBinary64.magnitude ≤ d.digits.toInt.natAbs := by
  have hword := toBinary64_word_le h
  by_cases hz : d.digits.toInt = 0
  · rw [hz, show (ofInt 0).word = 0 by decide +kernel] at hword
    rw [magnitude_eq_zero (Nat.le_zero.mp hword)]
    exact Nat.cast_nonneg _
  · obtain ⟨k, hk, hlow, -, -, hhigh⟩ := d.exists_powers hz
    obtain ⟨p, hp, hpower⟩ := exists_magnitude_eq (k := k) (by omega) (by omega)
    obtain ⟨hgreat, -⟩ := (isGreat_ofNat (n := 10) (by decide)).pow d.precision.toNat
    have hle : d.toBinary64.word ≤ p.word := by
      rw [toBinary64_of_lt h]
      refine hgreat.div_word_le d.ofInt_digits_finite ?_
      rw [hpower, div_le_iff₀ (zero_lt_one.trans_le hgreat.one_le)]
      calc (ofInt d.digits.toInt).magnitude ≤ 2 ^ ((k : Int) + 1) := hhigh
        _ = 2 ^ (k : Int) * 2 := by rw [zpow_add₀ (by norm_num), zpow_one]
        _ ≤ 2 ^ (k : Int) * ((ofNat 10).pow d.precision.toNat).magnitude := by
          have := eight_le_pow hpos
          gcongr
          linarith
    have hfinite := hword.trans_lt d.ofInt_digits_finite
    rw [word_le_iff hfinite.le hp.le, hpower] at hle
    exact hle.trans hlow

end Down

/-! ### From 2^31 on -/

section Up

variable {d} (h : 2 ^ 31 ≤ d.precision.toNat)
include h

theorem exponent_neg : d.exponent < 0 := by
  have hlt := d.precision.toNat_lt
  rw [exponent_eq, if_neg (by omega)]
  omega

/-- The digits are divided by the quotient of one and a power of ten. -/
theorem exists_toBinary64 : ∃ n : Nat, 0 < n ∧ d.toBinary64 =
    (ofInt d.digits.toInt).div ((ofNat 1).div ((ofNat 10).pow n)) := by
  have hneg := exponent_neg h
  refine ⟨d.exponent.natAbs, by omega, ?_⟩
  rw [toBinary64, Binary64.pow, if_pos hneg, Binary64.pow, if_neg (by omega), Int.natAbs_natCast]

/-- What is shown as a number is larger than the digits. -/
theorem digits_lt_magnitude (hz : d.digits.toInt ≠ 0) (hfinite : d.toBinary64.isFinite = true) :
    d.digits.toInt.natAbs < d.toBinary64.magnitude := by
  obtain ⟨n, hn, heq⟩ := exists_toBinary64 h
  obtain ⟨k, hk, -, hhigh, hlow, -⟩ := d.exists_powers hz
  obtain ⟨hgreat, -⟩ := (isGreat_ofNat (n := 10) (by decide)).pow n
  obtain ⟨eighth, height, hpower⟩ := exists_magnitude_eq (k := -3) (by decide) (by decide)
  have hdivisor : ((ofNat 1).div ((ofNat 10).pow n)).word ≤ eighth.word := by
    refine hgreat.div_word_le (by decide +kernel) ?_
    rw [magnitude_one, hpower, div_le_iff₀ (zero_lt_one.trans_le hgreat.one_le)]
    have := eight_le_pow hn
    norm_num
    linarith
  have hpos : (ofInt d.digits.toInt).word ≠ 0 :=
    word_ne_zero (lt_of_lt_of_le (by positivity) hlow)
  by_cases hzero : ((ofNat 1).div ((ofNat 10).pow n)).word = 0
  · rw [heq, isFinite_div_zero d.ofInt_digits_finite hpos hzero] at hfinite
    cases hfinite
  · obtain ⟨p, hp, hpower'⟩ := exists_magnitude_eq (k := (k : Int) + 3) (by omega) (by omega)
    have hle : p.word ≤ d.toBinary64.word := by
      rw [heq]
      refine le_div_word d.ofInt_digits_finite (hdivisor.trans_lt height) hzero hp.le ?_
      rw [hpower', le_div_iff₀ (magnitude_pos hzero)]
      rw [word_le_iff (hdivisor.trans height.le) height.le, hpower] at hdivisor
      calc (2 : ℚ) ^ ((k : Int) + 3) * ((ofNat 1).div ((ofNat 10).pow n)).magnitude
          ≤ 2 ^ ((k : Int) + 3) * 2 ^ (-3 : Int) := by gcongr
        _ = 2 ^ (k : Int) := by
          rw [← zpow_add₀ (by norm_num)]
          congr 1
          omega
        _ ≤ (ofInt d.digits.toInt).magnitude := hlow
    rw [word_le_iff hp.le (of_decide_eq_true hfinite).le, hpower'] at hle
    calc (d.digits.toInt.natAbs : ℚ) < 2 ^ ((k : Int) + 1) := hhigh
      _ ≤ 2 ^ ((k : Int) + 3) := zpow_le_zpow_right₀ (by norm_num) (by omega)
      _ ≤ d.toBinary64.magnitude := hle

end Up

/-! ### Nothing to scale -/

theorem magnitude_of_precision_eq_zero (h : d.precision.toNat = 0) :
    d.toBinary64.magnitude = (ofInt d.digits.toInt).magnitude := by
  have hone : (ofNat 10).pow ((0 : Nat) : Int) = ofNat 1 := by decide +kernel
  have hfinite := d.ofInt_digits_finite
  have hle := toBinary64_word_le (d := d) (by omega)
  have heq := toBinary64_of_lt (d := d) (by omega)
  rw [h, hone] at heq
  refine le_antisymm ((word_le_iff (hle.trans hfinite.le) hfinite.le).mp hle) ?_
  rw [← word_le_iff hfinite.le (hle.trans hfinite.le), heq]
  refine le_div_word hfinite (by decide +kernel) (by decide +kernel) hfinite.le ?_
  rw [magnitude_one, div_one]

/-- Below 2^31 only the digits themselves are ever shown as a larger number than they are: those of
precision zero that are rounded up. -/
theorem lt_magnitude_iff_roundsUp (h : d.precision.toNat < 2 ^ 31) :
    d.digits.toInt.natAbs < d.toBinary64.magnitude ↔
      d.precision.toNat = 0 ∧ RoundsUp d.digits.toInt.natAbs := by
  rcases Nat.eq_zero_or_pos d.precision.toNat with hzero | hpos
  · rw [magnitude_of_precision_eq_zero d hzero, lt_magnitude_ofInt_iff d.ofInt_digits_finite]
    simp [hzero]
  · exact iff_of_false (magnitude_le_digits h hpos).not_gt fun hz => hpos.ne' hz.1

/-- Past 2^53 not every integer is a number. -/
example : RoundsUp (2 ^ 53 + 3) ∧ ¬RoundsUp (2 ^ 53 + 1) := by decide

/-! ## Decimals as they are shown -/

/-- The exponent of a decimal is its precision, and it is shown as a number that is no larger than
its digits. These are rounded to a number themselves, which is what is shown if there is nothing to
scale, and then it is larger than the digits where they are rounded up
(`lt_magnitude_iff_roundsUp`). -/
structure IsScaledDown (d : Decimal64) (shown : Document) : Prop where
  exponent_eq : d.exponent = d.precision.toNat
  exists_number : ∃ x : Binary64, shown = .number (.real x) ∧
    x.magnitude ≤ (ofInt d.digits.toInt).magnitude ∧
    (0 < d.precision.toNat → x.magnitude ≤ d.digits.toInt.natAbs)

/-- The exponent of a decimal is negative, and it is shown as null or as a number that is larger
than its digits. -/
structure IsScaledUp (d : Decimal64) (shown : Document) : Prop where
  exponent_neg : d.exponent < 0
  null_or_larger : shown = .null ∨
    ∃ x : Binary64, shown = .number (.real x) ∧ d.digits.toInt.natAbs < x.magnitude

theorem isScaledDown (h : d.precision.toNat < 2 ^ 31) : d.IsScaledDown (.real d.toBinary64) where
  exponent_eq := by rw [exponent_eq, if_pos h]
  exists_number := by
    have hword := toBinary64_word_le h
    have hfinite := hword.trans_lt d.ofInt_digits_finite
    refine ⟨d.toBinary64, if_pos (decide_eq_true hfinite), ?_, magnitude_le_digits h⟩
    rwa [← word_le_iff hfinite.le d.ofInt_digits_finite.le]

theorem isScaledUp (h : 2 ^ 31 ≤ d.precision.toNat) (hz : d.digits.toInt ≠ 0) :
    d.IsScaledUp (.real d.toBinary64) where
  exponent_neg := exponent_neg h
  null_or_larger := by
    rw [Document.real]
    split_ifs with hfinite
    · exact .inr ⟨d.toBinary64, rfl, digits_lt_magnitude h hz hfinite⟩
    · exact .inl rfl

end Decimal64

/-- **When decimals are scaled down.** Wherever a decimal stands in lists of values, its exponent is
its precision and it is shown as a number that is no larger than its digits, exactly if the
precision is below 2^31. From there on its exponent is negative, and unless its digits are zero it
is shown as null or as a number that is larger than they are. -/
theorem TypedValue.decimals_scaledDown_iff {v : TypedValue} {doc : Document} {place : List Nat}
    {d : Decimal64} (hdoc : v.document = .ok doc) (hd : v.at? place = some (.decimal d)) :
    ∃ shown, doc.at? place = some shown ∧
      (d.IsScaledDown shown ↔ d.precision.toNat < 2 ^ 31) ∧
      (2 ^ 31 ≤ d.precision.toNat → d.digits.toInt ≠ 0 → d.IsScaledUp shown) := by
  obtain ⟨shown, hshown, hmirrors⟩ := (document_eq_ok_iff.mp hdoc).at? hd
  cases hmirrors
  refine ⟨.real d.toBinary64, hshown, ⟨fun h => ?_, d.isScaledDown⟩, d.isScaledUp⟩
  by_contra hlt
  have hneg := Decimal64.exponent_neg (Nat.not_lt.mp hlt)
  have heq := h.exponent_eq
  omega

/-- One, with the largest precision there is. -/
def finestDecimal : Decimal64 := ⟨1, 4294967295⟩

/-- It is shown as ten, also in a list in a list. -/
theorem TypedValue.decimals_scaledDown_iff_finest :
    (TypedValue.leafList [.leafList [.decimal finestDecimal]]).document =
        .ok (.array [.array [.number (.real (.ofNat 10))]]) ∧
      ¬finestDecimal.IsScaledDown (.number (.real (.ofNat 10))) ∧
      finestDecimal.IsScaledUp (.number (.real (.ofNat 10))) := by
  have hten : Document.real finestDecimal.toBinary64 = .number (.real (.ofNat 10)) := by
    rw [show finestDecimal.toBinary64 = .ofNat 10 by decide +kernel]
    rfl
  have hdoc : (TypedValue.leafList [.leafList [.decimal finestDecimal]]).document =
      .ok (.array [.array [.number (.real (.ofNat 10))]]) := by
    rw [← hten]
    rfl
  have hlarge : ¬finestDecimal.precision.toNat < 2 ^ 31 := by decide
  have hplace : (TypedValue.leafList [.leafList [.decimal finestDecimal]]).at? [0, 0] =
      some (.decimal finestDecimal) := rfl
  obtain ⟨shown, hshown, hdown, hup⟩ := decimals_scaledDown_iff hdoc hplace
  obtain rfl : .number (.real (.ofNat 10)) = shown := Option.some.inj hshown
  exact ⟨hdoc, mt hdown.mp hlarge, hup (by decide) (by decide)⟩

end Telemetry
