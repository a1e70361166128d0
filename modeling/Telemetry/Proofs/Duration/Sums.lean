import Mathlib
import Telemetry.Duration
import Telemetry.Proofs.Results

/-! Sums of spans. What is added one part after another is their exact sum, if each part and the
sum can be held (`Span.foldlM_addTo_eq_ok_iff`); of the sums that cannot, those end the program whose
parts reach 2^64 seconds exactly by one that is carried late (`Span.foldlM_addTo_eq_abort_iff`). -/

namespace Telemetry

namespace Duration

/-- Seconds of 64 bits, and less than a second of nanoseconds. -/
structure IsProper (d : Duration) : Prop where
  seconds_lt : d.seconds < 2 ^ 64
  nanos_lt : d.nanos < 10 ^ 9

theorem total_eq (d : Duration) : d.total = d.seconds * 10 ^ 9 + d.nanos := rfl

/-- How many nanoseconds no duration can hold. -/
def bound : Nat := 2 ^ 64 * 10 ^ 9

theorem isProper_and_total_eq_iff {d : Duration} {t : Nat} :
    d.IsProper ∧ d.total = t ↔ t < bound ∧ d = ⟨t / 10 ^ 9, t % 10 ^ 9⟩ := by
  obtain ⟨s, n⟩ := d
  simp only [total_eq, Duration.mk.injEq, bound]
  constructor
  · rintro ⟨⟨hs, hn⟩, rfl⟩
    simp only at hs hn
    omega
  · rintro ⟨ht, rfl, rfl⟩
    exact ⟨⟨by simp only; omega, by simp only; omega⟩, by omega⟩

theorem IsProper.total_lt {d : Duration} (h : d.IsProper) : d.total < bound :=
  (isProper_and_total_eq_iff.mp ⟨h, rfl⟩).1

theorem IsProper.eq_of_total_eq {d e : Duration} (hd : d.IsProper) (he : e.IsProper)
    (h : d.total = e.total) : d = e :=
  (isProper_and_total_eq_iff.mp ⟨hd, h⟩).2.trans (isProper_and_total_eq_iff.mp ⟨he, rfl⟩).2.symm

theorem exists_isProper {t : Nat} (h : t < bound) : ∃ d : Duration, d.IsProper ∧ d.total = t :=
  ⟨⟨t / 10 ^ 9, t % 10 ^ 9⟩, isProper_and_total_eq_iff.mpr ⟨h, rfl⟩⟩

end Duration

namespace Span

theorem word_of_lt {n : Nat} (h : n < 2 ^ 64) : word n = .ok n := if_pos h

theorem word_of_le {n : Nat} (h : 2 ^ 64 ≤ n) : word n = .error .overflow :=
  if_neg (Nat.not_lt.mpr h)

theorem word_eq_ok_iff {n m : Nat} : word n = .ok m ↔ n < 2 ^ 64 ∧ m = n := by
  by_cases h : n < 2 ^ 64
  · rw [word_of_lt h, Except.ok.injEq, and_iff_right h, eq_comm]
  · rw [word_of_le (Nat.not_lt.mp h)]
    exact iff_of_false nofun fun hm => h hm.1

theorem word_ne_abort (n : Nat) : word n ≠ .error .abort := by
  by_cases h : n < 2 ^ 64
  · rw [word_of_lt h]
    exact nofun
  · rw [word_of_le (Nat.not_lt.mp h)]
    exact nofun

theorem ok_bind {ε α β : Type} (x : α) (f : α → Except ε β) : (Except.ok x >>= f) = f x := rfl

/-- A number that fits a word with something added to it fits one without. -/
theorem word_bind_word_add {α : Type} (a b : Nat) (f : Nat → Except SpanError α) :
    (word a >>= fun n => word (b + n) >>= f) = word (b + a) >>= f := by
  by_cases h : a < 2 ^ 64
  · rw [word_of_lt h]
    rfl
  · rw [word_of_le (Nat.not_lt.mp h), word_of_le (by omega)]
    rfl

/-- What comes of adding to a sum of less than a second of nanoseconds. -/
theorem add_eq {s r : Nat} (hr : r < 10 ^ 9) (seconds nanos : Nat) : add ⟨s, r⟩ seconds nanos =
    if r + nanos < 2 ^ 64 then
      if s + seconds + (r + nanos) / 10 ^ 9 < 2 ^ 64 then
        .ok ⟨s + seconds + (r + nanos) / 10 ^ 9, (r + nanos) % 10 ^ 9⟩
      else if r + nanos = 10 ^ 9 ∧ s + seconds = 2 ^ 64 - 1 then .error .abort
      else .error .overflow
    else .error .overflow := by
  by_cases hword : r + nanos < 2 ^ 64
  swap
  · rw [if_neg hword, add, word_of_le (Nat.not_lt.mp hword)]
    rfl
  have hsecond : Duration.nanosPerSecond = 10 ^ 9 := rfl
  have hmax : Duration.maxSeconds = 2 ^ 64 - 1 := rfl
  rw [if_pos hword, add, word_of_lt hword, ok_bind]
  simp only [word_bind_word_add, hsecond, hmax]
  -- Up to one second nothing is carried, and beyond it less than a second is left.
  by_cases hcarry : 10 ^ 9 < r + nanos
  · simp only [hcarry, if_true, ← Nat.add_assoc]
    by_cases hfit : s + seconds + (r + nanos) / 10 ^ 9 < 2 ^ 64
    · rw [word_of_lt hfit, ok_bind, if_pos (Nat.mod_lt _ (by decide)), if_pos hfit]
      rfl
    · rw [word_of_le (Nat.not_lt.mp hfit), if_neg hfit, if_neg (by omega)]
      rfl
  · simp only [hcarry, if_false, Nat.add_zero]
    by_cases hfit : s + seconds < 2 ^ 64
    · rw [word_of_lt hfit, ok_bind]
      by_cases hlt : r + nanos < 10 ^ 9
      · rw [if_pos hlt, Nat.div_eq_of_lt hlt, Nat.mod_eq_of_lt hlt, Nat.add_zero, if_pos hfit]
        rfl
      · have heq : r + nanos = 10 ^ 9 := by omega
        rw [if_neg hlt, heq, Nat.div_self (by decide), Nat.mod_self, Nat.sub_self]
        by_cases hlast : s + seconds = 2 ^ 64 - 1
        · rw [if_pos hlast, if_neg (by omega), if_pos ⟨rfl, hlast⟩]
        · rw [if_neg hlast, if_pos (by omega)]
          rfl
    · rw [word_of_le (Nat.not_lt.mp hfit), if_neg (by omega), if_neg (by omega)]
      rfl

theorem add_seconds {s r : Nat} (hr : r < 10 ^ 9) (n : Nat) : add ⟨s, r⟩ n 0 =
    if s + n < 2 ^ 64 then .ok ⟨s + n, r⟩ else .error .overflow := by
  have hlast : ¬(r = 10 ^ 9 ∧ s + n = 2 ^ 64 - 1) := fun h => Nat.ne_of_lt hr h.1
  rw [add_eq hr, if_pos (by omega), Nat.add_zero, Nat.div_eq_of_lt hr, Nat.mod_eq_of_lt hr,
    Nat.add_zero, if_neg hlast]

theorem add_nanos {s r : Nat} (hr : r < 10 ^ 9) (n : Nat) : add ⟨s, r⟩ 0 n =
    if r + n < 2 ^ 64 then
      if s + (r + n) / 10 ^ 9 < 2 ^ 64 then .ok ⟨s + (r + n) / 10 ^ 9, (r + n) % 10 ^ 9⟩
      else if r + n = 10 ^ 9 ∧ s = 2 ^ 64 - 1 then .error .abort
      else .error .overflow
    else .error .overflow := by
  rw [add_eq hr, Nat.add_zero]

/-- The checks of a product are made again when it is added. -/
theorem word_bind_add_seconds {sum : Duration} (hsum : sum.nanos < 10 ^ 9) (n : Nat) :
    (word n >>= fun n => add sum n 0) = add sum n 0 := by
  by_cases h : n < 2 ^ 64
  · rw [word_of_lt h, ok_bind]
  · rw [word_of_le (Nat.not_lt.mp h), add_seconds hsum, if_neg (by omega)]
    rfl

theorem word_bind_add_nanos {sum : Duration} (hsum : sum.nanos < 10 ^ 9) (n : Nat) :
    (word n >>= fun n => add sum 0 n) = add sum 0 n := by
  by_cases h : n < 2 ^ 64
  · rw [word_of_lt h, ok_bind]
  · rw [word_of_le (Nat.not_lt.mp h), add_nanos hsum, if_neg (by omega)]
    rfl

end Span

/-! ## Parts of spans -/

/-- What a span adds at once. -/
inductive SpanPart
  | seconds (n : Nat)
  | nanos (n : Nat)

namespace SpanPart

/-- The length of a part in nanoseconds. -/
def total : SpanPart → Nat
  | .seconds n => n * 10 ^ 9
  | .nanos n => n

/-- Nanoseconds are added to what a sum of `t` nanoseconds has beside its seconds. -/
def Fits (t : Nat) : SpanPart → Prop
  | .seconds _ => True
  | .nanos n => t % 10 ^ 9 + n < 2 ^ 64

/-- Each part can be added to `t` nanoseconds and the parts before it. -/
def AllFit (t : Nat) : List SpanPart → Prop
  | [] => True
  | p :: ps => p.Fits t ∧ AllFit (t + p.total) ps

def addTo (sum : Duration) : SpanPart → Except SpanError Duration
  | .seconds n => Span.add sum n 0
  | .nanos n => Span.add sum 0 n

variable {sum d : Duration} {p : SpanPart}

/-- A sum is exact. -/
theorem addTo_eq_ok_iff (hsum : sum.IsProper) :
    p.addTo sum = .ok d ↔ p.Fits sum.total ∧ d.IsProper ∧ d.total = sum.total + p.total := by
  obtain ⟨s, r⟩ := sum
  obtain ⟨hs, hr⟩ := hsum
  simp only at hs hr
  rw [Duration.isProper_and_total_eq_iff, Duration.total_eq, Duration.bound]
  cases p with
  | seconds n =>
    have hdiv : (s * 10 ^ 9 + r + n * 10 ^ 9) / 10 ^ 9 = s + n := by omega
    have hmod : (s * 10 ^ 9 + r + n * 10 ^ 9) % 10 ^ 9 = r := by omega
    simp only [addTo, Fits, total, Span.add_seconds hr, hdiv, hmod, true_and]
    by_cases h : s + n < 2 ^ 64
    · rw [if_pos h, and_iff_right (by omega), Except.ok.injEq, eq_comm]
    · rw [if_neg h]
      exact iff_of_false nofun fun hlt => h (by omega)
  | nanos n =>
    have hdiv : (s * 10 ^ 9 + r + n) / 10 ^ 9 = s + (r + n) / 10 ^ 9 := by omega
    have hmod : (s * 10 ^ 9 + r + n) % 10 ^ 9 = (r + n) % 10 ^ 9 := by omega
    have hrest : (s * 10 ^ 9 + r) % 10 ^ 9 = r := Nat.mul_add_mod_of_lt hr
    simp only [addTo, Fits, total, Span.add_nanos hr, hdiv, hmod, hrest]
    split_ifs with hword hfit
    · rw [and_iff_right hword, and_iff_right (by omega), Except.ok.injEq, eq_comm]
    · exact iff_of_false nofun fun h => hfit (by omega)
    · exact iff_of_false nofun fun h => hfit (by omega)
    · exact iff_of_false nofun fun h => hword h.1

/-- The program ends where nanoseconds, of one second at most, complete the first sum that is too
large. -/
theorem addTo_eq_abort_iff (hsum : sum.IsProper) : p.addTo sum = .error .abort ↔
    ∃ n, p = .nanos n ∧ 0 < n ∧ n ≤ 10 ^ 9 ∧ sum.total + n = Duration.bound := by
  obtain ⟨s, r⟩ := sum
  obtain ⟨hs, hr⟩ := hsum
  simp only at hs hr
  cases p with
  | seconds n =>
    rw [addTo, Span.add_seconds hr]
    refine iff_of_false ?_ nofun
    split <;> nofun
  | nanos n =>
    simp only [addTo, Span.add_nanos hr, SpanPart.nanos.injEq, exists_eq_left', Duration.total_eq,
      Duration.bound]
    split_ifs with hword hfit hlast
    · exact iff_of_false nofun fun h => by omega
    · exact iff_of_true rfl (by omega)
    · exact iff_of_false nofun fun h => by omega
    · exact iff_of_false nofun fun h => by omega

end SpanPart

/-! ## Spans -/

/-- The length of a unit in nanoseconds. A month has 30.44 days, and a year 365.25. -/
def TimeUnit.length : TimeUnit → Nat
  | .nanosecond => 1
  | .microsecond => 10 ^ 3
  | .millisecond => 10 ^ 6
  | .second => 10 ^ 9
  | .minute => 60 * 10 ^ 9
  | .hour => 60 * 60 * 10 ^ 9
  | .day => 24 * 60 * 60 * 10 ^ 9
  | .week => 7 * 24 * 60 * 60 * 10 ^ 9
  | .month => 2630016 * 10 ^ 9
  | .year => 31557600 * 10 ^ 9

def Decimals.toRat (f : Decimals) : ℚ := f.value / 10 ^ f.count

namespace Span

/-- The length of a span in nanoseconds: its amount times its unit. -/
def length (s : Span) : ℚ := (s.amount + s.decimals.elim 0 Decimals.toRat) * s.unit.length

def wholePart (s : Span) : SpanPart :=
  match s.unit.nanos? with
  | some n => .nanos (s.amount * n)
  | none => .seconds (s.amount * s.unit.seconds)

/-- The decimals are added if they are a whole number of the unit that their step is counted in. -/
def decimalPart? (u : TimeUnit) (f : Decimals) : Option SpanPart :=
  u.fractionStep.bind fun (step, inNanos) =>
    if f.value * step < 2 ^ 64 ∧ f.value * step % 10 ^ f.count = 0 then
      some (if inNanos then .nanos (f.value * step / 10 ^ f.count)
        else .seconds (f.value * step / 10 ^ f.count))
    else none

/-- The whole amount, and then the decimals if there are any. -/
def parts (s : Span) : List (Option SpanPart) :=
  some s.wholePart :: (s.decimals.map (decimalPart? s.unit)).toList

def addPart (sum : Duration) : Option SpanPart → Except SpanError Duration
  | none => .error .overflow
  | some p => p.addTo sum

theorem fractionSteps_bind {α : Type} (step : Nat) (f : Decimals) (g : Nat → Except SpanError α) :
    (fractionSteps step f >>= g) =
      if f.value * step < 2 ^ 64 ∧ f.value * step % 10 ^ f.count = 0 then
        g (f.value * step / 10 ^ f.count)
      else .error .overflow := by
  by_cases hword : f.value * step < 2 ^ 64
  · rw [fractionSteps, word_of_lt hword, ok_bind, Nat.pow_eq]
    by_cases hmod : f.value * step % 10 ^ f.count = 0
    · rw [if_pos hmod, if_pos ⟨hword, hmod⟩]
      rfl
    · rw [if_neg hmod, if_neg fun h => hmod h.2]
      rfl
  · rw [fractionSteps, word_of_le (Nat.not_lt.mp hword), if_neg fun h => hword h.1]
    rfl

theorem addDecimals_eq (sum : Duration) (decimals : Option Decimals) (unit : TimeUnit) :
    (match decimals, unit.fractionStep with
      | none, _ => pure sum
      | some _, none => .error .overflow
      | some d, some (step, true) => do add sum 0 (← fractionSteps step d)
      | some d, some (step, false) => do add sum (← fractionSteps step d) 0) =
      (decimals.map (decimalPart? unit)).toList.foldlM addPart sum := by
  cases decimals with
  | none => rfl
  | some f =>
    simp only [Option.map_some, Option.toList_some, List.foldlM_cons, List.foldlM_nil, bind_pure,
      decimalPart?]
    rcases unit.fractionStep with _ | ⟨step, inNanos⟩
    · rfl
    · cases inNanos <;>
        simp only [fractionSteps_bind, Option.bind_some, if_true, if_false, Bool.false_eq_true] <;>
        split <;> rfl

/-- A span is added part by part. -/
theorem addTo_eq {sum : Duration} (hsum : sum.IsProper) (s : Span) :
    addTo sum s = s.parts.foldlM addPart sum := by
  rw [addTo, parts, List.foldlM_cons, addPart, wholePart]
  cases s.unit.nanos? with
  | some n =>
    simp only
    rw [← bind_assoc, word_bind_add_nanos hsum.nanos_lt]
    exact congrArg (_ >>= ·) (funext fun d => addDecimals_eq d s.decimals s.unit)
  | none =>
    simp only
    rw [← bind_assoc, word_bind_add_seconds hsum.nanos_lt]
    exact congrArg (_ >>= ·) (funext fun d => addDecimals_eq d s.decimals s.unit)

section Parts

variable {sum d : Duration} {ps : List (Option SpanPart)} {qs : List SpanPart} {spans : List Span}

/-- The sum of parts is exact. -/
theorem foldlM_addPart_eq_ok_iff (hsum : sum.IsProper) : ps.foldlM addPart sum = .ok d ↔
    ∃ qs, ps = qs.map some ∧ SpanPart.AllFit sum.total qs ∧ d.IsProper ∧
      d.total = sum.total + (qs.map SpanPart.total).sum := by
  induction ps generalizing sum with
  | nil =>
    constructor
    · intro h
      cases h
      exact ⟨[], rfl, trivial, hsum, (Nat.add_zero _).symm⟩
    · rintro ⟨qs, hqs, -, hd, ht⟩
      obtain rfl : qs = [] := List.map_eq_nil_iff.mp hqs.symm
      rw [List.map_nil, List.sum_nil, Nat.add_zero] at ht
      exact congrArg Except.ok (hsum.eq_of_total_eq hd ht.symm)
  | cons p ps ih =>
    rw [List.foldlM_cons]
    constructor
    · intro h
      obtain ⟨r, hr, hrest⟩ := exists_of_bind_eq_ok h
      cases p with
      | none => cases hr
      | some q =>
        obtain ⟨hfit, hproper, htotal⟩ := (SpanPart.addTo_eq_ok_iff hsum).mp hr
        obtain ⟨qs, rfl, hall, hd, ht⟩ := (ih hproper).mp hrest
        rw [htotal] at hall ht
        exact ⟨q :: qs, rfl, ⟨hfit, hall⟩, hd, by rw [ht, List.map_cons, List.sum_cons, add_assoc]⟩
    · rintro ⟨qs, hqs, hall, hd, ht⟩
      obtain ⟨q, qs, rfl, rfl, rfl⟩ := List.map_eq_cons_iff.mp hqs.symm
      rw [List.map_cons, List.sum_cons, ← add_assoc] at ht
      have hlt : sum.total + q.total < Duration.bound :=
        (Nat.le_of_add_right_le ht.ge).trans_lt hd.total_lt
      obtain ⟨r, hproper, htotal⟩ := Duration.exists_isProper hlt
      rw [addPart, (SpanPart.addTo_eq_ok_iff hsum).mpr ⟨hall.1, hproper, htotal⟩, ok_bind,
        ih hproper, htotal]
      exact ⟨qs, rfl, hall.2, hd, ht⟩

/-- The program ends at the first sum that is too large, if nanoseconds complete it. -/
theorem foldlM_addPart_eq_abort_iff (hsum : sum.IsProper) : ps.foldlM addPart sum = .error .abort ↔
    ∃ before n after, ps = before.map some ++ some (.nanos n) :: after ∧
      SpanPart.AllFit sum.total before ∧ 0 < n ∧ n ≤ 10 ^ 9 ∧
      sum.total + (before.map SpanPart.total).sum + n = Duration.bound := by
  induction ps generalizing sum with
  | nil => exact iff_of_false nofun (by simp)
  | cons p ps ih =>
    rw [List.foldlM_cons]
    constructor
    · intro h
      cases p with
      | none => cases h
      | some q =>
        cases hr : q.addTo sum with
        | error fault =>
          rw [addPart, hr] at h
          obtain rfl : fault = .abort := Except.error.inj h
          obtain ⟨n, rfl, hpos, hle, ht⟩ := (SpanPart.addTo_eq_abort_iff hsum).mp hr
          refine ⟨[], n, ps, rfl, trivial, hpos, hle, ?_⟩
          rwa [List.map_nil, List.sum_nil, Nat.add_zero]
        | ok r =>
          rw [addPart, hr, ok_bind] at h
          obtain ⟨hfit, hproper, htotal⟩ := (SpanPart.addTo_eq_ok_iff hsum).mp hr
          obtain ⟨before, n, after, rfl, hall, hpos, hle, ht⟩ := (ih hproper).mp h
          rw [htotal] at hall ht
          refine ⟨q :: before, n, after, rfl, ⟨hfit, hall⟩, hpos, hle, ?_⟩
          rwa [List.map_cons, List.sum_cons, ← add_assoc]
    · rintro ⟨before, n, after, heq, hall, hpos, hle, ht⟩
      cases before with
      | nil =>
        obtain ⟨rfl, rfl⟩ := List.cons.inj heq
        rw [List.map_nil, List.sum_nil, Nat.add_zero] at ht
        rw [addPart, (SpanPart.addTo_eq_abort_iff hsum).mpr ⟨n, rfl, hpos, hle, ht⟩]
        rfl
      | cons q before =>
        obtain ⟨rfl, rfl⟩ := List.cons.inj heq
        rw [List.map_cons, List.sum_cons, ← add_assoc] at ht
        have hlt : sum.total + q.total < Duration.bound := by omega
        obtain ⟨r, hproper, htotal⟩ := Duration.exists_isProper hlt
        rw [addPart, (SpanPart.addTo_eq_ok_iff hsum).mpr ⟨hall.1, hproper, htotal⟩, ok_bind,
          ih hproper, htotal]
        exact ⟨before, n, after, rfl, hall.2, hpos, hle, ht⟩

/-- Spans are added part by part. -/
theorem foldlM_addTo_eq (hsum : sum.IsProper) (spans : List Span) :
    spans.foldlM addTo sum = (spans.flatMap parts).foldlM addPart sum := by
  induction spans generalizing sum with
  | nil => rfl
  | cons s spans ih =>
    rw [List.foldlM_cons, addTo_eq hsum, List.flatMap_cons, List.foldlM_append]
    cases hr : s.parts.foldlM addPart sum with
    | error fault => rfl
    | ok r =>
      obtain ⟨-, -, -, hproper, -⟩ := (foldlM_addPart_eq_ok_iff hsum).mp hr
      exact ih hproper

end Parts

/-! ## Lengths -/

theorem length_of_nanos? {u : TimeUnit} {n : Nat} (h : u.nanos? = some n) : u.length = n := by
  cases u <;> cases h <;> rfl

theorem length_of_seconds {u : TimeUnit} (h : u.nanos? = none) :
    u.length = u.seconds * 10 ^ 9 := by
  cases u <;> first | rfl | cases h

theorem length_of_fractionStep {u : TimeUnit} {step : Nat} {inNanos : Bool}
    (h : u.fractionStep = some (step, inNanos)) :
    u.length = if inNanos then step else step * 10 ^ 9 := by
  cases u <;> cases h <;> rfl

theorem total_wholePart (s : Span) : s.wholePart.total = s.amount * s.unit.length := by
  rw [wholePart]
  cases h : s.unit.nanos? with
  | some n => rw [length_of_nanos? h, SpanPart.total]
  | none => rw [length_of_seconds h, SpanPart.total, mul_assoc]

theorem total_decimalPart? {u : TimeUnit} {f : Decimals} {q : SpanPart}
    (h : decimalPart? u f = some q) : (q.total : ℚ) = f.toRat * u.length := by
  obtain ⟨⟨step, inNanos⟩, hstep, h⟩ := Option.bind_eq_some_iff.mp h
  simp only at h
  split at h
  swap
  · cases h
  rename_i hfit
  have hdvd : ((f.value * step / 10 ^ f.count : ℕ) : ℚ) = f.value * step / 10 ^ f.count := by
    rw [Nat.cast_div_charZero (Nat.dvd_of_mod_eq_zero hfit.2)]
    push_cast
    rfl
  rw [length_of_fractionStep hstep, ← Option.some.inj h, Decimals.toRat]
  cases inNanos with
  | true =>
    simp only [if_true, SpanPart.total, hdvd]
    ring
  | false =>
    simp only [Bool.false_eq_true, if_false, SpanPart.total, Nat.cast_mul, hdvd]
    ring

/-- The parts of a span are as long as the span. -/
theorem sum_total_parts {s : Span} {qs : List SpanPart} (h : s.parts = qs.map some) :
    ((qs.map SpanPart.total).sum : ℚ) = s.length := by
  have hwhole : (s.wholePart.total : ℚ) = s.amount * s.unit.length := by
    rw [total_wholePart, Nat.cast_mul]
  obtain ⟨q, qs, rfl, hq, hqs⟩ := List.map_eq_cons_iff.mp h.symm
  obtain rfl : q = s.wholePart := Option.some.inj hq
  rw [length, List.map_cons, List.sum_cons, Nat.cast_add, hwhole]
  cases hd : s.decimals with
  | none =>
    rw [hd, Option.map_none, Option.toList_none, List.map_eq_nil_iff] at hqs
    simp [hqs]
  | some f =>
    rw [hd, Option.map_some, Option.toList_some, List.map_eq_singleton_iff] at hqs
    obtain ⟨q, rfl, hq⟩ := hqs
    rw [List.map_singleton, List.sum_singleton, total_decimalPart? hq.symm, Option.elim_some,
      add_mul]

theorem sum_total_flatMap {spans : List Span} {qs : List SpanPart}
    (h : spans.flatMap parts = qs.map some) :
    ((qs.map SpanPart.total).sum : ℚ) = (spans.map length).sum := by
  induction spans generalizing qs with
  | nil =>
    obtain rfl : qs = [] := List.map_eq_nil_iff.mp h.symm
    rfl
  | cons s spans ih =>
    rw [List.flatMap_cons] at h
    obtain ⟨front, back, rfl, hfront, hback⟩ := List.map_eq_append_iff.mp h.symm
    rw [List.map_append, List.sum_append, Nat.cast_add, sum_total_parts hfront.symm, ih hback.symm,
      List.map_cons, List.sum_cons]

/-! ## Sums of spans -/

/-- Spans that can be added part by part, and the parts. -/
def AddsUpIn (spans : List Span) (parts : List SpanPart) : Prop :=
  spans.flatMap Span.parts = parts.map some ∧ SpanPart.AllFit 0 parts

/-- A sum of spans is their exact length. -/
theorem foldlM_addTo_eq_ok_iff {spans : List Span} {d : Duration} :
    spans.foldlM addTo {} = .ok d ↔
      (∃ qs, AddsUpIn spans qs) ∧ d.IsProper ∧ (d.total : ℚ) = (spans.map length).sum := by
  have hzero : Duration.IsProper {} := ⟨by decide, by decide⟩
  have htotal : Duration.total {} = 0 := rfl
  rw [foldlM_addTo_eq hzero, foldlM_addPart_eq_ok_iff hzero, htotal]
  constructor
  · rintro ⟨qs, hqs, hall, hd, ht⟩
    rw [Nat.zero_add] at ht
    exact ⟨⟨qs, hqs, hall⟩, hd, by rw [ht, sum_total_flatMap hqs]⟩
  · rintro ⟨⟨qs, hqs, hall⟩, hd, ht⟩
    rw [← sum_total_flatMap hqs, Nat.cast_inj] at ht
    exact ⟨qs, hqs, hall, hd, by rw [ht, Nat.zero_add]⟩

/-- Some first parts of the spans reach the first sum that is too large, by nanoseconds that are no
more than a second. -/
def Overruns (spans : List Span) : Prop :=
  ∃ before n after, spans.flatMap Span.parts = before.map some ++ some (.nanos n) :: after ∧
    SpanPart.AllFit 0 before ∧ 0 < n ∧ n ≤ 10 ^ 9 ∧
    (before.map SpanPart.total).sum + n = Duration.bound

theorem foldlM_addTo_eq_abort_iff {spans : List Span} :
    spans.foldlM addTo {} = .error .abort ↔ Overruns spans := by
  have hzero : Duration.IsProper {} := ⟨by decide, by decide⟩
  have htotal : Duration.total {} = 0 := rfl
  simp only [foldlM_addTo_eq hzero, foldlM_addPart_eq_abort_iff hzero, htotal, Nat.zero_add,
    Overruns]

end Span

end Telemetry
