import Mathlib
import Telemetry.Proofs.Duration.Sums
import Telemetry.Proofs.Text.Digits

/-! Texts of spans. Reading goes through a text once, and what it has read at each stage is a part
of a text by the grammar (`Span.Reads`). So a sum is read exactly from the texts that the grammar
has for it, and the program ends exactly where the spans at the beginning of a text cannot be added
(`Duration.parse_eq_ok_iff`, `Duration.parse_eq_abort_iff`). -/

namespace Telemetry

namespace Span

open Text

/-! ## The grammar -/

/-- The digits of a text that may hold blanks as well. -/
def digitsOf (cs : List Char) : List Char := cs.filter (!isBlank ·)

/-- A number of 64 bits in digits, with blanks between and behind them. -/
structure IsAmount (n : Nat) (cs : List Char) : Prop where
  head : ∃ c rest d, cs = c :: rest ∧ digit? c = some d
  read : readDigits 0 (digitsOf cs) = some n
  lt : n < 2 ^ 64

/-- At most nineteen digits, with blanks around and between them. -/
structure IsDecimals (f : Decimals) (cs : List Char) : Prop where
  read : readDigits 0 (digitsOf cs) = some f.value
  count : (digitsOf cs).length = f.count
  le : f.count ≤ 19

inductive WritesNumber (n : Nat) : Option Decimals → List Char → Prop
  | whole {amount : List Char} (hamount : IsAmount n amount) : WritesNumber n none amount
  | decimals {amount decimals : List Char} {f : Decimals} (hamount : IsAmount n amount)
      (hdecimals : IsDecimals f decimals) (hcount : f.count ≠ 0) :
      WritesNumber n (some f) (amount ++ '.' :: decimals)

/-- A number and the name of a unit. -/
inductive Writes : Span → List Char → Prop
  | mk {n : Nat} {f : Option Decimals} {u : TimeUnit} {number name : List Char}
      (hnumber : WritesNumber n f number)
      (hname : TimeUnit.ofName? (String.ofList name) = some u) : Writes ⟨n, f, u⟩ (number ++ name)

/-- Spans one after another, with blanks anywhere between them. -/
inductive WritesSum : List Span → List Char → Prop
  | nil : WritesSum [] []
  | blank {spans : List Span} {cs : List Char} {c : Char} (h : WritesSum spans cs)
      (hc : isBlank c = true) : WritesSum spans (cs ++ [c])
  | span {spans : List Span} {cs : List Char} {s : Span} {text : List Char}
      (h : WritesSum spans cs) (hs : Writes s text) : WritesSum (spans ++ [s]) (cs ++ text)

/-- What ends the name of a unit: a blank, a digit, or the end of the text. -/
def EndsUnit (rest : List Char) : Prop :=
  ∀ c, rest.head? = some c → isBlank c = true ∨ ∃ d, digit? c = some d

theorem endsUnit_nil : EndsUnit [] := nofun

section Grammar

variable {n d : Nat} {c : Char} {cs : List Char} {f : Decimals}

theorem digitsOf_cons_blank (hc : isBlank c = true) : digitsOf (c :: cs) = digitsOf cs :=
  List.filter_cons_of_neg (by simp [hc])

theorem digitsOf_cons (hc : isBlank c = false) : digitsOf (c :: cs) = c :: digitsOf cs :=
  List.filter_cons_of_pos (by simp [hc])

/-- The first character of a text with a number is a blank or a digit. -/
theorem digitsOf_cases {acc : Nat} (h : readDigits acc (digitsOf (c :: cs)) = some n) :
    (isBlank c = true ∧ digit? c = none ∧ digitsOf (c :: cs) = digitsOf cs) ∨
      ∃ d, digit? c = some d ∧ digitsOf (c :: cs) = c :: digitsOf cs ∧
        readDigits (acc * 10 + d) (digitsOf cs) = some n := by
  cases hc : isBlank c with
  | true => exact .inl ⟨rfl, digit?_of_isBlank hc, digitsOf_cons_blank hc⟩
  | false =>
    rw [digitsOf_cons hc] at h
    obtain ⟨d, hd, hrest⟩ := Option.bind_eq_some_iff.mp h
    exact .inr ⟨d, hd, digitsOf_cons hc, hrest⟩

theorem digitsOf_concat_blank (hc : isBlank c = true) : digitsOf (cs ++ [c]) = digitsOf cs := by
  rw [digitsOf, List.filter_append, ← digitsOf, ← digitsOf, digitsOf_cons_blank hc]
  exact List.append_nil _

theorem digitsOf_concat (hc : isBlank c = false) : digitsOf (cs ++ [c]) = digitsOf cs ++ [c] := by
  rw [digitsOf, List.filter_append, ← digitsOf, ← digitsOf, digitsOf_cons hc]
  rfl

theorem isAmount_digit (hd : digit? c = some d) : IsAmount d [c] where
  head := ⟨c, [], d, rfl, hd⟩
  read := by
    rw [digitsOf_cons (isBlank_of_digit? hd), digitsOf, List.filter_nil, readDigits, hd,
      Option.bind_some, readDigits, zero_mul, zero_add]
  lt := (digit?_eq_some hd).1.trans (by decide)

theorem IsAmount.concat_digit (h : IsAmount n cs) (hd : digit? c = some d)
    (hlt : n * 10 + d < 2 ^ 64) : IsAmount (n * 10 + d) (cs ++ [c]) := by
  obtain ⟨b, rest, e, rfl, hb⟩ := h.head
  refine ⟨⟨b, rest ++ [c], e, rfl, hb⟩, ?_, hlt⟩
  rw [digitsOf_concat (isBlank_of_digit? hd)]
  exact readDigits_concat h.read hd

theorem IsAmount.concat_blank (h : IsAmount n cs) (hc : isBlank c = true) :
    IsAmount n (cs ++ [c]) := by
  obtain ⟨b, rest, e, rfl, hb⟩ := h.head
  refine ⟨⟨b, rest ++ [c], e, rfl, hb⟩, ?_, h.lt⟩
  rw [digitsOf_concat_blank hc]
  exact h.read

theorem isDecimals_nil : IsDecimals ⟨0, 0⟩ [] := ⟨rfl, rfl, Nat.zero_le _⟩

theorem IsDecimals.concat_digit (h : IsDecimals f cs) (hd : digit? c = some d)
    (hle : f.count + 1 ≤ 19) : IsDecimals ⟨f.value * 10 + d, f.count + 1⟩ (cs ++ [c]) := by
  have hdigits : digitsOf (cs ++ [c]) = digitsOf cs ++ [c] :=
    digitsOf_concat (isBlank_of_digit? hd)
  refine ⟨?_, ?_, hle⟩
  · rw [hdigits]
    exact readDigits_concat h.read hd
  · rw [hdigits, List.length_append, h.count, List.length_singleton]

theorem IsDecimals.concat_blank (h : IsDecimals f cs) (hc : isBlank c = true) :
    IsDecimals f (cs ++ [c]) := by
  have hdigits : digitsOf (cs ++ [c]) = digitsOf cs := digitsOf_concat_blank hc
  exact ⟨hdigits ▸ h.read, hdigits ▸ h.count, h.le⟩

end Grammar

theorem pow_lt_iff {k : Nat} : 10 ^ k < 2 ^ 64 ↔ k ≤ 19 := by
  constructor
  · intro h
    by_contra hk
    have hle : 10 ^ 20 ≤ 10 ^ k := Nat.pow_le_pow_right (by decide) (Nat.not_le.mp hk)
    omega
  · intro h
    have hle : 10 ^ k ≤ 10 ^ 19 := Nat.pow_le_pow_right (by decide) h
    omega

/-! ## What has been read -/

/-- Spans that are written one after another and can be added. -/
structure IsSumOf (spans : List Span) (sum : Duration) (cs : List Char) : Prop where
  writes : WritesSum spans cs
  sum_eq : spans.foldlM addTo {} = .ok sum

/-- The text that has been read, in each stage. -/
inductive Reads : State → List Char → Prop
  | between {spans : List Span} {sum : Duration} {cs : List Char} {first : Bool} {mark : Nat}
      (h : IsSumOf spans sum cs) (hfirst : first = true ↔ spans = []) :
      Reads ⟨sum, .between first mark⟩ cs
  | amount {spans : List Span} {sum : Duration} {cs amount : List Char} {n : Nat}
      (h : IsSumOf spans sum cs) (hamount : IsAmount n amount) :
      Reads ⟨sum, .amount n⟩ (cs ++ amount)
  | fraction {spans : List Span} {sum : Duration} {cs amount decimals : List Char} {n mark : Nat}
      {f : Decimals} (h : IsSumOf spans sum cs) (hamount : IsAmount n amount)
      (hdecimals : IsDecimals f decimals) :
      Reads ⟨sum, .fraction n f mark⟩ (cs ++ (amount ++ '.' :: decimals))
  | unit {spans : List Span} {sum : Duration} {cs number letters : List Char} {n : Nat}
      {f : Option Decimals} (h : IsSumOf spans sum cs) (hnumber : WritesNumber n f number) :
      Reads ⟨sum, .unit n f letters⟩ (cs ++ (number ++ letters.reverse))

theorem exists_of_close {sum : Duration} {n : Nat} {f : Option Decimals} {letters : List Char}
    {r : Except SpanError Duration} (h : close sum n f letters = r)
    (hr : ∀ name k, r ≠ .error (.unknownUnit name k)) :
    ∃ u, TimeUnit.ofName? (String.ofList letters.reverse) = some u ∧ addTo sum ⟨n, f, u⟩ = r := by
  rw [close] at h
  cases hname : TimeUnit.ofName? (String.ofList letters.reverse) with
  | none =>
    simp only [hname] at h
    exact absurd h.symm (hr _ _)
  | some u =>
    simp only [hname] at h
    exact ⟨u, rfl, h⟩

theorem foldlM_concat {spans : List Span} {sum : Duration} (h : spans.foldlM addTo {} = .ok sum)
    (s : Span) : (spans ++ [s]).foldlM addTo {} = addTo sum s := by
  rw [List.foldlM_append, h, ok_bind, List.foldlM_cons]
  exact bind_pure _

section Stages

variable {spans : List Span} {sum : Duration} {cs number letters : List Char} {n offset : Nat}
  {f : Option Decimals} {c : Char} {st : State}

/-- A span ends where its unit is closed. -/
theorem IsSumOf.exists_close {r : Except SpanError Duration} (h : IsSumOf spans sum cs)
    (hnumber : WritesNumber n f number) (hclose : close sum n f letters = r)
    (hr : ∀ name k, r ≠ .error (.unknownUnit name k)) :
    ∃ s, WritesSum (spans ++ [s]) (cs ++ (number ++ letters.reverse)) ∧
      (spans ++ [s]).foldlM addTo {} = r := by
  obtain ⟨u, hname, hadd⟩ := exists_of_close hclose hr
  exact ⟨⟨n, f, u⟩, h.writes.span (.mk hnumber hname), (foldlM_concat h.sum_eq _).trans hadd⟩

theorem IsSumOf.blank (h : IsSumOf spans sum cs) (hc : isBlank c = true) :
    IsSumOf spans sum (cs ++ [c]) := ⟨h.writes.blank hc, h.sum_eq⟩

theorem IsSumOf.step_between {first : Bool} {mark : Nat} (h : IsSumOf spans sum cs)
    (hfirst : first = true ↔ spans = [])
    (hstep : Span.step offset c ⟨sum, .between first mark⟩ = .ok st) : Reads st (cs ++ [c]) := by
  cases hd : digit? c <;> simp only [Span.step, hd] at hstep
  case some d =>
    cases hstep
    exact .amount h (isAmount_digit hd)
  case none =>
    split at hstep
    · rename_i hc
      cases hstep
      exact .between (h.blank hc) hfirst
    · cases hstep

theorem IsSumOf.step_amount {amount : List Char} (h : IsSumOf spans sum cs)
    (hamount : IsAmount n amount) (hstep : Span.step offset c ⟨sum, .amount n⟩ = .ok st) :
    Reads st (cs ++ (amount ++ [c])) := by
  cases hd : digit? c <;> simp only [Span.step, hd] at hstep
  case some d =>
    obtain ⟨m, hm, hstep⟩ := exists_of_bind_eq_ok hstep
    obtain ⟨hlt, rfl⟩ := word_eq_ok_iff.mp hm
    cases hstep
    exact .amount h (hamount.concat_digit hd hlt)
  case none =>
    split at hstep
    · rename_i hc
      cases hstep
      exact .amount h (hamount.concat_blank hc)
    split at hstep
    · cases hstep
      exact .unit h (.whole hamount)
    split at hstep
    · rename_i hc
      cases hstep
      subst hc
      exact .fraction h hamount isDecimals_nil
    · cases hstep

theorem IsSumOf.step_fraction {amount decimals : List Char} {d : Decimals} {mark : Nat}
    (h : IsSumOf spans sum cs) (hamount : IsAmount n amount) (hdecimals : IsDecimals d decimals)
    (hstep : Span.step offset c ⟨sum, .fraction n d mark⟩ = .ok st) :
    Reads st (cs ++ (amount ++ '.' :: (decimals ++ [c]))) := by
  cases hd : digit? c <;> simp only [Span.step, hd] at hstep
  case some e =>
    obtain ⟨m, hm, hstep⟩ := exists_of_bind_eq_ok hstep
    obtain ⟨hlt, -⟩ := word_eq_ok_iff.mp hm
    cases hstep
    exact .fraction h hamount (hdecimals.concat_digit hd (pow_lt_iff.mp hlt))
  case none =>
    split at hstep
    · rename_i hc
      cases hstep
      exact .fraction h hamount (hdecimals.concat_blank hc)
    split at hstep
    · rename_i hc
      cases hstep
      rw [Bool.and_eq_true, bne_iff_ne] at hc
      have hunit : Reads ⟨sum, .unit n (some d) [c]⟩ _ :=
        .unit h (.decimals hamount hdecimals hc.2)
      simpa using hunit
    · cases hstep

/-- A unit is closed by a digit or a blank, which do not belong to it. -/
theorem IsSumOf.step_unit (h : IsSumOf spans sum cs) (hnumber : WritesNumber n f number)
    (hstep : Span.step offset c ⟨sum, .unit n f letters⟩ = .ok st) :
    Reads st (cs ++ (number ++ letters.reverse) ++ [c]) := by
  cases hd : digit? c <;> simp only [Span.step, hd] at hstep
  case some d =>
    obtain ⟨sum', hclose, hstep⟩ := exists_of_bind_eq_ok hstep
    cases hstep
    obtain ⟨s, hs, hsum'⟩ := h.exists_close hnumber hclose nofun
    exact .amount ⟨hs, hsum'⟩ (isAmount_digit hd)
  case none =>
    split at hstep
    · rename_i hc
      obtain ⟨sum', hclose, hstep⟩ := exists_of_bind_eq_ok hstep
      cases hstep
      obtain ⟨s, hs, hsum'⟩ := h.exists_close hnumber hclose nofun
      exact .between ⟨hs.blank hc, hsum'⟩ (by simp)
    split at hstep
    · cases hstep
      have hunit : Reads ⟨sum, .unit n f (c :: letters)⟩ _ := .unit h hnumber
      simpa using hunit
    · cases hstep

end Stages

/-- Each character that is read extends the text of its stage. -/
theorem Reads.step {st st' : State} {cs : List Char} {offset : Nat} {c : Char} (h : Reads st cs)
    (hstep : Span.step offset c st = .ok st') : Reads st' (cs ++ [c]) := by
  cases h with
  | between h hfirst => exact h.step_between hfirst hstep
  | amount h hamount =>
    rw [List.append_assoc]
    exact h.step_amount hamount hstep
  | fraction h hamount hdecimals =>
    rw [List.append_assoc, List.append_assoc]
    exact h.step_fraction hamount hdecimals hstep
  | unit h hnumber => exact h.step_unit hnumber hstep

theorem reads_start : Reads ⟨{}, .between true 0⟩ [] := .between ⟨.nil, rfl⟩ (by simp)

/-- A sum that comes of a text is that of its spans. -/
theorem Reads.run_ok {st : State} {front cs : List Char} {offset : Nat} {d : Duration}
    (h : Reads st front) (hrun : run offset st cs = .ok d) :
    ∃ spans, spans ≠ [] ∧ IsSumOf spans d (front ++ cs) := by
  induction cs generalizing st front offset with
  | nil =>
    rw [List.append_nil]
    rw [run] at hrun
    cases h with
    | @between spans _ _ first _ h hfirst =>
      cases first with
      | true => cases hrun
      | false =>
        cases hrun
        exact ⟨spans, fun hnil => Bool.false_ne_true (hfirst.mpr hnil), h⟩
    | amount => cases hrun
    | fraction =>
      simp only [finish] at hrun
      split at hrun <;> cases hrun
    | unit h hnumber =>
      obtain ⟨s, hs, hsum'⟩ := h.exists_close hnumber hrun nofun
      exact ⟨_, by simp, hs, hsum'⟩
  | cons c cs ih =>
    obtain ⟨st', hstep, hrest⟩ := exists_of_bind_eq_ok hrun
    have hspans := ih (h.step hstep) hrest
    rwa [List.append_assoc] at hspans

/-- The program ends only where a unit is closed. -/
theorem close_of_step_abort {st : State} {c : Char} {offset : Nat}
    (h : Span.step offset c st = .error .abort) :
    ∃ n f letters, st.stage = .unit n f letters ∧ close st.sum n f letters = .error .abort ∧
      (isBlank c = true ∨ ∃ d, digit? c = some d) := by
  obtain ⟨sum, stage⟩ := st
  cases stage with
  | between first mark =>
    cases hd : digit? c <;> simp only [Span.step, hd] at h
    · split at h <;> cases h
    · cases h
  | amount n =>
    cases hd : digit? c <;> simp only [Span.step, hd] at h
    · repeat' split at h
      all_goals cases h
    · rcases bind_eq_error_iff.mp h with h | ⟨m, -, h⟩
      · exact absurd h (word_ne_abort _)
      · cases h
  | fraction n f mark =>
    cases hd : digit? c <;> simp only [Span.step, hd] at h
    · repeat' split at h
      all_goals cases h
    · rcases bind_eq_error_iff.mp h with h | ⟨m, -, h⟩
      · exact absurd h (word_ne_abort _)
      · cases h
  | unit n f letters =>
    refine ⟨n, f, letters, rfl, ?_⟩
    cases hd : digit? c <;> simp only [Span.step, hd] at h
    · split at h
      · rename_i hc
        rcases bind_eq_error_iff.mp h with h | ⟨sum', -, h⟩
        · exact ⟨h, .inl hc⟩
        · cases h
      · split at h <;> cases h
    · rename_i d
      rcases bind_eq_error_iff.mp h with h | ⟨sum', -, h⟩
      · exact ⟨h, .inr ⟨d, rfl⟩⟩
      · cases h

/-- Where the program ends, the spans read so far cannot be added. -/
theorem Reads.run_abort {st : State} {front cs : List Char} {offset : Nat}
    (h : Reads st front) (hrun : run offset st cs = .error .abort) :
    ∃ spans written rest, front ++ cs = written ++ rest ∧ EndsUnit rest ∧
      WritesSum spans written ∧ spans.foldlM addTo {} = .error .abort := by
  induction cs generalizing st front offset with
  | nil =>
    rw [run] at hrun
    cases h with
    | @between _ _ _ first => cases first <;> cases hrun
    | amount => cases hrun
    | fraction =>
      simp only [finish] at hrun
      split at hrun <;> cases hrun
    | unit h hnumber =>
      obtain ⟨s, hs, hsum'⟩ := h.exists_close hnumber hrun nofun
      exact ⟨_, _, [], rfl, endsUnit_nil, hs, hsum'⟩
  | cons c cs ih =>
    rcases bind_eq_error_iff.mp hrun with hstep | ⟨st', hstep, hrest⟩
    · obtain ⟨n, f, letters, hstage, hclose, hends⟩ := close_of_step_abort hstep
      cases h <;> cases hstage
      rename_i h hnumber
      obtain ⟨s, hs, hsum'⟩ := h.exists_close hnumber hclose nofun
      refine ⟨_, _, c :: cs, rfl, fun b hb => ?_, hs, hsum'⟩
      cases hb
      exact hends
    · have hspans := ih (h.step hstep) hrest
      rwa [List.append_assoc] at hspans

/-! ## Reading what is written -/

/-- Reading a text leads from one state to some state with a property, whatever follows. -/
def Leads (st : State) (cs : List Char) (p : State → Prop) : Prop :=
  ∀ offset rest, ∃ offset' st', p st' ∧ run offset st (cs ++ rest) = run offset' st' rest

section Leads

variable {st : State} {p q : State → Prop} {c : Char} {cs cs' : List Char}

theorem leads_nil (h : p st) : Leads st [] p := fun offset _ => ⟨offset, st, h, rfl⟩

theorem leads_cons (h : ∀ offset, ∃ st', Span.step offset c st = .ok st' ∧ Leads st' cs p) :
    Leads st (c :: cs) p := by
  intro offset rest
  obtain ⟨st', hstep, hleads⟩ := h offset
  obtain ⟨offset', st'', hp, hrun⟩ := hleads (offset + c.utf8Size) rest
  refine ⟨offset', st'', hp, ?_⟩
  rw [List.cons_append, run, hstep, ok_bind, hrun]

theorem Leads.append (h : Leads st cs p) (h' : ∀ st', p st' → Leads st' cs' q) :
    Leads st (cs ++ cs') q := by
  intro offset rest
  obtain ⟨offset', st', hp, hrun⟩ := h offset (cs' ++ rest)
  obtain ⟨offset'', st'', hq, hrun'⟩ := h' st' hp offset' rest
  exact ⟨offset'', st'', hq, by rw [List.append_assoc, hrun, hrun']⟩

end Leads

section Forward

variable {sum : Duration} {n m : Nat} {c : Char} {cs : List Char}

theorem leads_digits (hread : readDigits n (digitsOf cs) = some m) (hlt : m < 2 ^ 64) :
    Leads ⟨sum, .amount n⟩ cs (· = ⟨sum, .amount m⟩) := by
  induction cs generalizing n with
  | nil =>
    obtain rfl : n = m := Option.some.inj hread
    exact leads_nil rfl
  | cons c cs ih =>
    refine leads_cons fun offset => ?_
    rcases digitsOf_cases hread with ⟨hc, hd, heq⟩ | ⟨d, hd, -, hrest⟩
    · exact ⟨_, by simp only [Span.step, hd, hc, if_true], ih (heq ▸ hread)⟩
    · have hword : word (n * 10 + d) = .ok (n * 10 + d) :=
        word_of_lt ((le_of_readDigits hrest).trans_lt hlt)
      exact ⟨_, by simp only [Span.step, hd, hword, ok_bind]; rfl, ih hrest⟩

theorem leads_amount {first : Bool} {mark : Nat} (h : IsAmount n cs) :
    Leads ⟨sum, .between first mark⟩ cs (· = ⟨sum, .amount n⟩) := by
  obtain ⟨c, rest, d, rfl, hd⟩ := h.head
  have hread := h.read
  rw [digitsOf_cons (isBlank_of_digit? hd), readDigits, hd, Option.bind_some, zero_mul,
    zero_add] at hread
  exact leads_cons fun offset => ⟨_, by simp only [Span.step, hd], leads_digits hread h.lt⟩

theorem leads_fraction {f : Decimals} {value count mark : Nat}
    (hread : readDigits f.value (digitsOf cs) = some value)
    (hcount : f.count + (digitsOf cs).length = count) (hle : count ≤ 19) :
    Leads ⟨sum, .fraction n f mark⟩ cs
      fun st => ∃ mark', st = ⟨sum, .fraction n ⟨value, count⟩ mark'⟩ := by
  induction cs generalizing f mark with
  | nil =>
    obtain rfl : f.value = value := Option.some.inj hread
    obtain rfl : f.count = count := hcount
    exact leads_nil ⟨mark, rfl⟩
  | cons c cs ih =>
    refine leads_cons fun offset => ?_
    rcases digitsOf_cases hread with ⟨hc, hd, heq⟩ | ⟨d, hd, heq, hrest⟩
    · exact ⟨_, by simp only [Span.step, hd, hc, if_true],
        @ih f (offset + c.utf8Size) (heq ▸ hread) (heq ▸ hcount)⟩
    · rw [heq, List.length_cons] at hcount
      have hword : word (Nat.pow 10 (f.count + 1)) = .ok (10 ^ (f.count + 1)) :=
        word_of_lt (pow_lt_iff.mpr (by omega))
      exact ⟨_, by simp only [Span.step, hd, hword, ok_bind]; rfl,
        ih hrest (by simp only; omega)⟩

/-- A letter is neither a digit nor a blank. -/
theorem not_digit_of_isUnitLetter (h : isUnitLetter c = true) :
    digit? c = none ∧ isBlank c = false := by
  have hrange : (97 ≤ c.toNat ∧ c.toNat ≤ 122) ∨ (65 ≤ c.toNat ∧ c.toNat ≤ 90) ∨
      c.toNat = 181 := by
    simp only [isUnitLetter, Bool.or_eq_true, Bool.and_eq_true, decide_eq_true_eq, beq_iff_eq,
      Char.le_def, UInt32.le_iff_toNat_le, or_assoc] at h
    change (97 ≤ c.toNat ∧ c.toNat ≤ 122) ∨ (65 ≤ c.toNat ∧ c.toNat ≤ 90) ∨ c = 'µ' at h
    exact h.imp_right (Or.imp_right fun hc => congrArg Char.toNat hc)
  constructor
  · rw [Option.eq_none_iff_forall_ne_some]
    intro d hd
    obtain ⟨hlt, rfl⟩ := digit?_eq_some hd
    revert d
    decide
  · simp only [isBlank, Bool.or_eq_false_iff, Bool.and_eq_false_iff, decide_eq_false_iff_not,
      beq_eq_false_iff_ne]
    omega

theorem leads_letters {f : Option Decimals} {letters name : List Char}
    (hname : ∀ c ∈ name, isUnitLetter c = true) : Leads ⟨sum, .unit n f letters⟩ name
      (· = ⟨sum, .unit n f (name.reverse ++ letters)⟩) := by
  induction name generalizing letters with
  | nil => exact leads_nil rfl
  | cons c name ih =>
    rw [List.forall_mem_cons] at hname
    obtain ⟨hd, hc⟩ := not_digit_of_isUnitLetter hname.1
    rw [List.reverse_cons, List.append_assoc]
    refine leads_cons fun offset => ⟨_, ?_, ih hname.2⟩
    simp only [Span.step, hd, hc, hname.1, Bool.false_eq_true, if_false, if_true]
    rfl

/-- A number and the name of a unit. -/
theorem leads_span {first : Bool} {mark : Nat} {f : Option Decimals} {number name : List Char}
    (hnumber : WritesNumber n f number) (hne : name ≠ [])
    (hname : ∀ c ∈ name, isUnitLetter c = true) :
    Leads ⟨sum, .between first mark⟩ (number ++ name) (· = ⟨sum, .unit n f name.reverse⟩) := by
  obtain ⟨c, name, rfl⟩ := List.exists_cons_of_ne_nil hne
  rw [List.forall_mem_cons] at hname
  obtain ⟨hd, hc⟩ := not_digit_of_isUnitLetter hname.1
  rw [List.reverse_cons]
  cases hnumber with
  | whole hamount =>
    refine (leads_amount hamount).append fun st hst => ?_
    subst hst
    refine leads_cons fun offset => ⟨_, ?_, leads_letters hname.2⟩
    simp only [Span.step, hd, hc, hname.1, Bool.false_eq_true, if_false, if_true]
  | @decimals amount decimals f hamount hdecimals hcount =>
    rw [List.append_assoc]
    refine (leads_amount hamount).append fun st hst => ?_
    subst hst
    refine leads_cons fun offset => ⟨_, by simp only [Span.step]; rfl, ?_⟩
    have hfraction : Leads ⟨sum, .fraction n ⟨0, 0⟩ offset⟩ decimals _ :=
      leads_fraction hdecimals.read ((Nat.zero_add _).trans hdecimals.count) hdecimals.le
    refine hfraction.append fun st hst => ?_
    obtain ⟨mark', rfl⟩ := hst
    refine leads_cons fun offset => ⟨_, ?_, leads_letters hname.2⟩
    simp only [Span.step, hd, hc, hname.1, Bool.false_eq_true, if_false, Bool.true_and,
      bne_iff_ne, ne_eq, hcount, not_false_eq_true, if_true]

/-- The names of units are made of letters. -/
theorem isUnitLetter_of_ofName? {name : List Char} {u : TimeUnit}
    (h : TimeUnit.ofName? (String.ofList name) = some u) :
    name ≠ [] ∧ ∀ c ∈ name, isUnitLetter c = true := by
  have hlist {names : List String} (hall : names.all (·.toList.all isUnitLetter) = true)
      (hname : names.contains (String.ofList name) = true) : ∀ c ∈ name, isUnitLetter c = true := by
    have hletters := List.all_eq_true.mp hall _ (List.contains_iff_mem.mp hname)
    rw [String.toList_ofList] at hletters
    exact List.all_eq_true.mp hletters
  constructor
  · rintro rfl
    cases h
  · unfold TimeUnit.ofName? at h
    repeat' split at h
    all_goals first | (rename_i hname; exact hlist (by decide +kernel) hname) | cases h

/-- At the end of its unit a span is added. -/
theorem exists_run_of_endsUnit {rest : List Char} (h : EndsUnit rest) (sum : Duration) (n : Nat)
    (f : Option Decimals) (letters : List Char) (offset : Nat) :
    ∃ mark, run offset ⟨sum, .unit n f letters⟩ rest =
      close sum n f letters >>= fun sum' => run offset ⟨sum', .between false mark⟩ rest := by
  cases rest with
  | nil => exact ⟨0, (bind_pure _).symm⟩
  | cons c rest =>
    refine ⟨offset + c.utf8Size, ?_⟩
    rw [run]
    rcases h c rfl with hc | ⟨d, hd⟩
    · have hd := digit?_of_isBlank hc
      simp only [Span.step, hd, hc, if_true, bind_assoc, run, ok_bind]
      rfl
    · simp only [Span.step, hd, bind_assoc, run, ok_bind]
      rfl

theorem WritesNumber.exists_digit {f : Option Decimals} {number : List Char}
    (h : WritesNumber n f number) : ∃ c rest d, number = c :: rest ∧ digit? c = some d := by
  cases h with
  | whole hamount => exact hamount.head
  | decimals hamount =>
    obtain ⟨c, rest, d, rfl, hd⟩ := hamount.head
    exact ⟨c, _, d, rfl, hd⟩

end Forward

/-- A sum that is written is read span by span. -/
theorem WritesSum.exists_run {spans : List Span} {cs rest : List Char} (h : WritesSum spans cs)
    (hrest : EndsUnit rest) : ∃ offset first mark, (first = true ↔ spans = []) ∧
      run 0 ⟨{}, .between true 0⟩ (cs ++ rest) =
        spans.foldlM addTo {} >>= fun sum => run offset ⟨sum, .between first mark⟩ rest := by
  induction h generalizing rest with
  | nil => exact ⟨0, true, 0, by simp, rfl⟩
  | @blank spans cs c h hc ih =>
    have hends : EndsUnit (c :: rest) := fun b hb => .inl (Option.some.inj hb ▸ hc)
    obtain ⟨offset, first, mark, hfirst, hrun⟩ := ih hends
    refine ⟨offset + c.utf8Size, first, mark, hfirst, ?_⟩
    rw [List.append_assoc, List.singleton_append, hrun]
    simp only [run, Span.step, digit?_of_isBlank hc, hc, if_true, ok_bind]
  | @span spans cs s text h hs ih =>
    obtain @⟨n, f, u, number, name, hnumber, hname⟩ := hs
    obtain ⟨hne, hletters⟩ := isUnitLetter_of_ofName? hname
    obtain ⟨c, tail, d, hnum, hd⟩ := hnumber.exists_digit
    have hends : EndsUnit (number ++ name ++ rest) := fun b hb => by
      subst hnum
      cases hb
      exact .inr ⟨d, hd⟩
    obtain ⟨offset, first, mark, -, hrun⟩ := ih hends
    rw [List.append_assoc, hrun]
    cases hsum : spans.foldlM addTo {} with
    | error fault =>
      refine ⟨0, false, 0, by simp, ?_⟩
      rw [List.foldlM_append, hsum]
      rfl
    | ok sum =>
      -- The letters of the unit are kept until something else than a letter ends it.
      have hleads : Leads ⟨sum, .between first mark⟩ (number ++ name) _ :=
        leads_span hnumber hne hletters
      obtain ⟨offset', st, rfl, hspan⟩ := hleads offset rest
      obtain ⟨mark', hend⟩ := exists_run_of_endsUnit hrest sum n f name.reverse offset'
      refine ⟨offset', false, mark', by simp, ?_⟩
      rw [ok_bind, hspan, hend, close, List.reverse_reverse, hname, foldlM_concat hsum]

end Span

/-! ## Results -/

open Telemetry.Span

/-- A single zero is no span. -/
theorem Span.run_zero : run 0 ⟨{}, .between true 0⟩ ['0'] = .error (.unknownUnit "" 0) := rfl

theorem Duration.parse_eq_ok_iff {cs : List Char} {d : Duration} : Duration.parse cs = .ok d ↔
    (cs = ['0'] ∧ d = {}) ∨
      ∃ spans, spans ≠ [] ∧ IsSumOf spans d cs := by
  have hrun (spans : List Span) (hne : spans ≠ []) (h : IsSumOf spans d cs) :
      run 0 ⟨{}, .between true 0⟩ cs = .ok d := by
    obtain ⟨offset, first, mark, hfirst, hrun⟩ := h.writes.exists_run endsUnit_nil
    rw [List.append_nil, h.sum_eq, ok_bind, run, finish] at hrun
    rw [hrun]
    exact if_neg fun h => hne (hfirst.mp h)
  rw [Duration.parse]
  split
  · rename_i hcs
    subst hcs
    constructor
    · intro h
      exact .inl ⟨rfl, (Except.ok.inj h).symm⟩
    · rintro (⟨-, rfl⟩ | ⟨spans, hne, h⟩)
      · rfl
      · have hzero := hrun spans hne h
        rw [run_zero] at hzero
        cases hzero
  · rename_i hcs
    rw [or_iff_right fun h => hcs h.1]
    constructor
    · exact reads_start.run_ok
    · rintro ⟨spans, hne, h⟩
      exact hrun spans hne h

theorem Duration.parse_eq_abort_iff {cs : List Char} : Duration.parse cs = .error .abort ↔
    ∃ spans written rest, cs = written ++ rest ∧ EndsUnit rest ∧ WritesSum spans written ∧
      spans.foldlM addTo {} = .error .abort := by
  have hrun : run 0 ⟨{}, .between true 0⟩ cs = .error .abort ↔
      ∃ spans written rest, cs = written ++ rest ∧ EndsUnit rest ∧ WritesSum spans written ∧
        spans.foldlM addTo {} = .error .abort := by
    constructor
    · exact reads_start.run_abort
    · rintro ⟨spans, written, rest, rfl, hrest, h, hsum⟩
      obtain ⟨offset, first, mark, -, hrun⟩ := h.exists_run hrest
      rw [hrun, hsum]
      rfl
  rw [← hrun, Duration.parse]
  split
  · rename_i hcs
    subst hcs
    rw [run_zero]
    exact iff_of_false nofun nofun
  · rfl

end Telemetry
