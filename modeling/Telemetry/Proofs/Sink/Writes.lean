import Mathlib
import Telemetry.Sink

/-! Writing lines to a sink. Lines that it takes are written with their ends, and flushed
(`Sink.Takes.eq`). A sink that never fails takes all lines, however many bytes it takes at a time
(`Sink.writeLine_of_neverFails`). -/

namespace Telemetry

namespace SinkLimits

/-- Every write takes some of the bytes that it is given, and no flush fails. -/
structure NeverFails (l : SinkLimits) : Prop where
  write : ∀ used n, 0 < n → ∃ m, l.accept used n = .ok (m + 1)
  flush : ∀ count, l.failFlush ≠ some (count + 1)

theorem toBreak_le (used n : Nat) (breaks : List Nat) : toBreak used n breaks ≤ n := by
  induction breaks generalizing n with
  | nil => exact Nat.le_refl n
  | cons b breaks ih =>
    rw [toBreak]
    refine (ih _).trans ?_
    split <;> omega

theorem toBreak_pos {n : Nat} (used : Nat) (breaks : List Nat) (h : 0 < n) :
    0 < toBreak used n breaks := by
  induction breaks generalizing n with
  | nil => exact h
  | cons b breaks ih =>
    rw [toBreak]
    apply ih
    split <;> omega

theorem piece_le (l : SinkLimits) (used n : Nat) : l.piece used n ≤ n := by
  have h := toBreak_le used n l.breaks
  rw [piece]
  cases l.chunk with
  | none => exact h
  | some k => exact (Nat.min_le_right ..).trans h

theorem piece_pos {l : SinkLimits} (hk : l.chunk ≠ some 0) (used : Nat) {n : Nat} (h : 0 < n) :
    0 < l.piece used n := by
  have hb := toBreak_pos used l.breaks h
  rw [piece]
  cases hc : l.chunk with
  | none => exact hb
  | some k =>
    have hk : k ≠ 0 := fun he => hk (he ▸ hc)
    exact Nat.lt_min.mpr ⟨Nat.pos_of_ne_zero hk, hb⟩

theorem accept_le {l : SinkLimits} {used n m : Nat} (h : l.accept used n = .ok m) : m ≤ n := by
  rw [accept] at h
  split at h
  · cases h
    exact l.piece_le used n
  · split at h
    · split at h
      · cases h
        exact Nat.zero_le n
      · cases h
    · cases h
      exact (l.piece_le used _).trans (Nat.min_le_right ..)

/-- A writing without a fault writes all bytes. -/
theorem acceptAll_eq_of_none {l : SinkLimits} {used n m : Nat}
    (h : l.acceptAll used n = (m, none)) : m = n := by
  induction n using Nat.strong_induction_on generalizing used m with
  | _ n ih =>
    rw [acceptAll] at h
    split at h
    · cases h
      exact Eq.symm ‹n = 0›
    · split at h
      · cases h
      · cases h
      · rename_i k hk
        have hle := accept_le hk
        rcases hr : l.acceptAll (used + (k + 1)) (n - (k + 1)) with ⟨rest, fault⟩
        rw [hr] at h
        cases h
        rw [ih (n - (k + 1)) (by omega) hr]
        omega

/-- A sink of any size of pieces never fails if it has room for all bytes and no flush fails. -/
theorem neverFails_of_unlimited {l : SinkLimits} (hc : l.capacity = none)
    (hk : l.chunk ≠ some 0) (hf : l.failFlush = none) : l.NeverFails where
  write := by
    intro used n hn
    obtain ⟨m, hm⟩ := Nat.exists_eq_succ_of_ne_zero (piece_pos hk used hn).ne'
    exact ⟨m, by rw [accept, hc, hm]⟩
  flush := by simp [hf]

/-- All bytes are taken, by induction on how many are left, if on the way there every write takes at
least one. -/
theorem acceptAll_of_accept {l : SinkLimits} {used n : Nat}
    (h : ∀ used' n', used' + n' = used + n → 0 < n' → ∃ m, l.accept used' n' = .ok (m + 1)) :
    l.acceptAll used n = (n, none) := by
  induction n using Nat.strong_induction_on generalizing used with
  | _ n ih =>
    rw [SinkLimits.acceptAll]
    split
    · rename_i hn
      rw [hn]
    · rename_i hn
      obtain ⟨m, hm⟩ := h used n rfl (Nat.pos_of_ne_zero hn)
      have hle := accept_le hm
      have hrest : l.acceptAll (used + (m + 1)) (n - (m + 1)) = (n - (m + 1), none) :=
        ih _ (by omega) fun used' n' he hpos => h used' n' (by omega) hpos
      rw [hm]
      simp only [hrest]
      rw [Nat.add_sub_of_le hle]

theorem NeverFails.acceptAll {l : SinkLimits} (h : l.NeverFails) (used n : Nat) :
    l.acceptAll used n = (n, none) :=
  acceptAll_of_accept fun used' n' _ hn => h.write used' n' hn

end SinkLimits

namespace Sink

/-- The bytes of lines that are printed: each line and its end. -/
def printed (lines : List String) : Bytes :=
  lines.flatMap fun line => Text.utf8 line ++ [lineEnd]

theorem printed_singleton (line : String) : printed [line] = Text.utf8 line ++ [lineEnd] :=
  List.append_nil _

theorem printed_append (lines more : List String) :
    printed (lines ++ more) = printed lines ++ printed more := List.flatMap_append

theorem writeAll_eq_of_none {s t : Sink} {bs : Bytes} (h : s.writeAll bs = (t, none)) :
    t = { s with written := s.written ++ bs } := by
  rcases hn : s.limits.acceptAll s.written.length bs.length with ⟨n, fault⟩
  rw [writeAll, hn] at h
  cases h
  rw [SinkLimits.acceptAll_eq_of_none hn, List.take_length]

theorem flush_eq_of_none {s t : Sink} (h : s.flush = (t, none)) :
    t = { s with flushes := s.flushes + 1 } := (Prod.mk.inj h).1.symm

theorem writeLine_eq_of_none {s t : Sink} {line : String} (h : s.writeLine line = (t, none)) :
    t = { s with written := s.written ++ printed [line], flushes := s.flushes + 1 } := by
  rw [writeLine] at h
  split at h
  · cases h
  · rename_i ht
    split at h
    · cases h
    · rename_i he
      rw [flush_eq_of_none h, writeAll_eq_of_none he, writeAll_eq_of_none ht]
      simp [printed]

/-- The sink takes lines: each is written with its end, and flushed. -/
inductive Takes : Sink → List String → Sink → Prop
  | nil {s : Sink} : Takes s [] s
  | cons {s t u : Sink} {line : String} {lines : List String} : s.writeLine line = (t, none) →
    Takes t lines u → Takes s (line :: lines) u

theorem Takes.eq {s t : Sink} {lines : List String} (h : s.Takes lines t) :
    t = { s with written := s.written ++ printed lines,
                 flushes := s.flushes + lines.length } := by
  induction h with
  | nil => simp [printed]
  | cons hw _ ih =>
    rw [ih, writeLine_eq_of_none hw]
    simp [printed, Nat.add_assoc, Nat.add_comm 1]

/-- Writing or flushing one of the lines fails, after those before it have been taken. -/
def FailsOn (s : Sink) (lines : List String) : Prop :=
  ∃ before line after t u fault, lines = before ++ line :: after ∧ s.Takes before t ∧
    t.writeLine line = (u, some fault)

theorem Takes.not_failsOn {s t : Sink} {lines : List String} (h : s.Takes lines t) :
    ¬s.FailsOn lines := by
  rintro ⟨before, line, after, r, u, fault, rfl, hb, hf⟩
  induction hb with
  | nil =>
    cases h with
    | cons hw _ =>
      rw [hw] at hf
      cases hf
  | cons hw _ ih =>
    cases h with
    | cons hw' h =>
      rw [hw] at hw'
      cases hw'
      exact ih h hf

section NeverFails

variable {s : Sink} (h : s.limits.NeverFails)

include h

theorem writeAll_of_neverFails (bs : Bytes) :
    s.writeAll bs = ({ s with written := s.written ++ bs }, none) := by
  rw [writeAll, h.acceptAll]
  simp

theorem flush_of_neverFails : s.flush = ({ s with flushes := s.flushes + 1 }, none) := by
  simp [flush, h.flush s.flushes]

theorem writeLine_of_neverFails (line : String) :
    s.writeLine line =
      ({ s with written := s.written ++ printed [line], flushes := s.flushes + 1 }, none) := by
  have hw := writeAll_of_neverFails h (Text.utf8 line)
  rw [writeLine, hw]
  dsimp only
  rw [writeAll_of_neverFails (by exact h)]
  dsimp only
  rw [flush_of_neverFails (by exact h)]
  simp [printed]

theorem writeLines_of_neverFails (lines : List String) :
    s.writeLines lines = ({ s with written := s.written ++ printed lines }, none) := by
  induction lines generalizing s with
  | nil => simp [writeLines, printed]
  | cons line lines ih =>
    rw [writeLines, writeAll_of_neverFails h]
    dsimp only
    rw [ih (by exact h)]
    simp [printed]

end NeverFails

end Sink

end Telemetry
