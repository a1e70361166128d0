import Telemetry.Proofs.Sink.Writes

/-! Lines on a sink of limited capacity. What a print leaves in the sink and how it ends follow from
the lines alone (`Sink.Prints.ends`): a full sink ends it at the very byte that finds no room, in
whatever pieces the bytes before it are taken, and a flush that fails ends it after a whole line. -/

namespace Telemetry

namespace SinkLimits

/-- There is room for `n` bytes in all. -/
def HasRoom (l : SinkLimits) (n : Nat) : Prop := ∀ c, l.capacity = some c → n ≤ c

/-- The fault of a write to a full sink. -/
def fullFault (l : SinkLimits) : SinkFault := if l.zeroAtCapacity then .nothingWritten else .closed

theorem HasRoom.mono {l : SinkLimits} {m n : Nat} (h : l.HasRoom n) (hm : m ≤ n) : l.HasRoom m :=
  fun c hc => hm.trans (h c hc)

theorem exists_of_not_hasRoom {l : SinkLimits} {n : Nat} (h : ¬l.HasRoom n) :
    ∃ c, l.capacity = some c ∧ c < n := by
  simpa [HasRoom] using h

section Pieces

variable {l : SinkLimits} (hk : l.chunk ≠ some 0)

include hk

theorem accept_of_room {used n : Nat} (h : l.HasRoom (used + n)) (hn : 0 < n) :
    ∃ m, l.accept used n = .ok (m + 1) := by
  obtain ⟨m, hm⟩ := Nat.exists_eq_succ_of_ne_zero (piece_pos hk used hn).ne'
  refine ⟨m, ?_⟩
  rw [accept]
  cases hc : l.capacity with
  | none => rw [hm]
  | some c =>
    have hroom : used + n ≤ c := h c hc
    have hmin : min (c - used) n = n := Nat.min_eq_right (by omega)
    dsimp only
    rw [if_neg (by omega), hmin, hm]

theorem acceptAll_of_room {used n : Nat} (h : l.HasRoom (used + n)) :
    l.acceptAll used n = (n, none) :=
  acceptAll_of_accept fun _ _ he hn => accept_of_room hk (he ▸ h) hn

/-- The bytes are taken up to the capacity, by induction on how many are left, and the next write
meets the fault. -/
theorem acceptAll_of_full {c used n : Nat} (hc : l.capacity = some c) (hu : used ≤ c)
    (hn : c < used + n) : l.acceptAll used n = (c - used, some l.fullFault) := by
  induction n using Nat.strong_induction_on generalizing used with
  | _ n ih =>
    rw [acceptAll, if_neg (by omega), accept, hc]
    dsimp only
    by_cases hfull : c ≤ used
    · have hzero : c - used = 0 := Nat.sub_eq_zero_of_le hfull
      rw [if_pos hfull, hzero, fullFault]
      cases l.zeroAtCapacity <;> rfl
    · have hmin : min (c - used) n = c - used := Nat.min_eq_left (by omega)
      have hle := l.piece_le used (c - used)
      obtain ⟨m, hm⟩ := Nat.exists_eq_succ_of_ne_zero
        (piece_pos hk used (n := c - used) (by omega)).ne'
      have hrest : l.acceptAll (used + (m + 1)) (n - (m + 1)) =
          (c - (used + (m + 1)), some l.fullFault) :=
        ih _ (by omega) (by omega) (by omega)
      rw [if_neg hfull, hmin, hm]
      simp only [hrest, Prod.mk.injEq, and_true]
      omega

end Pieces

end SinkLimits

namespace Sink

/-- Not all lines can be printed: the sink has no room for them, or a flush after one fails. -/
def Exceeds (l : SinkLimits) (lines : List String) : Prop :=
  ¬l.HasRoom (printed lines).length ∨ ∃ n, l.failFlush = some (n + 1) ∧ n < lines.length

theorem printed_length_le {lines more : List String} (h : lines <+: more) :
    (printed lines).length ≤ (printed more).length := by
  obtain ⟨rest, rfl⟩ := h
  rw [printed_append, List.length_append]
  exact Nat.le_add_right ..

section Room

variable {s : Sink} (hk : s.limits.chunk ≠ some 0)

include hk

theorem writeAll_of_room {bs : Bytes} (h : s.limits.HasRoom (s.written ++ bs).length) :
    s.writeAll bs = ({ s with written := s.written ++ bs }, none) := by
  rw [List.length_append] at h
  rw [writeAll, SinkLimits.acceptAll_of_room hk h]
  simp

theorem writeAll_of_full {c : Nat} (hc : s.limits.capacity = some c) {bs : Bytes}
    (hu : s.written.length ≤ c) (hn : c < (s.written ++ bs).length) :
    s.writeAll bs =
      ({ s with written := (s.written ++ bs).take c }, some s.limits.fullFault) := by
  rw [List.length_append] at hn
  rw [writeAll, SinkLimits.acceptAll_of_full hk hc hu hn, List.take_append,
    List.take_of_length_le hu]

/-- A line that finds room is written, and then all hangs on the flush. -/
theorem writeLine_of_room {line : String}
    (h : s.limits.HasRoom (s.written ++ printed [line]).length) :
    s.writeLine line = ({ s with written := s.written ++ printed [line] } : Sink).flush := by
  rw [printed_singleton, ← List.append_assoc] at h ⊢
  have hline : s.limits.HasRoom (s.written ++ Text.utf8 line).length :=
    h.mono (List.prefix_append ..).length_le
  rw [writeLine, writeAll_of_room hk hline]
  dsimp only
  rw [writeAll_of_room (by exact hk) h]

/-- A line that finds no room fills the sink, and is not flushed. If only its end finds none, it is
the write of the end that fails. -/
theorem writeLine_of_full {c : Nat} (hc : s.limits.capacity = some c) {line : String}
    (hu : s.written.length ≤ c) (hn : c < (s.written ++ printed [line]).length) :
    s.writeLine line =
      ({ s with written := (s.written ++ printed [line]).take c }, some s.limits.fullFault) := by
  rw [printed_singleton, ← List.append_assoc] at hn ⊢
  rw [writeLine]
  by_cases hline : (s.written ++ Text.utf8 line).length ≤ c
  · have hroom : s.limits.HasRoom (s.written ++ Text.utf8 line).length := by
      intro c' hc'
      rw [hc, Option.some.injEq] at hc'
      exact hc' ▸ hline
    rw [writeAll_of_room hk hroom]
    dsimp only
    rw [writeAll_of_full (by exact hk) (by exact hc) (by exact hline) hn]
  · have hlt := Nat.lt_of_not_le hline
    rw [writeAll_of_full hk hc hu hlt, List.take_append_of_le_length hlt.le]

end Room

/-- Lines are printed up to the first fault. -/
inductive Prints (s : Sink) : List String → Sink → Option SinkFault → Prop
  | done {t : Sink} {lines : List String} : s.Takes lines t → Prints s lines t none
  | failed {r t : Sink} {before after : List String} {line : String} {fault : SinkFault} :
    s.Takes before r → r.writeLine line = (t, some fault) →
    Prints s (before ++ line :: after) t (some fault)

theorem Takes.append {s t u : Sink} {lines more : List String} (h : s.Takes lines t)
    (hm : t.Takes more u) : s.Takes (lines ++ more) u := by
  induction h with
  | nil => exact hm
  | cons hw _ ih => exact .cons hw (ih hm)

theorem Takes.prints {s t u : Sink} {lines more : List String} {fault : Option SinkFault}
    (h : s.Takes lines t) (hp : t.Prints more u fault) : s.Prints (lines ++ more) u fault := by
  cases hp with
  | done hm => exact .done (h.append hm)
  | failed hb hw =>
    rw [← List.append_assoc]
    exact .failed (h.append hb) hw

theorem Prints.failsOn {s t : Sink} {lines : List String} {fault : SinkFault}
    (h : s.Prints lines t (some fault)) : s.FailsOn lines := by
  cases h with
  | failed hb hw => exact ⟨_, _, _, _, _, _, rfl, hb, hw⟩

theorem writeAll_eq {s t : Sink} {bs : Bytes} {fault : Option SinkFault}
    (h : s.writeAll bs = (t, fault)) : ∃ n, t = { s with written := s.written ++ bs.take n } := by
  rw [writeAll] at h
  exact ⟨_, (Prod.mk.inj h).1.symm⟩

/-- Whatever happens to a line, only its bytes come into the sink, and they come in order. -/
theorem writeLine_holds {s t : Sink} {line : String} {fault : Option SinkFault}
    (h : s.writeLine line = (t, fault)) :
    t.limits = s.limits ∧ t.written <+: s.written ++ printed [line] := by
  rw [writeLine] at h
  rw [printed_singleton]
  split at h
  · rename_i u _ hu
    cases h
    obtain ⟨n, rfl⟩ := writeAll_eq hu
    exact ⟨rfl, (List.prefix_append_right_inj _).mpr
      ((List.take_prefix n _).trans (List.prefix_append ..))⟩
  · rename_i hu
    split at h
    · rename_i hv
      cases h
      obtain ⟨n, rfl⟩ := writeAll_eq hv
      rw [writeAll_eq_of_none hu, ← List.append_assoc]
      exact ⟨rfl, (List.prefix_append_right_inj _).mpr (List.take_prefix n _)⟩
    · rename_i hv
      cases h
      rw [writeAll_eq_of_none hv, writeAll_eq_of_none hu, ← List.append_assoc]
      exact ⟨rfl, List.prefix_rfl⟩

theorem Prints.holds {s t : Sink} {lines : List String} {fault : Option SinkFault}
    (h : s.Prints lines t fault) :
    t.limits = s.limits ∧ t.written <+: s.written ++ printed lines := by
  cases h with
  | done h =>
    rw [h.eq]
    exact ⟨rfl, List.prefix_rfl⟩
  | @failed r _ before after line _ hb hw =>
    obtain ⟨hl, hp⟩ := writeLine_holds hw
    rw [hb.eq] at hl hp
    refine ⟨hl, hp.trans ?_⟩
    have hlines : printed (before ++ line :: after) =
        printed before ++ printed [line] ++ printed after := by
      rw [List.append_cons, printed_append, printed_append]
    rw [hlines, ← List.append_assoc, ← List.append_assoc]
    exact List.prefix_append ..

/-- What a print of lines to an empty sink leaves in it, and how it ends. -/
structure EndsPrinting (lines : List String) (t : Sink) (fault : Option SinkFault) : Prop where
  done : ¬Exceeds t.limits lines →
    fault = none ∧ t.written = printed lines ∧ t.flushes = lines.length
  /-- The sink has no room for all lines, and until it is full no flush fails. The lines that have
  found room were flushed. -/
  full : ∀ c, t.limits.capacity = some c → c < (printed lines).length →
    (∀ n, t.limits.failFlush = some (n + 1) → c < (printed (lines.take (n + 1))).length) →
    fault = some t.limits.fullFault ∧ t.written = (printed lines).take c ∧
      (printed (lines.take t.flushes)).length ≤ c ∧
      c < (printed (lines.take (t.flushes + 1))).length
  /-- A flush fails, and until then there is room. -/
  unflushed : ∀ n, t.limits.failFlush = some (n + 1) → n < lines.length →
    t.limits.HasRoom (printed (lines.take (n + 1))).length →
    fault = some .flushFailed ∧ t.written = printed (lines.take (n + 1)) ∧ t.flushes = n + 1

/-- There is room for what the sink holds, and the flushes so far are before the one that fails. -/
structure Fits (s : Sink) : Prop where
  room : s.limits.HasRoom s.written.length
  flushes : ∀ n, s.limits.failFlush = some (n + 1) → s.flushes ≤ n

/-- What happens to a line: it finds no room, its flush fails, or it is taken. -/
inductive LineEnds (s : Sink) (line : String) : Sink × Option SinkFault → Prop
  | full {c : Nat} : s.limits.capacity = some c → c < (s.written ++ printed [line]).length →
    LineEnds s line
      ({ s with written := (s.written ++ printed [line]).take c }, some s.limits.fullFault)
  | unflushed : s.limits.HasRoom (s.written ++ printed [line]).length →
    s.limits.failFlush = some (s.flushes + 1) →
    LineEnds s line
      ({ s with written := s.written ++ printed [line], flushes := s.flushes + 1 },
        some .flushFailed)
  | taken : s.limits.HasRoom (s.written ++ printed [line]).length →
    s.limits.failFlush ≠ some (s.flushes + 1) →
    LineEnds s line
      ({ s with written := s.written ++ printed [line], flushes := s.flushes + 1 }, none)

theorem Fits.writeLine {s : Sink} (h : s.Fits) (hk : s.limits.chunk ≠ some 0) (line : String) :
    s.LineEnds line (s.writeLine line) := by
  by_cases hroom : s.limits.HasRoom (s.written ++ printed [line]).length
  · rw [writeLine_of_room hk hroom, flush]
    dsimp only
    split
    · exact .unflushed hroom ‹_›
    · exact .taken hroom ‹_›
  · obtain ⟨c, hc, hlt⟩ := SinkLimits.exists_of_not_hasRoom hroom
    rw [writeLine_of_full hk hc (h.room c hc) hlt]
    exact .full hc hlt

theorem Takes.fits {s t : Sink} {lines : List String} (h : s.Takes lines t)
    (hk : s.limits.chunk ≠ some 0) (hs : s.Fits) : t.Fits := by
  induction h with
  | nil => exact hs
  | @cons s t u line lines hw _ ih =>
    have hends := hs.writeLine hk line
    rw [hw] at hends
    cases hends with
    | taken hroom hflush =>
      refine ih hk ⟨hroom, fun n hn => ?_⟩
      have hle := hs.flushes n hn
      have hne : s.flushes ≠ n := fun he => hflush (he ▸ hn)
      exact Nat.lt_of_le_of_ne hle hne

section Ends

variable {l : SinkLimits} {before after : List String} {line : String}

theorem take_to_line (before after : List String) (line : String) :
    (before ++ line :: after).take (before.length + 1) = before ++ [line] := by
  rw [List.append_cons, List.take_left' (by simp)]

/-- The sink is full within the line after those that it has taken. -/
theorem endsPrinting_of_full {c : Nat} (hc : l.capacity = some c)
    (hroom : (printed before).length ≤ c) (hlt : c < (printed (before ++ [line])).length)
    (hflush : ∀ n, l.failFlush = some (n + 1) → before.length ≤ n) :
    EndsPrinting (before ++ line :: after)
      ⟨l, (printed (before ++ [line])).take c, before.length⟩ (some l.fullFault) where
  done := by
    intro hn
    have hle : (printed (before ++ [line])).length ≤ (printed (before ++ line :: after)).length :=
      printed_length_le ⟨after, (List.append_cons ..).symm⟩
    refine absurd (.inl fun hall => ?_) hn
    exact Nat.not_le_of_lt hlt (hle.trans (hall c hc))
  full := by
    intro c' hc' _ _
    have he : c = c' := Option.some.inj (hc.symm.trans hc')
    subst he
    have hline : printed (before ++ line :: after) =
        printed (before ++ [line]) ++ printed after := by
      rw [List.append_cons, printed_append]
    refine ⟨rfl, ?_, ?_, ?_⟩
    · rw [hline, List.take_append_of_le_length hlt.le]
    · rw [List.take_left]
      exact hroom
    · rw [take_to_line]
      exact hlt
  unflushed := by
    intro n hn _ hall
    have hpre : before ++ [line] <+: (before ++ line :: after).take (n + 1) := by
      rw [← take_to_line before after line]
      exact List.take_prefix_take_left (Nat.succ_le_succ (hflush n hn))
    exact absurd (hall c hc) (Nat.not_le_of_lt (hlt.trans_le (printed_length_le hpre)))

/-- The line after those that it has taken is written, but the sink fails to be flushed. -/
theorem endsPrinting_of_unflushed (hroom : l.HasRoom (printed (before ++ [line])).length)
    (hflush : l.failFlush = some (before.length + 1)) :
    EndsPrinting (before ++ line :: after)
      ⟨l, printed (before ++ [line]), before.length + 1⟩ (some .flushFailed) where
  done := fun hn => absurd (.inr ⟨before.length, hflush, by simp⟩) hn
  full := by
    intro c hc _ hall
    have hlt := hall before.length hflush
    rw [take_to_line] at hlt
    exact absurd (hroom c hc) (Nat.not_le_of_lt hlt)
  unflushed := by
    intro n hn _ _
    have he : before.length = n := Nat.succ.inj (Option.some.inj (hflush.symm.trans hn))
    subst he
    rw [take_to_line]
    exact ⟨rfl, rfl, rfl⟩

end Ends

section Fresh

variable {l : SinkLimits} (hk : l.chunk ≠ some 0) {lines : List String} {t : Sink}

include hk

theorem Takes.fits_fresh (h : Takes { limits := l } lines t) : t.Fits :=
  h.fits hk ⟨fun c _ => Nat.zero_le c, fun n _ => Nat.zero_le n⟩

/-- What an empty sink takes does not exceed its limits. -/
theorem Takes.not_exceeds (h : Takes { limits := l } lines t) : ¬Exceeds l lines := by
  have hfits := h.fits_fresh hk
  rw [h.eq] at hfits
  rintro (hroom | ⟨n, hn, hlt⟩)
  · exact hroom hfits.room
  · have hle := hfits.flushes n hn
    dsimp only at hle
    omega

theorem Takes.endsPrinting (h : Takes { limits := l } lines t) : EndsPrinting lines t none := by
  have hn := h.not_exceeds hk
  rw [h.eq]
  refine ⟨fun _ => ⟨rfl, rfl, Nat.zero_add _⟩, fun c hc hlt _ => ?_, fun n hf hlt _ => ?_⟩
  · exact absurd (.inl fun hroom => Nat.not_le_of_lt hlt (hroom c hc)) hn
  · exact absurd (.inr ⟨n, hf, hlt⟩) hn

/-- **A print ends as its lines and its sink demand.** Without a fault the sink holds all lines. A
full sink holds exactly the bytes that it has room for, and a flush that fails leaves the line
before it in full. -/
theorem Prints.ends {fault : Option SinkFault} (h : Prints { limits := l } lines t fault) :
    EndsPrinting lines t fault := by
  cases h with
  | done h => exact h.endsPrinting hk
  | @failed r _ before after line fault hb hw =>
    have hfits := hb.fits_fresh hk
    obtain rfl := hb.eq
    have hends := hfits.writeLine hk line
    rw [hw] at hends
    simp only [List.nil_append, Nat.zero_add] at hfits hends
    cases hends with
    | full hc hlt =>
      dsimp only at hlt ⊢
      rw [← printed_append] at hlt ⊢
      exact endsPrinting_of_full hc (hfits.room _ hc) hlt hfits.flushes
    | unflushed hroom hflush =>
      dsimp only at hroom ⊢
      rw [← printed_append] at hroom ⊢
      exact endsPrinting_of_unflushed hroom hflush

/-- A print meets a fault exactly if its lines exceed the limits of the sink. -/
theorem Prints.fault_eq_none_iff {fault : Option SinkFault}
    (h : Prints { limits := l } lines t fault) : fault = none ↔ ¬Exceeds l lines := by
  have hl : t.limits = l := h.holds.1
  constructor
  · rintro rfl
    cases h with
    | done h => exact h.not_exceeds hk
  · intro hn
    exact ((h.ends hk).done (hl.symm ▸ hn)).1

end Fresh

end Sink

end Telemetry
