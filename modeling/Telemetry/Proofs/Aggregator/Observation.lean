import Telemetry.Proofs.Aggregator.Stopping

/-! Observation: all who look at the cancellation see the same at any time
(`State.observers_agree`), whether they ask a clone of the signal, poll a wait for it or take lines
from the aggregator. A wait goes on only with a version that it has seen without the value being set
(`CancelWait.IsSound`), so that it looks again once the value is set. It therefore makes no
difference to a consumer whether it begins a wait at each poll or goes on with the one that it began
before it was suspended (`State.runKeeping_eq`). -/

namespace Telemetry

/-- A clone of a signal. It shares the value and the handle with all others, and has taken notice of
the value up to a version of its own. -/
structure SignalClone where
  noticed : Nat

namespace SignalClone

/-- Whether the value was set behind the noticed version. Without a handle there is no answer. -/
def hasChanged? (c : SignalClone) (s : CancelSignal) : Option Bool :=
  if s.handleAlive then some (s.version != c.noticed) else none

/-- A clone is cancelled by a value that is set, and by a handle that does not answer. -/
def isCancelled (c : SignalClone) (s : CancelSignal) : Bool :=
  s.fired || (c.hasChanged? s).isNone

/-- What a clone has noticed makes no difference. -/
theorem isCancelled_eq (c : SignalClone) (s : CancelSignal) :
    c.isCancelled s = s.isCancelled := by
  rw [isCancelled, hasChanged?, CancelSignal.isCancelled]
  cases s.handleAlive <;> rfl

end SignalClone

namespace CancelWait

variable {s : CancelSignal} {w : CancelWait}

/-- A wait that goes on has seen a version in which the value was not set, and one that has resolved
has seen the cancellation. -/
def IsSound (s : CancelSignal) : CancelWait → Prop
  | .fresh => True
  | .seen version => version ≤ s.version ∧ (s.fired = true → version < s.version)
  | .resolved => s.isCancelled = true

theorem isSound_fresh (s : CancelSignal) : fresh.IsSound s := trivial

theorem look_cases (s : CancelSignal) :
    s.isCancelled = true ∧ look s = .resolved ∨
      s.isCancelled = false ∧ s.fired = false ∧ look s = .seen s.version := by
  rw [look, CancelSignal.isCancelled]
  cases s.fired <;> cases s.handleAlive <;> simp

theorem isSound_look (s : CancelSignal) : (look s).IsSound s := by
  rcases look_cases s with ⟨hc, he⟩ | ⟨-, hf, he⟩
  · rw [he]
    exact hc
  · rw [he]
    exact ⟨Nat.le_refl _, fun ht => absurd ht (by simp [hf])⟩

theorem look_eq_resolved_iff : look s = .resolved ↔ s.isCancelled = true := by
  rcases look_cases s with ⟨hc, he⟩ | ⟨hc, -, he⟩ <;> simp [hc, he]

/-- A wait that goes on looks again at any other version than the one it has seen, and that is every
version in which the value is set. -/
theorem IsSound.poll_eq_resolved_iff (h : w.IsSound s) :
    w.poll s = .resolved ↔ s.isCancelled = true := by
  cases w with
  | fresh => exact look_eq_resolved_iff
  | seen version =>
    rw [CancelWait.poll]
    split
    · exact look_eq_resolved_iff
    · rename_i hv
      have hfired : s.fired = false := by
        rw [← Bool.not_eq_true]
        intro hf
        have hlt := h.2 hf
        omega
      rw [CancelSignal.isCancelled, hfired]
      cases s.handleAlive <;> simp
  | resolved => exact iff_of_true rfl h

theorem IsSound.poll (h : w.IsSound s) : (w.poll s).IsSound s := by
  cases w with
  | fresh => exact isSound_look s
  | seen version =>
    rw [CancelWait.poll]
    split
    · exact isSound_look s
    · split
      · exact h
      · rename_i ha
        simp [IsSound, CancelSignal.isCancelled, ha]
  | resolved => exact h

theorem IsSound.fire (h : w.IsSound s) : w.IsSound s.fire := by
  cases w with
  | fresh => trivial
  | seen version => exact ⟨Nat.le_succ_of_le h.1, fun _ => Nat.lt_succ_of_le h.1⟩
  | resolved => rfl

theorem IsSound.dropHandle (h : w.IsSound s) : w.IsSound s.dropHandle := by
  cases w with
  | fresh => trivial
  | seen version => exact h
  | resolved => simp [IsSound, CancelSignal.isCancelled, CancelSignal.dropHandle]

end CancelWait

namespace Aggregator

namespace State

variable {s : State} {actions : List Action}

/-- Every wait for the signal is sound. -/
structure IsWatched (s : State) : Prop where
  sound : s.IsSound
  waits : ∀ w ∈ s.waits, w.IsSound s.signal

theorem isWatched_initial : IsWatched {} := ⟨isSound_initial, fun _ hw => by cases hw⟩

/-- A wait stays sound, whatever happens while it goes on. -/
theorem IsSound.step_wait (h : s.IsSound) {w : CancelWait} (hw : w.IsSound s.signal)
    (action : Action) : w.IsSound (s.step action).state.signal := by
  have he := h.signalEffect action
  generalize s.step action = r at he ⊢
  cases he with
  | fired hs _ => exact hs ▸ hw.fire
  | dropped hs _ => exact hs ▸ hw.dropHandle
  | waited hs _ | polled _ hs _ | late _ hs _ | none _ hs _ => exact hs ▸ hw

theorem IsWatched.step (h : s.IsWatched) (action : Action) : (s.step action).state.IsWatched := by
  refine ⟨h.sound.step action, fun w hw => ?_⟩
  have hkept : ∀ w ∈ s.waits, w.IsSound (s.step action).state.signal :=
    fun w hw => h.sound.step_wait (h.waits w hw) action
  have he := h.sound.signalEffect action
  generalize s.step action = r at he hkept hw ⊢
  cases he with
  | waited _ hl =>
    rw [hl, List.mem_append, List.mem_singleton] at hw
    rcases hw with hw | rfl
    · exact hkept w hw
    · trivial
  | polled hv hs hl =>
    rw [hl] at hw
    rcases List.mem_or_eq_of_mem_set hw with hw | rfl
    · exact hkept w hw
    · exact hs ▸ (h.waits _ (List.mem_of_getElem? hv)).poll
  | fired _ hl | dropped _ hl | late _ _ hl | none _ _ hl => exact hkept w (hl ▸ hw)

theorem IsWatched.after (h : s.IsWatched) (actions : List Action) :
    (s.after actions).IsWatched := by
  induction actions generalizing s with
  | nil => exact h
  | cons action actions ih => exact ih (h.step action)

theorem IsSound.step_waits_length (h : s.IsSound) (action : Action) :
    (s.step action).state.waits.length = s.waits.length + [action].count .wait := by
  have he := h.signalEffect action
  generalize s.step action = r at he ⊢
  cases he with
  | fired _ hl | dropped _ hl => simp [hl]
  | waited _ hl => simp [hl]
  | polled _ _ hl | late _ _ hl => simp [hl]
  | none ha _ hl => simp [hl, ha.2.2]

/-- There are as many waits as have been begun. -/
theorem IsSound.after_waits_length (h : s.IsSound) (actions : List Action) :
    (s.after actions).waits.length = s.waits.length + actions.count .wait := by
  induction actions generalizing s with
  | nil => rfl
  | cons action actions ih =>
    have hcount : ([action] ++ actions).count .wait =
        [action].count .wait + actions.count .wait := List.count_append
    rw [List.singleton_append] at hcount
    rw [State.after, ih (h.step action), h.step_waits_length, hcount, Nat.add_assoc]

theorem IsWatched.reply_pollWait (h : s.IsWatched) {wait : Nat} (hw : wait < s.waits.length) :
    (s.step (.pollWait wait)).reply = .resolved s.signal.isCancelled := by
  have hv : s.waits[wait]? = some s.waits[wait] := List.getElem?_eq_getElem hw
  have hiff := (h.waits _ (List.getElem_mem hw)).poll_eq_resolved_iff
  simp only [State.step, hv, Reply.resolved.injEq]
  rw [Bool.eq_iff_iff, beq_iff_eq, hiff]

/-- What a consumer tells at its end is why it ended. -/
theorem finish_ending_inj {o o' : Output} {n n' : Nat} {ending ending' : Ending}
    (h : s.finish o n ending = s.finish o' n' ending') : ending = ending' := by
  have hlogs := congrArg (fun r => r.logs.map LogRecord.message) h
  have hmessage : ending.message = ending'.message := by simpa [finish] using hlogs
  revert hmessage
  cases ending <;> cases ending' <;> decide

/-- A consumer at work ends by the cancellation exactly if the signal is cancelled. -/
theorem pollConsumer_cancelled_iff {output : Output} (h : output.isFine = true) (processed : Nat) :
    (∃ o n, s.pollConsumer output processed = s.finish o n .cancelled) ↔
      s.signal.isCancelled = true := by
  rw [pollConsumer, consume_eq s h, cancellationSeen_eq]
  dsimp only
  split
  · exact iff_of_true ⟨_, _, rfl⟩ ‹_›
  · rename_i hc
    refine iff_of_false ?_ hc
    rintro ⟨o, n, he⟩
    split at he
    · exact Ending.noConfusion (finish_ending_inj he)
    · split at he
      · have hreply : Reply.pending = o.reply := congrArg Result.reply he
        have hcompletion := o.isCompletion_reply
        rw [← hreply] at hcompletion
        cases hcompletion
      · exact Ending.noConfusion (finish_ending_inj he)

/-- What those who look at the cancellation see after the actions of a run. -/
structure ObserversAgree (actions : List Action) : Prop where
  cancelled_iff : (after {} actions).signal.isCancelled = true ↔
    .cancel ∈ actions ∨ .dropHandle ∈ actions
  lasting : (after {} actions).signal.isCancelled = true →
    ∀ more, (after {} (actions ++ more)).signal.isCancelled = true
  clones : ∀ c : SignalClone,
    c.isCancelled (after {} actions).signal = (after {} actions).signal.isCancelled
  begun : (after {} actions).waits.length = actions.count .wait
  /-- Of every wait, whenever it was begun and polled before, a poll tells whether the signal is
  cancelled. -/
  waits : ∀ wait < actions.count .wait, ((after {} actions).step (.pollWait wait)).reply =
    .resolved (after {} actions).signal.isCancelled
  /-- A consumer at work ends by the cancellation at the next poll, and not before it. -/
  consumer : ∀ output processed, (after {} actions).consumer = .running output processed →
    ((∃ o n, (after {} actions).step .poll = (after {} actions).finish o n .cancelled) ↔
      (after {} actions).signal.isCancelled = true)

/-- **All observers of a cancellation agree.** After all actions in any order, the signal is
cancelled if and only if it was fired or its handle was dropped, and it stays so. At any time every
clone of the signal tells this, every wait for it resolves exactly if it is cancelled, and a
consumer that is polled ends by the cancellation exactly then. -/
theorem observers_agree (actions : List Action) : ObserversAgree actions where
  cancelled_iff := by
    rw [isSound_initial.after_isCancelled]
    simp [CancelSignal.isCancelled]
  lasting := by
    intro hc more
    rw [after_append, (isSound_initial.after actions).after_isCancelled]
    exact .inl hc
  clones := fun c => c.isCancelled_eq _
  begun := by
    rw [isSound_initial.after_waits_length]
    exact Nat.zero_add _
  waits := by
    intro wait hw
    refine (isWatched_initial.after actions).reply_pollWait ?_
    rw [isSound_initial.after_waits_length]
    exact Nat.lt_of_lt_of_le hw (Nat.le_add_left ..)
  consumer := by
    intro output processed h
    rw [step_poll_of_running h]
    exact pollConsumer_cancelled_iff ((isSound_initial.after actions).fine _ _ h) processed

/-! ## Waits that are kept -/

theorem cancellationSeen_eq_poll {w : CancelWait} (h : w.IsSound s.signal) :
    s.cancellationSeen = (w.poll s.signal == .resolved) := by
  rw [cancellationSeen_eq, Bool.eq_iff_iff, beq_iff_eq, h.poll_eq_resolved_iff]

/-- The loop of a consumer with its waits. Each round begins one, and that of the round in which the
consumer is suspended is kept for the next poll. -/
def consumeKeeping (s : State) (output : Output) (processed : Nat) (w : CancelWait) :
    List String → Result × CancelWait
  | [] =>
    let w := w.poll s.signal
    if w = .resolved then (s.finish output processed .cancelled, w)
    else if s.hasSenders then (s.suspend output processed, w)
    else (s.finish output processed .sendersGone, w)
  | line :: lines =>
    let w := w.poll s.signal
    if w = .resolved then
      let (output, processed) := output.handleAll processed (line :: lines)
      (s.finish output processed .cancelled, w)
    else
      let output := output.handle line
      if output.isFine then s.consumeKeeping output (processed + 1) .fresh lines
      else (s.finish output (processed + 1) .outputFailed, w)

theorem consumeKeeping_eq {w : CancelWait} (h : w.IsSound s.signal) (output : Output)
    (processed : Nat) (lines : List String) :
    (s.consumeKeeping output processed w lines).1 = s.consume output processed lines ∧
      (s.consumeKeeping output processed w lines).2.IsSound s.signal := by
  have hw := h.poll
  induction lines generalizing output processed w with
  | nil =>
    simp only [consumeKeeping, consume, cancellationSeen_eq_poll h, beq_iff_eq]
    split_ifs <;> exact ⟨rfl, hw⟩
  | cons line lines ih =>
    simp only [consumeKeeping, consume, cancellationSeen_eq_poll h, beq_iff_eq]
    split_ifs
    · exact ⟨rfl, hw⟩
    · exact ih (CancelWait.isSound_fresh _) _ _ (CancelWait.isSound_look _)
    · exact ⟨rfl, hw⟩

/-- A step in which a consumer goes on with the wait that it has kept. -/
def stepKeeping (s : State) (w : CancelWait) (action : Action) : Result × CancelWait :=
  match action, s.consumer with
  | .poll, .running output processed => s.consumeKeeping output processed w s.queue
  | action, _ => (s.step action, w)

theorem IsSound.stepKeeping_eq (h : s.IsSound) {w : CancelWait} (hw : w.IsSound s.signal)
    (action : Action) : (s.stepKeeping w action).1 = s.step action ∧
      (s.stepKeeping w action).2.IsSound (s.step action).state.signal := by
  unfold stepKeeping
  split
  case h_1 output processed hc =>
    obtain ⟨_, _, hsignal, _⟩ := s.pollConsumer_frame (h.fine _ _ hc) processed
    rw [step_poll_of_running hc, hsignal]
    exact consumeKeeping_eq hw output processed s.queue
  case h_2 => exact ⟨rfl, h.step_wait hw _⟩

def runKeeping (s : State) (w : CancelWait) : List Action → List Result
  | [] => []
  | action :: actions =>
    let next := s.stepKeeping w action
    next.1 :: next.1.state.runKeeping next.2 actions

theorem IsSound.runKeeping_eq (h : s.IsSound) {w : CancelWait} (hw : w.IsSound s.signal)
    (actions : List Action) : s.runKeeping w actions = s.run actions := by
  induction actions generalizing s w with
  | nil => rfl
  | cons action actions ih =>
    obtain ⟨hstep, hkept⟩ := h.stepKeeping_eq hw action
    simp only [runKeeping, run, hstep]
    rw [ih (h.step action) hkept]

/-- **A wait that is kept makes no difference.** All actions in any order have the same results
whether a suspended consumer goes on with its wait or begins another one. -/
theorem runKeeping_eq (actions : List Action) :
    runKeeping {} .fresh actions = run {} actions :=
  isSound_initial.runKeeping_eq (CancelWait.isSound_fresh _) actions

end State

end Aggregator

end Telemetry
