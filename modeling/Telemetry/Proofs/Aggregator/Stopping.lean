import Telemetry.Proofs.Aggregator.Refusal
import Telemetry.Proofs.Sink.Capacity

/-! Stopping: a poll ends a consumer at work exactly if it must, and otherwise takes all lines that
wait and leaves the consumer pending (`State.poll_stops_iff`). What must end it is said of the
actions so far: a cancellation, the dropping of the handle or of the last sender; or of a sink that
fails on one of the lines. -/

namespace Telemetry.Aggregator

namespace Output

/-- The output takes lines, each of them in full. -/
inductive Takes : Output → List String → Output → Prop
  | collect {taken lines : List String} : Takes (.collect taken) lines (.collect (taken ++ lines))
  | print {s t : Sink} {lines : List String} : s.Takes lines t →
    Takes (.print s none) lines (.print t none)

/-- Printing one of the lines fails. Lines that are collected never fail. -/
def FailsOn : Output → List String → Prop
  | .collect _, _ => False
  | .print sink _, lines => sink.FailsOn lines

theorem Takes.isFine {o p : Output} {lines : List String} (h : o.Takes lines p) :
    p.isFine = true := by
  cases h with
  | collect => rfl
  | print _ => rfl

theorem Takes.not_failsOn {o p : Output} {lines : List String} (h : o.Takes lines p) :
    ¬o.FailsOn lines := by
  cases h with
  | collect => exact id
  | print h => exact h.not_failsOn

/-- A sink takes all of the lines, or the first one on which it fails ends the printing. -/
theorem handleAll_print_cases (sink : Sink) (processed : Nat) (lines : List String) :
    (∃ t, sink.Takes lines t ∧
        (print sink none).handleAll processed lines = (print t none, processed + lines.length)) ∨
      ∃ t fault, sink.Prints lines t (some fault) ∧
        ((print sink none).handleAll processed lines).1 = print t (some fault) := by
  induction lines generalizing sink processed with
  | nil => exact .inl ⟨sink, .nil, rfl⟩
  | cons line lines ih =>
    rcases hw : sink.writeLine line with ⟨t, fault⟩
    cases fault with
    | some fault =>
      have hp : sink.Prints ([] ++ line :: lines) t (some fault) := .failed .nil hw
      refine .inr ⟨t, fault, hp, ?_⟩
      simp only [handleAll, handle, hw]
      rfl
    | none =>
      have hstep : (print sink none).handleAll processed (line :: lines) =
          (print t none).handleAll (processed + 1) lines := by
        simp only [handleAll, handle, hw]
        rfl
      rw [hstep]
      rcases ih t (processed + 1) with ⟨u, hu, he⟩ | ⟨u, fault, hu, he⟩
      · refine .inl ⟨u, .cons hw hu, ?_⟩
        rw [he, List.length_cons, Nat.add_assoc, Nat.add_comm 1]
      · exact .inr ⟨u, fault, Sink.Takes.prints (.cons hw .nil) hu, he⟩

theorem handleAll_cases {output : Output} (h : output.isFine = true) (processed : Nat)
    (lines : List String) :
    (∃ o, output.Takes lines o ∧
        output.handleAll processed lines = (o, processed + lines.length)) ∨
      output.FailsOn lines ∧ (output.handleAll processed lines).1.isFine = false := by
  cases output with
  | collect taken => exact .inl ⟨_, .collect, handleAll_collect ..⟩
  | print sink fault =>
    cases fault with
    | some fault => cases h
    | none =>
      rcases handleAll_print_cases sink processed lines with ⟨t, ht, he⟩ | hf
      · exact .inl ⟨_, .print ht, he⟩
      · obtain ⟨t, fault, hp, he⟩ := hf
        refine .inr ⟨hp.failsOn, ?_⟩
        rw [he]
        rfl

end Output

/-- By its reply, an action has added a sender. -/
def Action.hasCloned : Action → Reply → Bool
  | .clone _, .sender _ => true
  | _, _ => false

/-- By its reply, an action has dropped a sender. -/
def Action.hasDropped : Action → Reply → Bool
  | .dropSender _, .done => true
  | _, _ => false

namespace State

theorem step_poll_of_running {s : State} {output : Output} {processed : Nat}
    (h : s.consumer = .running output processed) :
    s.step .poll = s.pollConsumer output processed := by
  simp only [State.step, h]

/-- What ends a consumer at work when it is polled. -/
def Stops (s : State) (output : Output) : Prop :=
  s.signal.isCancelled = true ∨ s.hasSenders = false ∨ output.FailsOn s.queue

theorem pollConsumer_of_stops {s : State} {output : Output} (h : output.isFine = true)
    (processed : Nat) (hs : s.Stops output) :
    ∃ o n ending, s.pollConsumer output processed = s.finish o n ending := by
  rw [pollConsumer, consume_eq s h, cancellationSeen_eq]
  dsimp only
  split
  · exact ⟨_, _, _, rfl⟩
  · rename_i hc
    rcases hs with hcancel | hgone | hfail
    · exact absurd hcancel hc
    · rw [hgone]
      split
      · exact ⟨_, _, _, rfl⟩
      · exact ⟨_, _, _, rfl⟩
    · rcases Output.handleAll_cases h processed s.queue with ⟨o, ht, -⟩ | ⟨-, hf⟩
      · exact absurd hfail ht.not_failsOn
      · rw [hf]
        exact ⟨_, _, _, rfl⟩

theorem pollConsumer_of_not_stops {s : State} {output : Output} (h : output.isFine = true)
    (processed : Nat) (hs : ¬s.Stops output) :
    ∃ o, output.Takes s.queue o ∧
      s.pollConsumer output processed = s.suspend o (processed + s.queue.length) := by
  simp only [Stops, not_or, Bool.not_eq_true, Bool.not_eq_false] at hs
  obtain ⟨hcancel, hsenders, hfail⟩ := hs
  rcases Output.handleAll_cases h processed s.queue with ⟨o, ht, he⟩ | ⟨hf, -⟩
  · refine ⟨o, ht, ?_⟩
    rw [pollConsumer, consume_eq s h, cancellationSeen_eq, hcancel, he, hsenders]
    simp [ht.isFine]
  · exact absurd hf hfail

theorem hasSenders_eq_true_iff {s : State} :
    s.hasSenders = true ↔ ∃ sender, s.isAlive sender = true := by
  constructor
  · intro h
    rw [hasSenders, List.any_eq_true] at h
    obtain ⟨alive, hm, ha⟩ := h
    obtain ⟨sender, hs⟩ := List.mem_iff_getElem?.mp hm
    exact ⟨sender, isAlive_iff.mpr (hs.trans (congrArg some ha))⟩
  · rintro ⟨sender, ha⟩
    exact hasSenders_of_isAlive ha

theorem hasSenders_eq_false_iff {s : State} :
    s.hasSenders = false ↔ ∀ sender, s.isAlive sender = false := by
  simp only [← Bool.not_eq_true, hasSenders_eq_true_iff, not_exists]

/-- Only a cancellation, or the dropping of its handle, is seen as one. -/
theorem IsSound.step_isCancelled {s : State} (h : s.IsSound) (action : Action) :
    (s.step action).state.signal.isCancelled = true ↔
      s.signal.isCancelled = true ∨ action = .cancel ∨ action = .dropHandle := by
  have he := h.signalEffect action
  generalize s.step action = r at he ⊢
  cases he with
  | fired hs _ => simp [hs, CancelSignal.fire, CancelSignal.isCancelled]
  | late ha hs _ => simp [hs, ha, CancelSignal.isCancelled]
  | dropped hs _ => simp [hs, CancelSignal.dropHandle, CancelSignal.isCancelled]
  | waited hs _ | polled _ hs _ => simp [hs]
  | none ha hs _ => simp [hs, ha]

theorem IsSound.after_isCancelled {s : State} (h : s.IsSound) (actions : List Action) :
    (s.after actions).signal.isCancelled = true ↔
      s.signal.isCancelled = true ∨ .cancel ∈ actions ∨ .dropHandle ∈ actions := by
  induction actions generalizing s with
  | nil => simp [State.after]
  | cons action actions ih =>
    rw [State.after, ih (h.step action), h.step_isCancelled action]
    simp only [List.mem_cons, eq_comm (b := action)]
    tauto

/-- How many senders are added in a run. -/
def clonedSenders (s : State) (actions : List Action) : Nat :=
  (actions.zip (s.run actions)).countP fun (action, r) => action.hasCloned r.reply

/-- How many senders are dropped in a run. -/
def droppedSenders (s : State) (actions : List Action) : Nat :=
  (actions.zip (s.run actions)).countP fun (action, r) => action.hasDropped r.reply

/-- How many senders are alive. -/
def senderCount (s : State) : Nat := s.senders.count true

theorem senderCount_eq_zero_iff {s : State} : s.senderCount = 0 ↔ s.hasSenders = false := by
  rw [senderCount, List.count_eq_zero, hasSenders, List.any_eq_false]
  exact ⟨fun h alive hm ha => h (ha ▸ hm), fun h hm => h true hm rfl⟩

theorem count_set_of_isAlive {s : State} {sender : Nat} (h : s.isAlive sender = true) :
    (s.senders.set sender false).count true + 1 = s.senderCount := by
  obtain ⟨hlt, ha⟩ := List.getElem?_eq_some_iff.mp (isAlive_iff.mp h)
  have hpos : 0 < s.senders.count true := List.count_pos_iff.mpr (ha ▸ List.getElem_mem hlt)
  have hset := List.count_set (a := false) (b := true) hlt
  rw [ha] at hset
  simp only [senderCount, hset, beq_self_eq_true, if_true]
  simpa using Nat.sub_add_cancel hpos

theorem IsSound.step_senderCount {s : State} (h : s.IsSound) (action : Action) :
    (s.step action).state.senderCount + (action.hasDropped (s.step action).reply).toNat =
      s.senderCount + (action.hasCloned (s.step action).reply).toNat := by
  have he := h.senderEffect action
  generalize s.step action = r at he ⊢
  cases he with
  | cloned _ hr hs => simp [senderCount, hr, hs, Action.hasCloned, Action.hasDropped]
  | dropped ha hr hs =>
    rw [senderCount, hr, hs]
    exact count_set_of_isAlive ha
  | none hr hs =>
    have hcloned : action.hasCloned r.reply = false := by
      cases action with
      | clone sender => rw [hr sender (.inl rfl)]; rfl
      | _ => rfl
    have hdropped : action.hasDropped r.reply = false := by
      cases action with
      | dropSender sender => rw [hr sender (.inr rfl)]; rfl
      | _ => rfl
    rw [senderCount, hs, hcloned, hdropped, senderCount]

theorem IsSound.after_senderCount {s : State} (h : s.IsSound) (actions : List Action) :
    (s.after actions).senderCount + s.droppedSenders actions =
      s.senderCount + s.clonedSenders actions := by
  induction actions generalizing s with
  | nil => rfl
  | cons action actions ih =>
    have hstep := h.step_senderCount action
    have hrest := ih (h.step action)
    simp only [State.after, droppedSenders, clonedSenders, run, List.zip_cons_cons,
      List.countP_cons] at hrest ⊢
    cases hd : action.hasDropped (s.step action).reply <;>
      cases hc : action.hasCloned (s.step action).reply <;>
      simp [hd, hc] at hstep ⊢ <;> omega

/-- What must end the consumer of a run when it is polled: a cancellation, or the dropping of the
handle; that no sender is left; or a line that waits and is not printed. -/
def MustStop (actions : List Action) (output : Output) : Prop :=
  .cancel ∈ actions ∨ .dropHandle ∈ actions ∨
    (∀ sender, (after {} actions).isAlive sender = false) ∨
    output.FailsOn (after {} actions).queue

theorem stops_after_iff {actions : List Action} {output : Output} :
    (after {} actions).Stops output ↔ MustStop actions output := by
  rw [Stops, MustStop, isSound_initial.after_isCancelled, hasSenders_eq_false_iff]
  simp [CancelSignal.isCancelled, or_assoc]

section AtWork

variable {actions : List Action} {output : Output} {processed : Nat}
  (h : (after {} actions).consumer = .running output processed)

include h

theorem step_poll_of_mustStop (hm : MustStop actions output) : ∃ o n ending,
    (after {} actions).step .poll = (after {} actions).finish o n ending := by
  rw [step_poll_of_running h]
  exact pollConsumer_of_stops ((isSound_initial.after actions).fine _ _ h) processed
    (stops_after_iff.mpr hm)

theorem step_poll_of_not_mustStop (hm : ¬MustStop actions output) :
    ∃ o, output.Takes (after {} actions).queue o ∧
      (after {} actions).step .poll =
        (after {} actions).suspend o (processed + (after {} actions).queue.length) := by
  rw [step_poll_of_running h]
  exact pollConsumer_of_not_stops ((isSound_initial.after actions).fine _ _ h) processed
    (mt stops_after_iff.mp hm)

end AtWork

theorem forall_not_isAlive_iff (actions : List Action) :
    (∀ sender, (after {} actions).isAlive sender = false) ↔
      droppedSenders {} actions = clonedSenders {} actions + 1 := by
  have hcount := isSound_initial.after_senderCount actions
  have hone : senderCount {} = 1 := rfl
  rw [← hasSenders_eq_false_iff, ← senderCount_eq_zero_iff]
  omega

/-- What polling a consumer does that is at work after the actions of a run. -/
structure PollsAtWork (actions : List Action) (output : Output) (processed : Nat) : Prop where
  /-- The poll ends the consumer if something must, and only then. -/
  ends_iff : ((after {} actions).step .poll).reply.isCompletion = true ↔ MustStop actions output
  ended : MustStop actions output →
    ((after {} actions).step .poll).state.consumer = .finished
  /-- If nothing must, all lines that wait are taken, and the consumer stays at work. -/
  pending : ¬MustStop actions output →
    ((after {} actions).step .poll).reply = .pending ∧
      ((after {} actions).step .poll).state.queue = [] ∧
      ∃ o, output.Takes (after {} actions).queue o ∧
        ((after {} actions).step .poll).state.consumer =
          .running o (processed + (after {} actions).queue.length)
  collecting : ∀ taken, output = .collect taken → .cancel ∉ actions → .dropHandle ∉ actions →
    ∀ sender, (after {} actions).isAlive sender = true →
    ((after {} actions).step .poll).reply = .pending
  cancelled : .cancel ∈ actions ∨ .dropHandle ∈ actions →
    ((after {} actions).step .poll).reply ≠ .pending
  /-- No sender is left once as many have been dropped as there were: the first and all clones. -/
  gone_iff : (∀ sender, (after {} actions).isAlive sender = false) ↔
    droppedSenders {} actions = clonedSenders {} actions + 1

/-- **The consumer stops exactly when it must.** After all actions in any order, polling a consumer
at work ends it if and only if the cancellation has fired or its handle was dropped, no sender is
left, or printing one of the lines that wait fails; otherwise the consumer has taken all of these
lines and goes on waiting. -/
theorem poll_stops_iff (actions : List Action) (output : Output) (processed : Nat)
    (h : (after {} actions).consumer = .running output processed) :
    PollsAtWork actions output processed where
  ends_iff := by
    constructor
    · intro hc
      by_contra hm
      obtain ⟨o, -, he⟩ := step_poll_of_not_mustStop h hm
      rw [he] at hc
      cases hc
    · intro hm
      obtain ⟨o, n, ending, he⟩ := step_poll_of_mustStop h hm
      rw [he]
      exact o.isCompletion_reply
  ended := by
    intro hm
    obtain ⟨o, n, ending, he⟩ := step_poll_of_mustStop h hm
    rw [he]
    rfl
  pending := by
    intro hm
    obtain ⟨o, ho, he⟩ := step_poll_of_not_mustStop h hm
    rw [he]
    exact ⟨rfl, rfl, o, ho, rfl⟩
  collecting := by
    rintro taken rfl hk hd sender ha
    have hm : ¬MustStop actions (.collect taken) := by
      rintro (hm | hm | hm | hm)
      · exact hk hm
      · exact hd hm
      · rw [hm sender] at ha
        cases ha
      · exact hm
    obtain ⟨o, -, he⟩ := step_poll_of_not_mustStop h hm
    rw [he]
    rfl
  cancelled := by
    intro hm hp
    obtain ⟨o, n, ending, he⟩ := step_poll_of_mustStop h (hm.imp_right .inl)
    have hc := o.isCompletion_reply
    rw [he] at hp
    rw [show o.reply = .pending from hp] at hc
    cases hc
  gone_iff := forall_not_isAlive_iff actions

/-- A sink has room for the first line and half of the third one, which a clone sends: the poll that
comes to it ends the consumer, although the handle and both senders are alive. -/
theorem poll_stops_iff_full_sink :
    let actions : List Action :=
      [.print { capacity := some 5 }, .clone 0, .send 1 "ab", .poll, .send 0 "", .send 1 "cd"]
    let sink : Sink := { limits := { capacity := some 5 }, written := [97, 98, 10], flushes := 1 }
    (after {} actions).consumer = .running (.print sink none) 1 ∧
      PollsAtWork actions (.print sink none) 1 ∧ MustStop actions (.print sink none) ∧
      ((after {} actions).step .poll).reply = .failed .closed := by
  intro actions sink
  have h : (after {} actions).consumer = .running (.print sink none) 1 := by decide +kernel
  have hp := poll_stops_iff actions (.print sink none) 1 h
  have hr : ((after {} actions).step .poll).reply = .failed .closed := by decide +kernel
  refine ⟨h, hp, hp.ends_iff.mp ?_, hr⟩
  rw [hr]
  rfl

end State

end Telemetry.Aggregator
