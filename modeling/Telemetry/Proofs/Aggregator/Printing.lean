import Telemetry.Proofs.Aggregator.Steps
import Telemetry.Proofs.Sink.Writes

/-! Printing and collecting. Two runs of the same actions, in which the one consumer collects and
the other prints to a sink that never fails, go side by side (`State.Mirrors`, kept by every step):
all answers but the last one of the consumer are the same, and what has been printed are the lines
that have been collected (`State.print_mirrors_collect`). -/

namespace Telemetry.Aggregator

namespace Output

theorem handle_print {sink : Sink} (h : sink.limits.NeverFails) (line : String) :
    (print sink none).handle line =
      print { sink with written := sink.written ++ Sink.printed [line],
                        flushes := sink.flushes + 1 } none := by
  rw [handle, Sink.writeLine_of_neverFails h]

/-- A sink that never fails takes all lines. -/
theorem handleAll_print {sink : Sink} (h : sink.limits.NeverFails) (processed : Nat)
    (lines : List String) :
    (print sink none).handleAll processed lines =
      (print { sink with written := sink.written ++ Sink.printed lines,
                         flushes := sink.flushes + lines.length } none,
        processed + lines.length) := by
  induction lines generalizing sink processed with
  | nil => simp [handleAll, Sink.printed]
  | cons line lines ih =>
    simp only [handleAll, handle_print h, isFine, Option.isNone_none, if_true]
    rw [ih (by exact h)]
    simp [Sink.printed, Nat.add_assoc, Nat.add_comm 1]

end Output

/-- The action with another claim of the aggregator in place of its own, if it is one. -/
def Action.claimedBy (action claim : Action) : Action :=
  match action with
  | .collect | .print _ => claim
  | action => action

/-- Two consumers that have come equally far. What the one has collected the other has printed. -/
inductive Consumer.Mirrors (limits : SinkLimits) : Consumer → Consumer → Prop
  | unclaimed : Mirrors limits .unclaimed .unclaimed
  | running {lines : List String} {sink : Sink} {processed : Nat} : sink.limits = limits →
    sink.written = Sink.printed lines →
    Mirrors limits (.running (.collect lines) processed) (.running (.print sink none) processed)
  | finished : Mirrors limits .finished .finished
  | dropped : Mirrors limits .dropped .dropped

/-- Two states that differ in their consumers and sinks at most. -/
structure State.Mirrors (limits : SinkLimits) (s t : State) : Prop where
  queue : t.queue = s.queue
  accepting : t.accepting = s.accepting
  senders : t.senders = s.senders
  signal : t.signal = s.signal
  waits : t.waits = s.waits
  consumer : s.consumer.Mirrors limits t.consumer

/-- Two results that tell the senders and those who wait the same. The consumers end together, the
one with lines and the other with the bytes of these lines in its sink. -/
structure Result.Mirrors (collected printed : Result) : Prop where
  closed : printed.state.closedViews = collected.state.closedViews
  cancelled : printed.state.signal.isCancelled = collected.state.signal.isCancelled
  logs : printed.logs = collected.logs
  completion : printed.reply.isCompletion = collected.reply.isCompletion
  answer : collected.reply.isCompletion = false → printed.reply = collected.reply
  output : collected.reply.isCompletion = true → ∃ lines sink,
    collected.reply = .lines lines ∧ printed.reply = .printed ∧
      printed.state.sink = some sink ∧ sink.written = Sink.printed lines

namespace State

/-- The results of one step of both runs: they agree, and the states still differ in no more. -/
def StepMirrors (limits : SinkLimits) (r q : Result) : Prop :=
  r.Mirrors q ∧ r.state.Mirrors limits q.state

namespace Mirrors

variable {limits : SinkLimits} {s t : State}

theorem closedViews (h : s.Mirrors limits t) : t.closedViews = s.closedViews := by
  rw [State.closedViews, State.closedViews, h.senders, h.accepting]

theorem isAlive (h : s.Mirrors limits t) (sender : Nat) :
    t.isAlive sender = s.isAlive sender := by
  rw [State.isAlive, State.isAlive, h.senders]

theorem hasSenders (h : s.Mirrors limits t) : t.hasSenders = s.hasSenders := by
  rw [State.hasSenders, State.hasSenders, h.senders]

/-- Equal answers that do not end a consumer. -/
theorem step_of_answer {r q : Result} (h : r.state.Mirrors limits q.state)
    (hr : q.reply = r.reply) (hc : r.reply.isCompletion = false) (hl : q.logs = r.logs) :
    StepMirrors limits r q := by
  refine ⟨⟨h.closedViews, by rw [h.signal], hl, by rw [hr], fun _ => hr, fun ht => ?_⟩, h⟩
  rw [hc] at ht
  cases ht

/-- The consumers end with the lines that the one has collected and the other has printed. -/
theorem finish (h : s.Mirrors limits t) {lines : List String} {sink : Sink}
    (hw : sink.written = Sink.printed lines) (processed : Nat) (ending : Ending) :
    StepMirrors limits (s.finish (.collect lines) processed ending)
      (t.finish (.print sink none) processed ending) := by
  have hstate : (s.finish (.collect lines) processed ending).state.Mirrors limits
      (t.finish (.print sink none) processed ending).state :=
    ⟨rfl, rfl, h.senders, h.signal, h.waits, .finished⟩
  refine ⟨⟨hstate.closedViews, by rw [hstate.signal], rfl, rfl, fun hc => Bool.noConfusion hc,
    fun _ => ⟨lines, sink, rfl, rfl, rfl, hw⟩⟩, hstate⟩

theorem suspend (h : s.Mirrors limits t) {lines : List String} {sink : Sink}
    (hl : sink.limits = limits) (hw : sink.written = Sink.printed lines) (processed : Nat) :
    StepMirrors limits (s.suspend (.collect lines) processed)
      (t.suspend (.print sink none) processed) :=
  step_of_answer ⟨rfl, h.accepting, h.senders, h.signal, h.waits, .running hl hw⟩ rfl rfl rfl

/-- Both consumers take all lines that wait, and end for the same reason if they end. -/
theorem pollConsumer (hf : limits.NeverFails) (h : s.Mirrors limits t) {lines : List String}
    {sink : Sink} (hl : sink.limits = limits) (hw : sink.written = Sink.printed lines)
    (processed : Nat) :
    StepMirrors limits (s.pollConsumer (.collect lines) processed)
      (t.pollConsumer (.print sink none) processed) := by
  have hn : sink.limits.NeverFails := hl ▸ hf
  have hprinted : sink.written ++ Sink.printed s.queue = Sink.printed (lines ++ s.queue) := by
    rw [hw, Sink.printed, Sink.printed, Sink.printed, List.flatMap_append]
  rw [State.pollConsumer, State.pollConsumer, consume_eq s (by rfl), consume_eq t (by rfl),
    cancellationSeen_eq, cancellationSeen_eq, h.signal, h.queue, h.hasSenders,
    Output.handleAll_collect, Output.handleAll_print hn]
  cases s.signal.isCancelled with
  | true => exact h.finish hprinted _ _
  | false =>
    cases s.hasSenders with
    | true => exact h.suspend (by exact hl) hprinted _
    | false => exact h.finish hprinted _ _

theorem claim (h : s.Mirrors limits t) :
    StepMirrors limits (s.claim (.collect [])) (t.claim (.print { limits := limits } none)) := by
  have hc := h.consumer
  simp only [State.claim]
  generalize hs : s.consumer = c at hc
  generalize ht : t.consumer = d at hc
  cases hc with
  | unclaimed =>
    exact step_of_answer ⟨h.queue, h.accepting, h.senders, h.signal, h.waits, .running rfl rfl⟩
      rfl rfl rfl
  | _ => exact step_of_answer h rfl rfl rfl

theorem send (h : s.Mirrors limits t) (sender : Nat) (line : String) :
    StepMirrors limits (s.step (.send sender line)) (t.step (.send sender line)) := by
  simp only [State.step, h.isAlive, h.accepting]
  cases s.isAlive sender with
  | false => exact step_of_answer h rfl rfl rfl
  | true =>
    cases s.accepting with
    | false => exact step_of_answer h rfl rfl rfl
    | true =>
      exact step_of_answer ⟨congrArg (· ++ [line]) h.queue, rfl, h.senders, h.signal, h.waits,
        h.consumer⟩ rfl rfl rfl

theorem poll (hf : limits.NeverFails) (h : s.Mirrors limits t) :
    StepMirrors limits (s.step .poll) (t.step .poll) := by
  have hc := h.consumer
  simp only [State.step]
  generalize s.consumer = c at hc
  generalize t.consumer = d at hc
  cases hc with
  | running hl hw => exact h.pollConsumer hf hl hw _
  | _ => exact step_of_answer h rfl rfl rfl

theorem step (hf : limits.NeverFails) (h : s.Mirrors limits t) (action : Action) :
    StepMirrors limits (s.step (action.claimedBy .collect))
      (t.step (action.claimedBy (.print limits))) := by
  cases action with
  | send sender line => exact h.send sender line
  | clone sender | dropSender sender =>
    simp only [Action.claimedBy, State.step, h.isAlive, h.senders]
    cases s.isAlive sender with
    | false => exact step_of_answer h rfl rfl rfl
    | true =>
      exact step_of_answer ⟨h.queue, h.accepting, rfl, h.signal, h.waits, h.consumer⟩ rfl rfl rfl
  | cancel =>
    simp only [Action.claimedBy, State.step, h.signal]
    cases s.signal.handleAlive with
    | false => exact step_of_answer h rfl rfl rfl
    | true =>
      exact step_of_answer ⟨h.queue, h.accepting, h.senders, rfl, h.waits, h.consumer⟩ rfl rfl rfl
  | dropHandle =>
    exact step_of_answer ⟨h.queue, h.accepting, h.senders,
      congrArg CancelSignal.dropHandle h.signal, h.waits, h.consumer⟩ rfl rfl rfl
  | wait =>
    exact step_of_answer ⟨h.queue, h.accepting, h.senders, h.signal,
      congrArg (· ++ [CancelWait.fresh]) h.waits, h.consumer⟩ rfl rfl rfl
  | pollWait wait =>
    simp only [Action.claimedBy, State.step, h.waits, h.signal]
    cases s.waits[wait]? with
    | none => exact step_of_answer h rfl rfl rfl
    | some w =>
      exact step_of_answer ⟨h.queue, h.accepting, h.senders, rfl, rfl, h.consumer⟩ rfl rfl rfl
  | collect | print _ =>
    simp only [Action.claimedBy, State.step]
    exact h.claim
  | poll => exact h.poll hf
  | dropConsumer =>
    exact step_of_answer ⟨rfl, rfl, h.senders, h.signal, h.waits, .dropped⟩ rfl rfl rfl

theorem run (hf : limits.NeverFails) (h : s.Mirrors limits t) (actions : List Action) :
    List.Forall₂ Result.Mirrors (s.run (actions.map (·.claimedBy .collect)))
      (t.run (actions.map (·.claimedBy (.print limits)))) := by
  induction actions generalizing s t with
  | nil => exact .nil
  | cons action actions ih =>
    obtain ⟨hresult, hstate⟩ := h.step hf action
    exact .cons hresult (ih hstate)

end Mirrors

theorem mirrors_initial (limits : SinkLimits) : ({} : State).Mirrors limits {} :=
  ⟨rfl, rfl, rfl, rfl, rfl, .unclaimed⟩

/-- **Printing and collecting are the same to all who look on.** Take any actions in any order, and
any sink that never fails, whatever the pieces in which it takes the bytes. In the run that claims
the aggregator for collecting and in the one that claims it for printing to the sink, the consumer
ends at the same poll, all other answers are the same, and the printed bytes are those of the
collected lines, each with a line end. -/
theorem print_mirrors_collect (limits : SinkLimits) (h : limits.NeverFails)
    (actions : List Action) :
    List.Forall₂ Result.Mirrors (run {} (actions.map (·.claimedBy .collect)))
      (run {} (actions.map (·.claimedBy (.print limits)))) :=
  (mirrors_initial limits).run h actions

/-- An empty line, one of several lines, and one that is sent between the cancellation and the poll
that notices it, on a sink that takes at most two bytes at a time, and fewer at its breaks. -/
theorem print_mirrors_collect_pieces :
    let limits : SinkLimits := { chunk := some 2, breaks := [4, 1] }
    let actions : List Action :=
      [.send 0 "", .collect, .clone 0, .send 1 "é\nü", .poll, .cancel, .send 0 "last", .poll,
        .send 1 "late"]
    limits.NeverFails ∧
      (∃ r ∈ run {} (actions.map (·.claimedBy .collect)), r.reply = .lines ["", "é\nü", "last"]) ∧
      List.Forall₂ Result.Mirrors (run {} (actions.map (·.claimedBy .collect)))
        (run {} (actions.map (·.claimedBy (.print limits)))) := by
  intro limits actions
  have h : limits.NeverFails := SinkLimits.neverFails_of_unlimited rfl (by decide) rfl
  exact ⟨h, by decide, print_mirrors_collect limits h actions⟩

end State

end Telemetry.Aggregator
