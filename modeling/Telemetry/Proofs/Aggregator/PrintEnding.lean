import Telemetry.Proofs.Aggregator.Delivery
import Telemetry.Proofs.Aggregator.Stopping

/-! Printing to a sink that may fail. At any time the sink of a printing consumer has taken some of
the accepted lines, and the consumer is at work exactly as long as all of them in full
(`State.IsPrinting`, kept by every step). So what the sink holds when the consumer ends, and the
reply, follow from the accepted lines alone, however they were spread over the polls
(`State.print_stops_at_fault`). -/

namespace Telemetry.Aggregator

namespace State

/-- A poll of a printing consumer prints the lines that wait up to the first fault, and a consumer
that meets one does not stay at work. -/
theorem pollConsumer_print_cases (s : State) (sink : Sink) (processed : Nat) :
    (∃ t fault n ending, sink.Prints s.queue t fault ∧
        s.pollConsumer (.print sink none) processed = s.finish (.print t fault) n ending) ∨
      ∃ t n, sink.Takes s.queue t ∧
        s.pollConsumer (.print sink none) processed = s.suspend (.print t none) n := by
  have hfine : (Output.print sink none).isFine = true := rfl
  have hpoll := s.pollConsumer_cases hfine processed
  dsimp only at hpoll
  rcases Output.handleAll_print_cases sink processed s.queue with ⟨t, ht, he⟩ | ⟨t, fault, ht, he⟩
  · rw [he] at hpoll
    rcases hpoll with ⟨ending, hp⟩ | ⟨-, hp⟩
    · exact .inl ⟨t, none, _, ending, .done ht, hp⟩
    · exact .inr ⟨t, _, ht, hp⟩
  · rw [he] at hpoll
    rcases hpoll with ⟨ending, hp⟩ | ⟨hf, -⟩
    · exact .inl ⟨t, some fault, _, ending, ht, hp⟩
    · cases hf

/-- How far the printing of the accepted lines to a sink of some limits has come. -/
inductive IsPrinting (limits : SinkLimits) (s : State) (accepted : List String) : Sink → Prop
  /-- The lines that have been printed and those that wait are the accepted ones. -/
  | atWork {taken : List String} {sink : Sink} {processed : Nat} :
    s.consumer = .running (.print sink none) processed → s.sink = some sink →
    Sink.Takes { limits := limits } taken sink → taken ++ s.queue = accepted →
    IsPrinting limits s accepted sink
  /-- The consumer has ended or was dropped, after it printed some of the lines. -/
  | gone {taken : List String} {sink : Sink} {fault : Option SinkFault} :
    s.consumer.isActive = false → s.sink = some sink →
    Sink.Prints { limits := limits } taken sink fault → taken <+: accepted →
    IsPrinting limits s accepted sink

/-- A result that ends the printing of lines, with what is left in the sink. -/
def EndsPrint (limits : SinkLimits) (accepted : List String) (r : Result) (sink : Sink) : Prop :=
  r.state.sink = some sink ∧ ∃ fault, r.reply = (Output.print sink fault).reply ∧
    Sink.Prints { limits := limits } accepted sink fault

variable {limits : SinkLimits} {s : State} {accepted : List String} {sink : Sink}

theorem Delivers.isPrinting (h : s.Delivers accepted) (hc : s.consumer = .unclaimed)
    (limits : SinkLimits) :
    (s.step (.print limits)).state.IsPrinting limits accepted { limits := limits } := by
  simp only [State.step, claim, hc]
  exact .atWork rfl rfl .nil (h.unclaimed hc)

namespace IsPrinting

theorem sink_eq (h : s.IsPrinting limits accepted sink) : s.sink = some sink := by
  cases h with
  | atWork _ hs _ _ => exact hs
  | gone _ hs _ _ => exact hs

/-- At any time the sink holds the first bytes of the accepted lines. -/
theorem holds (h : s.IsPrinting limits accepted sink) :
    sink.limits = limits ∧ sink.written <+: Sink.printed accepted := by
  have hprints : ∃ taken fault, Sink.Prints { limits := limits } taken sink fault ∧
      taken <+: accepted := by
    cases h with
    | atWork _ _ ht hq => exact ⟨_, none, .done ht, s.queue, hq⟩
    | gone _ _ hp ht => exact ⟨_, _, hp, ht⟩
  obtain ⟨taken, fault, hp, rest, rfl⟩ := hprints
  obtain ⟨hl, hw⟩ := hp.holds
  rw [Sink.printed_append]
  exact ⟨hl, hw.trans (List.prefix_append ..)⟩

theorem step (h : s.IsPrinting limits accepted sink) (hs : s.IsSound) (action : Action) :
    ∃ t, (s.step action).state.IsPrinting limits
      (accepted ++ (action.acceptedLine? (s.step action).reply).toList) t := by
  cases h with
  | gone ha hsink hp ht =>
    obtain ⟨ha', -, -, hsink'⟩ := hs.step_ended ha action
    exact ⟨sink, .gone ha' (hsink'.trans hsink) hp (ht.trans (List.prefix_append ..))⟩
  | @atWork taken _ processed hc hsink ht hq =>
    have he := s.step_effect action
    generalize s.step action = r at he ⊢
    cases he with
    | sent _ _ =>
      refine ⟨sink, .atWork hc hsink ht ?_⟩
      rw [← hq]
      exact (List.append_assoc ..).symm
    | claimed _ hu =>
      rw [hu] at hc
      cases hc
    | polled hr =>
      rw [hr] at hc
      cases hc
      have hnone (reply : Reply) : Action.poll.acceptedLine? reply = none := rfl
      rw [hnone, Option.toList_none, List.append_nil, ← hq]
      rcases s.pollConsumer_print_cases sink processed with
        ⟨t, fault, n, ending, hp, he⟩ | ⟨t, n, hp, he⟩
      · rw [he]
        exact ⟨t, .gone rfl rfl (ht.prints hp) List.prefix_rfl⟩
      · rw [he]
        exact ⟨t, .atWork rfl rfl (ht.append hp) (List.append_nil _)⟩
    | dropped =>
      refine ⟨sink, .gone rfl hsink (.done ht) ⟨s.queue, ?_⟩⟩
      rw [hq]
      exact (List.append_nil _).symm
    | none hr hq' _ hc' hsink' =>
      rw [Action.acceptedLine?_eq_none hr action, Option.toList_none, List.append_nil]
      exact ⟨sink, .atWork (hc'.trans hc) (hsink'.trans hsink) ht (hq' ▸ hq)⟩

theorem after (h : s.IsPrinting limits accepted sink) (hs : s.IsSound) (actions : List Action) :
    ∃ t, (s.after actions).IsPrinting limits (accepted ++ s.accepted actions) t := by
  induction actions generalizing s accepted sink with
  | nil => exact ⟨sink, by simpa [State.accepted, State.run, State.after] using h⟩
  | cons action actions ih =>
    obtain ⟨t, ht⟩ := h.step hs action
    rw [accepted_cons, ← List.append_assoc]
    exact ih ht (hs.step action)

/-- When a step ends the consumer, all accepted lines have come to the sink. -/
theorem step_completion (h : s.IsPrinting limits accepted sink) (hs : s.IsSound) {action : Action}
    (hr : (s.step action).reply.isCompletion = true) :
    ∃ t, EndsPrint limits accepted (s.step action) t ∧
      (s.step action).state.consumer.isActive = false ∧
      action.acceptedLine? (s.step action).reply = none := by
  cases h with
  | gone ha _ _ _ =>
    obtain ⟨-, -, hn, -⟩ := hs.step_ended ha action
    rw [hn] at hr
    cases hr
  | @atWork taken _ processed hc _ ht hq =>
    obtain rfl := poll_of_completion hr
    rw [step_poll_of_running hc] at hr ⊢
    rcases s.pollConsumer_print_cases sink processed with
      ⟨t, fault, n, ending, hp, he⟩ | ⟨t, n, -, he⟩
    · rw [he]
      exact ⟨t, ⟨rfl, fault, rfl, hq ▸ ht.prints hp⟩, rfl, rfl⟩
    · rw [he] at hr
      cases hr

theorem run_completion (h : s.IsPrinting limits accepted sink) (hs : s.IsSound)
    {actions : List Action} {r : Result} (hr : r ∈ s.run actions)
    (hc : r.reply.isCompletion = true) :
    ∃ t, (s.after actions).sink = some t ∧
      EndsPrint limits (accepted ++ s.accepted actions) r t := by
  induction actions generalizing s accepted sink with
  | nil => cases hr
  | cons action actions ih =>
    rw [accepted_cons]
    rcases List.mem_cons.mp hr with rfl | hr
    · obtain ⟨t, ht, ha, hn⟩ := h.step_completion hs hc
      refine ⟨t, ((hs.step action).after_ended_sink ha actions).trans ht.1, ?_⟩
      rw [hn, (hs.step action).accepted_ended ha]
      simpa using ht
    · obtain ⟨t, ht⟩ := h.step hs action
      rw [← List.append_assoc]
      exact ih ht (hs.step action) hr

end IsPrinting

/-- What a print to a sink of some limits has come to after the actions of a run. -/
structure PrintStops (limits : SinkLimits) (actions : List Action) (sink : Sink) : Prop where
  isSink : (after {} actions).sink = some sink
  hasLimits : sink.limits = limits
  holds : sink.written <+: Sink.printed (State.accepted {} actions)
  /-- The poll that ends the consumer tells the fault, and the sink then holds what the accepted
  lines and the limits demand. -/
  ends : ∀ r ∈ run {} actions, r.reply.isCompletion = true → r.state.sink = some sink ∧
    ∃ fault, r.reply = (Output.print sink fault).reply ∧
      Sink.EndsPrinting (State.accepted {} actions) sink fault
  /-- A consumer at work ends in the poll that comes to a line on which the sink fails. -/
  polled : ∀ output processed, (after {} actions).consumer = .running output processed →
    Sink.Exceeds limits (State.accepted {} actions) →
    ∃ fault, ((after {} actions).step .poll).reply = .failed fault ∧
      ((after {} actions).step .poll).state.consumer = .finished
  /-- As long as there is none, a poll does not fail. -/
  fine : ∀ output processed, (after {} actions).consumer = .running output processed →
    ¬Sink.Exceeds limits (State.accepted {} actions) →
    ((after {} actions).step .poll).reply = .printed ∨
      ((after {} actions).step .poll).reply = .pending
  /-- Once the consumer is gone, nothing more comes to the sink, not even a flush, and every sender
  is refused. -/
  stays : Ends actions → ∀ more, (after {} (actions ++ more)).sink = some sink ∧
    ∀ sender line, (after {} (actions ++ more)).isAlive sender = true →
      ((after {} (actions ++ more)).step (.send sender line)).reply = .refused

theorem IsPrinting.step_poll (h : s.IsPrinting limits accepted sink) (hk : limits.chunk ≠ some 0)
    {output : Output} {processed : Nat} (hc : s.consumer = .running output processed) :
    (Sink.Exceeds limits accepted → ∃ fault, (s.step .poll).reply = .failed fault ∧
        (s.step .poll).state.consumer = .finished) ∧
      (¬Sink.Exceeds limits accepted →
        (s.step .poll).reply = .printed ∨ (s.step .poll).reply = .pending) := by
  rw [step_poll_of_running hc]
  cases h with
  | gone ha _ _ _ =>
    rw [hc] at ha
    cases ha
  | atWork hc' _ ht hq =>
    rw [hc] at hc'
    cases hc'
    rcases s.pollConsumer_print_cases sink processed with
      ⟨t, fault, n, ending, hp, he⟩ | ⟨t, n, hp, he⟩
    · have hiff := (hq ▸ ht.prints hp).fault_eq_none_iff hk
      rw [he]
      cases fault with
      | none => exact ⟨fun hx => absurd hx (hiff.mp rfl), fun _ => .inl rfl⟩
      | some fault =>
        refine ⟨fun _ => ⟨fault, rfl, rfl⟩, fun hx => ?_⟩
        cases hiff.mpr hx
    · have hn := (hq ▸ ht.append hp).not_exceeds hk
      rw [he]
      exact ⟨fun hx => absurd hx hn, fun _ => .inr rfl⟩

/-- Without a consumer yet, no consumer has ended. -/
theorem not_ends_of_unclaimed {actions : List Action}
    (hc : (State.after {} actions).consumer = .unclaimed) : ¬Ends actions := by
  rw [← accepting_after_iff, (isSound_initial.after actions).accepting, hc]
  exact Bool.noConfusion

section Claimed

variable {before : List Action} (hc : (State.after {} before).consumer = .unclaimed)

include hc

theorem isPrinting_after (limits : SinkLimits) (more : List Action) :
    ∃ sink, (State.after {} (before ++ .print limits :: more)).IsPrinting limits
      (State.accepted {} (before ++ .print limits :: more)) sink := by
  have hs := isSound_initial.after before
  have hclaim := (delivers_initial.after before).isPrinting hc limits
  rw [after_append, accepted_append, accepted_cons]
  exact hclaim.after (hs.step _) more

theorem endsPrint_of_completion {limits : SinkLimits} {more : List Action} {r : Result}
    (hr : r ∈ run {} (before ++ .print limits :: more)) (hcomp : r.reply.isCompletion = true) :
    ∃ sink, (State.after {} (before ++ .print limits :: more)).sink = some sink ∧
      EndsPrint limits (State.accepted {} (before ++ .print limits :: more)) r sink := by
  have hs := isSound_initial.after before
  have hclaim := (delivers_initial.after before).isPrinting hc limits
  rw [run_append, List.mem_append, run, List.mem_cons] at hr
  rw [after_append, accepted_append, accepted_cons]
  rcases hr with hr | rfl | hr
  · exact absurd (.inl ⟨r, hr, hcomp⟩) (not_ends_of_unclaimed hc)
  · simp [State.step, claim, hc, Reply.isCompletion] at hcomp
  · exact hclaim.run_completion (hs.step _) hr hcomp

end Claimed

/-- **A failing sink stops the printing at the exact byte.** Let an aggregator be claimed for
printing to a sink of any limits, after any actions and before any others. At any time the sink
holds the first bytes of the accepted lines. The poll that comes to a line without room for it, or
whose flush fails, ends the consumer with that fault, whether or not the cancellation was seen. What
the sink holds then is determined to the byte, and it is left alone for good. -/
theorem print_stops_at_fault (limits : SinkLimits) (before more : List Action)
    (hk : limits.chunk ≠ some 0) (hc : (after {} before).consumer = .unclaimed) :
    ∃ sink, PrintStops limits (before ++ .print limits :: more) sink := by
  obtain ⟨sink, h⟩ := isPrinting_after hc limits more
  generalize hactions : before ++ .print limits :: more = actions at h ⊢
  obtain ⟨hl, hw⟩ := h.holds
  refine ⟨sink, h.sink_eq, hl, hw, fun r hr hcomp => ?_, fun output processed hrun => ?_,
    fun output processed hrun => ?_, fun hends later => ?_⟩
  · subst hactions
    obtain ⟨t, ht, hstate, fault, hreply, hp⟩ := endsPrint_of_completion hc hr hcomp
    have he : sink = t := Option.some.inj (h.sink_eq.symm.trans ht)
    subst he
    exact ⟨hstate, fault, hreply, hp.ends hk⟩
  · exact (h.step_poll hk hrun).1
  · exact (h.step_poll hk hrun).2
  · have hs := isSound_initial.after actions
    have hended : (after {} actions).consumer.isActive = false := by
      rw [← hs.accepting, accepting_after_iff]
      exact hends
    refine ⟨?_, fun sender line ha => ?_⟩
    · rw [after_append, hs.after_ended_sink hended]
      exact h.sink_eq
    · rw [step_send_eq_refused_iff ha, accepting_after_iff]
      exact hends.append later

/-- A sink that takes two bytes at a time and five in all is full between the second line, which is
printed after the cancellation, and its end. -/
theorem print_stops_at_fault_draining :
    let limits : SinkLimits := { capacity := some 5, chunk := some 2 }
    let before : List Action := [.clone 0, .send 1 "ab"]
    let more : List Action :=
      [.poll, .send 0 "cd", .cancel, .send 1 "e", .poll, .send 0 "late", .poll]
    limits.chunk ≠ some 0 ∧ (after {} before).consumer = .unclaimed ∧
      (∃ sink, PrintStops limits (before ++ .print limits :: more) sink) ∧
      (∃ r ∈ run {} (before ++ .print limits :: more), r.reply = .failed .closed) ∧
      (after {} (before ++ .print limits :: more)).sink =
        some ⟨limits, [97, 98, 10, 99, 100], 1⟩ := by
  intro limits before more
  have hk : limits.chunk ≠ some 0 := by decide
  have hc : (after {} before).consumer = .unclaimed := by decide
  exact ⟨hk, hc, print_stops_at_fault limits before more hk hc, by decide +kernel,
    by decide +kernel⟩

end State

end Telemetry.Aggregator
