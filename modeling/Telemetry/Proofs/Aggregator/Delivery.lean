import Telemetry.Proofs.Aggregator.Steps

/-! Delivery: what a consumer that collects gives back at its end are the lines whose sending
succeeded, each once and in the order of the sends (`State.collected_eq_accepted`). The lines that
it has taken and the lines that wait for it are together the accepted ones (`State.Delivers`), and
after its end none is accepted any more. -/

namespace Telemetry.Aggregator

/-- The line that an action has added to the accepted ones, by its reply. -/
def Action.acceptedLine? : Action → Reply → Option String
  | .send _ line, .sent => some line
  | _, _ => none

theorem Action.acceptedLine?_eq_none {reply : Reply} (h : reply.isOfChannel = false)
    (action : Action) : action.acceptedLine? reply = none := by
  cases action with
  | send _ _ =>
    cases reply with
    | sent => cases h
    | _ => rfl
  | _ => rfl

namespace State

/-- The lines whose sending succeeds in a run, in the order of the sends. -/
def accepted (s : State) (actions : List Action) : List String :=
  (actions.zip (s.run actions)).filterMap fun (action, r) => action.acceptedLine? r.reply

theorem accepted_cons (s : State) (action : Action) (actions : List Action) :
    s.accepted (action :: actions) =
      (action.acceptedLine? (s.step action).reply).toList ++
        (s.step action).state.accepted actions := by
  simp only [accepted, run, List.zip_cons_cons, List.filterMap_cons]
  cases action.acceptedLine? (s.step action).reply <;> rfl

theorem run_append (s : State) (before more : List Action) :
    s.run (before ++ more) = s.run before ++ (s.after before).run more := by
  induction before generalizing s with
  | nil => rfl
  | cons action actions ih => exact congrArg (_ :: ·) (ih (s.step action).state)

theorem accepted_append (s : State) (before more : List Action) :
    s.accepted (before ++ more) = s.accepted before ++ (s.after before).accepted more := by
  induction before generalizing s with
  | nil => rfl
  | cons action actions ih =>
    rw [List.cons_append, accepted_cons, accepted_cons, ih, List.append_assoc]
    rfl

/-- After its end a consumer does not come back. No line is accepted, and its sink is left alone. -/
theorem IsSound.step_ended {s : State} (h : s.IsSound) (hs : s.consumer.isActive = false)
    (action : Action) :
    (s.step action).state.consumer.isActive = false ∧
      action.acceptedLine? (s.step action).reply = none ∧
      (s.step action).reply.isCompletion = false ∧
      (s.step action).state.sink = s.sink := by
  have he := s.step_effect action
  generalize s.step action = r at he ⊢
  cases he with
  | sent _ ha => simp [← h.accepting, ha] at hs
  | claimed _ hc => simp [hc, Consumer.isActive] at hs
  | polled hc => simp [hc, Consumer.isActive] at hs
  | dropped => exact ⟨rfl, rfl, rfl, rfl⟩
  | none hr _ _ hc hsink =>
    exact ⟨by rw [hc, hs], Action.acceptedLine?_eq_none hr action,
      Reply.isCompletion_eq_false hr, hsink⟩

theorem IsSound.accepted_ended {s : State} (h : s.IsSound) (hs : s.consumer.isActive = false)
    (actions : List Action) : s.accepted actions = [] := by
  induction actions generalizing s with
  | nil => rfl
  | cons action actions ih =>
    obtain ⟨he, ha, _⟩ := h.step_ended hs action
    rw [accepted_cons, ha, ih (h.step action) he]
    rfl

theorem IsSound.after_ended_sink {s : State} (h : s.IsSound) (hs : s.consumer.isActive = false)
    (actions : List Action) : (s.after actions).sink = s.sink := by
  induction actions generalizing s with
  | nil => rfl
  | cons action actions ih =>
    obtain ⟨he, -, -, hsink⟩ := h.step_ended hs action
    rw [State.after, ih (h.step action) he, hsink]

/-- As long as no consumer has ended, the lines that a collecting one has taken and those that wait
are the accepted ones, in order. -/
structure Delivers (s : State) (accepted : List String) : Prop where
  sound : s.IsSound
  unclaimed : s.consumer = .unclaimed → s.queue = accepted
  collecting : ∀ lines processed, s.consumer = .running (.collect lines) processed →
    lines ++ s.queue = accepted

theorem delivers_initial : Delivers {} [] :=
  ⟨isSound_initial, fun _ => rfl, fun _ _ hc => Consumer.noConfusion hc⟩

theorem IsSound.delivers_ended {s : State} (h : s.IsSound) (hs : s.consumer.isActive = false)
    (accepted : List String) : s.Delivers accepted := by
  refine ⟨h, fun hc => ?_, fun lines n hc => ?_⟩
  · rw [hc] at hs
    cases hs
  · rw [hc] at hs
    cases hs

/-- What a collecting consumer gives back are the accepted lines, and then it has ended. -/
theorem Delivers.lines {s : State} {accepted lines : List String} (h : s.Delivers accepted)
    {action : Action} (hl : (s.step action).reply = .lines lines) :
    lines = accepted ∧ (s.step action).state.consumer.isActive = false ∧
      action.acceptedLine? (.lines lines) = none := by
  have he := s.step_effect action
  generalize s.step action = r at he hl ⊢
  cases he with
  | polled hc =>
    rcases s.pollConsumer_cases (h.sound.fine _ _ hc) _ with ⟨ending, he⟩ | ⟨_, he⟩
    · rw [he] at hl ⊢
      obtain ⟨before, rfl, rfl⟩ := Output.handleAll_eq_collect (Output.reply_eq_lines.mp hl)
      exact ⟨h.collecting _ _ hc, rfl, rfl⟩
    · rw [he] at hl
      cases hl
  | none hr _ _ _ _ =>
    rw [hl] at hr
    cases hr
  | _ => cases hl

theorem Delivers.step {s : State} {accepted : List String} (h : s.Delivers accepted)
    (action : Action) :
    (s.step action).state.Delivers
      (accepted ++ (action.acceptedLine? (s.step action).reply).toList) := by
  have hsound := h.sound.step action
  have he := s.step_effect action
  generalize s.step action = r at hsound he ⊢
  cases he with
  | sent _ _ =>
    refine ⟨hsound, fun hc => ?_, fun lines n hc => ?_⟩
    · exact congrArg (· ++ _) (h.unclaimed hc)
    · rw [← h.collecting lines n hc]
      exact (List.append_assoc ..).symm
  | @claimed action output ho hc =>
    have hnone : action.acceptedLine? .done = none := Action.acceptedLine?_eq_none rfl action
    refine ⟨hsound, fun he => Consumer.noConfusion he, fun lines n he => ?_⟩
    cases he
    cases action with
    | collect =>
      cases ho
      simpa [hnone] using h.unclaimed hc
    | _ => cases ho
  | polled hc =>
    rcases s.pollConsumer_cases (h.sound.fine _ _ hc) _ with ⟨ending, he⟩ | ⟨_, he⟩
    · rw [he] at hsound ⊢
      exact hsound.delivers_ended rfl _
    · rw [he] at hsound ⊢
      refine ⟨hsound, fun hr => Consumer.noConfusion hr, fun lines n hr => ?_⟩
      obtain ⟨before, rfl, rfl⟩ := Output.handleAll_eq_collect (Consumer.running.inj hr).1
      simpa [suspend, Action.acceptedLine?] using h.collecting _ _ hc
  | dropped => exact hsound.delivers_ended rfl _
  | none hr hq _ hc _ =>
    rw [Action.acceptedLine?_eq_none hr action, Option.toList_none, List.append_nil]
    refine ⟨hsound, fun h' => ?_, fun lines n h' => ?_⟩
    · rw [hq]
      exact h.unclaimed (hc ▸ h')
    · rw [hq]
      exact h.collecting lines n (hc ▸ h')

theorem Delivers.after {s : State} {accepted : List String} (h : s.Delivers accepted)
    (actions : List Action) : (s.after actions).Delivers (accepted ++ s.accepted actions) := by
  induction actions generalizing s accepted with
  | nil => simpa [State.accepted, State.run, State.after] using h
  | cons action actions ih =>
    rw [accepted_cons, ← List.append_assoc]
    exact ih (h.step action)

theorem Delivers.run {s : State} {accepted lines : List String} (h : s.Delivers accepted)
    {actions : List Action} (hl : ∃ r ∈ s.run actions, r.reply = .lines lines) :
    lines = accepted ++ s.accepted actions := by
  induction actions generalizing s accepted with
  | nil =>
    obtain ⟨r, hr, _⟩ := hl
    cases hr
  | cons action actions ih =>
    obtain ⟨r, hr, hl⟩ := hl
    rw [accepted_cons]
    rcases List.mem_cons.mp hr with rfl | hr
    · obtain ⟨rfl, hended, hnone⟩ := h.lines hl
      rw [hl, hnone, (h.sound.step action).accepted_ended hended]
      simp
    · rw [ih (h.step action) ⟨r, hr, hl⟩, List.append_assoc]

/-- **Exactly-once delivery in order.** In every run, of any actions in any order, the lines that a
collecting consumer gives back at its end are the lines whose sending succeeded in the whole run, in
the order of the sends. -/
theorem collected_eq_accepted (actions : List Action) (lines : List String)
    (h : ∃ r ∈ ({} : State).run actions, r.reply = .lines lines) :
    lines = ({} : State).accepted actions :=
  delivers_initial.run h

/-- Lines of two senders, one of them between the cancellation and the poll that notices it, and two
sends that are refused. -/
theorem collected_eq_accepted_cancelled :
    let actions : List Action :=
      [.send 0 "a", .collect, .clone 0, .send 1 "b", .poll, .send 0 "a", .cancel, .send 1 "d",
        .dropSender 0, .poll, .send 1 "late", .clone 1, .send 2 "later"]
    (∃ r ∈ ({} : State).run actions, r.reply = .lines ["a", "b", "a", "d"]) ∧
      ["a", "b", "a", "d"] = ({} : State).accepted actions := by
  intro actions
  have h : ∃ r ∈ ({} : State).run actions, r.reply = .lines ["a", "b", "a", "d"] := by decide
  exact ⟨h, collected_eq_accepted actions _ h⟩

end State

end Telemetry.Aggregator
