import Telemetry.Proofs.Aggregator.Steps

/-! Refusal: a sender is refused exactly if the consumer has ended by a poll or was dropped, which
is what it sees of the aggregator before it sends (`State.send_refused_iff`). One step closes the
aggregator only by ending or dropping the consumer (`State.IsSound.step_accepting`), and no step
opens it again. -/

namespace Telemetry.Aggregator

/-- The output of a print that met a fault gives it back. -/
theorem Output.reply_eq_failed {output : Output} (h : output.isFine = false) :
    ∃ fault, output.reply = .failed fault := by
  cases output with
  | collect _ => cases h
  | print _ fault =>
    cases fault with
    | none => cases h
    | some fault => exact ⟨fault, rfl⟩

namespace State

theorem isAlive_iff {s : State} {sender : Nat} :
    s.isAlive sender = true ↔ s.senders[sender]? = some true := by
  rw [isAlive, List.getD_eq_getElem?_getD]
  cases s.senders[sender]? <;> simp

theorem hasSenders_of_isAlive {s : State} {sender : Nat} (h : s.isAlive sender = true) :
    s.hasSenders = true := by
  rw [hasSenders, List.any_eq_true]
  exact ⟨true, List.mem_of_getElem? (isAlive_iff.mp h), rfl⟩

theorem closedViews_of_isAlive {s : State} {sender : Nat} (h : s.isAlive sender = true) :
    s.closedViews[sender]? = some (some !s.accepting) := by
  rw [closedViews, List.getElem?_map, isAlive_iff.mp h]
  rfl

theorem step_send_of_isAlive {s : State} {sender : Nat} (h : s.isAlive sender = true)
    (line : String) :
    (s.step (.send sender line)).reply = if s.accepting then .sent else .refused := by
  simp only [step, h]
  cases s.accepting <;> rfl

theorem step_send_eq_refused_iff {s : State} {sender : Nat} (h : s.isAlive sender = true)
    {line : String} : (s.step (.send sender line)).reply = .refused ↔ s.accepting = false := by
  rw [step_send_of_isAlive h]
  cases s.accepting <;> simp

/-- Only a sender that is alive is refused. -/
theorem isAlive_of_refused {s : State} {sender : Nat} {line : String}
    (h : (s.step (.send sender line)).reply = .refused) : s.isAlive sender = true := by
  simp only [step] at h
  split at h
  · cases h
  · rename_i ha
    simpa using ha

/-- No line is accepted after a step exactly if none was before it, or the step ends the consumer or
drops it. -/
theorem IsSound.step_accepting {s : State} (h : s.IsSound) (action : Action) :
    (s.step action).state.accepting = false ↔
      s.accepting = false ∨ (s.step action).reply.isCompletion = true ∨
        action = .dropConsumer := by
  by_cases hd : action = .dropConsumer
  · simp [hd, State.step]
  · have he := s.step_effect action
    generalize s.step action = r at he ⊢
    cases he with
    | sent _ _ => simp [Reply.isCompletion]
    | claimed _ _ => simp [Reply.isCompletion, hd]
    | polled hc =>
      rcases s.pollConsumer_cases (h.fine _ _ hc) _ with ⟨ending, he⟩ | ⟨_, he⟩
      · rw [he]
        simp [finish, Output.isCompletion_reply]
      · rw [he]
        simp [suspend, Reply.isCompletion]
    | dropped => exact absurd rfl hd
    | none hr _ ha _ _ => simp [ha, Reply.isCompletion_eq_false hr, hd]

/-- No line is accepted after a run exactly if none was before it, or the consumer ended or was
dropped in it. -/
theorem IsSound.after_accepting {s : State} (h : s.IsSound) (actions : List Action) :
    (s.after actions).accepting = false ↔
      s.accepting = false ∨ (∃ r ∈ s.run actions, r.reply.isCompletion = true) ∨
        .dropConsumer ∈ actions := by
  induction actions generalizing s with
  | nil => simp [State.after, run]
  | cons action actions ih =>
    rw [State.after, ih (h.step action), h.step_accepting action]
    simp only [run, List.mem_cons, exists_eq_or_imp, eq_comm (a := Action.dropConsumer)]
    grind only

/-- A step gives no sender to an aggregator without senders: only one that is alive is cloned. -/
theorem IsSound.step_hasSenders {s : State} (h : s.IsSound) (hs : s.hasSenders = false)
    (action : Action) : (s.step action).state.hasSenders = false := by
  have hdead : ∀ sender, ¬s.isAlive sender = true := by
    intro sender ha
    rw [hasSenders_of_isAlive ha] at hs
    cases hs
  have he := h.senderEffect action
  generalize s.step action = r at he ⊢
  cases he with
  | cloned ha _ _ | dropped ha _ _ => exact absurd ha (hdead _)
  | none _ hsenders => rwa [hasSenders, hsenders]

theorem IsSound.after_hasSenders {s : State} (h : s.IsSound) (hs : s.hasSenders = false)
    (actions : List Action) : (s.after actions).hasSenders = false := by
  induction actions generalizing s with
  | nil => exact hs
  | cons action actions ih => exact ih (h.step action) (h.step_hasSenders hs action)

/-- A poll ends the consumer when the cancellation is seen, when its output fails, or when no sender
is left. -/
theorem pollConsumer_completion {s : State} {output : Output} (h : output.isFine = true)
    {processed : Nat} (hc : (s.pollConsumer output processed).reply.isCompletion = true) :
    s.signal.isCancelled = true ∨
      (∃ fault, (s.pollConsumer output processed).reply = .failed fault) ∨
      s.hasSenders = false := by
  rw [pollConsumer, consume_eq s h, cancellationSeen_eq] at hc ⊢
  dsimp only at hc ⊢
  by_cases hseen : s.signal.isCancelled = true
  · exact .inl hseen
  · rw [if_neg hseen] at hc ⊢
    cases hf : (output.handleAll processed s.queue).1.isFine with
    | false => exact .inr (.inl (by simpa [finish] using Output.reply_eq_failed hf))
    | true =>
      rw [hf, if_neg (by simp)] at hc
      cases hs : s.hasSenders with
      | false => exact .inr (.inr rfl)
      | true =>
        rw [if_pos hs] at hc
        cases hc

theorem poll_of_completion {s : State} {action : Action}
    (h : (s.step action).reply.isCompletion = true) : action = .poll := by
  have he := s.step_effect action
  generalize s.step action = r at he h
  cases he with
  | polled _ => rfl
  | none hr _ _ _ _ =>
    rw [Reply.isCompletion_eq_false hr] at h
    cases h
  | _ => cases h

theorem poll_mem_of_completion {s : State} {actions : List Action} {r : Result}
    (hr : r ∈ s.run actions) (hc : r.reply.isCompletion = true) : .poll ∈ actions := by
  induction actions generalizing s with
  | nil => cases hr
  | cons action actions ih =>
    rcases List.mem_cons.mp hr with rfl | hr
    · rw [poll_of_completion hc]
      exact List.mem_cons_self
    · exact List.mem_cons_of_mem _ (ih hr)

/-- A step ends the consumer after the cancellation, by a fault of its output, or without senders. -/
theorem IsSound.step_completion {s : State} (h : s.IsSound) {action : Action}
    (hc : (s.step action).reply.isCompletion = true) :
    (s.step action).state.signal.isCancelled = true ∨
      (∃ fault, (s.step action).reply = .failed fault) ∨
      (s.step action).state.hasSenders = false := by
  have he := s.step_effect action
  generalize s.step action = r at he hc ⊢
  cases he with
  | polled hrun =>
    obtain ⟨_, hsenders, hsignal, _⟩ := s.pollConsumer_frame (h.fine _ _ hrun) _
    rw [hsignal, hasSenders, hsenders]
    exact pollConsumer_completion (h.fine _ _ hrun) hc
  | none hr _ _ _ _ =>
    rw [Reply.isCompletion_eq_false hr] at hc
    cases hc
  | _ => cases hc

/-- As long as a sender is alive, the consumer has ended after the cancellation or by a fault of its
output. -/
theorem IsSound.run_completion {s : State} (h : s.IsSound) {actions : List Action}
    (hs : (s.after actions).hasSenders = true) {r : Result} (hr : r ∈ s.run actions)
    (hc : r.reply.isCompletion = true) :
    r.state.signal.isCancelled = true ∨ ∃ fault, r.reply = .failed fault := by
  induction actions generalizing s with
  | nil => cases hr
  | cons action actions ih =>
    rcases List.mem_cons.mp hr with rfl | hr
    · rcases h.step_completion hc with hk | hf | hn
      · exact .inl hk
      · exact .inr hf
      · rw [State.after, (h.step action).after_hasSenders hn actions] at hs
        cases hs
    · exact ih (h.step action) hs hr

/-- A run that begins with an aggregator just made ends its consumer by a poll, or drops it. -/
def Ends (actions : List Action) : Prop :=
  (∃ r ∈ run {} actions, r.reply.isCompletion = true) ∨ .dropConsumer ∈ actions

theorem accepting_after_iff (actions : List Action) :
    (after {} actions).accepting = false ↔ Ends actions := by
  rw [isSound_initial.after_accepting, Ends]
  simp

theorem Ends.append {actions : List Action} (h : Ends actions) (more : List Action) :
    Ends (actions ++ more) := by
  rw [← accepting_after_iff] at h
  rw [← accepting_after_iff, after_append]
  exact ((isSound_initial.after actions).after_accepting more).mpr (.inl h)

/-- Only polls and the dropping of the consumer end a run. -/
theorem ends_of_append {actions more : List Action} (hp : .poll ∉ more)
    (hd : .dropConsumer ∉ more) (h : Ends (actions ++ more)) : Ends actions := by
  rw [← accepting_after_iff, after_append] at h
  rw [← accepting_after_iff]
  rcases ((isSound_initial.after actions).after_accepting more).mp h with ha | ⟨r, hr, hc⟩ | hmem
  · exact ha
  · exact absurd (poll_mem_of_completion hr hc) hp
  · exact absurd hmem hd

/-- When senders are refused, in all runs of an aggregator that begin with `actions`. -/
structure Refusal (actions : List Action) : Prop where
  /-- A sender that is alive is refused if it sees the aggregator closed, and only then. -/
  refused_iff_closed : ∀ sender line, (after {} actions).isAlive sender = true →
    (((after {} actions).step (.send sender line)).reply = .refused ↔
      (after {} actions).closedViews[sender]? = some (some true))
  /-- It is refused if the consumer has ended or was dropped, and only then. -/
  refused_iff_ends : ∀ sender line, (after {} actions).isAlive sender = true →
    (((after {} actions).step (.send sender line)).reply = .refused ↔ Ends actions)
  sent : ∀ sender line, (after {} actions).isAlive sender = true →
    ((after {} actions).step (.send sender line)).reply ≠ .refused →
    ((after {} actions).step (.send sender line)).reply = .sent
  /-- With a sender that is alive, the consumer has ended for one of two reasons. -/
  cause : ∀ sender, (after {} actions).isAlive sender = true →
    ∀ r ∈ run {} actions, r.reply.isCompletion = true →
    r.state.signal.isCancelled = true ∨ ∃ fault, r.reply = .failed fault
  /-- Nothing but a poll or the dropping of the consumer leads to refusals, in particular no
  cancellation alone. -/
  unpolled : ¬Ends actions → ∀ more, .poll ∉ more → .dropConsumer ∉ more → ∀ sender line,
    (after {} (actions ++ more)).isAlive sender = true →
    ((after {} (actions ++ more)).step (.send sender line)).reply = .sent
  /-- After a refusal every sender is refused. -/
  lasting : ∀ refused line,
    ((after {} actions).step (.send refused line)).reply = .refused → ∀ more sender line,
    (after {} (actions ++ more)).isAlive sender = true →
    ((after {} (actions ++ more)).step (.send sender line)).reply = .refused

/-- **Senders are refused exactly when the consumer has stopped.** After all actions in any order, a
sender that is alive is refused if and only if it sees the aggregator closed, that is if a poll has
ended the consumer, after the cancellation or by a fault of its output, or the consumer was dropped;
and then every sender is refused for good. -/
theorem send_refused_iff (actions : List Action) : Refusal actions where
  refused_iff_closed := by
    intro sender line ha
    rw [step_send_of_isAlive ha, closedViews_of_isAlive ha]
    cases (after {} actions).accepting <;> simp
  refused_iff_ends := by
    intro sender line ha
    rw [step_send_eq_refused_iff ha, accepting_after_iff]
  sent := by
    intro sender line ha hr
    rw [step_send_of_isAlive ha] at hr ⊢
    split at hr
    · rw [if_pos ‹_›]
    · exact absurd rfl hr
  cause := by
    intro sender ha r hr hc
    exact isSound_initial.run_completion (hasSenders_of_isAlive ha) hr hc
  unpolled := by
    intro hn more hp hd sender line ha
    have hopen : (after {} (actions ++ more)).accepting = true := by
      rw [← Bool.not_eq_false, accepting_after_iff]
      exact fun he => hn (ends_of_append hp hd he)
    rw [step_send_of_isAlive ha, if_pos hopen]
  lasting := by
    intro refused line hr more sender line' ha
    rw [step_send_eq_refused_iff (isAlive_of_refused hr), accepting_after_iff] at hr
    rw [step_send_eq_refused_iff ha, accepting_after_iff]
    exact hr.append more

end State

end Telemetry.Aggregator
