import Mathlib
import Telemetry.Aggregator

/-! What a single step does to the lines that wait and to the consumer (`State.step_effect`), to the
signal (`State.IsSound.signalEffect`) and to the senders (`State.IsSound.senderEffect`), what a poll
leads to (`State.consume_eq`), and that lines are accepted exactly as long as the consumer has not
ended (`State.IsSound`, kept by every step and so along every run). -/

namespace Telemetry.Aggregator

namespace Output

theorem reply_eq_lines {output : Output} {lines : List String} :
    output.reply = .lines lines ↔ output = .collect lines := by
  cases output with
  | collect taken => simp [reply]
  | print _ fault => cases fault <;> simp [reply]

theorem handle_eq_collect {output : Output} {line : String} {lines : List String}
    (h : output.handle line = .collect lines) :
    ∃ taken, output = .collect taken ∧ lines = taken ++ [line] := by
  cases output with
  | collect taken =>
    cases h
    exact ⟨taken, rfl, rfl⟩
  | print _ fault => cases fault <;> cases h

/-- Only an output that collects is left as one, and it has taken all the lines. -/
theorem handleAll_eq_collect {output : Output} {processed : Nat} {lines taken : List String}
    (h : (output.handleAll processed lines).1 = .collect taken) :
    ∃ before, output = .collect before ∧ taken = before ++ lines := by
  induction lines generalizing output processed with
  | nil => exact ⟨taken, h, by simp⟩
  | cons line lines ih =>
    simp only [handleAll] at h
    split at h
    · obtain ⟨before, hb, rfl⟩ := ih h
      obtain ⟨first, rfl, rfl⟩ := handle_eq_collect hb
      exact ⟨first, rfl, by simp⟩
    · rename_i hf
      rw [show output.handle line = .collect taken from h] at hf
      exact absurd rfl hf

end Output

namespace Consumer

/-- The consumer has not ended: it is at work, or has not come yet. -/
def isActive : Consumer → Bool
  | .unclaimed | .running _ _ => true
  | .finished | .dropped => false

end Consumer

namespace State

/-- The two ways out of the loop take the same lines: up to the first fault, and counting the one
that meets it. How a poll ends is decided after that. -/
theorem consume_eq (s : State) {output : Output} (h : output.isFine = true) (processed : Nat)
    (lines : List String) :
    s.consume output processed lines =
      let (output, processed) := output.handleAll processed lines
      if s.cancellationSeen then s.finish output processed .cancelled
      else if !output.isFine then s.finish output processed .outputFailed
      else if s.hasSenders then s.suspend output processed
      else s.finish output processed .sendersGone := by
  induction lines generalizing output processed with
  | nil => simp [consume, Output.handleAll, h]
  | cons line lines ih =>
    cases hc : s.cancellationSeen with
    | true => simp [consume, hc]
    | false =>
      cases hf : (output.handle line).isFine with
      | true => simp [consume, Output.handleAll, hc, hf, ih hf]
      | false => simp [consume, Output.handleAll, hc, hf]

/-- A poll takes the lines that wait, and either ends the consumer or leaves it at work. -/
theorem pollConsumer_cases (s : State) {output : Output} (h : output.isFine = true)
    (processed : Nat) :
    let taken := output.handleAll processed s.queue
    (∃ ending, s.pollConsumer output processed = s.finish taken.1 taken.2 ending) ∨
      taken.1.isFine = true ∧ s.pollConsumer output processed = s.suspend taken.1 taken.2 := by
  rw [pollConsumer, consume_eq s h]
  dsimp only
  split
  · exact .inl ⟨_, rfl⟩
  · split
    · exact .inl ⟨_, rfl⟩
    · rename_i hf
      split
      · exact .inr ⟨by simpa using hf, rfl⟩
      · exact .inl ⟨_, rfl⟩

/-- A poll takes all lines, and changes neither the senders nor the cancellation. -/
theorem pollConsumer_frame (s : State) {output : Output} (h : output.isFine = true)
    (processed : Nat) :
    (s.pollConsumer output processed).state.queue = [] ∧
      (s.pollConsumer output processed).state.senders = s.senders ∧
      (s.pollConsumer output processed).state.signal = s.signal ∧
      (s.pollConsumer output processed).state.waits = s.waits := by
  rcases s.pollConsumer_cases h processed with ⟨ending, he⟩ | ⟨_, he⟩
  · rw [he]
    exact ⟨rfl, rfl, rfl, rfl⟩
  · rw [he]
    exact ⟨rfl, rfl, rfl, rfl⟩

end State

/-- What a consumer that is claimed by an action does with the lines. -/
def Action.output? : Action → Option Output
  | .collect => some (.collect [])
  | .print limits => some (.print { limits := limits } none)
  | _ => none

theorem Action.isFine_output? {action : Action} {output : Output}
    (h : action.output? = some output) : output.isFine = true := by
  cases action with
  | collect | print _ =>
    cases h
    rfl
  | _ => cases h

/-- The replies that tell of a line that was accepted, or of a consumer. -/
def Reply.isOfChannel : Reply → Bool
  | .sent | .pending | .lines _ | .printed | .failed _ => true
  | _ => false

/-- The replies of a poll that ends the consumer. -/
def Reply.isCompletion : Reply → Bool
  | .lines _ | .printed | .failed _ => true
  | _ => false

theorem Reply.isCompletion_eq_false {reply : Reply} (h : reply.isOfChannel = false) :
    reply.isCompletion = false := by
  cases reply with
  | lines _ | printed | failed _ => cases h
  | _ => rfl

theorem Output.isCompletion_reply (output : Output) : output.reply.isCompletion = true := by
  cases output with
  | collect _ => rfl
  | print _ fault => cases fault <;> rfl

/-- What an action does to the lines that wait and to the consumer. -/
inductive Effect (s : State) : Action → Result → Prop
  | sent {sender : Nat} {line : String} : s.isAlive sender = true → s.accepting = true →
    Effect s (.send sender line) ⟨.sent, { s with queue := s.queue ++ [line] }, []⟩
  | claimed {action : Action} {output : Output} : action.output? = some output →
    s.consumer = .unclaimed →
    Effect s action
      ⟨.done, { s with consumer := .running output 0, sink := output.sink? }, []⟩
  | polled {output : Output} {processed : Nat} : s.consumer = .running output processed →
    Effect s .poll (s.pollConsumer output processed)
  | dropped :
    Effect s .dropConsumer
      ⟨.done, { s with queue := [], accepting := false, consumer := .dropped }, []⟩
  | none {action : Action} {r : Result} : r.reply.isOfChannel = false →
    r.state.queue = s.queue → r.state.accepting = s.accepting →
    r.state.consumer = s.consumer → r.state.sink = s.sink → Effect s action r

namespace State

theorem step_effect (s : State) (action : Action) : Effect s action (s.step action) := by
  cases action with
  | send sender line =>
    simp only [step]
    split
    · exact .none rfl rfl rfl rfl rfl
    · rename_i ha
      split
      · exact .sent (by simpa using ha) ‹_›
      · exact .none rfl rfl rfl rfl rfl
  | clone sender | dropSender sender =>
    simp only [step]
    split <;> exact .none rfl rfl rfl rfl rfl
  | cancel =>
    simp only [step]
    split <;> exact .none rfl rfl rfl rfl rfl
  | dropHandle | wait => exact .none rfl rfl rfl rfl rfl
  | pollWait wait =>
    simp only [step]
    split <;> exact .none rfl rfl rfl rfl rfl
  | collect =>
    simp only [step, claim]
    split
    · exact .claimed rfl ‹_›
    · exact .none rfl rfl rfl rfl rfl
  | print limits =>
    simp only [step, claim]
    split
    · exact .claimed rfl ‹_›
    · exact .none rfl rfl rfl rfl rfl
  | poll =>
    simp only [step]
    split
    · exact .polled ‹_›
    · exact .none rfl rfl rfl rfl rfl
  | dropConsumer => exact .dropped

section Alive

variable {s : State} {sender : Nat}

theorem step_clone_of_isAlive (h : s.isAlive sender = true) :
    (s.step (.clone sender)).state = { s with senders := s.senders ++ [true] } := by
  simp only [step, h, if_true]

theorem step_dropSender_of_isAlive (h : s.isAlive sender = true) :
    (s.step (.dropSender sender)).state = { s with senders := s.senders.set sender false } := by
  simp only [step, h, if_true]

theorem step_send_state_of_isAlive (h : s.isAlive sender = true) (line : String) :
    (s.step (.send sender line)).state =
      { s with queue := if s.accepting then s.queue ++ [line] else s.queue } := by
  simp only [step, h]
  split
  · rename_i ha
    cases ha
  · split <;> rfl

end Alive

theorem step_cancel_frame (s : State) :
    (s.step .cancel).state.senders = s.senders ∧ (s.step .cancel).state.consumer = s.consumer := by
  simp only [step]
  split <;> exact ⟨rfl, rfl⟩

/-- Lines are accepted as long as the consumer has not ended, and the output of a consumer that is
at work has met no fault. -/
structure IsSound (s : State) : Prop where
  accepting : s.accepting = s.consumer.isActive
  fine : ∀ output processed, s.consumer = .running output processed → output.isFine = true

theorem isSound_initial : IsSound {} := ⟨rfl, fun _ _ hc => Consumer.noConfusion hc⟩

theorem finish_isSound (s : State) (output : Output) (processed : Nat) (ending : Ending) :
    (s.finish output processed ending).state.IsSound :=
  ⟨rfl, fun _ _ hc => Consumer.noConfusion hc⟩

theorem IsSound.step {s : State} (h : s.IsSound) (action : Action) :
    (s.step action).state.IsSound := by
  have he := s.step_effect action
  generalize s.step action = r at he ⊢
  cases he with
  | sent _ _ => exact ⟨h.accepting, h.fine⟩
  | claimed ho hc =>
    refine ⟨by simpa [hc, Consumer.isActive] using h.accepting, fun _ _ he => ?_⟩
    cases he
    exact Action.isFine_output? ho
  | polled hc =>
    rcases s.pollConsumer_cases (h.fine _ _ hc) _ with ⟨ending, he⟩ | ⟨hf, he⟩
    · rw [he]
      exact finish_isSound ..
    · rw [he]
      refine ⟨by simpa [suspend, hc, Consumer.isActive] using h.accepting, fun _ _ he => ?_⟩
      cases he
      exact hf
  | dropped => exact ⟨rfl, fun _ _ hc => Consumer.noConfusion hc⟩
  | none _ _ ha hc _ => exact ⟨by rw [ha, hc, h.accepting], by rw [hc]; exact h.fine⟩

/-- What an action does to the signal and to the waits for it. Without a handle the signal cannot be
fired. -/
inductive SignalEffect (s : State) : Action → Result → Prop
  | fired {r : Result} : r.state.signal = s.signal.fire → r.state.waits = s.waits →
    SignalEffect s .cancel r
  | late {r : Result} : s.signal.handleAlive = false → r.state.signal = s.signal →
    r.state.waits = s.waits → SignalEffect s .cancel r
  | dropped {r : Result} : r.state.signal = s.signal.dropHandle → r.state.waits = s.waits →
    SignalEffect s .dropHandle r
  | waited {r : Result} : r.state.signal = s.signal → r.state.waits = s.waits ++ [.fresh] →
    SignalEffect s .wait r
  | polled {wait : Nat} {w : CancelWait} {r : Result} : s.waits[wait]? = some w →
    r.state.signal = s.signal → r.state.waits = s.waits.set wait (w.poll s.signal) →
    SignalEffect s (.pollWait wait) r
  | none {action : Action} {r : Result} :
    action ≠ .cancel ∧ action ≠ .dropHandle ∧ action ≠ .wait → r.state.signal = s.signal →
    r.state.waits = s.waits → SignalEffect s action r

theorem IsSound.signalEffect {s : State} (h : s.IsSound) (action : Action) :
    SignalEffect s action (s.step action) := by
  cases action with
  | cancel =>
    simp only [State.step]
    split
    · exact .fired rfl rfl
    · rename_i ha
      exact .late (by simpa using ha) rfl rfl
  | dropHandle => exact .dropped rfl rfl
  | wait => exact .waited rfl rfl
  | pollWait wait =>
    simp only [State.step]
    split
    · exact .none (by simp) rfl rfl
    · rename_i w hw
      exact .polled hw rfl rfl
  | send _ _ | clone _ | dropSender _ =>
    simp only [State.step]
    repeat' split
    all_goals exact .none (by simp) rfl rfl
  | collect | print _ =>
    simp only [State.step, claim]
    split <;> exact .none (by simp) rfl rfl
  | poll =>
    simp only [State.step]
    split
    · rename_i output processed hc
      obtain ⟨_, _, hsignal, hwaits⟩ := s.pollConsumer_frame (h.fine _ _ hc) processed
      exact .none (by simp) hsignal hwaits
    · exact .none (by simp) rfl rfl
  | dropConsumer => exact .none (by simp) rfl rfl

/-- What an action does to the senders. Only a sender that is alive is cloned or dropped. -/
inductive SenderEffect (s : State) : Action → Result → Prop
  | cloned {sender index : Nat} {r : Result} : s.isAlive sender = true →
    r.reply = .sender index → r.state.senders = s.senders ++ [true] →
    SenderEffect s (.clone sender) r
  | dropped {sender : Nat} {r : Result} : s.isAlive sender = true → r.reply = .done →
    r.state.senders = s.senders.set sender false → SenderEffect s (.dropSender sender) r
  | none {action : Action} {r : Result} :
    (∀ sender, action = .clone sender ∨ action = .dropSender sender → r.reply = .noSender) →
    r.state.senders = s.senders → SenderEffect s action r

theorem IsSound.senderEffect {s : State} (h : s.IsSound) (action : Action) :
    SenderEffect s action (s.step action) := by
  cases action with
  | clone sender =>
    simp only [State.step]
    split
    · exact .cloned ‹_› rfl rfl
    · exact .none (fun _ _ => rfl) rfl
  | dropSender sender =>
    simp only [State.step]
    split
    · exact .dropped ‹_› rfl rfl
    · exact .none (fun _ _ => rfl) rfl
  | send _ _ | cancel | pollWait _ =>
    simp only [State.step]
    repeat' split
    all_goals exact .none (by simp) rfl
  | collect | print _ =>
    simp only [State.step, claim]
    split <;> exact .none (by simp) rfl
  | poll =>
    simp only [State.step]
    split
    · rename_i output processed hc
      obtain ⟨_, hsenders, _⟩ := s.pollConsumer_frame (h.fine _ _ hc) processed
      exact .none (by simp) hsenders
    · exact .none (by simp) rfl
  | dropHandle | wait | dropConsumer => exact .none (by simp) rfl

/-- The state that a run leads to. -/
def after (s : State) : List Action → State
  | [] => s
  | action :: actions => (s.step action).state.after actions

theorem after_append (s : State) (before more : List Action) :
    s.after (before ++ more) = (s.after before).after more := by
  induction before generalizing s with
  | nil => rfl
  | cons action actions ih => exact ih (s.step action).state

theorem IsSound.after {s : State} (h : s.IsSound) (actions : List Action) :
    (s.after actions).IsSound := by
  induction actions generalizing s with
  | nil => exact h
  | cons action actions ih => exact ih (h.step action)

end State

end Telemetry.Aggregator
