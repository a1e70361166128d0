import Mathlib
import Telemetry.Cli.DialRun
import Telemetry.Proofs.Aggregator.Stopping

/-! What a single step of a run of the command `dial` does (`DialRun.step_effect`), and what holds
along every run: every task holds a sender until it ends, and so does the program until it has
started all of them; and the consumer is at work until it has given something back
(`DialRun.IsSound`). -/

namespace Telemetry.Cli

namespace ProgramPhase

/-- The tasks that have not been started. -/
def pending : ProgramPhase → List DialJob
  | .starting rest => rest
  | _ => []

def isStarting : ProgramPhase → Bool
  | .starting _ => true
  | _ => false

/-- The program has stopped waiting for the tasks. -/
def hasJoined : ProgramPhase → Bool
  | .finishing _ | .exited _ => true
  | _ => false

end ProgramPhase

def DialTask.hasEnded (t : DialTask) : Bool := t.phase == .ended

/-- A task in a list beside the others, and the list after the task has changed. -/
theorem DialTask.perm_set {tasks : List DialTask} {index : Nat} {t : DialTask}
    (h : tasks[index]? = some t) : ∃ others, tasks.Perm (t :: others) ∧
      ∀ u, (tasks.set index u).Perm (u :: others) := by
  obtain ⟨hlt, rfl⟩ := List.getElem?_eq_some_iff.mp h
  exact ⟨tasks.eraseIdx index, (List.getElem_cons_eraseIdx_perm hlt).symm,
    List.set_perm_cons_eraseIdx hlt⟩

/-- A change of a task that keeps one of its sides keeps that side of the list. -/
theorem DialTask.map_set_of_eq {α : Type} {f : DialTask → α} {tasks : List DialTask} {index : Nat}
    {t u : DialTask} (h : tasks[index]? = some t) (hf : f u = f t) :
    (tasks.set index u).map f = tasks.map f := by
  obtain ⟨hlt, rfl⟩ := List.getElem?_eq_some_iff.mp h
  apply List.ext_getElem
  · simp
  · intro i hi _
    simp only [List.getElem_map, List.getElem_set]
    split
    · rename_i he
      subst he
      exact hf
    · rfl

namespace DialRun

open Aggregator

/-- What an event does to a run. -/
inductive Effect (r : DialRun) : DialEvent → DialRun → Prop
  | idle {event : DialEvent} : Effect r event r
  | started {job : DialJob} {rest : List DialJob} : r.program = .starting (job :: rest) →
    Effect r .program
      { r with program := .starting rest
               tasks := r.tasks ++ [{ job := job }]
               aggregator := (r.aggregator.step (.clone 0)).state }
  | launched : r.program = .starting [] →
    Effect r .program
      { r with program := .joining, aggregator := (r.aggregator.step (.dropSender 0)).state }
  | joined : r.program = .joining → (∀ t ∈ r.tasks, t.hasEnded = true) →
    Effect r .program
      { r with program := .finishing (.counted (r.tasks.countP (·.job.failed))) }
  | unprinted {result : DialEnd} {fault : SinkFault} : r.program = .finishing result →
    r.consumed = some (.error fault) →
    Effect r .program { r with program := .exited (.unprinted fault) }
  | written {result : DialEnd} {lines : List String} {stdout : Sink} {fault : Option SinkFault} :
    r.program = .finishing result → r.consumed = some (.ok lines) →
    r.stdout.writeLines lines = (stdout, fault) →
    Effect r .program
      { r with program := .exited (if fault.isSome then .aborted else result), stdout := stdout }
  | sent {index : Nat} {job : DialJob} : r.tasks[index]? = some ⟨job, .dialing⟩ →
    Effect r (.task index)
      { r with tasks := r.tasks.set index ⟨job, .reported⟩
               aggregator := (r.aggregator.step (.send (senderOf index) job.line)).state }
  | ended {event : DialEvent} {index : Nat} {job : DialJob} {phase : TaskPhase} :
    r.tasks[index]? = some ⟨job, phase⟩ → phase ≠ .ended →
    (phase = .dialing → r.aggregator.signal.isCancelled = true) →
    Effect r event (r.endTask index job)
  | polled : Effect r .poll r.stepPoll
  | interrupted : r.program = .joining →
    Effect r .interrupt
      { r with program := .finishing .interrupted
               aggregator := (r.aggregator.step .cancel).state }

theorem stepProgram_effect (r : DialRun) : Effect r .program r.stepProgram := by
  unfold stepProgram
  split
  · exact .started ‹_›
  · exact .launched ‹_›
  · split
    · rename_i hall
      refine .joined ‹_› fun t ht => ?_
      exact List.all_eq_true.mp hall t ht
    · exact .idle
  · unfold finish
    split
    · exact .idle
    · exact .unprinted ‹_› ‹_›
    · exact .written ‹_› ‹_› rfl
  · exact .idle

theorem step_effect (r : DialRun) (event : DialEvent) : Effect r event (r.step event) := by
  cases event with
  | program => exact r.stepProgram_effect
  | task index =>
    simp only [step, stepTask]
    split
    · exact .sent ‹_›
    · exact .ended ‹_› (by simp) (by simp)
    · exact .idle
  | poll => exact .polled
  | interrupt =>
    simp only [step, stepInterrupt]
    split
    · exact .interrupted ‹_›
    · exact .idle
  | giveUp index =>
    simp only [step, stepGiveUp]
    split
    · split
      · rename_i hseen
        rw [State.cancellationSeen_eq] at hseen
        exact .ended ‹_› (by simp) fun _ => hseen
      · exact .idle
    · exact .idle

/-- What holds along every run that starts the tasks of some jobs. -/
structure IsSound (jobs : List DialJob) (r : DialRun) : Prop where
  aggregator : r.aggregator.IsSound
  jobs : r.tasks.map (·.job) ++ r.program.pending = jobs
  /-- The program holds a sender while it starts tasks, and each task holds one until it ends. -/
  senders : r.aggregator.senders = r.program.isStarting :: r.tasks.map (!·.hasEnded)
  working : r.consumed = none → ∃ output processed,
    r.aggregator.consumer = .running output processed
  finished : ∀ result, r.consumed = some result → r.aggregator.consumer = .finished
  /-- Nobody stops waiting for the tasks before they have ended, unless interrupted. -/
  joined : r.program.hasJoined = true →
    r.aggregator.signal.isCancelled = true ∨ ∀ t ∈ r.tasks, t.hasEnded = true

theorem start_isSound (jobs : List DialJob) (collect : Bool) (limits : SinkLimits) :
    (start jobs collect limits).IsSound jobs where
  aggregator := State.isSound_initial.step _
  jobs := rfl
  senders := by cases collect <;> rfl
  working := by
    intro _
    cases collect with
    | true => exact ⟨.collect [], 0, rfl⟩
    | false => exact ⟨.print { limits := limits } none, 0, rfl⟩
  finished := by
    intro result hc
    cases hc
  joined := by
    intro hj
    cases hj

namespace IsSound

variable {jobs : List DialJob} {r : DialRun}

theorem isAlive_first (h : r.IsSound jobs) (hp : r.program.isStarting = true) :
    r.aggregator.isAlive 0 = true := by
  rw [State.isAlive_iff, h.senders, hp]
  rfl

theorem isAlive_senderOf (h : r.IsSound jobs) {index : Nat} {t : DialTask}
    (ht : r.tasks[index]? = some t) (he : t.hasEnded = false) :
    r.aggregator.isAlive (senderOf index) = true := by
  rw [State.isAlive_iff, h.senders, senderOf, List.getElem?_cons_succ, List.getElem?_map, ht]
  simp [he]

theorem consumer_isActive (h : r.IsSound jobs) (hc : r.consumed = none) :
    r.aggregator.consumer.isActive = true := by
  obtain ⟨output, processed, hr⟩ := h.working hc
  rw [hr]
  rfl

/-- The tasks that are there once all are started. -/
theorem map_job (h : r.IsSound jobs) (hp : r.program.isStarting = false) :
    r.tasks.map (·.job) = jobs := by
  rw [← h.jobs]
  cases hr : r.program with
  | starting rest =>
    rw [hr] at hp
    cases hp
  | _ => exact (List.append_nil _).symm

theorem hasSenders_eq_false_iff (h : r.IsSound jobs) : r.aggregator.hasSenders = false ↔
    r.program.isStarting = false ∧ ∀ t ∈ r.tasks, t.hasEnded = true := by
  rw [State.hasSenders, h.senders]
  simp

/-- Polls after the end of the consumer do nothing. -/
theorem stepPoll_of_consumed (h : r.IsSound jobs) {result : Except SinkFault (List String)}
    (hc : r.consumed = some result) : r.stepPoll = r := by
  have hf : r.aggregator.consumer = .finished := h.finished _ hc
  have hs : r.aggregator.step .poll = ⟨.notApplicable, r.aggregator, []⟩ := by
    simp only [State.step, hf]
  rw [stepPoll, hs]
  rfl

end IsSound

/-- The end of a consumer gives something back. -/
theorem exists_consumedBy (output : Output) : ∃ result, consumedBy? output.reply = some result := by
  cases output with
  | collect lines => exact ⟨_, rfl⟩
  | print _ fault => cases fault <;> exact ⟨_, rfl⟩

theorem stepPoll_of_finish {r : DialRun} {output : Output} {processed : Nat} {ending : Ending}
    {result : Except SinkFault (List String)} (hr : consumedBy? output.reply = some result)
    (h : r.aggregator.step .poll = r.aggregator.finish output processed ending) :
    r.stepPoll =
      { r with aggregator := (r.aggregator.finish output processed ending).state
               consumed := some result } := by
  rw [stepPoll, h]
  simp only [State.finish, hr, Option.some_or]

theorem stepPoll_of_suspend {r : DialRun} {output : Output} {processed : Nat}
    (h : r.aggregator.step .poll = r.aggregator.suspend output processed) :
    r.stepPoll = { r with aggregator := (r.aggregator.suspend output processed).state } := by
  rw [stepPoll, h]
  rfl

namespace IsSound

variable {jobs : List DialJob} {r : DialRun}

/-- A poll ends a consumer at work, which gives something back, or leaves it at work. -/
theorem poll_cases (h : r.IsSound jobs) (hc : r.consumed = none) :
    (∃ output processed ending,
      r.aggregator.step .poll = r.aggregator.finish output processed ending) ∨
    ∃ output processed, r.aggregator.step .poll = r.aggregator.suspend output processed := by
  obtain ⟨output, processed, hr⟩ := h.working hc
  rw [State.step_poll_of_running hr]
  rcases r.aggregator.pollConsumer_cases (h.aggregator.fine _ _ hr) processed with
    ⟨ending, he⟩ | ⟨-, he⟩
  · exact .inl ⟨_, _, ending, he⟩
  · exact .inr ⟨_, _, he⟩

theorem stepPoll (h : r.IsSound jobs) : r.stepPoll.IsSound jobs := by
  have hsound := h.aggregator.step .poll
  cases hc : r.consumed with
  | some result =>
    rw [h.stepPoll_of_consumed hc]
    exact h
  | none =>
    rcases h.poll_cases hc with ⟨output, processed, ending, hp⟩ | ⟨output, processed, hp⟩
    · obtain ⟨result, hresult⟩ := exists_consumedBy output
      rw [hp] at hsound
      rw [stepPoll_of_finish hresult hp]
      exact ⟨hsound, h.jobs, h.senders, nofun, fun _ _ => rfl, h.joined⟩
    · rw [hp] at hsound
      rw [stepPoll_of_suspend hp]
      refine ⟨hsound, h.jobs, h.senders, fun _ => ⟨_, _, rfl⟩, fun result hn => ?_, h.joined⟩
      rw [show r.consumed = some result from hn] at hc
      cases hc

/-- A task sends its line and keeps its sender. -/
theorem sent (h : r.IsSound jobs) {index : Nat} {job : DialJob}
    (ht : r.tasks[index]? = some ⟨job, .dialing⟩) : IsSound jobs
      { r with tasks := r.tasks.set index ⟨job, .reported⟩
               aggregator := (r.aggregator.step (.send (senderOf index) job.line)).state } := by
  have ha := h.isAlive_senderOf ht rfl
  have hsound := h.aggregator.step (.send (senderOf index) job.line)
  rw [State.step_send_state_of_isAlive ha] at hsound ⊢
  refine ⟨hsound, ?_, ?_, h.working, h.finished, fun hj => ?_⟩
  · dsimp only
    rw [DialTask.map_set_of_eq ht (by rfl)]
    exact h.jobs
  · dsimp only
    rw [DialTask.map_set_of_eq ht (by rfl)]
    exact h.senders
  · refine (h.joined hj).imp_right fun hall => ?_
    cases hall _ (List.mem_of_getElem? ht)

theorem endTask (h : r.IsSound jobs) {index : Nat} {job : DialJob} {phase : TaskPhase}
    (ht : r.tasks[index]? = some ⟨job, phase⟩) (hp : phase ≠ .ended) :
    (r.endTask index job).IsSound jobs := by
  have ha := h.isAlive_senderOf ht (by simpa [DialTask.hasEnded] using hp)
  have hsound := h.aggregator.step (.dropSender (senderOf index))
  rw [DialRun.endTask]
  rw [State.step_dropSender_of_isAlive ha] at hsound ⊢
  refine ⟨hsound, ?_, ?_, h.working, h.finished, fun hj => ?_⟩
  · dsimp only
    rw [DialTask.map_set_of_eq ht (by rfl)]
    exact h.jobs
  · dsimp only
    rw [h.senders, senderOf, List.set_cons_succ, List.map_set]
    rfl
  · refine (h.joined hj).imp_right fun hall t hm => ?_
    rcases List.mem_or_eq_of_mem_set hm with hm | rfl
    · exact hall t hm
    · rfl

theorem started (h : r.IsSound jobs) {job : DialJob} {rest : List DialJob}
    (hp : r.program = .starting (job :: rest)) : IsSound jobs
      { r with program := .starting rest
               tasks := r.tasks ++ [{ job := job }]
               aggregator := (r.aggregator.step (.clone 0)).state } := by
  have hsound := h.aggregator.step (.clone 0)
  have hs := h.senders
  have hj := h.jobs
  rw [hp] at hs hj
  rw [State.step_clone_of_isAlive (h.isAlive_first (by rw [hp]; rfl))] at hsound ⊢
  refine ⟨hsound, ?_, ?_, h.working, h.finished, nofun⟩
  · rw [← hj]
    simp [ProgramPhase.pending]
  · rw [hs]
    simp [ProgramPhase.isStarting, DialTask.hasEnded]

theorem launched (h : r.IsSound jobs) (hp : r.program = .starting []) : IsSound jobs
    { r with program := .joining, aggregator := (r.aggregator.step (.dropSender 0)).state } := by
  have hsound := h.aggregator.step (.dropSender 0)
  have hs := h.senders
  have hj := h.jobs
  rw [hp] at hs hj
  rw [State.step_dropSender_of_isAlive (h.isAlive_first (by rw [hp]; rfl))] at hsound ⊢
  refine ⟨hsound, hj, ?_, h.working, h.finished, nofun⟩
  rw [hs]
  rfl

/-- The program goes on without starting a task. -/
theorem goesOn (h : r.IsSound jobs) {p : ProgramPhase} (hp : p.pending = r.program.pending)
    (hs : p.isStarting = r.program.isStarting)
    (hj : p.hasJoined = true →
      r.aggregator.signal.isCancelled = true ∨ ∀ t ∈ r.tasks, t.hasEnded = true)
    (stdout : Sink) : IsSound jobs { r with program := p, stdout := stdout } := by
  refine ⟨h.aggregator, ?_, ?_, h.working, h.finished, hj⟩
  · rw [← h.jobs, hp]
  · rw [h.senders, hs]

theorem joinedAll (h : r.IsSound jobs) (hp : r.program = .joining)
    (hall : ∀ t ∈ r.tasks, t.hasEnded = true) (result : DialEnd) :
    IsSound jobs { r with program := .finishing result } := by
  refine h.goesOn ?_ ?_ (fun _ => .inr hall) r.stdout
  all_goals
    rw [hp]
    rfl

theorem ends (h : r.IsSound jobs) {result : DialEnd} (hp : r.program = .finishing result)
    (last : DialEnd) (stdout : Sink) :
    IsSound jobs { r with program := .exited last, stdout := stdout } := by
  refine h.goesOn ?_ ?_ (fun _ => h.joined ?_) stdout
  all_goals
    rw [hp]
    rfl

theorem interrupted (h : r.IsSound jobs) (hp : r.program = .joining) : IsSound jobs
    { r with program := .finishing .interrupted
             aggregator := (r.aggregator.step .cancel).state } := by
  have hcancel := (h.aggregator.step_isCancelled .cancel).mpr (.inr (.inl rfl))
  obtain ⟨hsenders, hconsumer⟩ := r.aggregator.step_cancel_frame
  have hs := h.senders
  have hj := h.jobs
  rw [hp] at hs hj
  refine ⟨h.aggregator.step .cancel, hj, ?_, fun hc => ?_, fun result hc => ?_,
    fun _ => .inl hcancel⟩
  · rw [hsenders]
    exact hs
  · rw [hconsumer]
    exact h.working hc
  · rw [hconsumer]
    exact h.finished result hc

theorem step (h : r.IsSound jobs) (event : DialEvent) : (r.step event).IsSound jobs := by
  have he := r.step_effect event
  generalize r.step event = t at he ⊢
  cases he with
  | idle => exact h
  | started hp => exact h.started hp
  | launched hp => exact h.launched hp
  | joined hp hall => exact h.joinedAll hp hall _
  | unprinted hp _ => exact h.ends hp _ _
  | written hp _ _ => exact h.ends hp _ _
  | sent ht => exact h.sent ht
  | ended ht hp _ => exact h.endTask ht hp
  | polled => exact h.stepPoll
  | interrupted hp => exact h.interrupted hp

theorem run (h : r.IsSound jobs) (events : List DialEvent) : (r.run events).IsSound jobs := by
  induction events generalizing r with
  | nil => exact h
  | cons event events ih => exact ih (h.step event)

end IsSound

end DialRun

end Telemetry.Cli
