import Telemetry.Proofs.Aggregator.Printing
import Telemetry.Proofs.Cli.DialSteps

/-! Every task of a run of the command `dial` has its line written once, in the order in which the
lines were sent, if nothing interrupts the run and the output fails on no write
(`DialRun.Delivers.run`). The lines that the consumer has taken and those that wait for it are
together those of the tasks that have sent theirs. -/

namespace Telemetry

namespace Aggregator

/-- The output has taken lines and nothing else, and has met no fault. -/
inductive Output.Holds (limits : SinkLimits) : Output → List String → Prop
  | collect {lines : List String} : Holds limits (.collect lines) lines
  | print {sink : Sink} {lines : List String} : sink.limits = limits →
    sink.written = Sink.printed lines → Holds limits (.print sink none) lines

namespace Output.Holds

variable {limits : SinkLimits} {output : Output} {taken : List String}

theorem isFine (h : output.Holds limits taken) : output.isFine = true := by
  cases h with
  | collect | print _ _ => rfl

theorem handleAll (hf : limits.NeverFails) (h : output.Holds limits taken) (processed : Nat)
    (lines : List String) : (output.handleAll processed lines).1.Holds limits (taken ++ lines) := by
  cases h with
  | collect =>
    rw [handleAll_collect]
    exact .collect
  | print hl hw =>
    rw [handleAll_print (hl ▸ hf)]
    refine .print hl ?_
    dsimp only
    rw [hw, Sink.printed_append]

/-- What has been printed and what is given back at the end are together the lines. -/
theorem exists_consumedBy (h : output.Holds limits taken) : ∃ lines,
    Cli.DialRun.consumedBy? output.reply = some (.ok lines) ∧
      (output.sink?.map (·.written)).getD [] ++ Sink.printed lines = Sink.printed taken := by
  cases h with
  | collect => exact ⟨taken, rfl, rfl⟩
  | print _ hw => exact ⟨[], rfl, by simpa [Output.sink?, Sink.printed] using hw⟩

end Output.Holds

end Aggregator

namespace Cli

def DialTask.sentLine? (t : DialTask) : Option String :=
  if t.phase = .dialing then none else some t.job.line

theorem DialTask.sentLine?_of_hasEnded {t : DialTask} (h : t.hasEnded = true) :
    t.sentLine? = some t.job.line := by
  have hp : t.phase = .ended := by simpa [hasEnded] using h
  rw [sentLine?, hp]
  rfl

namespace DialRun

open Aggregator

/-- The lines of the tasks that have sent them. -/
def sentLines (r : DialRun) : List String := r.tasks.filterMap DialTask.sentLine?

theorem sentLines_of_ended {r : DialRun} (hall : ∀ t ∈ r.tasks, t.hasEnded = true) :
    r.sentLines = r.tasks.map (·.job.line) := by
  rw [sentLines, ← List.filterMap_eq_map]
  apply List.filterMap_congr
  intro t ht
  exact DialTask.sentLine?_of_hasEnded (hall t ht)

/-- A task that sends its line adds it. -/
theorem sentLines_sent {tasks : List DialTask} {index : Nat} {job : DialJob}
    (h : tasks[index]? = some ⟨job, .dialing⟩) :
    ((tasks.set index ⟨job, .reported⟩).filterMap DialTask.sentLine?).Perm
      (tasks.filterMap DialTask.sentLine? ++ [job.line]) := by
  obtain ⟨others, hb, ha⟩ := DialTask.perm_set h
  have hbefore := hb.filterMap DialTask.sentLine?
  have hafter := (ha ⟨job, .reported⟩).filterMap DialTask.sentLine?
  have hsent : DialTask.sentLine? ⟨job, .reported⟩ = some job.line := rfl
  rw [List.filterMap_cons_none rfl] at hbefore
  rw [List.filterMap_cons_some hsent] at hafter
  exact hafter.trans ((hbefore.symm.cons _).trans (List.perm_append_singleton ..).symm)

/-- A task that ends after its line adds nothing. -/
theorem sentLines_ended {tasks : List DialTask} {index : Nat} {job : DialJob}
    (h : tasks[index]? = some ⟨job, .reported⟩) :
    ((tasks.set index ⟨job, .ended⟩).filterMap DialTask.sentLine?).Perm
      (tasks.filterMap DialTask.sentLine?) := by
  obtain ⟨others, hb, ha⟩ := DialTask.perm_set h
  have hbefore := hb.filterMap DialTask.sentLine?
  have hafter := (ha ⟨job, .ended⟩).filterMap DialTask.sentLine?
  have hsent : ∀ phase, phase ≠ .dialing → DialTask.sentLine? ⟨job, phase⟩ = some job.line :=
    fun _ hp => if_neg hp
  rw [List.filterMap_cons_some (hsent _ (by simp))] at hbefore hafter
  exact hafter.trans hbefore.symm

/-- How a run ends that is not interrupted and whose output never fails. -/
def countedOf (jobs : List DialJob) : DialEnd := .counted (jobs.countP (·.failed))

/-- What the consumer has printed. -/
def printedBytes (r : DialRun) : Bytes := (r.aggregator.sink.map (·.written)).getD []

/-- What holds along every run that is not interrupted and whose output never fails. -/
structure Delivers (jobs : List DialJob) (limits : SinkLimits) (r : DialRun) : Prop where
  sound : r.IsSound jobs
  uncancelled : r.aggregator.signal.isCancelled = false
  /-- The lines that were taken and those that wait are the lines that were sent. -/
  working : ∀ output processed, r.aggregator.consumer = .running output processed →
    ∃ taken, output.Holds limits taken ∧ (taken ++ r.aggregator.queue).Perm r.sentLines
  /-- The consumer ends after all senders. What it has printed and gives back are the lines. -/
  given : ∀ result, r.consumed = some result →
    r.program.isStarting = false ∧ (∀ t ∈ r.tasks, t.hasEnded = true) ∧
      ∃ lines taken, result = .ok lines ∧ taken.Perm (jobs.map (·.line)) ∧
        r.printedBytes ++ Sink.printed lines = Sink.printed taken
  unwritten : r.result? = none → r.stdout = { limits := limits }
  finishing : ∀ result, r.program = .finishing result → result = countedOf jobs
  exited : ∀ result, r.program = .exited result → result = countedOf jobs ∧
    r.consumed ≠ none ∧
      ∃ taken, taken.Perm (jobs.map (·.line)) ∧ r.output = Sink.printed taken

theorem start_delivers (jobs : List DialJob) (collect : Bool) (limits : SinkLimits) :
    (start jobs collect limits).Delivers jobs limits where
  sound := start_isSound jobs collect limits
  uncancelled := by cases collect <;> rfl
  working := by
    intro output processed hc
    refine ⟨[], ?_, ?_⟩
    · cases collect with
      | true =>
        cases hc
        exact .collect
      | false =>
        cases hc
        exact .print rfl rfl
    · cases collect <;> exact .refl _
  given := nofun
  unwritten := fun _ => rfl
  finishing := nofun
  exited := nofun

namespace Delivers

variable {jobs : List DialJob} {limits : SinkLimits} {r : DialRun}

/-- As long as a task has not ended, the consumer is at work. -/
theorem consumed_eq_none (h : r.Delivers jobs limits) {index : Nat} {t : DialTask}
    (ht : r.tasks[index]? = some t) (he : t.hasEnded = false) : r.consumed = none := by
  cases hc : r.consumed with
  | none => rfl
  | some result =>
    obtain ⟨-, hall, -⟩ := h.given result hc
    rw [hall t (List.mem_of_getElem? ht)] at he
    cases he

theorem exited_ne (h : r.Delivers jobs limits) (hc : r.consumed = none) (result : DialEnd) :
    r.program ≠ .exited result := fun hp => (h.exited result hp).2.1 hc

theorem result?_eq_none (h : r.Delivers jobs limits) (hc : r.consumed = none) :
    r.result? = none := by
  cases hp : r.program with
  | exited result => exact absurd hp (h.exited_ne hc result)
  | _ => rw [result?, hp]

theorem started (h : r.Delivers jobs limits) {job : DialJob} {rest : List DialJob}
    (hp : r.program = .starting (job :: rest)) : Delivers jobs limits
      { r with program := .starting rest
               tasks := r.tasks ++ [{ job := job }]
               aggregator := (r.aggregator.step (.clone 0)).state } := by
  have hsound := h.sound.started hp
  have hfirst := h.sound.isAlive_first (by rw [hp]; rfl)
  rw [State.step_clone_of_isAlive hfirst] at hsound ⊢
  refine ⟨hsound, h.uncancelled, fun output processed hr => ?_, fun result hc => ?_,
    fun _ => h.unwritten (by rw [result?, hp]), nofun, nofun⟩
  · obtain ⟨taken, ht, hperm⟩ := h.working output processed hr
    refine ⟨taken, ht, ?_⟩
    simpa [sentLines, DialTask.sentLine?] using hperm
  · obtain ⟨hs, -⟩ := h.given result hc
    rw [hp] at hs
    cases hs

theorem launched (h : r.Delivers jobs limits) (hp : r.program = .starting []) :
    Delivers jobs limits
      { r with program := .joining, aggregator := (r.aggregator.step (.dropSender 0)).state } := by
  have hsound := h.sound.launched hp
  have hfirst := h.sound.isAlive_first (by rw [hp]; rfl)
  rw [State.step_dropSender_of_isAlive hfirst] at hsound ⊢
  refine ⟨hsound, h.uncancelled, h.working, fun result hc => ?_,
    fun _ => h.unwritten (by rw [result?, hp]), nofun, nofun⟩
  obtain ⟨hs, -⟩ := h.given result hc
  rw [hp] at hs
  cases hs

/-- The failed tasks are those of all jobs. -/
theorem joined (h : r.Delivers jobs limits) (hp : r.program = .joining)
    (hall : ∀ t ∈ r.tasks, t.hasEnded = true) : Delivers jobs limits
      { r with program := .finishing (.counted (r.tasks.countP (·.job.failed))) } := by
  have hsound := h.sound.joinedAll hp hall (.counted (r.tasks.countP (·.job.failed)))
  refine ⟨hsound, h.uncancelled, h.working, fun result hc => ?_,
    fun _ => h.unwritten (by rw [result?, hp]), fun result he => ?_, nofun⟩
  · obtain ⟨-, hgiven⟩ := h.given result hc
    exact ⟨rfl, hgiven⟩
  · cases he
    rw [countedOf, ← h.sound.map_job (by rw [hp]; rfl), List.countP_map]
    rfl

/-- The program writes what the consumer gives back behind what that has printed. -/
theorem written (h : r.Delivers jobs limits) (hf : limits.NeverFails) {result : DialEnd}
    {lines : List String} {stdout : Sink} {fault : Option SinkFault}
    (hp : r.program = .finishing result) (hc : r.consumed = some (.ok lines))
    (hw : r.stdout.writeLines lines = (stdout, fault)) : Delivers jobs limits
      { r with program := .exited (if fault.isSome then .aborted else result)
               stdout := stdout } := by
  have hsound := h.sound.ends hp (if fault.isSome then .aborted else result) stdout
  have hstdout := h.unwritten (by rw [result?, hp])
  rw [hstdout, Sink.writeLines_of_neverFails (by exact hf)] at hw
  cases hw
  obtain ⟨hs, hall, given, taken, hgiven, hperm, hbytes⟩ := h.given _ hc
  cases hgiven
  refine ⟨hsound, h.uncancelled, h.working, fun last hl => ?_, nofun, nofun, fun last he => ?_⟩
  · obtain ⟨-, hrest⟩ := h.given last hl
    exact ⟨rfl, hrest⟩
  · cases he
    refine ⟨h.finishing result hp, by simp [hc], taken, hperm, ?_⟩
    rw [← hbytes]
    rfl

theorem sent (h : r.Delivers jobs limits) {index : Nat} {job : DialJob}
    (ht : r.tasks[index]? = some ⟨job, .dialing⟩) : Delivers jobs limits
      { r with tasks := r.tasks.set index ⟨job, .reported⟩
               aggregator := (r.aggregator.step (.send (senderOf index) job.line)).state } := by
  have hsound := h.sound.sent ht
  have ha := h.sound.isAlive_senderOf ht rfl
  have hnone : r.consumed = none := h.consumed_eq_none ht rfl
  have hopen : r.aggregator.accepting = true := by
    rw [h.sound.aggregator.accepting, h.sound.consumer_isActive hnone]
  rw [State.step_send_state_of_isAlive ha, if_pos hopen] at hsound ⊢
  refine ⟨hsound, h.uncancelled, fun output processed hr => ?_, fun result hc => ?_,
    fun _ => h.unwritten (h.result?_eq_none hnone), h.finishing,
    fun result he => absurd he (h.exited_ne hnone result)⟩
  · obtain ⟨taken, htaken, hperm⟩ := h.working output processed hr
    refine ⟨taken, htaken, ?_⟩
    rw [← List.append_assoc]
    exact (hperm.append_right _).trans (sentLines_sent ht).symm
  · rw [show r.consumed = some result from hc] at hnone
    cases hnone

/-- Without a cancellation a task ends after it has sent its line. -/
theorem ended (h : r.Delivers jobs limits) {index : Nat} {job : DialJob} {phase : TaskPhase}
    (ht : r.tasks[index]? = some ⟨job, phase⟩) (hp : phase ≠ .ended)
    (hd : phase = .dialing → r.aggregator.signal.isCancelled = true) :
    (r.endTask index job).Delivers jobs limits := by
  have hsound := h.sound.endTask ht hp
  have hended : DialTask.hasEnded ⟨job, phase⟩ = false := by simpa [DialTask.hasEnded] using hp
  have ha := h.sound.isAlive_senderOf ht hended
  have hnone := h.consumed_eq_none ht hended
  have hphase : phase = .reported := by
    cases phase with
    | dialing =>
      rw [h.uncancelled] at hd
      cases hd rfl
    | reported => rfl
    | ended => exact absurd rfl hp
  subst hphase
  rw [endTask, State.step_dropSender_of_isAlive ha] at hsound ⊢
  refine ⟨hsound, h.uncancelled, fun output processed hr => ?_, fun result hc => ?_,
    fun _ => h.unwritten (h.result?_eq_none hnone), h.finishing,
    fun result he => absurd he (h.exited_ne hnone result)⟩
  · obtain ⟨taken, htaken, hperm⟩ := h.working output processed hr
    exact ⟨taken, htaken, hperm.trans (sentLines_ended ht).symm⟩
  · rw [show r.consumed = some result from hc] at hnone
    cases hnone

theorem stepPoll (h : r.Delivers jobs limits) (hf : limits.NeverFails) :
    r.stepPoll.Delivers jobs limits := by
  have hsound := h.sound.stepPoll
  cases hc : r.consumed with
  | some result =>
    rw [h.sound.stepPoll_of_consumed hc]
    exact h
  | none =>
    obtain ⟨output, processed, hr⟩ := h.sound.working hc
    obtain ⟨taken, htaken, hperm⟩ := h.working output processed hr
    have hafter := htaken.handleAll hf processed r.aggregator.queue
    have hp := State.step_poll_of_running hr
    rw [State.pollConsumer, State.consume_eq _ htaken.isFine, State.cancellationSeen_eq,
      h.uncancelled] at hp
    generalize output.handleAll processed r.aggregator.queue = after at hafter hp
    obtain ⟨output, processed⟩ := after
    simp only [hafter.isFine, Bool.false_eq_true, if_false, Bool.not_true] at hp
    cases hs : r.aggregator.hasSenders with
    | true =>
      rw [hs, if_pos rfl] at hp
      rw [stepPoll_of_suspend hp] at hsound ⊢
      refine ⟨hsound, h.uncancelled, fun _ _ he => ?_, fun result hn => ?_,
        fun _ => h.unwritten (h.result?_eq_none hc), h.finishing,
        fun result he => absurd he (h.exited_ne hc result)⟩
      · cases he
        exact ⟨_, hafter, by simpa [State.suspend, sentLines] using hperm⟩
      · rw [show r.consumed = some result from hn] at hc
        cases hc
    | false =>
      obtain ⟨hstarted, hall⟩ := h.sound.hasSenders_eq_false_iff.mp hs
      obtain ⟨lines, hgiven, hbytes⟩ := hafter.exists_consumedBy
      rw [hs, if_neg (by simp)] at hp
      rw [stepPoll_of_finish hgiven hp] at hsound ⊢
      refine ⟨hsound, h.uncancelled, fun _ _ he => ?_, fun result hn => ?_,
        fun _ => h.unwritten (h.result?_eq_none hc), h.finishing,
        fun result he => absurd he (h.exited_ne hc result)⟩
      · cases he
      · cases hn
        refine ⟨hstarted, hall, lines, _, rfl, ?_, hbytes⟩
        rw [← h.sound.map_job hstarted, List.map_map]
        rw [sentLines_of_ended hall] at hperm
        exact hperm

theorem step (h : r.Delivers jobs limits) (hf : limits.NeverFails) {event : DialEvent}
    (hi : event ≠ .interrupt) : (r.step event).Delivers jobs limits := by
  have he := r.step_effect event
  generalize r.step event = t at he ⊢
  cases he with
  | idle => exact h
  | started hp => exact h.started hp
  | launched hp => exact h.launched hp
  | joined hp hall => exact h.joined hp hall
  | unprinted _ hc =>
    obtain ⟨-, -, lines, _, hl, -⟩ := h.given _ hc
    cases hl
  | written hp hc hw => exact h.written hf hp hc hw
  | sent ht => exact h.sent ht
  | ended ht hp hd => exact h.ended ht hp hd
  | polled => exact h.stepPoll hf
  | interrupted _ => exact absurd rfl hi

theorem run (h : r.Delivers jobs limits) (hf : limits.NeverFails) {events : List DialEvent}
    (hi : .interrupt ∉ events) : (r.run events).Delivers jobs limits := by
  induction events generalizing r with
  | nil => exact h
  | cons event events ih =>
    rw [List.mem_cons, not_or] at hi
    exact ih (h.step hf (Ne.symm hi.1)) hi.2

end Delivers

/-- A run that is not interrupted, on an output that never fails, has written the line of each job
once when it ends, and has counted the failed ones. -/
theorem delivered {jobs : List DialJob} {collect : Bool} {limits : SinkLimits}
    (hf : limits.NeverFails) {events : List DialEvent} (hi : .interrupt ∉ events)
    {result : DialEnd} (h : ((start jobs collect limits).run events).result? = some result) :
    result = .counted (jobs.countP (·.failed)) ∧ ∃ lines, lines.Perm (jobs.map (·.line)) ∧
      ((start jobs collect limits).run events).output = Sink.printed lines := by
  have hd := (start_delivers jobs collect limits).run hf hi
  generalize (start jobs collect limits).run events = r at h hd ⊢
  cases hp : r.program with
  | exited last =>
    rw [result?, hp] at h
    cases h
    obtain ⟨hcounted, -, houtput⟩ := hd.exited _ hp
    exact ⟨hcounted, houtput⟩
  | _ =>
    rw [result?, hp] at h
    cases h

end DialRun

end Cli

end Telemetry
