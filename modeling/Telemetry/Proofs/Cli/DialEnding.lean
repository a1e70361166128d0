import Telemetry.Proofs.Cli.DialSteps

/-! A run of the command `dial` ends, whatever the order in which its parts go on, as long as none
is left out for good (`DialRun.exists_result`). As long as the run has not ended there is an event
that brings it on (`DialRun.next`), and no other event makes the way to the end longer
(`DialRun.IsSound.step_progress`). -/

namespace Telemetry.Cli

def TaskPhase.left : TaskPhase → Nat
  | .dialing => 2
  | .reported => 1
  | .ended => 0

/-- A task that is yet to be started counts for its start and its two steps. -/
def ProgramPhase.left : ProgramPhase → Nat
  | .starting rest => 3 * rest.length + 3
  | .joining => 2
  | .finishing _ => 1
  | .exited _ => 0

def DialTask.left (t : DialTask) : Nat := t.phase.left

theorem DialTask.sum_left_set_lt {tasks : List DialTask} {index : Nat} {t u : DialTask}
    (h : tasks[index]? = some t) (hu : u.left < t.left) :
    ((tasks.set index u).map left).sum < (tasks.map left).sum := by
  obtain ⟨others, hb, ha⟩ := DialTask.perm_set h
  rw [((ha u).map left).sum_eq, (hb.map left).sum_eq, List.map_cons, List.map_cons,
    List.sum_cons, List.sum_cons]
  exact Nat.add_lt_add_right hu _

namespace DialRun

open Aggregator

/-- What a run still has to do at most. -/
def left (r : DialRun) : Nat :=
  r.program.left + (r.tasks.map DialTask.left).sum + r.consumed.isNone.toNat

/-- How far a run has come, apart from the lines that are on their way. -/
def progress (r : DialRun) :
    ProgramPhase × List DialTask × Option (Except SinkFault (List String)) :=
  (r.program, r.tasks, r.consumed)

/-- An event that brings the run on. -/
def next (r : DialRun) : DialEvent :=
  match r.program with
  | .joining =>
    match r.tasks.findIdx? (!·.hasEnded) with
    | some index => .task index
    | none => .program
  | .finishing _ => if r.consumed.isNone then .poll else .program
  | _ => .program

section Progress

variable {r t : DialRun} (h : t.progress = r.progress)

include h

theorem left_congr : t.left = r.left := by
  simp only [progress, Prod.mk.injEq] at h
  rw [left, h.1, h.2.1, h.2.2, left]

theorem next_congr : t.next = r.next := by
  simp only [progress, Prod.mk.injEq] at h
  rw [next, h.1, h.2.1, h.2.2, next]

theorem result?_congr : t.result? = r.result? := by
  simp only [progress, Prod.mk.injEq] at h
  rw [result?, h.1, result?]

end Progress

theorem run_append (r : DialRun) (before more : List DialEvent) :
    r.run (before ++ more) = (r.run before).run more := List.foldl_append

/-- A run that has ended stays as it ended. -/
theorem result?_step {r : DialRun} {result : DialEnd} (h : r.result? = some result)
    (event : DialEvent) : (r.step event).result? = some result := by
  have he := r.step_effect event
  generalize r.step event = t at he ⊢
  rw [result?] at h
  cases he with
  | idle | sent _ | ended _ _ _ | polled => exact h
  | started hp | launched hp | joined hp _ | unprinted hp _ | written hp _ _ | interrupted hp =>
    rw [hp] at h
    cases h

theorem result?_run {r : DialRun} {result : DialEnd} (h : r.result? = some result)
    (events : List DialEvent) : (r.run events).result? = some result := by
  induction events generalizing r with
  | nil => exact h
  | cons event events ih => exact ih (result?_step h event)

namespace IsSound

variable {jobs : List DialJob} {r : DialRun}

/-- A step shortens the way to the end, or leaves the run as far as it was. -/
theorem step_progress (h : r.IsSound jobs) (event : DialEvent) :
    (r.step event).left < r.left ∨ (r.step event).progress = r.progress := by
  have he := r.step_effect event
  generalize r.step event = t at he ⊢
  cases he with
  | idle => exact .inr rfl
  | started hp =>
    left
    simp only [left, hp, ProgramPhase.left, List.map_append, List.sum_append, List.length_cons]
    simp only [List.map_cons, List.map_nil, List.sum_singleton, DialTask.left, TaskPhase.left]
    omega
  | launched hp | joined hp _ | unprinted hp _ | written hp _ _ | interrupted hp =>
    left
    simp only [left, hp, ProgramPhase.left]
    omega
  | @sent index job ht =>
    left
    have hsum := DialTask.sum_left_set_lt (u := ⟨job, .reported⟩) ht Nat.one_lt_two
    simp only [DialRun.left]
    omega
  | @ended event index job phase ht hp _ =>
    left
    have hpos : 0 < phase.left := by
      cases phase with
      | ended => exact absurd rfl hp
      | _ => simp [TaskPhase.left]
    have hsum := DialTask.sum_left_set_lt (u := ⟨job, .ended⟩) ht hpos
    simp only [DialRun.left, DialRun.endTask]
    omega
  | polled =>
    cases hc : r.consumed with
    | some result =>
      rw [h.stepPoll_of_consumed hc]
      exact .inr rfl
    | none =>
      rcases h.poll_cases hc with ⟨output, processed, ending, hp⟩ | ⟨output, processed, hp⟩
      · obtain ⟨result, hresult⟩ := exists_consumedBy output
        rw [stepPoll_of_finish hresult hp]
        left
        simp [DialRun.left, hc]
      · rw [stepPoll_of_suspend hp]
        exact .inr rfl

/-- The consumer ends by a poll when the program waits for it. -/
theorem stops (h : r.IsSound jobs) {result : DialEnd} (hp : r.program = .finishing result)
    (output : Output) : r.aggregator.Stops output := by
  rcases h.joined (by rw [hp]; rfl) with hcancel | hall
  · exact .inl hcancel
  · exact .inr (.inl (h.hasSenders_eq_false_iff.mpr ⟨by rw [hp]; rfl, hall⟩))

theorem step_poll_progress (h : r.IsSound jobs) {result : DialEnd}
    (hp : r.program = .finishing result) (hc : r.consumed = none) :
    (r.step .poll).progress ≠ r.progress := by
  obtain ⟨output, processed, hr⟩ := h.working hc
  have hpoll := State.step_poll_of_running hr
  obtain ⟨o, n, ending, he⟩ :=
    State.pollConsumer_of_stops (h.aggregator.fine _ _ hr) processed (h.stops hp output)
  obtain ⟨given, hgiven⟩ := exists_consumedBy o
  rw [he] at hpoll
  rw [DialRun.step, stepPoll_of_finish hgiven hpoll]
  simp [progress, hc]

end IsSound

theorem step_task_progress {r : DialRun} {index : Nat} {t : DialTask}
    (ht : r.tasks[index]? = some t) (he : t.hasEnded = false) :
    (r.step (.task index)).progress ≠ r.progress := by
  obtain ⟨hlt, -⟩ := List.getElem?_eq_some_iff.mp ht
  intro hsame
  have htasks : (r.step (.task index)).tasks[index]? = some t := by
    rw [← ht, show (r.step (.task index)).tasks = r.tasks from congrArg (·.2.1) hsame]
  obtain ⟨job, phase⟩ := t
  cases phase with
  | ended => cases he
  | dialing | reported =>
    simp only [step, stepTask, endTask, ht] at htasks
    simp [hlt] at htasks

/-- The next event brings the run on. -/
theorem IsSound.step_next {jobs : List DialJob} {r : DialRun} (h : r.IsSound jobs)
    (hr : r.result? = none) : (r.step r.next).progress ≠ r.progress := by
  rw [next]
  cases hp : r.program with
  | starting rest =>
    cases rest with
    | nil => simp [DialRun.step, stepProgram, hp, progress]
    | cons job rest => simp [DialRun.step, stepProgram, hp, progress]
  | joining =>
    dsimp only
    cases hi : r.tasks.findIdx? (!·.hasEnded) with
    | some index =>
      obtain ⟨hlt, ht, -⟩ := List.findIdx?_eq_some_iff_getElem.mp hi
      exact step_task_progress (List.getElem?_eq_getElem hlt) (by simpa using ht)
    | none =>
      have hall : r.tasks.all (·.phase == .ended) = true := by
        simpa [DialTask.hasEnded] using hi
      simp [DialRun.step, stepProgram, hp, hall, progress]
  | finishing result =>
    dsimp only
    cases hc : r.consumed with
    | none => exact h.step_poll_progress hp hc
    | some given =>
      cases given <;> simp [DialRun.step, stepProgram, DialRun.finish, hp, hc, progress]
  | exited result => simp [result?, hp] at hr

theorem run_cons (r : DialRun) (event : DialEvent) (events : List DialEvent) :
    r.run (event :: events) = (r.step event).run events := rfl

namespace IsSound

variable {jobs : List DialJob} {r : DialRun}

theorem left_run_le (h : r.IsSound jobs) (events : List DialEvent) :
    (r.run events).left ≤ r.left := by
  induction events generalizing r with
  | nil => exact Nat.le_refl _
  | cons event events ih =>
    apply (ih (h.step event)).trans
    rcases h.step_progress event with hlt | hsame
    · exact hlt.le
    · exact (left_congr hsame).le

/-- A run that has not ended is shorter after events among which the next one is: until it comes, it
stays the next one. -/
theorem left_run_lt (h : r.IsSound jobs) (hr : r.result? = none) {events : List DialEvent}
    (hm : r.next ∈ events) : (r.run events).left < r.left := by
  induction events generalizing r with
  | nil => cases hm
  | cons event events ih =>
    have hstep := h.step event
    rw [run_cons]
    rcases h.step_progress event with hlt | hsame
    · exact (hstep.left_run_le events).trans_lt hlt
    · have hne : r.next ≠ event := by
        rintro rfl
        exact h.step_next hr hsame
      have hrest : r.next ∈ events := List.mem_of_ne_of_mem hne hm
      rw [← left_congr hsame]
      apply ih hstep
      · rw [result?_congr hsame, hr]
      · rwa [next_congr hsame]

/-- A turn holds whatever event is the next one. -/
theorem next_mem_turn (h : r.IsSound jobs) : r.next ∈ turn jobs.length := by
  have hlength : r.tasks.length ≤ jobs.length := by
    rw [← h.jobs, List.length_append, List.length_map]
    exact Nat.le_add_right ..
  rw [next]
  split
  · split
    · rename_i index hi
      obtain ⟨hlt, -⟩ := List.findIdx?_eq_some_iff_getElem.mp hi
      simp [turn, hlt.trans_le hlength]
    · simp [turn]
  · split <;> simp [turn]
  · simp [turn]

/-- Every turn shortens a run that has not ended. -/
theorem exists_result_turns (h : r.IsSound jobs) {n : Nat} (hn : r.left ≤ n) :
    ∃ result, (r.run (List.replicate n (turn jobs.length)).flatten).result? = some result := by
  induction n generalizing r with
  | zero =>
    have hprogram : r.program.left = 0 := by
      rw [DialRun.left] at hn
      omega
    cases hp : r.program with
    | exited result => exact ⟨result, by simp [DialRun.run, result?, hp]⟩
    | _ => simp [hp, ProgramPhase.left] at hprogram
  | succ n ih =>
    rw [List.replicate_succ, List.flatten_cons, run_append]
    cases hr : r.result? with
    | some result => exact ⟨result, result?_run (result?_run hr _) _⟩
    | none =>
      have hlt := h.left_run_lt hr h.next_mem_turn
      exact ih (h.run _) (by omega)

end IsSound

theorem left_start (jobs : List DialJob) (collect : Bool) (limits : SinkLimits) :
    (start jobs collect limits).left = 3 * jobs.length + 4 := rfl

/-- Whatever has happened before, the turns end a run. -/
theorem exists_result_of_turns (jobs : List DialJob) (collect : Bool) (limits : SinkLimits)
    (events : List DialEvent) :
    ∃ result, ((start jobs collect limits).run (events ++ turns jobs.length)).result? =
      some result := by
  have h := start_isSound jobs collect limits
  rw [run_append]
  apply (h.run events).exists_result_turns
  rw [← left_start jobs collect limits]
  exact h.left_run_le events

/-- The program, each of some tasks and the consumer go on again and again. -/
def IsFair (tasks : Nat) (schedule : Nat → DialEvent) : Prop :=
  ∀ event ∈ turn tasks, ∀ k, ∃ m ≥ k, schedule m = event

theorem IsFair.drop {tasks : Nat} {schedule : Nat → DialEvent} (h : IsFair tasks schedule)
    (n : Nat) : IsFair tasks fun k => schedule (n + k) := by
  intro event hm k
  obtain ⟨m, hge, he⟩ := h event hm (n + k)
  refine ⟨m - n, by omega, ?_⟩
  have hnm : n + (m - n) = m := Nat.add_sub_of_le (by omega)
  dsimp only
  rw [hnm, he]

/-- The first events of a schedule. -/
def firstOf (schedule : Nat → DialEvent) (n : Nat) : List DialEvent :=
  (List.range n).map schedule

theorem firstOf_add (schedule : Nat → DialEvent) (n k : Nat) :
    firstOf schedule (n + k) = firstOf schedule n ++ firstOf (fun k => schedule (n + k)) k := by
  rw [firstOf, List.range_add, List.map_append, List.map_map]
  rfl

/-- On every fair schedule a run ends, by induction on what it has left to do. -/
theorem IsSound.exists_result {jobs : List DialJob} {r : DialRun} (h : r.IsSound jobs)
    {schedule : Nat → DialEvent} (hf : IsFair jobs.length schedule) :
    ∃ n result, (r.run (firstOf schedule n)).result? = some result := by
  induction hn : r.left using Nat.strong_induction_on generalizing r schedule with
  | _ left ih =>
    cases hr : r.result? with
    | some result => exact ⟨0, result, hr⟩
    | none =>
      obtain ⟨m, -, hm⟩ := hf r.next h.next_mem_turn 0
      have hmem : r.next ∈ firstOf schedule (m + 1) :=
        List.mem_map.mpr ⟨m, List.mem_range.mpr (Nat.lt_succ_self m), hm⟩
      have hlt := h.left_run_lt hr hmem
      rw [hn] at hlt
      obtain ⟨n, result, he⟩ := ih _ hlt (h.run _) (hf.drop (m + 1)) rfl
      refine ⟨m + 1 + n, result, ?_⟩
      rw [firstOf_add, run_append]
      exact he

end DialRun

end Telemetry.Cli
