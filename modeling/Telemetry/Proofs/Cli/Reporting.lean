import Telemetry.Cli.Program
import Telemetry.Proofs.Cli.DialDelivery
import Telemetry.Proofs.Cli.DialEnding

/-! The command `dial` reports on every target once, on every schedule and in both modes
(`Surroundings.reports_once`), and a run that was interrupted is never taken for a success
(`Surroundings.status_of_interrupt`). -/

namespace Telemetry.Cli

namespace DialRun

/-- The program was interrupted, and will not count the tasks that have failed. -/
def IsInterrupted (r : DialRun) : Prop :=
  r.program = .finishing .interrupted ∨
    ∃ result, r.program = .exited result ∧ ∀ failed, result ≠ .counted failed

theorem IsInterrupted.step {r : DialRun} (h : r.IsInterrupted) (event : DialEvent) :
    (r.step event).IsInterrupted := by
  have he := r.step_effect event
  generalize r.step event = t at he ⊢
  cases he with
  | idle | sent _ | ended _ _ _ | polled => exact h
  | started hp | launched hp | joined hp _ | interrupted hp =>
    rcases h with hi | ⟨_, hi, -⟩ <;>
    · rw [hp] at hi
      cases hi
  | unprinted _ _ => exact .inr ⟨_, rfl, nofun⟩
  | @written result _ _ fault hp _ _ =>
    have hi : result = .interrupted := by
      rcases h with hi | ⟨_, hi, -⟩
      · rw [hp] at hi
        exact (ProgramPhase.finishing.inj hi)
      · rw [hp] at hi
        cases hi
    refine .inr ⟨_, rfl, ?_⟩
    rw [hi]
    cases fault <;> exact nofun

theorem IsInterrupted.run {r : DialRun} (h : r.IsInterrupted) (events : List DialEvent) :
    (r.run events).IsInterrupted := by
  induction events generalizing r with
  | nil => exact h
  | cons event events ih => exact ih (h.step event)

theorem isInterrupted_stepInterrupt {r : DialRun} (h : r.program = .joining) :
    (r.step .interrupt).IsInterrupted := by
  left
  simp only [step, stepInterrupt, h]

end DialRun

theorem TargetReport.hasFailed_eq_false_iff {r : TargetReport} :
    r.hasFailed = false ↔ ∃ connection, r.result = .ok connection := by
  rw [hasFailed]
  cases r.result <;> simp

namespace Surroundings

variable {s : Surroundings} {a : Arguments}

theorem exitAfter_eq_some_iff {reports : List TargetReport} {events : List DialEvent} {exit : Exit} :
    s.exitAfter a reports events = some exit ↔
      ∃ result, ((s.started a reports).run events).result? = some result ∧
        s.exitOf ((s.started a reports).run events).output result = exit := by
  rw [exitAfter]
  exact Option.map_eq_some_iff

/-- An exit with status zero is that of a run in which no task has failed. -/
theorem status_exitOf_eq_zero_iff {output : Bytes} {result : DialEnd} :
    (s.exitOf output result).status = 0 ↔ result = .counted 0 := by
  cases result with
  | counted failed => cases failed <;> simp [exitOf]
  | interrupted | unprinted _ => simp [exitOf, failed]
  | aborted => simp [exitOf, abortStatus]

/-- An interrupt that comes while the program waits for the tasks leads to a failure. -/
theorem status_of_interrupt {reports : List TargetReport} {events more : List DialEvent}
    {exit : Exit} (h : ((s.started a reports).run events).program = .joining)
    (he : s.exitAfter a reports (events ++ .interrupt :: more) = some exit) :
    exit.status ≠ 0 := by
  obtain ⟨result, hr, rfl⟩ := exitAfter_eq_some_iff.mp he
  rw [ne_eq, status_exitOf_eq_zero_iff]
  rw [DialRun.run_append, DialRun.run_cons] at hr
  have hi := (DialRun.isInterrupted_stepInterrupt h).run more
  rintro rfl
  rcases hi with hp | ⟨last, hp, hn⟩
  · rw [DialRun.result?, hp] at hr
    cases hr
  · rw [DialRun.result?, hp] at hr
    exact hn 0 (Option.some.inj hr)

/-- The targets of some arguments, with what comes of dialing each of them. -/
def reportsOf (a : Arguments) (outcome : Fin a.targets.length → Except DialFault Connection) :
    List TargetReport :=
  List.ofFn fun i => ⟨a.targets[i], outcome i⟩

/-- The line of a target by its place: it starts with the target if there are several of them and
this is not switched off. -/
def lineOf (s : Surroundings) (a : Arguments)
    (outcome : Fin a.targets.length → Except DialFault Connection) (i : Fin a.targets.length) :
    String :=
  let text := s.style.outcome (outcome i)
  if 1 < a.targets.length ∧ .noPrefix ∉ a.given.flags then "[" ++ a.targets[i] ++ "] " ++ text
  else text

/-- What is left behind are the lines of all targets, each of them once, in some order and with its
end, and a status that tells whether a target could not be reached. -/
structure Reports (s : Surroundings) (a : Arguments)
    (outcome : Fin a.targets.length → Except DialFault Connection) (exit : Exit) : Prop where
  output : ∃ lines, lines.Perm (List.ofFn (s.lineOf a outcome)) ∧
    exit.output = Sink.printed lines
  status : exit.status = 0 ↔ ∀ i, ∃ connection, outcome i = .ok connection
  status_le : exit.status ≤ 1

section Reports

variable {outcome : Fin a.targets.length → Except DialFault Connection}

theorem lines_reportsOf : (reportsOf a outcome).map (·.line s.style a.labelled) =
    List.ofFn (s.lineOf a outcome) := by
  rw [reportsOf, List.map_ofFn]
  congr 1
  funext i
  simp only [Function.comp, TargetReport.line, lineOf, Arguments.labelled, Given.has]
  congr 1
  simp

theorem countP_reportsOf_eq_zero_iff : (reportsOf a outcome).countP (·.hasFailed) = 0 ↔
    ∀ i, ∃ connection, outcome i = .ok connection := by
  rw [List.countP_eq_zero, reportsOf]
  simp [TargetReport.hasFailed_eq_false_iff, List.mem_ofFn]

theorem reports_of_exitAfter (hf : s.stdout.NeverFails) {events : List DialEvent}
    (hi : .interrupt ∉ events) {exit : Exit}
    (h : s.exitAfter a (reportsOf a outcome) events = some exit) : s.Reports a outcome exit := by
  obtain ⟨result, hr, rfl⟩ := exitAfter_eq_some_iff.mp h
  obtain ⟨rfl, lines, hperm, houtput⟩ := DialRun.delivered hf hi hr
  constructor
  · refine ⟨lines, ?_, houtput⟩
    rw [List.map_map] at hperm
    rw [← lines_reportsOf]
    exact hperm
  · rw [status_exitOf_eq_zero_iff, ← countP_reportsOf_eq_zero_iff, List.countP_map]
    simp [Function.comp_def]
  · rw [exitOf]
    dsimp only
    split
    · exact Nat.zero_le 1
    · exact Nat.le_refl 1

theorem exists_exit_of_fair {schedule : Nat → DialEvent}
    (h : DialRun.IsFair a.targets.length schedule) :
    ∃ n exit, s.exitAfter a (reportsOf a outcome) (DialRun.firstOf schedule n) = some exit := by
  have hs := DialRun.start_isSound ((reportsOf a outcome).map fun r =>
    ⟨r.line s.style a.labelled, r.hasFailed⟩) a.collect s.stdout
  obtain ⟨n, result, hr⟩ := hs.exists_result (by simpa [reportsOf] using h)
  exact ⟨n, _, exitAfter_eq_some_iff.mpr ⟨result, hr, rfl⟩⟩

/-- The turns end every run, so that the exit is that of a run. -/
theorem exitAfter_turns (s : Surroundings) (a : Arguments) (reports : List TargetReport) :
    s.exitAfter a reports (s.schedule ++ DialRun.turns reports.length) =
      some (s.reportAll a reports) := by
  obtain ⟨result, hr⟩ := DialRun.exists_result_of_turns
    (reports.map fun r => ⟨r.line s.style a.labelled, r.hasFailed⟩) a.collect s.stdout s.schedule
  rw [List.length_map] at hr
  have he := exitAfter_eq_some_iff.mpr ⟨result, hr, rfl⟩
  rw [reportAll, he]
  rfl

/-- What is reported does not depend on the mode. -/
theorem Reports.inMode {collect : Bool} {exit : Exit}
    (h : s.Reports { a with collect := collect } outcome exit) : s.Reports a outcome exit :=
  ⟨h.output, h.status, h.status_le⟩

/-- Two ends of runs that have reported on the same targets differ at most in the order of the
lines. -/
theorem Reports.alike {exit other : Exit} (h : s.Reports a outcome exit)
    (ho : s.Reports a outcome other) : exit.status = other.status ∧
      ∃ lines others, lines.Perm others ∧
        exit.output = Sink.printed lines ∧ other.output = Sink.printed others := by
  obtain ⟨lines, hl, hw⟩ := h.output
  obtain ⟨others, hol, how⟩ := ho.output
  refine ⟨?_, lines, others, hl.trans hol.symm, hw, how⟩
  have hiff : exit.status = 0 ↔ other.status = 0 := h.status.trans ho.status.symm
  have hle := h.status_le
  have hole := ho.status_le
  omega

theorem dial_eq {config : Config} {d : Dialer} (hc : a.config = .ok config)
    (hd : (Dialer.ofConfig s.files config).1 = .ok d) :
    s.dial a = s.reportAll a (s.report d a) := by
  rw [dial, hc]
  dsimp only
  rw [hd]

theorem report_eq {d : Dialer}
    (ho : ∀ i, outcome i = (d.dial s.environment s.network a.targets[i]).result) :
    s.report d a = reportsOf a outcome := by
  rw [report, reportsOf, ← List.ofFn_getElem_eq_map]
  congr 1
  funext i
  rw [ho i]
  rfl

end Reports

/-- What the command does for some arguments in each of its modes, if the targets have some
outcomes. -/
structure ReportsOnce (s : Surroundings) (a : Arguments)
    (outcome : Fin a.targets.length → Except DialFault Connection) : Prop where
  /-- It ends on every schedule that leaves nobody out for good. -/
  ends : ∀ collect schedule, DialRun.IsFair a.targets.length schedule → ∃ n exit,
    s.exitAfter { a with collect := collect } (reportsOf a outcome)
      (DialRun.firstOf schedule n) = some exit
  /-- Whenever it ends, it has reported on every target. -/
  reports : ∀ collect events exit, .interrupt ∉ events →
    s.exitAfter { a with collect := collect } (reportsOf a outcome) events = some exit →
    s.Reports a outcome exit
  /-- The lines that are collected are those that are printed, on any two schedules. -/
  alike : ∀ events more collected printed, .interrupt ∉ events → .interrupt ∉ more →
    s.exitAfter { a with collect := true } (reportsOf a outcome) events = some collected →
    s.exitAfter { a with collect := false } (reportsOf a outcome) more = some printed →
    collected.status = printed.status ∧ ∃ lines others, lines.Perm others ∧
      collected.output = Sink.printed lines ∧ printed.output = Sink.printed others
  /-- So it is with the outcomes that the targets have by themselves. -/
  dial : ∀ config d, a.config = .ok config → (Dialer.ofConfig s.files config).1 = .ok d →
    (∀ i, outcome i = (d.dial s.environment s.network a.targets[i]).result) →
    .interrupt ∉ s.schedule → s.Reports a outcome (s.dial a)

/-- **Every target is reported once, whatever the schedule.** Take any arguments, any outcome for
each of their targets, and an output that fails on no write. Without an interrupt the command ends,
in both of its modes and in whatever order its parts go on; it has then written one line for each
target, in some order, and it ends with status zero if and only if no target has failed. -/
theorem reports_once (s : Surroundings) (a : Arguments)
    (outcome : Fin a.targets.length → Except DialFault Connection) (hf : s.stdout.NeverFails) :
    s.ReportsOnce a outcome where
  ends := by
    intro collect schedule hs
    exact exists_exit_of_fair (a := { a with collect := collect }) hs
  reports := by
    intro collect events exit hi he
    exact (reports_of_exitAfter hf hi he).inMode
  alike := by
    intro events more collected printed hi hm hc hp
    have hcollected : s.Reports a outcome collected := (reports_of_exitAfter hf hi hc).inMode
    have hprinted : s.Reports a outcome printed := (reports_of_exitAfter hf hm hp).inMode
    exact hcollected.alike hprinted
  dial := by
    intro config d hc hd ho hi
    rw [dial_eq hc hd, report_eq ho]
    refine reports_of_exitAfter hf ?_ (exitAfter_turns s a _)
    simp [DialRun.turns, DialRun.turn, hi]

/-- The same target twice, reached by the first task only. The line of the second task is sent and
printed first, and the program looks once in vain whether both have ended. -/
theorem reports_once_scrambled :
    let s : Surroundings :=
      { environment := fun _ => none, files := .ofList [], network := .offline }
    let a : Arguments := { given := { addresses := ["r1", "", " r1"] }, collect := false }
    let outcome : Fin a.targets.length → Except DialFault Connection := fun i =>
      if i.val = 0 then .ok ⟨⟨"r1", 57400⟩, true, none, none⟩
      else .error (.connection "r1:57400" ["refused"])
    let events : List DialEvent :=
      [.program, .poll, .program, .task 1, .poll, .program, .task 0, .task 0, .program, .task 1,
        .poll, .program, .program]
    let exit : Exit :=
      { status := 1
        output := Text.utf8 ("[r1] Dial failed: Failed to connect to 'r1:57400': " ++
          "transport error: refused\n[r1] Connected r1:57400 (TLS)\n") }
    s.stdout.NeverFails ∧ s.exitAfter a (reportsOf a outcome) events = some exit ∧
      s.ReportsOnce a outcome ∧ s.Reports a outcome exit := by
  intro s a outcome events exit
  have hf : s.stdout.NeverFails := SinkLimits.neverFails_of_unlimited rfl (by decide) rfl
  have he : s.exitAfter a (reportsOf a outcome) events = some exit := by decide +kernel
  have hr := reports_once s a outcome hf
  exact ⟨hf, he, hr, hr.reports false events exit (by decide) he⟩

end Surroundings

end Telemetry.Cli
