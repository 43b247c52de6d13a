import ExtensionAudit.Proofs.Request.Moments
import ExtensionAudit.Proofs.Request.Total

/-!
# Request — the processes of the tools

What has become of the two tools' processes when a request is past its analyses, and so
when its directory is removed (`Call.processes_settled`). None of them is running then,
for all that is known, but one that was to be killed may not have been waited for: if
its tool was cancelled in the wait (`Call.Abandons`).
-/

namespace ExtensionAudit.Call

variable {call : Call} {tool : Tool} {turns rest : List Request.Turn}
    {analysis : Analysis}

/-! ## The runs of the tools in a call -/

/-- What holds of a tool's run in a call, but not of a run that is just made, has come
to hold by an event of the tool. -/
theorem run_comesToHold {P : Tool.Run → Prop} (hordinary : IsOrdinary turns)
    (hready : ¬ P .ready) {analysis : Analysis}
    (hanalysis : (call.after turns).analysis = some analysis)
    (holds : P (analysis.run tool)) :
    ∃ before happening rest early terms, turns =
      before ++ .event (.tool tool happening) :: rest ∧
      (call.after before).analysis = some early ∧ (early.run tool).IsSound ∧
      ¬ P (early.run tool) ∧
      (Analysis.isCancellation happening = true → early.join.failure.isSome = true) ∧
      P ((early.run tool).step terms happening) := by
  have hstart (work : Workload) : ¬ P ((Analysis.start work).run tool) := by
    rw [Analysis.run_start]
    exact hready
  obtain ⟨before, rest, turn, rfl, turn_eq, hearly, attended, hnot, -, hnow⟩ :=
    comesToHold (P := fun analysis => P (analysis.run tool)) hordinary hstart
      hanalysis holds
  rename_i work early event
  rcases Analysis.run_step work early event tool with hrun |
    ⟨terms, happening, rfl, hlate, hrun⟩
  · rw [hrun] at hnow
    exact absurd hnow hnot
  · rw [hrun] at hnow
    rcases turn_eq with rfl | ⟨-, hevent⟩
    · exact ⟨before, happening, rest, early, terms, rfl, hearly, attended.runs tool,
        hnot, hlate, hnow⟩
    · cases hevent

/-- A run that has ended stays as it is to the end of the call. -/
theorem run_after_append (hordinary : IsOrdinary (turns ++ rest)) {early : Analysis}
    (hearly : (call.after turns).analysis = some early)
    (hended : (early.run tool).outcome?.isSome = true) :
    ∃ analysis, (call.after (turns ++ rest)).analysis = some analysis ∧
      analysis.run tool = early.run tool := by
  refine analysis_after_append (P := fun analysis => analysis.run tool =
    early.run tool) hordinary
    (fun work analysis event _ hsame => ?_) hearly rfl
  rcases Analysis.run_step work analysis event tool with hrun |
    ⟨terms, happening, -, -, hrun⟩
  · exact hrun.trans hsame
  · obtain ⟨outcome, houtcome⟩ := Option.isSome_iff_exists.mp hended
    rw [hrun, hsame, Tool.Run.step_of_outcome houtcome]

/-- The tool is cancelled after a failure while it waits for the process that it was to
kill. It was to kill it because its time was up, if the tool was not cancelled
before. -/
def Abandons (call : Call) (tool : Tool) : Prop :=
  ∃ before remains rest early cause,
    call.turns =
      before ++ .event (.tool tool (.interrupted .cancellation remains)) :: rest ∧
    (call.after before).analysis = some early ∧ early.join.failure.isSome = true ∧
    (early.run tool).phase = .reaping cause ∧
    (cause = .cancellation →
      ∃ remains, .event (.tool tool (.interrupted .cancellation remains)) ∈ before)

/-- The process of the tool is to be killed when its time is up or it is cancelled,
while it is running for all that is known; whether or not it is there then. -/
def Kills (call : Call) (tool : Tool) (isThere : Bool) : Prop :=
  ∃ before cause rest early,
    call.turns =
      before ++ .event (.tool tool (.interrupted cause ⟨false, isThere⟩)) :: rest ∧
    (call.after before).analysis = some early ∧ (early.run tool).standing = .running

theorem kills_of_kill_mem (hordinary : IsOrdinary call.turns)
    (hanalysis : call.request.analysis = some analysis)
    (hkill : .kill ∈ (analysis.run tool).acts) :
    ∃ isThere, call.Kills tool isThere := by
  obtain ⟨before, happening, rest, early, terms, hturns, hearly, hsound, hnot, -, hnow⟩ :=
    run_comesToHold (P := fun run => .kill ∈ run.acts) hordinary List.not_mem_nil
      hanalysis hkill
  obtain ⟨hrunning, cause, ⟨isCodeKnown, isThere⟩, rfl, rfl⟩ :=
    Tool.Run.kill_mem_step hsound hnot hnow
  exact ⟨isThere, before, cause, rest, early, hturns, hearly, hrunning⟩

/-- Of a process that was to be killed and has not been waited for it is known whether
it was there. -/
theorem kills_of_isUnawaited (hordinary : IsOrdinary call.turns)
    {standing : Tool.Standing} (hunawaited : standing.isUnawaited = true)
    (hanalysis : call.request.analysis = some analysis)
    (h : (analysis.run tool).standing = standing) :
    call.Kills tool (standing == .killed) := by
  have hready : ¬ Tool.Run.ready.standing = standing := by
    rintro rfl
    cases hunawaited
  obtain ⟨before, happening, rest, early, terms, hturns, hearly, hsound, hnot, -, hnow⟩ :=
    run_comesToHold (P := fun run => run.standing = standing) hordinary hready hanalysis h
  have hbefore : (early.run tool).standing.isUnawaited = false := by
    cases hearlier : (early.run tool).standing.isUnawaited with
    | false => rfl
    | true =>
      have hsame :=
        Tool.Run.standing_step_of_unawaited hsound hearlier (hnow ▸ hunawaited)
      exact absurd (hsame.symm.trans hnow) hnot
  obtain ⟨hrunning, cause, ⟨isCodeKnown, isThere⟩, rfl, rfl, hstanding⟩ :=
    Tool.Run.standing_step_of_isUnawaited hsound hbefore (hnow ▸ hunawaited)
  refine ⟨before, cause, rest, early, ?_, hearly, hrunning⟩
  rw [← hnow, hstanding]
  cases isThere <;> exact hturns

theorem abandons_of_isAbandoned (hordinary : IsOrdinary call.turns)
    (hanalysis : call.request.analysis = some analysis)
    (h : (analysis.run tool).IsAbandoned) :
    call.Abandons tool := by
  obtain ⟨before, happening, rest, early, terms, hturns, hearly, hsound, hnot,
    hlate, hnow⟩ :=
    run_comesToHold (P := Tool.Run.IsAbandoned) hordinary
      (fun h => nomatch h.2) hanalysis h
  rcases (Tool.Run.isAbandoned_step hsound).mp hnow with habandoned |
    ⟨cause, remains, hphase, rfl⟩
  · exact absurd habandoned hnot
  · refine ⟨before, remains, rest, early, cause, hturns, hearly, hlate rfl, hphase, ?_⟩
    rintro rfl
    -- It waits because it was cancelled, which has happened before.
    obtain ⟨_, earlier, between, first, terms, rfl, -, hsound, hnot, -, hnow⟩ :=
      run_comesToHold (P := fun run => run.phase = .reaping .cancellation)
        (hturns ▸ hordinary).append_left nofun hearly hphase
    rcases Tool.Run.phase_step_of_cancelled hsound hnow with hreaping | ⟨remains, rfl⟩
    · exact absurd hreaping hnot
    · exact ⟨remains, List.mem_append_right _ (.head _)⟩

theorem Abandons.isAbandoned (h : call.Abandons tool)
    (hordinary : IsOrdinary call.turns)
    (hanalysis : call.request.analysis = some analysis) :
    (analysis.run tool).IsAbandoned := by
  obtain ⟨before, remains, rest, early, cause, hturns, hearly, hlate, hphase, -⟩ := h
  have hparts : call.turns =
      (before ++ [.event (.tool tool (.interrupted .cancellation remains))]) ++ rest :=
    hturns.trans (List.append_cons ..)
  rw [hparts] at hordinary
  -- A tool that waits for its process is one of analyses that are under way.
  cases watched_after call hordinary.append_left.append_left with
  | early hother hnone => cases hnone.symm.trans hearly
  | late idle hfound attended settled failed =>
    cases hfound.symm.trans hearly
    rcases attended.run_of_isSettled settled tool with hrun | hended
    · rw [hrun] at hphase
      cases hphase
    · rw [Tool.Run.outcome?, hphase] at hended
      cases hended
  | @amid work found hwork hfound attended =>
    cases hfound.symm.trans hearly
    cases htools : work.tools with
    | none =>
      rw [(attended.idle tool htools).1] at hphase
      cases hphase
    | some terms =>
      have hlater := analysis_after_event hwork
        (.tool tool (.interrupted .cancellation remains))
      rw [hearly, Option.map_some] at hlater
      have hrun := Analysis.run_step_tool htools hlate tool
        (.interrupted .cancellation remains)
      have habandoned : ((early.run tool).step (terms tool)
          (.interrupted .cancellation remains)).IsAbandoned :=
        (Tool.Run.isAbandoned_step (attended.runs tool)).mpr (.inr ⟨cause,
          remains, hphase, rfl⟩)
      rw [← hrun] at habandoned
      obtain ⟨last, hlast, hsame⟩ := run_after_append hordinary hlater habandoned.1
      rw [← hparts] at hlast
      cases hlast.symm.trans hanalysis
      rw [hsame]
      exact habandoned

/-! ## The first failure -/

/-- The tool is the first of the four to fail, for this reason. -/
def FailsFirst (call : Call) (tool : Tool) (reason : Fault) : Prop :=
  ∃ before happening rest early later,
    call.turns = before ++ .event (.tool tool happening) :: rest ∧
    (call.after before).analysis = some early ∧ early.join.failure = none ∧
    (call.after (before ++ [.event (.tool tool happening)])).analysis = some later ∧
    later.join.tasks[Analysis.index tool]? = some (some (.failed reason))

/-- A task that is settled at some moment of a call is settled so in the end. -/
theorem settled_after_append (hordinary : IsOrdinary (turns ++ rest)) {early : Analysis}
    {position : Nat} {settlement : Settlement Part Fault}
    (hearly : (call.after turns).analysis = some early)
    (hsettled : early.join.tasks[position]? = some (some settlement))
    (hanalysis : (call.after (turns ++ rest)).analysis = some analysis) :
    analysis.join.tasks[position]? = some (some settlement) := by
  obtain ⟨last, hlast, hlater⟩ := analysis_after_append
    (P := fun analysis => analysis.join.tasks[position]? =
      some (some settlement)) hordinary
    (fun _ _ event _ hsettled => Analysis.settled_step hsettled event) hearly hsettled
  cases hlast.symm.trans hanalysis
  exact hlater

/-- The first failure of a call that is not cancelled as a whole is its failure in the
end. -/
theorem failure_after_append (hordinary : IsOrdinary (turns ++ rest))
    (hcancelled : .cancellation ∉ rest)
    (haborted : .event .aborted ∉ rest) {early : Analysis}
    {reason : Fault} (hearly : (call.after turns).analysis = some early)
    (hfailure : early.join.failure = some reason)
    (hanalysis : (call.after (turns ++ rest)).analysis = some analysis) :
    analysis.join.failure = some reason := by
  obtain ⟨last, hlast, hlater⟩ := analysis_after_append
    (P := fun analysis => analysis.join.failure = some reason) hordinary
    (fun _ analysis event hevent hfailure => by
      refine Analysis.failure_step hfailure ?_
      rintro rfl
      rcases hevent with hevent | ⟨hevent, -⟩
      · exact haborted hevent
      · exact hcancelled hevent) hearly hfailure
  cases hlast.symm.trans hanalysis
  exact hlater

/-- The tool that fails first fails with the first failure. -/
theorem FailsFirst.failure {reason : Fault} (h : call.FailsFirst tool reason)
    (hordinary : IsOrdinary call.turns) (hcancelled : .cancellation ∉ call.turns)
    (haborted : .event .aborted ∉ call.turns)
    (hanalysis : call.request.analysis = some analysis) :
    analysis.join.failure = some reason ∧
      analysis.join.tasks[Analysis.index tool]? = some (some (.failed reason)) := by
  obtain ⟨before, happening, rest, early, later, hturns, hearly, hnone,
    hlater, hfailed⟩ := h
  have hparts : call.turns = (before ++ [.event (.tool tool happening)]) ++ rest :=
    hturns.trans (List.append_cons ..)
  have hend :
      (call.after ((before ++ [.event (.tool tool happening)]) ++ rest)).analysis =
      some analysis := hparts ▸ hanalysis
  rw [hparts] at hordinary hcancelled haborted
  obtain ⟨work, attended⟩ := (watched_after call hordinary.append_left).attended hlater
  obtain ⟨found, hfound⟩ :=
    Option.isSome_iff_exists.mp (attended.isSound.failure_isSome hfailed)
  -- Before its failure there was none, so the failure that is there after it is its own.
  have hfirst : found = reason := by
    cases progress_after call hordinary.append_left.append_left
      (.event (.tool tool happening)) with
    | none same =>
      cases (same ▸ hlater).symm.trans hearly
      cases hnone.symm.trans hfound
    | started work hnone' hstarted =>
      cases hnone'.symm.trans hearly
    | event work event hbefore attended' hundergone turn_eq =>
      rcases turn_eq with turn_eq | ⟨turn_eq, -⟩
      · cases turn_eq
        cases hbefore.symm.trans hearly
        cases hundergone.symm.trans hlater
        rcases Analysis.failed_of_failure_step hnone hfound with haborted |
          ⟨position, rfl, htask⟩
        · cases haborted
        · cases hfailed.symm.trans htask
          rfl
      · cases turn_eq
  subst hfirst
  exact ⟨failure_after_append hordinary (fun h => hcancelled (List.mem_append_right _ h))
    (fun h => haborted (List.mem_append_right _ h)) hlater hfound hend,
    settled_after_append hordinary hlater hfailed hend⟩

/-- If a tool has failed and neither of the analyses that are no tools has, a tool has
failed first. -/
theorem exists_failsFirst {fault : Fault} (hordinary : IsOrdinary call.turns)
    (haborted : .event .aborted ∉ call.turns) (hcancelled : .cancellation ∉ call.turns)
    (hanalysis : call.request.analysis = some analysis)
    (hfailed : analysis.join.tasks[Analysis.index tool]? = some (some (.failed fault)))
    (hothers : ∀ position < 2, ∀ fault,
      analysis.join.tasks[position]? ≠ some (some (.failed fault))) :
    ∃ first reason, call.FailsFirst first reason := by
  obtain ⟨_, attended⟩ := (watched_after call hordinary).attended hanalysis
  have hstart (work : Workload) : ¬ (Analysis.start work).join.failure.isSome = true := by
    rw [Analysis.failure_start]
    exact Bool.false_ne_true
  obtain ⟨before, rest, turn, hturns, turn_eq, hearly, -, hnot, hlater, hnow⟩ :=
    comesToHold (P := fun analysis => analysis.join.failure.isSome = true) hordinary
      hstart hanalysis
      (attended.isSound.failure_isSome hfailed)
  rename_i work early event
  have hnone : early.join.failure = none := Option.not_isSome_iff_eq_none.mp hnot
  obtain ⟨reason, hreason⟩ := Option.isSome_iff_exists.mp hnow
  have hparts : call.turns = (before ++ [turn]) ++ rest :=
    hturns.trans (List.append_cons ..)
  have hevent : turn = .event event := by
    rcases turn_eq with hevent | ⟨rfl, -⟩
    · exact hevent
    · exact absurd (hturns ▸ List.mem_append_right _ (.head _)) hcancelled
  subst hevent
  rcases Analysis.failed_of_failure_step hnone hreason with rfl |
    ⟨position, hsettles, htask⟩
  · exact absurd (hturns ▸ List.mem_append_right _ (.head _)) haborted
  · have hend : (call.after ((before ++ [.event event]) ++ rest)).analysis =
        some analysis :=
      hparts ▸ hanalysis
    have hlast := settled_after_append (hparts ▸ hordinary) hlater htask hend
    -- Of the four it can only be a tool, and it has failed by an event of its own.
    have hplace : 2 ≤ position := by
      by_contra hlow
      exact hothers position (Nat.lt_of_not_le hlow) reason hlast
    cases event with
    | tool first happening =>
      cases hsettles
      exact ⟨first, reason, before, happening, rest, early, _, hturns, hearly, hnone,
        hlater, htask⟩
    | broken place fault =>
      obtain rfl : position = place := hsettles
      have hlt : position < 4 := by
        rw [← attended.isSound.length]
        exact (List.getElem?_eq_some_iff.mp hlast).1
      obtain ⟨broken, rfl⟩ := Analysis.exists_index hplace hlt
      exact absurd (hturns ▸ List.mem_append_right _ (.head _)) (hordinary broken fault)
    | scored =>
      cases hsettles
      cases hplace
    | surveyed =>
      cases hsettles
      omega
    | dropped => exact absurd hsettles (Nat.not_lt_of_le hplace)
    | aborted => cases hsettles

/-! ## Calls for a plain package -/

/-- A call for a package with nothing but a manifest, in which these events happen to
the analyses. -/
def plainToolCall (events : List Analysis.Event) : Call :=
  straightCall true (Package.headed [7] plainArchive) plainArchive [emptyManifest] events

/-- The call ends with the first failure, and its directory is gone. -/
theorem course_plainToolCall {events : List Analysis.Event} {fault : Fault}
    (hfailed : (Analysis.steps (bareWorkload true []) (.start (bareWorkload true []))
      events).outcome? = some (.error fault)) :
    (plainToolCall events).request.phase = .ended (.error fault) ∧
      (plainToolCall events).request.analysis =
        some (.steps (bareWorkload true []) (.start (bareWorkload true [])) events) ∧
      (plainToolCall events).disk = .empty := by
  have hrun : Archive.runActions (.ofNames ["work"]) (Archive.planned .plain plainArchive)
      (workDisk []) = (workDisk [emptyManifest], .ok ()) := by
    rw [planned_plainArchive]
    rfl
  have hmanifest :
      Manifest.read (workDisk [emptyManifest]) (.ofNames ["work"]) = .ok [] :=
    ofBytes_emptyManifest
  have hfiles :
      Script.files Platform.plain.listing Script.ending (workDisk [emptyManifest])
      (.ofNames ["work"]) = .ok [] := by
    cbv
  have hpackage : Package.payload (Package.headed [7] plainArchive) = .ok plainArchive :=
    Package.payload_headed plainArchive (by decide)
  exact course_straightCall hpackage hrun hmanifest hfiles rfl
    (Request.course_conclude_fault hfailed)
    finish_plain (by decide)

/-- What the linter comes to when it exits with code 2. -/
def lintFault : Fault := .tool (.badExit "eslint" 2 [])

def failedLintEvents : List Analysis.Event :=
  [.tool .retire .started, .tool .eslint .started, .scored, .surveyed,
    .tool .eslint (.exited ⟨2, [], []⟩),
    .tool .retire (.interrupted .cancellation ⟨false, true⟩),
    .tool .retire .reaped]

theorem outcome?_failedLintEvents :
    (Analysis.steps (bareWorkload true []) (.start (bareWorkload true []))
      failedLintEvents).outcome? =
      some (.error lintFault) := by
  cbv

/-! ## What has become of the processes -/

/-- **The processes of the tools, once a request is past its analyses.** None is
running, for all that is known; what was done to each is what is known of it. One is
killed only while it is running, never once it is known to have exited, and it has been
waited for then, whether or not it was there, unless its tool was cancelled in the wait.
The failure of the request is that of the tool that failed first. -/
theorem processes_settled (call : Call) (hordinary : IsOrdinary call.turns)
    {analysis : Analysis} (hanalysis : call.request.analysis = some analysis)
    (hidle : call.request.phase.isBusy = false) :
    (∀ tool, (analysis.run tool).standing ≠ .running ∧
      (analysis.run tool).acts = (analysis.run tool).standing.acts ∧
      (.kill ∈ (analysis.run tool).acts → ∃ isThere, call.Kills tool isThere) ∧
      ((analysis.run tool).standing = .killed → call.Kills tool true) ∧
      ((analysis.run tool).standing = .lost → call.Kills tool false) ∧
      ((analysis.run tool).standing = .killed ∨ (analysis.run tool).standing = .lost ↔
        call.Abandons tool)) ∧
    (∀ tool before rest early, call.turns = before ++ rest →
      (call.after before).analysis = some early → (early.run tool).standing = .exited →
      analysis.run tool = early.run tool) ∧
    (.cancellation ∉ call.turns → .event .aborted ∉ call.turns →
      (∀ tool reason, call.FailsFirst tool reason →
        call.request.phase.fault? = some reason ∧
        ∃ outcome, (analysis.run tool).outcome? = some outcome ∧
          Analysis.ofOutcome tool outcome = .failed reason) ∧
      ∀ tool fault, analysis.join.tasks[Analysis.index tool]? =
        some (some (.failed fault)) →
        (∀ position < 2, ∀ fault,
          analysis.join.tasks[position]? ≠ some (some (.failed fault))) →
        ∃ first reason, call.FailsFirst first reason) := by
  cases watched_after call hordinary with
  | early hphase hnone => cases hnone.symm.trans hanalysis
  | amid hphase hfound attended =>
    have hphase : call.request.phase = _ := hphase
    rw [hphase] at hidle
    cases hidle
  | @late work found _ hfound attended settled failed =>
    cases hfound.symm.trans hanalysis
    refine ⟨fun tool => ?_, fun tool before rest early hturns hearly hexited => ?_,
      fun hcancelled haborted => ⟨fun tool reason hfirst => ?_,
        fun tool fault hfailed hothers => ?_⟩⟩
    · obtain ⟨hrunning, habandoned⟩ := attended.standing_of_isSettled settled tool
      rw [← Tool.Standing.isUnawaited_iff]
      exact ⟨hrunning, (attended.runs tool).acts_eq,
        kills_of_kill_mem hordinary hanalysis,
        kills_of_isUnawaited hordinary rfl hanalysis,
        kills_of_isUnawaited hordinary rfl hanalysis,
        fun hkilled => abandons_of_isAbandoned hordinary hanalysis (habandoned hkilled),
        fun habandons => (habandons.isAbandoned hordinary hanalysis).2⟩
    · rw [hturns] at hordinary
      obtain ⟨_, earlier⟩ := (watched_after call hordinary.append_left).attended hearly
      obtain ⟨last, hlast, hsame⟩ :=
        run_after_append hordinary hearly ((earlier.runs tool).ended_of_exited hexited)
      rw [← hturns] at hlast
      cases hlast.symm.trans hanalysis
      exact hsame
    · obtain ⟨hfailure, htask⟩ := hfirst.failure hordinary hcancelled haborted hanalysis
      have houtcome : analysis.outcome? = some (.error reason) := by
        rw [Analysis.outcome?, Join.outcome?, if_pos settled, hfailure]
      exact ⟨failed reason houtcome, attended.outcome_of_failed htask⟩
    · exact exists_failsFirst hordinary haborted hcancelled hanalysis hfailed hothers

/-- The scanner is cancelled because the linter fails, and waits for its process. -/
theorem processes_settled_failedLint :
    let call := plainToolCall failedLintEvents
    call.request.phase = .ended (.error lintFault) ∧ call.FailsFirst .eslint lintFault ∧
      (∃ isThere, call.Kills .retire isThere) ∧ ¬ call.Abandons .retire := by
  obtain ⟨hphase, hanalysis, -⟩ := course_plainToolCall outcome?_failedLintEvents
  have hordinary : IsOrdinary (plainToolCall failedLintEvents).turns := by
    intro tool fault hmem
    have hevent := mem_of_event_mem_turns hmem
    cases tool <;> simp [failedLintEvents] at hevent
  have hcancelled : .cancellation ∉ (plainToolCall failedLintEvents).turns := by
    intro hmem
    rcases mem_turns_straightCall hmem with h | ⟨event, hevent, h⟩ <;> cases h
  have haborted : .event .aborted ∉ (plainToolCall failedLintEvents).turns := by
    intro hmem
    have hevent := mem_of_event_mem_turns hmem
    simp [failedLintEvents] at hevent
  obtain ⟨hruns, -, hfailures⟩ :=
    processes_settled (plainToolCall failedLintEvents) hordinary hanalysis
    (by rw [hphase]; rfl)
  obtain ⟨-, -, hkills, -, -, habandons⟩ := hruns .retire
  obtain ⟨hfirst, hexists⟩ := hfailures hcancelled haborted
  generalize hlast : Analysis.steps (bareWorkload true []) (.start (bareWorkload true []))
    failedLintEvents = last at hanalysis hkills habandons hfirst hexists
  have hscan : last.scan = ⟨.ended .cancelled, .waitedFor, [.start, .kill, .wait]⟩ := by
    rw [← hlast]
    cbv
  have htask : last.join.tasks[3]? = some (some (.failed lintFault)) := by
    rw [← hlast]
    cbv
  have hothers : ∀ position < 2, ∀ fault, last.join.tasks[position]? ≠
      some (some (.failed fault)) := by
    have hfinished : ((last.join.tasks[0]?.bind Join.value?).isSome &&
        (last.join.tasks[1]?.bind Join.value?).isSome) = true := by
      rw [← hlast]
      cbv
    rintro position hlt fault hfault
    obtain rfl | rfl : position = 0 ∨ position = 1 := by omega
    · rw [hfault] at hfinished
      cases hfinished
    · rw [hfault, Bool.and_comm] at hfinished
      cases hfinished
  obtain ⟨first, reason, hfails⟩ := hexists .eslint lintFault htask hothers
  obtain ⟨hfault, outcome, hended, hreason⟩ := hfirst first reason hfails
  rw [hphase] at hfault
  cases hfault
  refine ⟨hphase, ?_, hkills ?_, fun h => ?_⟩
  · cases first with
    | eslint => exact hfails
    | retire =>
      have hended : last.scan.outcome? = some outcome := hended
      rw [hscan] at hended
      cases hended
      cases hreason
  · show Tool.Act.kill ∈ last.scan.acts
    rw [hscan]
    decide
  · have hkilled : last.scan.standing = .killed ∨ last.scan.standing = .lost :=
      habandons.mpr h
    rw [hscan] at hkilled
    rcases hkilled with h | h <;> cases h

/-- The scanner's time is up, and while it waits for its process, the linter fails. -/
def lateScanEvents : List Analysis.Event :=
  [.tool .retire .started, .tool .eslint .started, .scored, .surveyed,
    .tool .retire (.interrupted .expiry ⟨false, true⟩),
    .tool .eslint (.exited ⟨2, [], []⟩),
    .tool .retire (.interrupted .cancellation ⟨false, true⟩)]

/-- The scanner's process is killed, but not waited for, and the directory is gone. -/
theorem killed_lateScan :
    let call := plainToolCall lateScanEvents
    IsOrdinary call.turns ∧ call.request.phase = .ended (.error lintFault) ∧
      call.disk.isPresent call.directory = false ∧
      ∃ analysis, call.request.analysis = some analysis ∧
        (analysis.run .retire).standing = .killed := by
  have hfailed : (Analysis.steps (bareWorkload true []) (.start (bareWorkload true []))
      lateScanEvents).outcome? = some (.error lintFault) := by
    cbv
  obtain ⟨hphase, hanalysis, hdisk⟩ := course_plainToolCall hfailed
  refine ⟨fun tool fault hmem => ?_, hphase, by rw [hdisk]; decide, _, hanalysis, by cbv⟩
  have hevent := mem_of_event_mem_turns hmem
  cases tool <;> simp [lateScanEvents] at hevent

end ExtensionAudit.Call
