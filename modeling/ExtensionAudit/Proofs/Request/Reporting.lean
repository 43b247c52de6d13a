import ExtensionAudit.Proofs.Lint.Account
import ExtensionAudit.Proofs.Request.Driving
import ExtensionAudit.Proofs.Request.Total
import ExtensionAudit.Proofs.Tool.Lint
import Mathlib

/-!
# Request — what a report says of the linting

A request has a report from the turn on that composes it of what the four analyses came
to, and it keeps both (`Reports`). So the lint issues that a report shows are those of
the summary of what the linter wrote, and all that holds of summaries holds of them.
-/

namespace ExtensionAudit

/-- The report that a phase is about, if it is about one. -/
def Phase.report? : Phase → Option Report
  | .cleanUp (.ok report) _ | .ended (.ok report) | .overrun (.ok report) => some report
  | _ => none

namespace Request

/-! ## Where a report comes from -/

/-- How a request comes to have a report after a turn: it had it before, or the turn
composed it of what the analyses came to. -/
inductive Reports (before after : Request) (report : Report) : Prop
  | kept (had : before.phase.report? = some report)
      (analysis : after.analysis = before.analysis)
  | composed {work : Workload} {parts : List Part} (phase : before.phase = .analyze work)
    (settled : before.settlement? = some (.ok parts))
    (composed : Request.report work.manifest parts = .ok report)
    (analysis : after.analysis = before.analysis)

variable {auditor : Auditor} {request before after : Request} {disk : Disk}
    {report : Report}

theorem report?_fail (fault : Fault) : (request.fail fault).phase.report? = none := rfl

/-- With a result that leads to no report, and a failure that is none, there is no
report. -/
theorem report?_attempt {α : Type} {result : Except Fault α}
    {next : α → Request} (h : ∀ a, (next a).phase.report? = none) :
    (request.attempt result next).phase.report? = none := by
  cases result with
  | ok a => exact h a
  | error fault => exact report?_fail fault

/-- A turn that leaves the phase as it was leaves the report. -/
theorem Reports.of_phase (hphase : after.phase = before.phase)
    (hanalysis : before.phase.report? = some report → after.analysis = before.analysis)
    (h : after.phase.report? = some report) : Reports before after report := by
  rw [hphase] at h
  exact .kept h (hanalysis h)

theorem Reports.of_none (hnone : after.phase.report? = none)
    (h : after.phase.report? = some report) :
    Reports before after report := by
  rw [hnone] at h
  cases h

theorem reports_work (h : (request.work disk).1.phase.report? = some report) :
    Reports request (request.work disk).1 report := by
  unfold work at h ⊢
  split at h
  · exact .kept h rfl
  · split at h <;> exact .kept h rfl

/-- What happens to the analyses after the report is no longer noticed. -/
theorem reports_notice {event : Analysis.Event}
    (h : (request.notice event).phase.report? = some report) :
    Reports request (request.notice event) report := by
  unfold notice at h ⊢
  split at h
  · rename_i work hphase
    exact .of_phase rfl (fun hreport => by rw [hphase] at hreport; cases hreport) h
  · exact .kept h rfl

theorem reports_cancel (h : request.cancel.phase.report? = some report) :
    Reports request request.cancel report := by
  unfold cancel at h ⊢
  split at h
  · cases h
  · cases h
  · cases h
  · cases h
  · exact reports_notice h

theorem reports_breakOff {fault : Fault}
    (h : (request.breakOff fault).phase.report? = some report) :
    Reports request (request.breakOff fault) report := by
  unfold breakOff at h ⊢
  split at h
  · split at h
    · cases h
    · exact .kept h rfl
  · exact .kept h rfl
  · exact .kept h rfl
  · exact .kept h rfl
  · cases h
  · cases h

/-- Only here is a report composed. -/
theorem reports_conclude {work : Workload} (hphase : request.phase = .analyze work)
    (h : (request.conclude work).phase.report? = some report) :
    Reports request (request.conclude work) report := by
  unfold conclude at h ⊢
  split at h
  · exact .kept h rfl
  · cases h
  · rename_i parts hsettled
    cases hreport : Request.report work.manifest parts with
    | error fault =>
      rw [hreport] at h
      cases h
    | ok composed =>
      rw [hreport] at h
      cases h
      exact .composed hphase hsettled hreport rfl

theorem reports_step {reply : Fetch.Reply}
    (h : (request.step auditor reply disk).1.phase.report? = some report) :
    Reports request (request.step auditor reply disk).1 report := by
  obtain ⟨directory, record, phase, worker, exchange, analysis⟩ := request
  cases phase with
  | resolve target =>
    refine .of_none ?_ h
    simp only [step]
    split <;> rfl
  | fetch id => exact .of_none (report?_attempt fun _ => rfl) h
  | parse package => exact .of_none (report?_attempt fun _ => rfl) h
  | extract =>
    obtain ⟨pending, fault⟩ := worker
    cases pending with
    | cons action rest => exact reports_work h
    | nil => cases fault <;> exact .of_none rfl h
  | readManifest => exact .of_none (report?_attempt fun _ => rfl) h
  | list manifest => exact .of_none (report?_attempt fun _ => rfl) h
  | read manifest pending files =>
    cases pending with
    | nil => exact .of_none rfl h
    | cons names rest => exact .of_none (report?_attempt fun _ => rfl) h
  | analyze work => exact reports_conclude rfl h
  | cleanUp outcome chores =>
    obtain ⟨phase, cleaned, hclean, hphase⟩ := clean_cases auditor.platform.removing
      ⟨directory, record, .cleanUp outcome chores, worker, exchange,
        analysis⟩ disk outcome chores
    rw [step, hclean] at h ⊢
    refine .kept ?_ rfl
    rcases hphase with ⟨left, rfl⟩ | rfl | rfl <;> cases outcome <;> exact h
  | ended outcome => exact .kept h rfl
  | overrun outcome => exact .kept h rfl

theorem reports_take {turn : Turn}
    (h : (request.take auditor disk turn).1.phase.report? = some report) :
    Reports request (request.take auditor disk turn).1 report := by
  cases turn with
  | step reply => exact reports_step h
  | work => exact reports_work h
  | event event => exact reports_notice h
  | failure fault => exact reports_breakOff h
  | cancellation => exact reports_cancel h

/-! ## What a report is composed of -/

/-- A report is composed of what the analyses of a request came to. -/
structure IsComposed (auditor : Auditor) (request : Request) (report : Report)
    (work : Workload) (analysis : Analysis) (parts : List Part) : Prop where
  tools : work.tools.isSome = auditor.usesTools
  started : request.analysis = some analysis
  sound : analysis.IsSound work
  settled : analysis.outcome? = some (.ok parts)
  report : Request.report work.manifest parts = .ok report

/-- Whatever report a request has is composed of what its analyses came to. -/
def HasComposed (auditor : Auditor) (request : Request) : Prop :=
  ∀ report, request.phase.report? = some report →
    ∃ work analysis parts, request.IsComposed auditor report work analysis parts

variable {origin : Origin} {opened : Disk}

theorem IsComposed.of_analysis {work : Workload} {analysis : Analysis}
    {parts : List Part} (h : before.IsComposed auditor report work analysis parts)
    (hanalysis : after.analysis = before.analysis) :
    after.IsComposed auditor report work analysis parts :=
  { h with started := hanalysis.trans h.started }

theorem HasComposed.take (h : HasComposed auditor request)
    (htraced : Traced auditor origin opened request disk)
    (turn : Turn) : HasComposed auditor (request.take auditor disk turn).1 := by
  intro report hreport
  cases reports_take hreport with
  | kept had hanalysis =>
    obtain ⟨work, analysis, parts, hcomposed⟩ := h report had
    exact ⟨work, analysis, parts, hcomposed.of_analysis hanalysis⟩
  | @composed work parts hphase hsettled hcomposed hanalysis =>
    rw [Traced, hphase] at htraced
    obtain ⟨-, htools, analysis, hstarted, hsound⟩ := htraced
    rw [settlement?, hstarted, Option.bind_some] at hsettled
    exact ⟨work, analysis, parts, htools, hanalysis.trans hstarted, hsound,
      hsettled, hcomposed⟩

/-- The whole course, from what one turn keeps. -/
theorem HasComposed.course (h : HasComposed auditor request)
    (htraced : Traced auditor origin opened request disk) (turns : List Turn) :
    HasComposed auditor (request.course auditor disk turns).1 := by
  induction turns generalizing request disk with
  | nil => exact h
  | cons turn rest ih =>
    rw [Request.course]
    split
    · exact h
    · exact ih (h.take htraced turn) (htraced.take turn)

theorem hasComposed_request (auditor : Auditor) (directory : Path) (origin : Origin) :
    HasComposed auditor (origin.request directory) := by
  intro report h
  cases origin <;> cases h

/-! ## The lint issues -/

/-- What the report on the four analyses says of the linting. -/
theorem report_lint {manifest : List (Text × Json)} {scores : ManifestScores}
    {usage : Script.Usage} {entries : List Json} {summary : Lint.Summary}
    (h : Request.report manifest [.scores scores, .usage usage, .findings entries,
      .lint summary] = .ok report) :
    report.details.lint = summary.toJson ∧ report.breakdown.lintIssues =
      .int summary.total := by
  rw [Request.report, mapError_eq_ok, bind_eq_ok] at h
  obtain ⟨libraries, -, h⟩ := h
  simp only [Report.ofParts, Report.compose, bind_eq_ok, Except.ok.injEq] at h
  obtain ⟨_, -, _, -, _, -, _, -, _, -, _, -, members, hmembers, rfl⟩ := h
  cases hmembers
  exact ⟨rfl, rfl⟩

/-- With the tools, a report shows the summary of what the linter wrote. -/
theorem IsComposed.lint {work : Workload} {analysis : Analysis}
    {parts : List Part} (h : request.IsComposed auditor report work analysis parts)
    (htools : auditor.usesTools = true) :
    ∃ summary, analysis.lintSummary? true = some summary ∧
      report.details.lint = summary.toJson ∧
      report.breakdown.lintIssues = .int summary.total := by
  obtain ⟨scores, entries, summary, rfl, -, -, hsummary⟩ := h.sound.outcome h.settled
  rw [h.tools, htools] at hsummary
  exact ⟨summary, hsummary, report_lint h.report⟩

end Request

namespace Lint

/-- The files that an output lists: none if it is blank, and else the elements of an
array. -/
def Lists (output : Text) (files : List Json) : Prop :=
  Text.trim output = [] ∧ files = [] ∨ Text.trim output ≠ [] ∧
    Json.read output = .ok (.array files)

/-- What is summed up of an output is the files that it lists. -/
theorem lintSummary_eq_ok {output : Text} {summary : Summary}
    (h : Tool.lintSummary output = .ok summary) :
    ∃ files, Lists output files ∧ summarize (.array files) = .ok summary := by
  have hends := lintSummary_ends output
  rw [h] at hends
  cases hends with
  | blank hblank => exact ⟨[], .inl ⟨hblank, rfl⟩, rfl⟩
  | @summed files hblank hread hgood =>
    refine ⟨files, .inr ⟨hblank, hread⟩,
      summarize_eq_ok_iff.mpr ⟨fun file hfile => ?_, (summaryOf_eq files).symm⟩⟩
    exact fileFault?_eq_none_iff.mpr (hgood file hfile)

end Lint

namespace Call

/-- The linter of a call has come to its end and wrote this. -/
def LinterWrote (call : Call) (output : Text) : Prop :=
  ∃ analysis, call.request.analysis = some analysis ∧
    analysis.lint.outcome? = some (.output output)

/-- A report that a call with tools ends with shows the lint issues that the linter
wrote. -/
theorem lintIssues_of_report {call : Call} {report : Report}
    (htools : call.auditor.usesTools = true)
    (h : call.request.phase = .ended (.ok report)) :
    ∃ output files summary, call.LinterWrote output ∧ Lint.Lists output files ∧
      Lint.summarize (.array files) = .ok summary ∧ report.details.lint = summary.toJson ∧
      report.breakdown.lintIssues = .int summary.total := by
  have hcomposed : Request.HasComposed call.auditor call.request :=
    (Request.hasComposed_request call.auditor call.directory call.origin).course
      (Request.traced_request call.auditor call.directory call.origin call.opened)
        call.turns
  obtain ⟨work, analysis, parts, hcomposed⟩ := hcomposed report (by rw [h]; rfl)
  obtain ⟨summary, hsummary, hdetails, hissues⟩ := hcomposed.lint htools
  rw [Analysis.lintSummary?, if_pos rfl] at hsummary
  split at hsummary
  · rename_i output houtput
    obtain ⟨files, hlists, hfiles⟩ :=
      Lint.lintSummary_eq_ok (toOption_eq_some.mp hsummary)
    exact ⟨output, files, summary, ⟨analysis, hcomposed.started, houtput⟩, hlists,
      hfiles, hdetails, hissues⟩
  · cases hsummary

/-- **What a lint summary accounts for.** The files that are summed up list messages
that are objects. The total is the number of them, that of the errors and the warnings
together, and that of all the rules together; each rule is listed once, where it first
comes, with at least one message, and messages without a rule count for the rule `null`.
The summary of two reports in one is the one with the other added to it, and the order
of files and of messages makes no difference to what is counted. The lint issues of
every report that a call with tools ends with are those of the files that the linter
listed. -/
theorem lint_accounted :
    (∀ files summary, Lint.summarize (.array files) = .ok summary →
      ∃ messages, files.flatMap Lint.messagesOf = messages.map .object ∧
      summary.Accounts messages ∧
        summary.total = messages.length ∧
        summary.total = summary.errors + summary.warnings ∧
        (summary.byRule.map (·.2)).sum = summary.total ∧
        ∀ entry ∈ summary.byRule, 1 ≤ entry.2) ∧
    (∀ message : Entries Json, message.get? "ruleId" = none ∨
      message.get? "ruleId" = some .null ∨
      message.get? "ruleId" = some (.text "null") → Lint.ruleOf message = "null") ∧
    (∀ files more summary, Lint.summarize (.array (files ++ more)) = .ok summary ↔
      ∃ first second, Lint.summarize (.array files) = .ok first ∧
      Lint.summarize (.array more) = .ok second ∧
        summary = first.merge second) ∧
    (∀ (first second : Lint.Summary) (rule : Text),
      (first.merge second).total = first.total + second.total ∧
      (first.merge second).errors = first.errors + second.errors ∧
      (first.merge second).warnings = first.warnings + second.warnings ∧
      (first.merge second).count rule = first.count rule + second.count rule) ∧
    (∀ files others summary, Lint.Rearranged files others →
      Lint.summarize (.array files) = .ok summary →
      ∃ other, Lint.summarize (.array others) = .ok other ∧ summary.Agrees other) ∧
    ∀ (call : Call) (report : Report), call.auditor.usesTools = true →
      call.request.phase = .ended (.ok report) →
      ∃ output files summary, call.LinterWrote output ∧ Lint.Lists output files ∧
        Lint.summarize (.array files) = .ok summary ∧
        report.details.lint = summary.toJson ∧
        report.breakdown.lintIssues = .int summary.total ∧
        report.breakdown.lintIssues = .int (files.flatMap Lint.messagesOf).length := by
  have haccount (files : List Json) (summary : Lint.Summary)
      (h : Lint.summarize (.array files) = .ok summary) :
      ∃ messages, files.flatMap Lint.messagesOf = messages.map .object ∧
        summary.Accounts messages := by
    obtain ⟨hgood, rfl⟩ := Lint.summarize_eq_ok_iff.mp h
    exact ⟨_, Lint.flatMap_messagesOf hgood, Lint.accounts_tally _⟩
  refine ⟨fun files summary h => ?_, fun message h => ?_, fun files more summary => ?_,
    fun first second rule => ⟨rfl, rfl, rfl, Lint.Summary.count_merge first second rule⟩,
    fun files others summary hsame h => Lint.summarize_rearranged hsame h,
    fun call report htools h => ?_⟩
  · obtain ⟨messages, hmessages, haccounts⟩ := haccount files summary h
    exact ⟨messages, hmessages, haccounts, haccounts.total, haccounts.split,
      haccounts.sum,
      fun entry hentry => haccounts.pos_of_mem hentry⟩
  · rcases h with h | h | h <;> rw [Lint.ruleOf, Json.member, h] <;> rfl
  · rw [Lint.summarize_append, bind_eq_ok]
    simp only [bind_eq_ok, Except.ok.injEq, eq_comm (a := summary), exists_and_left]
  · obtain ⟨output, files, summary, hwrote, hlists, hsummary, hdetails, hissues⟩ :=
      lintIssues_of_report htools h
    obtain ⟨messages, hmessages, haccounts⟩ := haccount files summary hsummary
    refine ⟨output, files, summary, hwrote, hlists, hsummary, hdetails, hissues, ?_⟩
    rw [hissues, haccounts.total, hmessages, List.length_map]

/-! ### A call whose linter complains twice -/

/-- What is written of a file with two messages, of which one has no rule and one has a
rule that is called so. -/
def nullOutput : Text :=
  "[7, \x7b\"messages\": [\x7b\"ruleId\": null, \"severity\": 2.0\x7d, " ++
    "\x7b\"ruleId\": \"null\", \"severity\": true\x7d]\x7d]"

/-- The linter comes first and has complaints, and the scores come last. -/
def complainingEvents : List Analysis.Event :=
  [.tool .eslint .started, .tool .retire .started,
    .tool .eslint (.exited ⟨1, Utf8.encode nullOutput, []⟩), .surveyed,
    .tool .retire (.exited ⟨0, [0x5B, 0x5D], []⟩), .scored]

def complainingCall : Call :=
  straightCall true (Package.keyed [1] [2,
    3] scriptArchive) scriptArchive [("a.js", [0x31]), emptyManifest]
    complainingEvents

/-- The number of lint issues that a report shows. -/
def shownIssues? (report : Report) : Option Int :=
  match report.breakdown.lintIssues with
  | .int count => some count
  | _ => none

theorem shownIssues?_complainingEvents :
    (Request.reportOn? (bareWorkload true [("a.js", ['1'])])
      (.steps (bareWorkload true [("a.js", ['1'])])
      (.start (bareWorkload true [("a.js", ['1'])])) complainingEvents)).bind
        shownIssues? = some 2 := by
  decide +kernel

theorem report_complainingCall :
    ∃ report, complainingCall.request.phase = .ended (.ok report) ∧
    shownIssues? report = some 2 := by
  obtain ⟨report, hreport, hshown⟩ :=
    Option.bind_eq_some_iff.mp shownIssues?_complainingEvents
  refine ⟨report,
    (report_straightCall (Package.payload_keyed _ (by decide) (by decide)) ?_ ?_
      ?_ rfl hreport
      finish_script (by decide)).1, hshown⟩
  · rw [planned_scriptArchive]
    rfl
  · exact ofBytes_emptyManifest
  · cbv

/-- The report of that call shows two issues, those of the summary of what its linter
wrote. -/
theorem lint_accounted_complainingCall :
    complainingCall.auditor.usesTools = true ∧ ∃ report, complainingCall.request.phase =
      .ended (.ok report) ∧
      ∃ output files summary, complainingCall.LinterWrote output ∧
      Lint.Lists output files ∧
        Lint.summarize (.array files) = .ok summary ∧ summary.total = 2 ∧
        summary.errors + summary.warnings = 2 ∧
        (files.flatMap Lint.messagesOf).length = 2 := by
  obtain ⟨report, hreport, hshown⟩ := report_complainingCall
  obtain ⟨haccount, -, -, -, -, hcall⟩ := lint_accounted
  obtain ⟨output, files, summary, hwrote, hlists, hsummary, -, hissues, hmessages⟩ :=
    hcall complainingCall report rfl hreport
  obtain ⟨messages, -, -, -, hsplit, -⟩ := haccount files summary hsummary
  have htotal : summary.total = 2 := by
    rw [shownIssues?, hissues] at hshown
    exact Int.ofNat.inj (Option.some.inj hshown)
  have hlength : (files.flatMap Lint.messagesOf).length = 2 := by
    rw [shownIssues?, hmessages] at hshown
    exact Int.ofNat.inj (Option.some.inj hshown)
  exact ⟨rfl, report, hreport, output, files, summary, hwrote, hlists, hsummary, htotal,
    hsplit ▸ htotal, hlength⟩

end Call

end ExtensionAudit
