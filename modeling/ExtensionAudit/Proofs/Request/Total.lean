import ExtensionAudit.Proofs.Archive.Stored
import ExtensionAudit.Proofs.Request.Analysis
import ExtensionAudit.Proofs.Request.Success
import Mathlib

/-!
# Request — what the total is made of

A report that a request ends with is scored by two things alone: the manifest that is
read back from the package, and what the scanner found. The invariant follows the
package through the phases (`Traced`); the total and its four parts are read off it at
the end.
-/

namespace ExtensionAudit

/-! ## The scores of a report -/

/-- The scores of a report are those of a manifest and of what a scanner found, and its
total is their sum. -/
def Report.IsScoredBy (report : Report) (manifest : List (Text × Json))
    (entries : List Json) : Prop :=
  ∃ (metadata : Nat) (permissions : Nat × Entries Text) (libraries : Score.LibraryScore),
    Score.metadata (.object manifest) = .ok metadata ∧
    Score.permissions (.object manifest) = .ok permissions ∧
    Score.libraries (.array entries) = .ok libraries ∧
    report.breakdown.metadata = .int metadata ∧
    report.breakdown.policy = .int (Score.policy (.object manifest)).1 ∧
    report.breakdown.permissions = .int permissions.1 ∧
    report.breakdown.libraries = .int libraries.score ∧
    report.total =
      .int (metadata + (Score.policy (.object manifest)).1 + permissions.1 +
        libraries.score)

theorem Report.compose_ok
    {manifest facts usage lint policyDetails permissionDetails libraryDetails : Json}
    {metadata policy permissions libraries : Int} {report : Report}
    (h : Report.compose manifest (.int metadata) (.int policy, policyDetails)
      (.int permissions, permissionDetails) (.int libraries, libraryDetails) facts usage
      lint = .ok report) :
    report.breakdown.metadata = .int metadata ∧ report.breakdown.policy = .int policy ∧
    report.breakdown.permissions = .int permissions ∧
    report.breakdown.libraries = .int libraries ∧
    report.total = .int (metadata + policy + permissions + libraries) := by
  have hadd : ∀ m n : Int, (Json.int m).add (.int n) = .ok (.int (m + n)) :=
    fun _ _ => rfl
  simp only [compose, hadd, bind_eq_ok, Except.ok.injEq] at h
  obtain ⟨_, -, _, -, _, rfl, _, h₂, _, h₃, _, -, _, -, rfl⟩ := h
  rw [hadd, Except.ok.injEq] at h₂
  subst h₂
  rw [hadd, Except.ok.injEq] at h₃
  subst h₃
  exact ⟨rfl, rfl, rfl, rfl, rfl⟩

theorem ManifestScores.ofJson_ok {manifest : Json} {scores : ManifestScores}
    (h : ManifestScores.ofJson manifest = .ok scores) :
    Score.metadata manifest = .ok scores.metadata ∧
      scores.policy = Score.policy manifest ∧
      Score.permissions manifest = .ok scores.permissions := by
  simp only [ofJson, bind_eq_ok, Except.ok.injEq] at h
  obtain ⟨metadata, hm, permissions, hp, facts, -, rfl⟩ := h
  exact ⟨hm, rfl, hp⟩

/-- The report on what the four analyses came to is scored by the manifest and by what
was found. -/
theorem Request.report_ok {manifest : List (Text × Json)} {scores : ManifestScores}
    {usage : Script.Usage} {entries : List Json} {summary : Lint.Summary}
    {report : Report} (hs : ManifestScores.ofJson (.object manifest) = .ok scores)
    (h : Request.report manifest [.scores scores, .usage usage, .findings entries,
      .lint summary] = .ok report) : report.IsScoredBy manifest entries := by
  rw [Request.report, mapError_eq_ok, bind_eq_ok] at h
  obtain ⟨libraries, hl, h⟩ := h
  obtain ⟨hm, hp, hq⟩ := ManifestScores.ofJson_ok hs
  obtain ⟨h₁, h₂, h₃, h₄, h₅⟩ := Report.compose_ok h
  rw [hp] at h₂ h₅
  exact ⟨scores.metadata, scores.permissions, libraries, hm, hq, hl, h₁, h₂, h₃, h₄, h₅⟩

/-- What scores a report determines its total and its four parts. -/
theorem Report.IsScoredBy.unique {report other : Report} {manifest : List (Text × Json)}
    {entries : List Json} (h : report.IsScoredBy manifest entries)
    (h' : other.IsScoredBy manifest entries) :
    report.total = other.total ∧ report.breakdown.metadata = other.breakdown.metadata ∧
    report.breakdown.policy = other.breakdown.policy ∧
    report.breakdown.permissions = other.breakdown.permissions ∧
    report.breakdown.libraries = other.breakdown.libraries := by
  obtain ⟨metadata, permissions, libraries, hm, hq, hl, h₁, h₂, h₃, h₄, h₅⟩ := h
  obtain ⟨metadata', permissions', libraries', hm', hq', hl', h₁', h₂', h₃',
    h₄', h₅'⟩ := h'
  cases hm.symm.trans hm'
  cases hq.symm.trans hq'
  cases hl.symm.trans hl'
  exact ⟨h₅.trans h₅'.symm, h₁.trans h₁'.symm, h₂.trans h₂'.symm, h₃.trans h₃'.symm,
    h₄.trans h₄'.symm⟩

namespace Request

/-! ## From the package to the manifest -/

/-- The package of a request: the one at hand, or the one that was fetched. -/
def Origin.package? (origin : Origin) (exchange : Option Fetch.Exchange) : Option Bytes :=
  match origin with
  | .package bytes => some bytes
  | .target _ => exchange.bind fun exchange => exchange.outcome.toOption

/-- The archive in the package of a request. -/
def Origin.archive? (origin : Origin) (exchange : Option Fetch.Exchange) : Option Bytes :=
  (origin.package? exchange).bind fun package => (Package.payload package).toOption

/-- The manifest that is read back once the package of a request is extracted. -/
def Origin.manifest? (platform : Platform) (origin : Origin)
    (exchange : Option Fetch.Exchange) (directory : Path)
    (opened : Disk) : Option (List (Text × Json)) :=
  (origin.archive? exchange).bind fun archive =>
    (Manifest.read (Archive.extract platform directory archive opened).1
      directory).toOption

/-- What the scanner of a request found. -/
def findings? (auditor : Auditor) (request : Request) : Option (List Json) :=
  if auditor.usesTools then request.analysis.bind (Analysis.findings? true) else some []

/-- What each phase has of the package. Before it is opened the disk is as it was; then
the extraction of its archive goes on from where the disk is, unless it was stopped; in
the end there is its manifest, by which the report is scored. -/
def Traced (auditor : Auditor) (origin : Origin) (opened : Disk) (request : Request)
    (disk : Disk) :
    Prop :=
  match request.phase with
  | .resolve _ | .fetch _ => request.worker.pending = [] ∧ disk = opened ∧
      ∃ value, origin = .target value
  | .parse package => request.worker.pending = [] ∧ disk = opened ∧
      origin.package? request.exchange = some package
  | .extract => ∃ archive, origin.archive? request.exchange = some archive ∧
      (request.worker.fault = none ∧
          Archive.runActions request.directory request.worker.pending disk =
            Archive.runActions request.directory
              (Archive.planned auditor.platform archive)
              opened ∨
        request.worker.pending = [] ∧ request.worker.fault ≠ none)
  | .readManifest => request.worker.pending = [] ∧
      ∃ archive, origin.archive? request.exchange = some archive ∧
        disk = (Archive.extract auditor.platform request.directory archive opened).1
  | .list manifest | .read manifest _ _ =>
      origin.manifest? auditor.platform request.exchange request.directory opened =
        some manifest
  | .analyze work =>
      origin.manifest? auditor.platform request.exchange request.directory opened =
        some work.manifest ∧
        work.tools.isSome = auditor.usesTools ∧
        ∃ analysis, request.analysis = some analysis ∧ analysis.IsSound work
  | .cleanUp (.ok report) _ | .ended (.ok report) | .overrun (.ok report) =>
    ∃ manifest entries,
      origin.manifest? auditor.platform request.exchange request.directory opened =
        some manifest ∧
        request.findings? auditor = some entries ∧ report.IsScoredBy manifest entries
  | .cleanUp (.error _) _ | .ended (.error _) | .overrun (.error _) => True

variable {auditor : Auditor} {origin : Origin} {opened : Disk}
    {request : Request} {disk : Disk}

theorem traced_fail (fault : Fault) :
    Traced auditor origin opened (request.fail fault) disk :=
  trivial

theorem Traced.attempt {α : Type} {result : Except Fault α} {next : α → Request}
    (hn : ∀ a, result = .ok a → Traced auditor origin opened (next a) disk) :
    Traced auditor origin opened (request.attempt result next) disk := by
  cases result with
  | ok a => exact hn a rfl
  | error fault => exact traced_fail fault

/-- The worker goes on with the extraction, and in no other phase does it have anything
to do that matters. -/
theorem Traced.work (h : Traced auditor origin opened request disk) :
    Traced auditor origin opened (request.work disk).1 (request.work disk).2 := by
  obtain ⟨directory, record, phase, ⟨pending, fault⟩, exchange, analysis⟩ := request
  cases pending with
  | nil => exact h
  | cons action rest =>
    -- Outside the extraction, the phases that look at the disk leave the worker nothing
    -- to do.
    simp only [Request.work]
    cases phase with
    | extract =>
      obtain ⟨archive, ha, ⟨hf, hrun⟩ | ⟨hp, -⟩⟩ := h
      · simp only [Archive.runActions] at hrun
        cases hr : action.run directory disk with
        | error fault => exact ⟨archive, ha, .inr ⟨rfl, by simp⟩⟩
        | ok later =>
          rw [hr] at hrun
          exact ⟨archive, ha, .inl ⟨rfl, hrun⟩⟩
      · cases hp
    | resolve target => cases h.1
    | fetch id => cases h.1
    | parse package => cases h.1
    | readManifest => cases h.1
    | cleanUp outcome chores => cases outcome <;> split <;> exact h
    | ended outcome => cases outcome <;> split <;> exact h
    | overrun outcome => cases outcome <;> split <;> exact h
    | _ => split <;> exact h

theorem Traced.notice (h : Traced auditor origin opened request disk)
    (event : Analysis.Event) :
    Traced auditor origin opened (request.notice event) disk := by
  obtain ⟨directory, record, phase, worker, exchange, analysis⟩ := request
  cases phase with
  | analyze work =>
    obtain ⟨hm, ht, found, rfl, hs⟩ := h
    exact ⟨hm, ht, found.step work event, rfl, hs.step event⟩
  | _ => exact h

theorem Traced.cancel (h : Traced auditor origin opened request disk) :
    Traced auditor origin opened request.cancel disk := by
  unfold Request.cancel
  split
  · exact traced_fail _
  · exact traced_fail _
  · exact traced_fail _
  · exact traced_fail _
  · exact h.notice _

theorem Traced.breakOff (h : Traced auditor origin opened request disk) (fault : Fault) :
    Traced auditor origin opened (request.breakOff fault) disk := by
  unfold Request.breakOff
  split
  · split
    · exact traced_fail fault
    · exact h
  · exact h
  · exact h
  · exact h
  · exact traced_fail fault
  · exact traced_fail fault

/-- The outcome of the analyses makes the report that the manifest and the findings
score. -/
theorem Traced.conclude {work : Workload} (hp : request.phase = .analyze work)
    (h : Traced auditor origin opened request disk) :
    Traced auditor origin opened (request.conclude work) disk := by
  have hwork := h
  simp only [Traced, hp] at hwork
  obtain ⟨hm, ht, analysis, ha, hs⟩ := hwork
  unfold Request.conclude
  split
  · exact h
  · exact traced_fail _
  · rename_i parts ho
    rw [settlement?, ha, Option.bind_some] at ho
    obtain ⟨scores, entries, summary, rfl, hscores, hentries, -⟩ := hs.outcome ho
    refine Traced.attempt fun report hr =>
      ⟨work.manifest, entries, hm, ?_, report_ok hscores hr⟩
    rw [ht] at hentries
    simp only [findings?, enter, ha, Option.bind_some]
    cases hc : auditor.usesTools with
    | true => simpa [hc] using hentries
    | false => simpa [hc, Analysis.findings?] using hentries

/-- By cleaning up nothing changes in what a request has come to. -/
theorem Traced.clean {outcome : Except Fault Report} {chores : Option (List Chore)}
    (hp : request.phase = .cleanUp outcome chores) (levels : Nat)
    (h : Traced auditor origin opened request disk) :
    Traced auditor origin opened (request.clean levels disk outcome chores).1
      (request.clean levels disk outcome chores).2 := by
  rw [Traced, hp] at h
  rw [Request.clean.eq_def]
  split
  · cases outcome <;> exact h
  · cases outcome <;> exact h
  · split <;> cases outcome <;> exact h

theorem Traced.step (h : Traced auditor origin opened request disk)
    (reply : Fetch.Reply) :
    Traced auditor origin opened (request.step auditor reply disk).1
      (request.step auditor reply disk).2 := by
  -- Each stage ends with what the trace of the next one says, or with a fault.
  obtain ⟨directory, record, phase, worker, exchange, analysis⟩ := request
  cases phase with
  | resolve target =>
    simp only [Request.step]
    split
    · exact traced_fail _
    · exact h
  | fetch id =>
    obtain ⟨hw, hd, value, rfl⟩ := h
    refine Traced.attempt fun package hp => ⟨hw, hd, ?_⟩
    have hp := mapError_eq_ok.mp hp
    show (Fetch.fetch auditor.fetching reply id).outcome.toOption = some package
    rw [hp]
    rfl
  | parse package =>
    refine Traced.attempt fun archive hp => ?_
    have hp := mapError_eq_ok.mp hp
    obtain ⟨-, rfl, hpackage⟩ := h
    have hpackage : origin.package? exchange = some package := hpackage
    refine ⟨archive, ?_, .inl ⟨rfl, rfl⟩⟩
    show origin.archive? exchange = some archive
    rw [Origin.archive?, hpackage, Option.bind_some, hp]
    rfl
  | extract =>
    obtain ⟨pending, fault⟩ := worker
    cases pending with
    | cons action rest => exact h.work
    | nil =>
      -- With no action left the disk is what the whole extraction makes of it.
      obtain ⟨archive, ha, ⟨hf, hrun⟩ | ⟨-, hf⟩⟩ := h
      · cases fault with
        | some fault => cases hf
        | none =>
          have hrun : (disk, .ok ()) =
              Archive.runActions directory
                (Archive.planned auditor.platform archive) opened :=
            hrun
          refine ⟨rfl, archive, ha, ?_⟩
          show disk = (Archive.extract auditor.platform directory archive opened).1
          rw [Archive.extract, ← hrun]
      · cases fault with
        | none => exact absurd rfl hf
        | some fault => exact traced_fail _
  | readManifest =>
    obtain ⟨-, archive, ha, rfl⟩ := h
    refine Traced.attempt fun manifest hm => ?_
    show origin.manifest? auditor.platform exchange directory opened = some manifest
    have ha : origin.archive? exchange = some archive := ha
    rw [Origin.manifest?, ha, Option.bind_some]
    exact toOption_eq_some.mpr (mapError_eq_ok.mp hm)
  | list manifest => exact Traced.attempt fun _ _ => h
  | read manifest pending files =>
    cases pending with
    | cons names rest => exact Traced.attempt fun text _ => h
    | nil =>
      refine ⟨h, ?_, _, rfl, Analysis.isSound_start _⟩
      simp only [workload]
      cases auditor.usesTools <;> rfl
  | analyze work => exact Traced.conclude rfl h
  | cleanUp outcome chores => exact h.clean rfl _
  | ended outcome => exact h
  | overrun outcome => exact h

theorem Traced.take (h : Traced auditor origin opened request disk) (turn : Turn) :
    Traced auditor origin opened (request.take auditor disk turn).1
      (request.take auditor disk turn).2 := by
  cases turn with
  | step reply => exact h.step reply
  | work => exact h.work
  | event event => exact h.notice event
  | failure fault => exact h.breakOff fault
  | cancellation => exact h.cancel

/-- The whole course, from what one turn keeps. -/
theorem Traced.course (h : Traced auditor origin opened request disk)
    (turns : List Turn) :
    Traced auditor origin opened (request.course auditor disk turns).1
      (request.course auditor disk turns).2 :=
  course_induction (fun _ _ turn h => h.take turn) h turns

theorem traced_request (auditor : Auditor) (directory : Path) (origin : Origin)
    (opened : Disk) :
    Traced auditor origin opened (origin.request directory) opened := by
  cases origin with
  | target value => exact ⟨rfl, rfl, value, rfl⟩
  | package bytes => exact ⟨rfl, rfl, rfl⟩

end Request

namespace Call

/-- The manifest that is read back from the extracted package of a call. -/
def manifest? (call : Call) : Option (List (Text × Json)) :=
  call.origin.manifest? call.auditor.platform call.request.exchange
    call.directory call.opened

/-- What the scanner of a call found. -/
def findings? (call : Call) : Option (List Json) := call.request.findings? call.auditor

/-- A report that a call ends with is scored by the manifest that is read back and by
what was found. -/
theorem isScoredBy {call : Call} {report : Report}
    (h : call.request.phase = .ended (.ok report)) :
    ∃ manifest entries, call.manifest? = some manifest ∧ call.findings? = some entries ∧
      report.IsScoredBy manifest entries := by
  have htraced :
      Request.Traced call.auditor call.origin call.opened call.request call.disk :=
    (Request.traced_request call.auditor call.directory call.origin call.opened).course
      call.turns
  rw [Request.Traced, h, call.workspace] at htraced
  exact htraced

/-- **What the total is made of.** The total of a report is the sum of its four scores,
and these are the scores of the manifest that is read back from the package and of what
the scanner found. So two calls with the same manifest and the same findings have the
same total and the same four scores, whatever else is in their packages, and in whatever
order their analyses go on. -/
theorem total_of_manifest_and_findings :
    (∀ (call : Call) (report : Report), call.request.phase = .ended (.ok report) →
      ∃ manifest entries, call.manifest? = some manifest ∧ call.findings? = some entries ∧
        report.IsScoredBy manifest entries) ∧
    ∀ (first second : Call) (report other : Report),
      first.request.phase = .ended (.ok report) →
      second.request.phase = .ended (.ok other) →
      first.manifest? = second.manifest? → first.findings? = second.findings? →
        report.total = other.total ∧ report.breakdown.metadata =
          other.breakdown.metadata ∧
        report.breakdown.policy = other.breakdown.policy ∧
        report.breakdown.permissions = other.breakdown.permissions ∧
        report.breakdown.libraries = other.breakdown.libraries := by
  refine ⟨fun call report h => isScoredBy h,
    fun first second report other hf hs hm he => ?_⟩
  obtain ⟨manifest, entries, hmanifest, hentries, hscored⟩ := isScoredBy hf
  obtain ⟨manifest', entries', hmanifest', hentries', hscored'⟩ := isScoredBy hs
  have hsame : manifest = manifest' := by
    rw [hmanifest, hmanifest'] at hm
    exact Option.some.inj hm
  have hfound : entries = entries' := by
    rw [hentries, hentries'] at he
    exact Option.some.inj he
  subst hsame hfound
  exact hscored.unique hscored'

/-! ## Two packages with one manifest -/

/-- The manifest that is read back from a package that is at hand. -/
theorem manifest?_of_package {call : Call} {package archive : Bytes} {after : Disk}
    {count : Nat} {manifest : List (Text × Json)} (ho : call.origin = .package package)
    (hpackage : Package.payload package = .ok archive) (hextract : Archive.extract
      call.auditor.platform call.directory archive call.opened = (after, .ok count))
    (hmanifest : Manifest.read after call.directory = .ok manifest) :
    call.manifest? = some manifest := by
  rw [manifest?, ho, Request.Origin.manifest?, Request.Origin.archive?,
    Request.Origin.package?, Option.bind_some, hpackage, toOption_eq_some.mpr rfl,
    Option.bind_some, hextract]
  exact toOption_eq_some.mpr hmanifest

/-- A manifest that says nothing. -/
def emptyManifest : Text × Bytes := ("manifest.json", [0x7B, 0x7D])

/-- The directory of a call with files in it. -/
def workDisk (files : List (Text × Bytes)) : Disk :=
  ⟨(["work"], .directory) :: files.map fun (name, octets) => (["work", name],
    .file octets)⟩

theorem makeDirectory_workDisk : Disk.empty.makeDirectory (.ofNames ["work"]) =
    .ok (workDisk []) := by decide

/-- An auditor whose tools are called without arguments, if they are called. -/
def bareAuditor (usesTools : Bool) : Auditor :=
  ⟨.default, fun _ => ["tool"], .zero false, [], usesTools, .plain⟩

/-- What is analysed of a manifest that says nothing and of scripts. -/
def bareWorkload (usesTools : Bool) (scripts : Entries Text) : Workload :=
  ⟨[], scripts, if usesTools
    then some ((bareAuditor usesTools).terms (.ofNames ["work"])) else none⟩

/-- A call for a package in which nothing goes wrong, so that in the end there are these
files, at most two, and these events have happened. -/
def straightCall (usesTools : Bool) (package archive : Bytes)
    (files : List (Text × Bytes)) (events : List Analysis.Event) : Call where
  auditor := bareAuditor usesTools
  origin := .package package
  directory := .ofNames ["work"]
  before := .empty
  opened := workDisk []
  isOpened := makeDirectory_workDisk
  turns := Request.straight (Archive.planned .plain archive).length
    (Script.listing Script.ending (workDisk files) (.ofNames ["work"])).length events ++
      List.replicate 6 .plain

theorem mem_turns_straightCall {usesTools : Bool} {package archive : Bytes}
    {files : List (Text × Bytes)} {events : List Analysis.Event} {turn : Request.Turn}
    (h : turn ∈ (straightCall usesTools package archive files events).turns) :
    turn = .plain ∨ ∃ event ∈ events, turn = .event event := by
  rcases List.mem_append.mp h with h | h
  · exact Request.mem_straight h
  · exact .inl (List.eq_of_mem_replicate h)

theorem mem_of_event_mem_turns {usesTools : Bool} {package archive : Bytes}
    {files : List (Text × Bytes)} {events : List Analysis.Event} {event : Analysis.Event}
    (h : .event event ∈ (straightCall usesTools package archive files events).turns) :
    event ∈ events := by
  rcases mem_turns_straightCall h with h | ⟨found, hfound, h⟩
  · cases h
  · cases h
    exact hfound

/-- The chores by which the disk of a call is cleared. -/
def clearing (disk : Disk) : List Chore :=
  Chore.start Platform.plain.removing disk (.ofNames ["work"])

theorem course_clearing {files : List (Text × Bytes)}
    (h : Chore.finish (clearing (workDisk files)) (workDisk files) = (true, .empty))
    (hcosts : Chore.costs (workDisk files) (clearing (workDisk files)) < 5)
    (usesTools : Bool) (record : Record Fault) (outcome : Except Fault Report)
    (analysis : Option Analysis) :
    Request.course (bareAuditor usesTools)
        ⟨.ofNames ["work"], record, .cleanUp outcome none, ⟨[], none⟩, none, analysis⟩
        (workDisk files) (List.replicate 6 .plain) =
      (⟨.ofNames ["work"], record.cleanedUp, .ended outcome, ⟨[], none⟩, none,
        analysis⟩, .empty) := by
  rw [List.replicate_succ, Request.course_cons rfl]
  exact Request.course_chores h hcosts

section StraightCalls

variable {usesTools : Bool} {package archive : Bytes} {files : List (Text × Bytes)}
  {scripts : Entries Text} {events : List Analysis.Event} {settled : Analysis}

/-- Such a call ends with what it comes to once its analyses are settled, and its
directory is gone. -/
theorem course_straightCall {record : Record Fault} {outcome : Except Fault Report}
    (hpackage : Package.payload package = .ok archive)
    (hrun : Archive.runActions (.ofNames ["work"])
      (Archive.planned .plain archive) (workDisk []) = (workDisk files, .ok ()))
    (hmanifest : Manifest.read (workDisk files) (.ofNames ["work"]) = .ok [])
    (hfiles : Script.files Platform.plain.listing Script.ending (workDisk files)
      (.ofNames ["work"]) = .ok scripts) (hsettled : Analysis.steps (bareWorkload
        usesTools scripts) (.start (bareWorkload usesTools scripts)) events = settled)
    (hconclude : Request.course (bareAuditor usesTools) ⟨.ofNames ["work"], ⟨[.fetched,
      .parsed, .extracted], none, none, 0⟩, .analyze (bareWorkload usesTools scripts),
      ⟨[], none⟩, none, some settled⟩ (workDisk files) [.plain] = (⟨.ofNames ["work"],
        record, .cleanUp outcome none, ⟨[], none⟩, none, some settled⟩, workDisk files))
    (hfinish : Chore.finish (clearing (workDisk files)) (workDisk files) = (true,
      .empty)) (hcosts : Chore.costs (workDisk files) (clearing (workDisk files)) < 5) :
    let call := straightCall usesTools package archive files events
    call.request.phase = .ended outcome ∧ call.request.analysis = some settled ∧
      call.disk = .empty := by
  have hextract := Archive.extract_eq_ok.mpr ⟨hrun, rfl⟩
  subst hsettled
  have hstraight := (Request.course_analyzed hpackage hextract hmanifest hfiles
    (show Request.workload (bareAuditor usesTools) _ [] scripts =
      bareWorkload usesTools scripts
      from rfl)).trans hconclude
  have hcourse : (straightCall usesTools package archive files events).course = _ :=
    (Request.course_append_of hstraight _).trans
      (course_clearing hfinish hcosts _ _ _ _)
  exact ⟨congrArg (·.1.phase) hcourse, congrArg (·.1.analysis) hcourse,
    congrArg (·.2) hcourse⟩

theorem report_straightCall {report : Report}
    (hpackage : Package.payload package = .ok archive)
    (hrun : Archive.runActions (.ofNames ["work"])
      (Archive.planned .plain archive) (workDisk []) = (workDisk files, .ok ()))
    (hmanifest : Manifest.read (workDisk files) (.ofNames ["work"]) = .ok [])
    (hfiles : Script.files Platform.plain.listing Script.ending (workDisk files)
      (.ofNames ["work"]) = .ok scripts) (hsettled : Analysis.steps (bareWorkload
        usesTools scripts) (.start (bareWorkload usesTools scripts)) events = settled)
    (hreport : Request.reportOn? (bareWorkload usesTools scripts) settled = some report)
    (hfinish : Chore.finish (clearing (workDisk files)) (workDisk files) = (true,
      .empty)) (hcosts : Chore.costs (workDisk files) (clearing (workDisk files)) < 5) :
    let call := straightCall usesTools package archive files events
    call.request.phase = .ended (.ok report) ∧ call.manifest? = some [] ∧
      call.findings? = settled.findings? usesTools := by
  have hextract := Archive.extract_eq_ok.mpr ⟨hrun, rfl⟩
  obtain ⟨hphase, hanalysis, -⟩ :=
    course_straightCall hpackage hrun hmanifest hfiles hsettled
    (Request.course_conclude hreport) hfinish hcosts
  refine ⟨hphase, manifest?_of_package rfl hpackage hextract hmanifest, ?_⟩
  rw [findings?, Request.findings?, hanalysis]
  cases usesTools <;> rfl

end StraightCalls

theorem ofBytes_emptyManifest : Manifest.ofBytes emptyManifest.2 = .ok [] := by cbv

/-! ### Without tools, behind a signed header -/

/-- An archive with nothing but a manifest. -/
def plainArchive : Bytes := Archive.stored [emptyManifest]

def plainEvents : List Analysis.Event := [.scored, .surveyed]

def plainCall : Call :=
  straightCall false (Package.headed [7] plainArchive) plainArchive
    [emptyManifest] plainEvents

theorem planned_plainArchive :
    Archive.planned .plain plainArchive =
      [.enter Platform.plain.making ["manifest.json"],
        .write ["manifest.json"] emptyManifest.2] := by
  decide +kernel

theorem finish_plain :
    Chore.finish (clearing (workDisk [emptyManifest])) (workDisk [emptyManifest]) =
      (true, .empty) := by
  cbv

theorem isSome_reportOn?_plainEvents :
    (Request.reportOn? (bareWorkload false []) (.steps (bareWorkload false [])
      (.start (bareWorkload false [])) plainEvents)).isSome = true := by
  decide +kernel

theorem report_plainCall : ∃ report, plainCall.request.phase = .ended (.ok report) ∧
    plainCall.manifest? = some [] ∧ plainCall.findings? = some [] := by
  obtain ⟨report, hreport⟩ := Option.isSome_iff_exists.mp isSome_reportOn?_plainEvents
  refine ⟨report,
    report_straightCall (Package.payload_headed _ (by decide)) ?_ ?_ ?_ rfl hreport
    finish_plain (by decide)⟩
  · rw [planned_plainArchive]
    rfl
  · exact ofBytes_emptyManifest
  · cbv

/-! ### With tools and a script, behind a key and a signature -/

/-- An archive with a script, too. -/
def scriptArchive : Bytes := Archive.stored [("a.js", [0x31]), emptyManifest]

/-- The linter comes first, and the scores last. -/
def scriptEvents : List Analysis.Event :=
  [.tool .eslint .started, .tool .retire .started,
    .tool .eslint (.exited ⟨0, [], []⟩), .surveyed,
    .tool .retire (.exited ⟨0, [0x5B, 0x5D], []⟩), .scored]

def scriptCall : Call :=
  straightCall true (Package.keyed [1] [2, 3] scriptArchive) scriptArchive
    [("a.js", [0x31]), emptyManifest] scriptEvents

set_option maxRecDepth 10000 in
theorem planned_scriptArchive :
    Archive.planned .plain scriptArchive =
      [.enter Platform.plain.making ["a.js"], .write ["a.js"] [0x31],
        .enter Platform.plain.making ["manifest.json"],
        .write ["manifest.json"] emptyManifest.2] := by
  cbv

theorem finish_script :
    Chore.finish (clearing (workDisk [("a.js", [0x31]), emptyManifest]))
      (workDisk [("a.js", [0x31]), emptyManifest]) = (true, .empty) := by
  cbv

theorem isSome_reportOn?_scriptEvents :
    (Request.reportOn? (bareWorkload true [("a.js", ['1'])]) (.steps
      (bareWorkload true [("a.js", ['1'])]) (.start (bareWorkload true [("a.js", ['1'])]))
      scriptEvents)).isSome = true := by
  decide +kernel

theorem findings?_scriptEvents :
    Analysis.findings? true (.steps (bareWorkload true [("a.js", ['1'])])
      (.start (bareWorkload true [("a.js", ['1'])])) scriptEvents) = some [] := by
  cbv

theorem report_scriptCall : ∃ report, scriptCall.request.phase = .ended (.ok report) ∧
    scriptCall.manifest? = some [] ∧ scriptCall.findings? = some [] := by
  obtain ⟨report, hreport⟩ := Option.isSome_iff_exists.mp isSome_reportOn?_scriptEvents
  rw [← findings?_scriptEvents]
  refine ⟨report,
    report_straightCall (Package.payload_keyed _ (by decide) (by decide)) ?_ ?_ ?_ rfl
    hreport finish_script (by decide)⟩
  · rw [planned_scriptArchive]
    rfl
  · exact ofBytes_emptyManifest
  · cbv

/-- The two packages have the same total, that of a manifest that says nothing. -/
theorem total_of_empty_manifest : ∃ report other,
    plainCall.request.phase = .ended (.ok report) ∧
    scriptCall.request.phase = .ended (.ok other) ∧
    report.total = .int 29 ∧ other.total = .int 29 := by
  obtain ⟨report, hreport, hmanifest, hfound⟩ := report_plainCall
  obtain ⟨other, hother, hmanifest', hfound'⟩ := report_scriptCall
  obtain ⟨hscored, hsame⟩ := total_of_manifest_and_findings
  obtain ⟨manifest, entries, hm, he, hs⟩ := hscored plainCall report hreport
  cases hmanifest.symm.trans hm
  cases hfound.symm.trans he
  obtain ⟨metadata, permissions, libraries, hmetadata, hpermissions, hlibraries, -, -,
    -, -, htotal⟩ := hs
  cases hmetadata
  cases hpermissions
  cases hlibraries
  obtain ⟨hequal, -⟩ := hsame plainCall scriptCall report other hreport hother
    (hmanifest.trans hmanifest'.symm) (hfound.trans hfound'.symm)
  have htotal : report.total = .int 29 := htotal
  exact ⟨report, other, hreport, hother, htotal, hequal.symm.trans htotal⟩

end Call

end ExtensionAudit
