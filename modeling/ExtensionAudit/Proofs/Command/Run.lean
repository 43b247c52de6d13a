import ExtensionAudit.Command.Run
import ExtensionAudit.Proofs.Document
import ExtensionAudit.Proofs.Settings.Layers
import ExtensionAudit.Proofs.Web.Service

/-!
# Command — how a run ends

A run of the command that is asked for an audit ends with an exit code, or is broken
off. Which of the exit codes it is, and by what it is broken off, is said by what comes
of the settings, of the package at hand or the request, of the overview and of the
saving (`Command.run_ends`). Nothing that callers are told of breaks a run off. The
system does when it refuses to look up the configuration or to save the report.
-/

namespace ExtensionAudit

/-! ## The overview of a report -/

theorem Overview.fault_writeAll {lines : List (Except Json.Misuse Text)}
    (h : ∀ line ∈ lines, ∃ t, line = .ok t) : (writeAll lines).fault = none := by
  induction lines with
  | nil => rfl
  | cons line rest ih =>
    obtain ⟨⟨t, rfl⟩, hrest⟩ := List.forall_mem_cons.mp h
    exact ih hrest

/-- A report whose overview can be written: its total is a number, and it has its
permissions one by one. -/
structure Report.IsListable (report : Report) : Prop where
  total : ∃ n, report.total = .int n
  permissions : ∃ members, report.details.permissions = .object members

theorem Report.isListable_of_report {manifest : List (Text × Json)} {parts : List Part}
    {report : Report} (h : Request.report manifest parts = .ok report) :
    report.IsListable := by
  rw [Request.report.eq_def] at h
  split at h
  · obtain ⟨libraries, -, hcompose⟩ := bind_eq_ok.mp (mapError_eq_ok.mp h)
    obtain ⟨-, -, -, -, htotal⟩ := Report.compose_ok hcompose
    refine ⟨⟨_, htotal⟩, ?_⟩
    simp only [Report.ofParts, Report.compose, bind_eq_ok, Except.ok.injEq] at hcompose
    obtain ⟨_, -, _, -, _, -, _, -, _, -, _, -, _, -, rfl⟩ := hcompose
    exact ⟨_, rfl⟩
  · cases h

theorem Overview.exists_colour (n : Int) : ∃ c, colour (.int n) = .ok c := by
  simp only [colour, Json.atLeast, Json.number?, Json.integer?, Option.map,
    bind, Except.bind]
  split
  · exact ⟨_, rfl⟩
  · split <;> exact ⟨_, rfl⟩

theorem Overview.permissionLines_ok {report : Report} (h : report.IsListable) :
    ∀ line ∈ permissionLines report.toJson, ∃ t, line = .ok t := by
  obtain ⟨members, hmembers⟩ := h.permissions
  have hlook : (do (← report.toJson.require "details").require "permissionsDetails") =
      .ok (.object members) := by
    rw [← hmembers]
    rfl
  intro line hline
  rw [permissionLines, hlook] at hline
  dsimp only at hline
  split at hline
  · rcases List.mem_cons.mp hline with rfl | hline
    · exact ⟨_, rfl⟩
    · obtain ⟨member, -, rfl⟩ := List.mem_map.mp hline
      exact ⟨_, rfl⟩
  · cases hline

/-- Nothing is missing from the overview of such a report. -/
theorem Overview.fault_write {report : Report}
    (h : report.IsListable) : (write report.toJson).fault = none := by
  obtain ⟨n, hn⟩ := h.total
  obtain ⟨c, hc⟩ := exists_colour n
  have htotal : report.toJson.require "totalRiskScore" = .ok (.int n) := by
    rw [← hn]
    rfl
  rw [write, htotal]
  simp only [bind, Except.bind, hc]
  refine fault_writeAll fun line hline => ?_
  rcases List.mem_append.mp hline with hline | hline
  · rcases List.mem_append.mp hline with hline | hline
    · simp only [List.mem_cons, List.not_mem_nil, or_false] at hline
      rcases hline with rfl | rfl | rfl | rfl | rfl | rfl | rfl | rfl | rfl | rfl |
        rfl <;> exact ⟨_, rfl⟩
    · exact permissionLines_ok h line hline
  · cases List.mem_singleton.mp hline
    exact ⟨_, rfl⟩

/-! ## Faults -/

theorem Fault.kind_eq_invalidInput {fault : Fault} : fault.kind = .invalidInput ↔
    fault = .target := by
  rw [kind.eq_def]
  split <;> simp

theorem Fault.kind_eq_cancelled {fault : Fault} : fault.kind = .cancelled ↔
    fault = .cancelled := by
  rw [kind.eq_def]
  split <;> simp

namespace Command

/-! ## What is asked for -/

/-- Settings that a run can work with: they are what it loads, and they name a level of
the log. -/
structure Ready (surroundings : Surroundings) (arguments : Arguments)
    (settings : Settings) : Prop where
  loaded : Settings.load (configChoice arguments.config) surroundings.environment
    surroundings.disk =
    .ok settings
  level : ∃ log, Severity.log (.text (logLevel arguments settings)) = .ok log

/-- What a run audits: the package at hand, or the target if none is given. -/
inductive Audits (surroundings : Surroundings)
    (arguments : Arguments) : Request.Origin → Prop
  | target (crx : arguments.crx.toOption = none) :
    Audits surroundings arguments (.target (.text (arguments.target.getD [])))
  | package {path : Path} {package : Bytes} (crx : arguments.crx.toOption = some path)
      (spelt : path.misspelling? = none)
      (read : surroundings.disk.read path = .ok package) :
    Audits surroundings arguments (.package package)

/-- No package is at hand, and the target names no extension. -/
def Refuses (arguments : Arguments) : Prop :=
  arguments.crx.toOption = none ∧
    Identifier.ofJson? (.text (arguments.target.getD [])) = none

/-- The auditor that a run works with. -/
def auditor (surroundings : Surroundings) (arguments : Arguments)
    (settings : Settings) : Auditor :=
  .ofSettings settings surroundings.rules (if arguments.isFast then some false else none)
    surroundings.platform

/-- The request of a run once it is answered, and the disk. -/
def answered (surroundings : Surroundings) (arguments : Arguments) (settings : Settings)
    (origin : Request.Origin) : Request × Disk :=
  (origin.request surroundings.directory).answer (auditor surroundings arguments settings)
    surroundings.world surroundings.disk

/-- The audit of a run comes to a result, and leaves the disk like this. -/
inductive Comes (surroundings : Surroundings) (arguments : Arguments)
    (result : Except Fault Report) (later : Disk) : Prop
  | intro {settings : Settings} {origin : Request.Origin} {request : Request}
      (ready : Ready surroundings arguments settings)
      (audits : Audits surroundings arguments origin)
      (answer : answered surroundings arguments settings origin = (request, later))
      (ended : request.isEnded = true) (outcome : request.outcome = result)

/-- Does a stream show a line? -/
def Stream.Shows (stream : Stream) (line : Text) : Prop :=
  ∃ shown, stream line = .ok shown

/-- One of the lines is not shown, and this is said of the first such line. -/
def Stream.StopsAt (stream : Stream) (lines : List Text) (message : Text) : Prop :=
  ∃ before line after, lines = before ++ line :: after ∧
    (∀ other ∈ before, stream.Shows other) ∧ stream line = .error message

/-- Standard output shows every line of the overview of a report. -/
def ShowsOverview (surroundings : Surroundings) (report : Report) : Prop :=
  ∀ line ∈ (Overview.write report.toJson).lines, surroundings.stdout.Shows line

/-- Surroundings that a run can rely on: there is room for a new directory where the
archive is to be extracted, and standard error shows what is said of a target that names
no extension. -/
structure Surroundings.IsSound (surroundings : Surroundings) : Prop where
  fresh : surroundings.disk.IsFresh surroundings.directory
  refusal : surroundings.stderr.Shows (complaint (Fault.message .target))

/-- The line that says where a report was saved. -/
def announcement (path : Path) : Text := "[+] Report saved to " ++ path.text

variable {surroundings : Surroundings} {arguments : Arguments} {settings : Settings}
  {origin : Request.Origin}

/-- The request of a run ends: for want of an extension that is named, just if the
target names none, or with a fault of the work, or with a report that can be listed. -/
theorem answered_ends (sound : surroundings.IsSound)
    (audits : Audits surroundings arguments origin) (settings : Settings) :
    let request := (answered surroundings arguments settings origin).1
    request.isEnded = true ∧ (request.outcome = .error .target ↔ Refuses arguments) ∧
      (∀ fault, request.outcome = .error fault → fault = .target ∨ fault.IsOfWork) ∧
      ∀ report, request.outcome = .ok report → report.IsListable := by
  -- Once an extension is named, or a package is at hand, a request is at work.
  have hworking {request : Request} (hended : request.isEnded = true)
      (h : request.Working)
      (named : ¬ Refuses arguments) :
      request.isEnded = true ∧ (request.outcome = .error .target ↔ Refuses arguments) ∧
        (∀ fault, request.outcome = .error fault → fault = .target ∨ fault.IsOfWork) ∧
        ∀ report, request.outcome = .ok report → report.IsListable := by
    obtain ⟨hfault, hreport⟩ := h.outcome hended
    refine ⟨hended, iff_of_false (hfault .target) named,
      fun fault h => .inr (hfault fault h),
      fun report h => ?_⟩
    obtain ⟨manifest, parts, hparts⟩ := hreport report h
    exact Report.isListable_of_report hparts
  intro request
  cases audits with
  | target crx =>
    cases hnamed : Identifier.ofJson? (.text (arguments.target.getD [])) with
    | none =>
      obtain ⟨hphase, -, -⟩ := Request.answer_of_unnamed sound.fresh hnamed
        (auditor surroundings arguments settings) surroundings.world
      obtain ⟨hended, houtcome⟩ := Request.outcome_of_ended hphase
      refine ⟨hended, iff_of_true houtcome ⟨crx, hnamed⟩,
        fun fault hfault => .inl ?_, fun report hreport => ?_⟩
      · cases houtcome.symm.trans hfault
        rfl
      · cases houtcome.symm.trans hreport
    | some identifier =>
      obtain ⟨hended, hwork, -⟩ := Request.answer_of_named hnamed
        (auditor surroundings arguments settings) surroundings.world
          surroundings.directory
        surroundings.disk
      refine hworking hended hwork ?_
      rintro ⟨-, hnone⟩
      cases hnamed.symm.trans hnone
  | @package path package crx spelt read =>
    obtain ⟨hended, hwork⟩ :=
      Request.answer_package_ends (auditor surroundings arguments settings)
      surroundings.world surroundings.directory package surroundings.disk
    refine hworking hended hwork ?_
    rintro ⟨hnone, -⟩
    cases crx.symm.trans hnone

/-- What the audit of a run comes to. -/
theorem Comes.facts {result : Except Fault Report} {later : Disk}
    (sound : surroundings.IsSound) (h : Comes surroundings arguments result later) :
    (result = .error .target ↔ Refuses arguments) ∧
      (∀ fault, result = .error fault → fault = .target ∨ fault.IsOfWork) ∧
      (∀ report, result = .ok report → report.IsListable) := by
  obtain @⟨settings, origin, request, ready, audits, answer, ended, rfl⟩ := h
  obtain ⟨-, hfacts⟩ := answered_ends sound audits settings
  rw [answer] at hfacts
  exact hfacts

/-! ## What a run does then -/

theorem prepare_of_fault {fault : Settings.Fault} (h : Settings.load (configChoice
      arguments.config) surroundings.environment surroundings.disk = .error fault) :
    prepare surroundings arguments =
      if isTold fault then
        (Outcome.quiet surroundings.disk (.exit successCode)).refuse
          (surroundings.stderr (complaint fault.message)) failureCode
      else
        (Outcome.quiet surroundings.disk (.exit successCode)).breakOff
          (.settings fault) := by
  rw [prepare, h]

theorem prepare_of_ready (h : Ready surroundings arguments settings) :
    prepare surroundings arguments = audit surroundings arguments settings := by
  obtain ⟨log, hlog⟩ := h.level
  rw [prepare, h.loaded]
  simp only [hlog]

theorem audit_of_audits (h : Audits surroundings arguments origin) (settings : Settings) :
    audit surroundings arguments settings =
      perform surroundings arguments (auditor surroundings arguments settings)
        (origin.request surroundings.directory) := by
  cases h with
  | target crx =>
    rw [audit, crx]
    rfl
  | package crx spelt read =>
    rw [audit, crx]
    simp only [spelt, read]
    rfl

/-- What a run makes of the result of its audit. -/
def settle (surroundings : Surroundings) (arguments : Arguments) (request : Request)
    (later : Disk) :
    Except Fault Report → Outcome
  | .ok found =>
    present surroundings { Outcome.quiet later (.exit successCode) with
      request := some request } found
      arguments.output.toOption
  | .error fault =>
    report surroundings { Outcome.quiet later (.exit successCode) with
      request := some request } fault

theorem prepare_of_comes {result : Except Fault Report} {later : Disk}
    (h : Comes surroundings arguments result later) :
    ∃ settings origin request, Audits surroundings arguments origin ∧
      answered surroundings arguments settings origin = (request, later) ∧
      prepare surroundings arguments =
        settle surroundings arguments request later result := by
  obtain ⟨ready, audits, answer, ended, outcome⟩ := h
  refine ⟨_, _, _, audits, answer, ?_⟩
  rw [prepare_of_ready ready, audit_of_audits audits, perform, ← answered, answer]
  simp only [outcome]
  cases result <;> rfl

/-- There are five ways for a run to go: its settings cannot be loaded; they name no
level of the log; the path of the package cannot be spelt; it cannot be read; or the
audit comes to a result. -/
theorem ways (sound : surroundings.IsSound) (arguments : Arguments) :
    (∃ fault, Settings.load (configChoice arguments.config) surroundings.environment
      surroundings.disk =
      .error fault) ∨
    (∃ settings fault,
      Settings.load (configChoice arguments.config) surroundings.environment
        surroundings.disk = .ok settings ∧
      Severity.log (.text (logLevel arguments settings)) = .error fault) ∨
    (∃ settings path misspelling, Ready surroundings arguments settings ∧
      arguments.crx.toOption = some path ∧ path.misspelling? = some misspelling) ∨
    (∃ settings path fault, Ready surroundings arguments settings ∧
      arguments.crx.toOption = some path ∧
      path.misspelling? = none ∧ surroundings.disk.read path = .error fault) ∨
    ∃ result later, Comes surroundings arguments result later := by
  cases hload : Settings.load (configChoice arguments.config) surroundings.environment
    surroundings.disk with
  | error fault => exact .inl ⟨fault, rfl⟩
  | ok settings =>
    refine .inr ?_
    cases hlog : Severity.log (.text (logLevel arguments settings)) with
    | error fault => exact .inl ⟨settings, fault, rfl, hlog⟩
    | ok log =>
      have hready : Ready surroundings arguments settings := ⟨hload, log, hlog⟩
      have hcomes {origin : Request.Origin}
          (audits : Audits surroundings arguments origin) :
          ∃ result later, Comes surroundings arguments result later := by
        exact ⟨_, _, .intro hready audits rfl (answered_ends sound audits settings).1 rfl⟩
      refine .inr ?_
      cases hcrx : arguments.crx.toOption with
      | none => exact .inr (.inr (hcomes (.target hcrx)))
      | some path =>
        cases hspelt : path.misspelling? with
        | some misspelling =>
          exact .inl ⟨settings, path, misspelling, hready, rfl, hspelt⟩
        | none =>
          refine .inr ?_
          cases hread : surroundings.disk.read path with
          | error fault => exact .inl ⟨settings, path, fault, hready, rfl, hspelt, hread⟩
          | ok package => exact .inr (hcomes (.package hcrx hspelt hread))

theorem present_of_isListable {report : Report} (h : report.IsListable)
    (outcome : Outcome) (output : Option Path) :
    present surroundings outcome report output =
      outcome.print (fun outcome => save surroundings outcome report output)
        ((Overview.write report.toJson).lines.map surroundings.stdout) := by
  rw [present]
  simp only [Overview.fault_write h]

/-- Lines that are all shown are printed, and the run goes on. -/
theorem print_of_shows {stream : Stream} {lines : List Text}
    (h : ∀ line ∈ lines, stream.Shows line) (outcome : Outcome)
    (goOn : Outcome → Outcome) :
    ∃ shown, lines.map stream = shown.map .ok ∧
      outcome.print goOn (lines.map stream) =
        goOn { outcome with printed := outcome.printed ++ shown } := by
  induction lines generalizing outcome with
  | nil => exact ⟨[], rfl, by simp [Outcome.print]⟩
  | cons line rest ih =>
    obtain ⟨⟨first, hfirst⟩, hrest⟩ := List.forall_mem_cons.mp h
    obtain ⟨shown, hshown, hprint⟩ :=
      ih hrest { outcome with printed := outcome.printed ++ [first] }
    refine ⟨first :: shown, by simp [hfirst, hshown], ?_⟩
    rw [List.map_cons, hfirst, Outcome.print, hprint]
    simp

/-- Either all lines are shown, or there is a first that is not. -/
theorem Stream.shows_or_stopsAt (stream : Stream) (lines : List Text) :
    (∀ line ∈ lines, stream.Shows line) ∨ ∃ message, stream.StopsAt lines message := by
  induction lines with
  | nil => exact .inl nofun
  | cons line rest ih =>
    cases hline : stream line with
    | error message => exact .inr ⟨message, [], line, rest, rfl, nofun, hline⟩
    | ok shown =>
      have hshows : stream.Shows line := ⟨shown, hline⟩
      rcases ih with hrest | ⟨message, before, other, after, rfl, hbefore, hother⟩
      · exact .inl (List.forall_mem_cons.mpr ⟨hshows, hrest⟩)
      · exact .inr ⟨message, line :: before, other, after, rfl,
          List.forall_mem_cons.mpr ⟨hshows, hbefore⟩, hother⟩

/-- The first line that is not shown breaks the run off. -/
theorem print_of_stopsAt {stream : Stream} {lines : List Text} {message : Text}
    (h : stream.StopsAt lines message) (outcome : Outcome) (goOn : Outcome → Outcome) :
    (outcome.print goOn (lines.map stream)).ending = .failure (.unshown message) := by
  obtain ⟨before, line, after, rfl, hbefore, hline⟩ := h
  induction before generalizing outcome with
  | nil =>
    rw [List.nil_append, List.map_cons, hline]
    rfl
  | cons first rest ih =>
    obtain ⟨⟨shown, hshown⟩, hrest⟩ := List.forall_mem_cons.mp hbefore
    rw [List.cons_append, List.map_cons, hshown]
    exact ih _ hrest

theorem ending_refuse_of_shows {stream : Stream}
    {line : Text} (h : stream.Shows line) (outcome : Outcome)
    (code : Nat) : (outcome.refuse (stream line) code).ending = .exit code := by
  obtain ⟨shown, hshown⟩ := h
  rw [hshown]
  rfl

theorem printed_refuse (complaint : Except Text Text) (outcome : Outcome) (code : Nat) :
    (outcome.refuse complaint code).printed = outcome.printed := by
  cases complaint <;> rfl

theorem request_refuse (complaint : Except Text Text) (outcome : Outcome) (code : Nat) :
    (outcome.refuse complaint code).request = outcome.request := by
  cases complaint <;> rfl

theorem printed_report (fault : Fault) (outcome : Outcome) :
    (report surroundings outcome fault).printed = outcome.printed := by
  rw [report]
  split
  · exact printed_refuse _ _ _
  · rfl
  · rfl
  · exact printed_refuse _ _ _

/-! ## How it ends -/

/-- What a run complains of that could not do what was asked for. -/
inductive Complains (surroundings : Surroundings) (arguments : Arguments) : Text → Prop
  | config {fault : Settings.Fault}
      (load : Settings.load (configChoice arguments.config) surroundings.environment
        surroundings.disk =
        .error fault)
      (told : isTold fault = true) :
        Complains surroundings arguments (complaint fault.message)
  | package {settings : Settings} {path : Path} {fault : SystemFault}
      (ready : Ready surroundings arguments settings)
      (crx : arguments.crx.toOption = some path)
      (spelt : path.misspelling? = none)
        (read : surroundings.disk.read path = .error fault) :
    Complains surroundings arguments (analysisComplaint fault.message)
  | request {fault : Fault} {later : Disk}
      (comes : Comes surroundings arguments (.error fault) later)
      (target : fault ≠ .target) (told : fault.kind ≠ .untold) :
    Complains surroundings arguments (analysisComplaint fault.message)

/-- A run has something to say that is not shown: what it complains of, a line of the
overview, or where the report was saved. Of the first such line this is said. -/
inductive Unshown (surroundings : Surroundings) (arguments : Arguments)
    (message : Text) : Prop
  | complaint {line : Text} (complains : Complains surroundings arguments line)
      (h : surroundings.stderr line = .error message)
  | overview {report : Report} {later : Disk}
      (comes : Comes surroundings arguments (.ok report) later)
      (h : surroundings.stdout.StopsAt (Overview.write report.toJson).lines message)
  | announcement {report : Report} {later : Disk} {path : Path}
      (comes : Comes surroundings arguments (.ok report) later)
      (overview : ShowsOverview surroundings report)
        (output : arguments.output.toOption = some path)
      (save : (Document.save report.toJson path later).2 = .ok ())
      (h : surroundings.stdout (announcement path) = .error message)

/-- What breaks a run off. -/
inductive Escapes (surroundings : Surroundings) (arguments : Arguments) : Failure → Prop
  | config {fault : Settings.Fault}
      (load : Settings.load (configChoice arguments.config) surroundings.environment
        surroundings.disk =
        .error fault)
      (untold : isTold fault = false) : Escapes surroundings arguments (.settings fault)
  | level {settings : Settings} {fault : Severity.Fault}
      (load : Settings.load (configChoice arguments.config) surroundings.environment
        surroundings.disk =
        .ok settings)
      (level : Severity.log (.text (logLevel arguments settings)) = .error fault) :
    Escapes surroundings arguments (.severity fault)
  | spelling {settings : Settings} {path : Path} {misspelling : Path.Misspelling}
      (ready : Ready surroundings arguments settings)
      (crx : arguments.crx.toOption = some path)
      (misspelt : path.misspelling? = some misspelling) :
        Escapes surroundings arguments (.spelling misspelling)
  | request {fault : Fault} {later : Disk}
      (comes : Comes surroundings arguments (.error fault) later)
      (untold : fault.kind = .untold) : Escapes surroundings arguments (.request fault)
  | saving {report : Report} {later : Disk} {path : Path} {fault : Document.SaveFault}
      (comes : Comes surroundings arguments (.ok report) later)
      (overview : ShowsOverview surroundings report)
      (output : arguments.output.toOption = some path)
      (save : (Document.save report.toJson path later).2 = .error fault) :
    Escapes surroundings arguments (.saving fault)
  | unshown {message : Text} (h : Unshown surroundings arguments message) :
    Escapes surroundings arguments (.unshown message)

/-- The report is there, its overview can be shown, and it can be saved where that is
asked for. -/
inductive Succeeds (surroundings : Surroundings) (arguments : Arguments)
    (report : Report) (later : Disk) : Prop
  | intro (comes : Comes surroundings arguments (.ok report) later)
      (overview : ShowsOverview surroundings report)
      (saved : ∀ path, arguments.output.toOption = some path →
        (Document.save report.toJson path later).2 = .ok () ∧
          surroundings.stdout.Shows (announcement path))

/-- How a run ends. -/
inductive Ends (surroundings : Surroundings) (arguments : Arguments) : Ending → Prop
  | refused {settings : Settings} (ready : Ready surroundings arguments settings)
      (refuses : Refuses arguments) : Ends surroundings arguments (.exit refusalCode)
  | failed {message : Text} (complains : Complains surroundings arguments message)
      (shows : surroundings.stderr.Shows message) :
        Ends surroundings arguments (.exit failureCode)
  | done {report : Report} {later : Disk}
      (succeeds : Succeeds surroundings arguments report later) :
    Ends surroundings arguments (.exit successCode)
  | escaped {failure : Failure} (h : Escapes surroundings arguments failure) :
    Ends surroundings arguments (.failure failure)

/-- A fault of the work that is told is complained of. -/
theorem report_of_told {fault : Fault} (hwork : fault.IsOfWork)
    (htold : fault.kind ≠ .untold) (outcome : Outcome) :
    report surroundings outcome fault =
      outcome.refuse (surroundings.stderr (analysisComplaint fault.message))
        failureCode := by
  rw [report]
  split
  · rename_i hkind
    cases Fault.kind_eq_invalidInput.mp hkind
    cases hwork
  · rename_i hkind
    exact absurd hkind htold
  · rename_i hkind
    cases Fault.kind_eq_cancelled.mp hkind
    cases hwork
  · rfl

theorem prepare_of_complains {message : Text} (sound : surroundings.IsSound)
    (h : Complains surroundings arguments message) :
    ∃ outcome : Outcome, outcome.printed = [] ∧
      prepare surroundings arguments =
        outcome.refuse (surroundings.stderr message) failureCode := by
  cases h with
  | config load told =>
    refine ⟨.quiet surroundings.disk (.exit successCode), rfl, ?_⟩
    rw [prepare_of_fault load, if_pos told]
  | package ready crx spelt read =>
    refine ⟨.quiet surroundings.disk (.exit successCode), rfl, ?_⟩
    rw [prepare_of_ready ready, audit, crx]
    simp only [spelt, read]
  | @request fault later comes target told =>
    obtain ⟨settings, origin, request, audits, answer, hprepare⟩ := prepare_of_comes comes
    refine ⟨{ Outcome.quiet later (.exit successCode) with
      request := some request }, rfl, ?_⟩
    rw [hprepare, settle,
      report_of_told (((comes.facts sound).2.1 fault rfl).resolve_left target) told]

/-- What a run that has no package and no extension does. -/
theorem prepare_of_refuses (sound : surroundings.IsSound)
    (ready : Ready surroundings arguments settings) (refuses : Refuses arguments) :
    ∃ outcome request, outcome.printed = [] ∧ outcome.request = some request ∧
      request.exchange = none ∧
      request.analysis = none ∧
      prepare surroundings arguments =
        Outcome.refuse outcome (surroundings.stderr (complaint (Fault.message .target)))
          refusalCode := by
  obtain ⟨hphase, hfetched, hanalysis⟩ := Request.answer_of_unnamed sound.fresh refuses.2
    (auditor surroundings arguments settings) surroundings.world
  let answer := answered surroundings arguments settings
    (.target (.text (arguments.target.getD [])))
  refine ⟨{ Outcome.quiet answer.2 (.exit successCode) with
    request := some answer.1 }, answer.1, rfl, rfl,
    hfetched, hanalysis, ?_⟩
  rw [prepare_of_ready ready, audit_of_audits (.target refuses.1), perform]
  simp only [Request.outcome, Request.Origin.request, hphase]
  rfl

/-- A run that has a report prints the overview, and goes on to the saving. -/
theorem prepare_of_report {report : Report} {later : Disk} (sound : surroundings.IsSound)
    (comes : Comes surroundings arguments (.ok report) later) :
    ∃ request, prepare surroundings arguments =
      Outcome.print ⟨[], [], later, some request, .exit successCode⟩
        (fun outcome => save surroundings outcome report arguments.output.toOption)
        ((Overview.write report.toJson).lines.map surroundings.stdout) := by
  obtain ⟨settings, origin, request, audits, answer, hprepare⟩ := prepare_of_comes comes
  refine ⟨request, ?_⟩
  rw [hprepare, settle, present_of_isListable ((comes.facts sound).2.2 report rfl)]
  rfl

/-- What a run that has a report does when its overview can be shown. -/
theorem prepare_of_overview {report : Report}
    {later : Disk} (sound : surroundings.IsSound)
    (comes : Comes surroundings arguments (.ok report) later)
    (overview : ShowsOverview surroundings report) :
    ∃ shown request, (Overview.write report.toJson).lines.map surroundings.stdout =
      shown.map .ok ∧
      prepare surroundings arguments =
        save surroundings ⟨shown, [], later, some request, .exit successCode⟩ report
          arguments.output.toOption := by
  obtain ⟨request, hprepare⟩ := prepare_of_report sound comes
  obtain ⟨shown, hshown, hprint⟩ :=
    print_of_shows overview ⟨[], [], later, some request, .exit successCode⟩
    fun outcome => save surroundings outcome report arguments.output.toOption
  exact ⟨shown, request, hshown, by rw [hprepare, hprint]; rfl⟩

section Saving

variable {outcome : Outcome} {report : Report} {path : Path}

theorem ending_save_of_fault {fault : Document.SaveFault}
    (h : (Document.save report.toJson path outcome.disk).2 = .error fault) :
    (save surroundings outcome report (some path)).ending = .failure (.saving fault) := by
  rw [save]
  split
  · rename_i hsave
    rw [hsave] at h
    cases h
    rfl
  · rename_i hsave
    rw [hsave] at h
    cases h

theorem save_of_saved (h : (Document.save report.toJson path outcome.disk).2 = .ok ()) :
    save surroundings outcome report (some path) =
      Outcome.print { outcome with
        disk := (Document.save report.toJson path outcome.disk).1 } id
        [surroundings.stdout (announcement path)] := by
  rw [save]
  split
  · rename_i hsave
    rw [hsave] at h
    cases h
  · rename_i hsave
    rw [hsave]
    rfl

theorem save_of_shows (h : (Document.save report.toJson path outcome.disk).2 = .ok ())
    {line : Text} (hline : surroundings.stdout (announcement path) = .ok line) :
    save surroundings outcome report (some path) =
      { outcome with
        disk := (Document.save report.toJson path outcome.disk).1, printed :=
          outcome.printed ++ [line] } := by
  rw [save_of_saved h, hline]
  rfl

end Saving

/-- What a run that succeeds does. It prints the overview, and where it saved the
report; and what is in the file is the report. -/
theorem prepare_of_succeeds {report : Report} {later : Disk}
    (sound : surroundings.IsSound) (h : Succeeds surroundings arguments report later) :
    (prepare surroundings arguments).ending = .exit successCode ∧
      (prepare surroundings arguments).printed.map .ok =
        ((Overview.write report.toJson).lines ++
          (arguments.output.toOption.map announcement).toList).map surroundings.stdout ∧
      ∀ path, arguments.output.toOption = some path →
        (prepare surroundings arguments).disk.read path =
          .ok (Utf8.encode report.toJson.indented) := by
  obtain ⟨comes, overview, saved⟩ := h
  obtain ⟨shown, request, hshown, hprepare⟩ := prepare_of_overview sound comes overview
  rw [hprepare]
  cases houtput : arguments.output.toOption with
  | none =>
    exact ⟨rfl,
      by rw [Option.map_none, Option.toList_none, List.append_nil, hshown]; rfl, nofun⟩
  | some path =>
    obtain ⟨hsave, line, hline⟩ := saved path houtput
    rw [save_of_shows hsave hline]
    refine ⟨rfl, ?_, fun other hother => ?_⟩
    · simp only [List.map_append, hshown, Option.map_some, Option.toList_some,
        List.map_singleton, hline]
    · cases hother
      exact Document.read_of_save (Prod.ext rfl hsave)

theorem ending_of_unshown {message : Text} (sound : surroundings.IsSound)
    (h : Unshown surroundings arguments message) :
    (prepare surroundings arguments).ending = .failure (.unshown message) := by
  cases h with
  | complaint complains h =>
    obtain ⟨outcome, -, hprepare⟩ := prepare_of_complains sound complains
    rw [hprepare, h]
    rfl
  | overview comes h =>
    obtain ⟨request, hprepare⟩ := prepare_of_report sound comes
    rw [hprepare]
    exact print_of_stopsAt h _ _
  | announcement comes overview output hsave h =>
    obtain ⟨shown, request, -, hprepare⟩ := prepare_of_overview sound comes overview
    rw [hprepare, output, save_of_saved hsave, h]
    rfl

theorem ending_of_escapes {failure : Failure} (sound : surroundings.IsSound)
    (h : Escapes surroundings arguments failure) :
    (prepare surroundings arguments).ending = .failure failure := by
  cases h with
  | config load untold =>
    rw [prepare_of_fault load, untold]
    rfl
  | level load level =>
    rw [prepare, load]
    simp only [level]
    rfl
  | spelling ready crx misspelt =>
    rw [prepare_of_ready ready, audit, crx]
    simp only [misspelt]
    rfl
  | request comes untold =>
    obtain ⟨settings, origin, request, -, -, hprepare⟩ := prepare_of_comes comes
    rw [hprepare, settle, report]
    simp only [untold]
    rfl
  | saving comes overview output hsave =>
    obtain ⟨shown, request, -, hprepare⟩ := prepare_of_overview sound comes overview
    rw [hprepare, output]
    exact ending_save_of_fault hsave
  | unshown h => exact ending_of_unshown sound h

theorem Ends.ending {ending : Ending} (sound : surroundings.IsSound)
    (h : Ends surroundings arguments ending) :
    (prepare surroundings arguments).ending = ending := by
  cases h with
  | refused ready refuses =>
    obtain ⟨outcome, request, -, -, -, -, hprepare⟩ :=
      prepare_of_refuses sound ready refuses
    rw [hprepare]
    exact ending_refuse_of_shows sound.refusal outcome refusalCode
  | failed complains shows =>
    obtain ⟨outcome, -, hprepare⟩ := prepare_of_complains sound complains
    rw [hprepare]
    exact ending_refuse_of_shows shows outcome failureCode
  | done succeeds => exact (prepare_of_succeeds sound succeeds).1
  | escaped h => exact ending_of_escapes sound h

/-- A run that complains ends so, whether or not the complaint is shown. -/
theorem Complains.ends {line : Text} (h : Complains surroundings arguments line) :
    ∃ ending, Ends surroundings arguments ending := by
  cases hshown : surroundings.stderr line with
  | ok shown => exact ⟨_, .failed h ⟨shown, hshown⟩⟩
  | error message => exact ⟨_, .escaped (.unshown (.complaint h hshown))⟩

theorem ends_of_report {report : Report} {later : Disk}
    (comes : Comes surroundings arguments (.ok report) later) :
    ∃ ending, Ends surroundings arguments ending := by
  rcases surroundings.stdout.shows_or_stopsAt (Overview.write report.toJson).lines with
    overview | ⟨message, hstops⟩
  · cases output : arguments.output.toOption with
    | none =>
      exact ⟨_, .done (.intro comes overview fun path h => nomatch output.symm.trans h)⟩
    | some path =>
      cases hsave : (Document.save report.toJson path later).2 with
      | error fault => exact ⟨_, .escaped (.saving comes overview output hsave)⟩
      | ok done =>
        cases hshown : surroundings.stdout (announcement path) with
        | ok shown =>
          refine ⟨_, .done (.intro comes overview fun other h => ?_)⟩
          cases output.symm.trans h
          exact ⟨hsave, shown, hshown⟩
        | error message =>
          exact ⟨_,
            .escaped (.unshown (.announcement comes overview output hsave hshown))⟩
  · exact ⟨_, .escaped (.unshown (.overview comes hstops))⟩

theorem ends_of_fault {fault : Fault} {later : Disk} (sound : surroundings.IsSound)
    (comes : Comes surroundings arguments (.error fault) later) :
    ∃ ending, Ends surroundings arguments ending := by
  by_cases htarget : fault = .target
  · obtain ⟨ready, -, -, -, -⟩ := id comes
    exact ⟨_, .refused ready ((comes.facts sound).1.mp (by rw [htarget]))⟩
  · by_cases huntold : fault.kind = .untold
    · exact ⟨_, .escaped (.request comes huntold)⟩
    · exact (Complains.request comes htarget huntold).ends

/-- Every run ends in one of the ways. -/
theorem exists_ends (sound : surroundings.IsSound) (arguments : Arguments) :
    ∃ ending, Ends surroundings arguments ending := by
  rcases ways sound arguments with ⟨fault, hload⟩ | ⟨settings, fault, hload, hlog⟩ |
    ⟨settings, path, misspelling, hready, hcrx, hmisspelt⟩ |
    ⟨settings, path, fault, hready, hcrx, hspelt, hread⟩ | ⟨result, later, hcomes⟩
  · cases htold : isTold fault with
    | true => exact (Complains.config hload htold).ends
    | false => exact ⟨_, .escaped (.config hload htold)⟩
  · exact ⟨_, .escaped (.level hload hlog)⟩
  · exact ⟨_, .escaped (.spelling hready hcrx hmisspelt)⟩
  · exact (Complains.package hready hcrx hspelt hread).ends
  · cases result with
    | ok report => exact ends_of_report hcomes
    | error fault => exact ends_of_fault sound hcomes

theorem ends_iff (sound : surroundings.IsSound) {ending : Ending} :
    (prepare surroundings arguments).ending = ending ↔
    Ends surroundings arguments ending := by
  refine ⟨fun h => ?_, Ends.ending sound⟩
  -- Every run ends in one of the ways, and that is the way in which it ended.
  obtain ⟨found, hfound⟩ := exists_ends sound arguments
  rw [← h, hfound.ending sound]
  exact hfound

/-! ## What is printed -/

/-- Nothing is printed of a package that there is no report on. -/
theorem comes_of_printed (sound : surroundings.IsSound)
    (h : (prepare surroundings arguments).printed ≠ []) :
    ∃ report later, Comes surroundings arguments (.ok report) later := by
  rcases ways sound arguments with ⟨fault, hload⟩ | ⟨settings, fault, hload, hlog⟩ |
    ⟨settings, path, misspelling, hready, hcrx, hmisspelt⟩ |
    ⟨settings, path, fault, hready, hcrx, hspelt, hread⟩ | ⟨result, later, hcomes⟩
  · rw [prepare_of_fault hload] at h
    split at h
    · rw [printed_refuse] at h
      exact absurd rfl h
    · exact absurd rfl h
  · rw [prepare, hload] at h
    simp only [hlog] at h
    exact absurd rfl h
  · rw [prepare_of_ready hready, audit, hcrx] at h
    simp only [hmisspelt] at h
    exact absurd rfl h
  · obtain ⟨outcome, hquiet, hprepare⟩ :=
      prepare_of_complains sound (.package hready hcrx hspelt hread)
    rw [hprepare, printed_refuse] at h
    exact absurd hquiet h
  · cases result with
    | ok report => exact ⟨report, later, hcomes⟩
    | error fault =>
      obtain ⟨settings, origin, request, -, -, hprepare⟩ := prepare_of_comes hcomes
      rw [hprepare, settle, printed_report] at h
      exact absurd rfl h

/-! ## What breaks a run off -/

/-- Is it a failure of which callers are told, so that no run should be broken off by
it? -/
def Failure.IsTold : Failure → Prop
  | .settings fault => isTold fault = true
  | .request fault => fault.kind ≠ .untold ∧ fault.kind ≠ .cancelled
  | _ => False

/-- Is it the system that refuses something? -/
def Failure.IsOfSystem : Failure → Prop
  | .settings (.unreachable _) | .saving (.system _) => True
  | _ => False

/-- The system does not let the configuration be looked up, or the report be saved. -/
inductive IsBarred (surroundings : Surroundings) (arguments : Arguments) : Prop
  | config {fault : SystemFault}
      (load : Settings.load (configChoice arguments.config) surroundings.environment
        surroundings.disk =
        .error (.unreachable fault))
  | saving {report : Report} {later : Disk} {path : Path} {fault : SystemFault}
      (comes : Comes surroundings arguments (.ok report) later)
      (overview : ShowsOverview surroundings report)
      (output : arguments.output.toOption = some path)
      (save : (Document.save report.toJson path later).2 = .error (.system fault))

/-- No run is broken off by what callers are told of. -/
theorem Escapes.not_isTold {failure : Failure}
    (h : Escapes surroundings arguments failure) :
    ¬ failure.IsTold := by
  cases h with
  | config load untold => simpa [Failure.IsTold] using untold
  | request comes untold => exact fun h => h.1 untold
  | _ => exact id

theorem Escapes.isBarred {failure : Failure} (h : Escapes surroundings arguments failure)
    (hsystem : failure.IsOfSystem) : IsBarred surroundings arguments := by
  cases h with
  | @config fault load untold =>
    cases fault with
    | unreachable fault => exact .config load
    | _ => cases hsystem
  | @saving report later path fault comes overview output save =>
    cases fault with
    | system fault => exact .saving comes overview output save
    | _ => cases hsystem
  | _ => cases hsystem

theorem IsBarred.exists_escapes (h : IsBarred surroundings arguments) :
    ∃ failure, Escapes surroundings arguments failure ∧ failure.IsOfSystem := by
  cases h with
  | config load => exact ⟨_, .config load rfl, trivial⟩
  | saving comes overview output save =>
    exact ⟨_, .saving comes overview output save, trivial⟩

/-! ## The ways to end -/

theorem Ends.code {code : Nat} (h : Ends surroundings arguments (.exit code)) :
    code = successCode ∨ code = failureCode ∨ code = refusalCode := by
  cases h with
  | refused ready refuses => exact .inr (.inr rfl)
  | failed complains shows => exact .inr (.inl rfl)
  | done succeeds => exact .inl rfl

theorem ends_refusal_iff : Ends surroundings arguments (.exit refusalCode) ↔
    (∃ settings, Ready surroundings arguments settings) ∧ Refuses arguments := by
  refine ⟨fun h => ?_, fun ⟨⟨settings, ready⟩, refuses⟩ => .refused ready refuses⟩
  -- The three codes differ, so there is one way to end with each of them.
  generalize hending : Ending.exit refusalCode = ending at h
  cases h with
  | refused ready refuses => exact ⟨⟨_, ready⟩, refuses⟩
  | _ => cases hending

theorem ends_failure_iff : Ends surroundings arguments (.exit failureCode) ↔
    ∃ message, Complains surroundings arguments message ∧
    surroundings.stderr.Shows message := by
  refine ⟨fun h => ?_, fun ⟨message, complains, shows⟩ => .failed complains shows⟩
  generalize hending : Ending.exit failureCode = ending at h
  cases h with
  | failed complains shows => exact ⟨_, complains, shows⟩
  | _ => cases hending

theorem ends_success_iff : Ends surroundings arguments (.exit successCode) ↔
    ∃ report later, Succeeds surroundings arguments report later := by
  refine ⟨fun h => ?_, fun ⟨report, later, succeeds⟩ => .done succeeds⟩
  generalize hending : Ending.exit successCode = ending at h
  cases h with
  | done succeeds => exact ⟨_, _, succeeds⟩
  | _ => cases hending

theorem ends_broken_iff {failure : Failure} :
    Ends surroundings arguments (.failure failure) ↔
    Escapes surroundings arguments failure := by
  refine ⟨fun h => ?_, .escaped⟩
  cases h with
  | escaped h => exact h

theorem run_of_ofTexts {texts : List Text}
    (h : Order.ofTexts texts = .ok (.audit arguments)) (surroundings : Surroundings) :
    run surroundings texts = prepare surroundings arguments := by
  rw [run, h]

/-- A run in a directory without files. The store delivers a package with a manifest
that says nothing. -/
def desk : Surroundings :=
  ⟨.ok, .ok, fun _ => [], .plain, .empty, [], Web.Service.bareService.directory, [],
    Web.Service.delivering [0x7B, 0x7D]⟩

/-- An audit without tools, whose report may be saved. -/
def hasty (target : Text) (output : Given Path) : Arguments :=
  ⟨some target, .absent, .absent, output, true, .absent⟩

/-- There every line is shown as it is. -/
theorem shows_desk (line : Text) : desk.stdout.Shows line := ⟨line, rfl⟩

theorem isSound_desk : desk.IsSound := ⟨Call.isFresh_work, _, rfl⟩

/-- Where nothing is configured, the settings are the usual ones. -/
theorem load_nothing : Settings.load .optional [] .empty = .ok .default := by
  have hconfig : Settings.readConfig Settings.Choice.optional.isRequired
      (Settings.configPath .optional []) .empty = .ok [] := by
    rfl
  rw [Settings.load_of_readConfig hconfig, unlessObjected_eq_ok]
  refine ⟨by decide, ?_⟩
  funext s
  cases s <;> rfl

theorem ready_desk (target : Text) (output : Given Path) :
    Ready desk (hasty target output) .default :=
  ⟨load_nothing, _, rfl⟩

theorem outcome_fetch_desk (output : Given Path) :
    (Fetch.fetch (auditor desk (hasty "abc" output) .default).fetching desk.world.reply
      "abc").outcome =
      .ok (Package.headed [7] (Web.Service.manifestArchive [0x7B, 0x7D])) := by
  have hfetching : (auditor desk (hasty "abc" output) .default).fetching =
      ⟨Settings.default .maxDownloadBytes, .float (Settings.default .downloadTimeout),
        Settings.default .prodversion⟩ := rfl
  rw [hfetching]
  decide +kernel

/-- There is a report on the package. -/
theorem comes_desk (output : Given Path) :
    ∃ report later, Comes desk (hasty "abc" output) (.ok report) later := by
  obtain ⟨report, hreport, -⟩ := (Option.any_eq_true _ _).mp Web.Service.reportOn?_nil
  have hphase : (answered desk (hasty "abc" output) .default
      (.target (.text "abc"))).1.phase = .ended (.ok report) :=
    Web.Service.phase_delivered rfl rfl (outcome_fetch_desk output)
      Web.Service.planned_emptyManifest Call.ofBytes_emptyManifest hreport
  obtain ⟨hended, houtcome⟩ := Request.outcome_of_ended hphase
  exact ⟨report, _, .intro (ready_desk "abc" output) (.target rfl) rfl hended houtcome⟩

theorem ofTexts_reported : Order.ofTexts ["abc", "--fast"] =
    .ok (.audit (hasty "abc" .absent)) := by cbv

theorem ofTexts_unnamed : Order.ofTexts ["!", "--fast"] =
    .ok (.audit (hasty "!" .absent)) := by cbv

theorem ofTexts_misdirected : Order.ofTexts ["abc", "--fast", "--output", "."] =
    .ok (.audit (hasty "abc" (.value (.ofText ".")))) := by
  cbv

end Command

end ExtensionAudit
