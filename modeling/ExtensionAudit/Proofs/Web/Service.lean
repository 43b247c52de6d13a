import ExtensionAudit.Proofs.Request.Driving
import ExtensionAudit.Proofs.Request.Total
import ExtensionAudit.Proofs.Web.Answer
import ExtensionAudit.Web.Service

/-!
# Service — what is answered about an extension

A visitor who asks for an analysis is told that the extension is not named, or that its
analysis failed, or the report, unless that cannot be written: then the request is over,
but nothing of this is told. The directory of the request was cleaned up and is gone,
unless something in it is too deep; then the analysis is said to have failed
(`Web.Service.answer_analysis`).
-/

namespace ExtensionAudit

namespace Request

/-! ## The stage in the end -/

variable {request : Request}

/-- A request that goes through all its stages is in the last of them. -/
theorem InOrder.stage_of_sound (h : InOrder Stage.path request)
    (hsound : request.phase.fault? = none) (hahead : request.phase.ahead = []) :
    request.record.stage = .analyzed := by
  obtain ⟨hpath, -⟩ := h.sound hsound
  rw [hahead, List.append_nil] at hpath
  rw [Record.stage, ← hpath]
  rfl

/-- A request that failed is in the stage that says so, unless it failed only because it
was overrun by the cleaning up. -/
theorem InOrder.stage_of_error {fault : Fault} (h : InOrder Stage.path request)
    (hended : request.isEnded = true) (hfault : request.outcome = .error fault) :
    request.record.stage = .failed ∨ fault = .removal ∧
      request.record.stage = .analyzed := by
  have hfailed {found : Fault} (hphase : request.phase.fault? = some found) :
      request.record.stage = .failed := by
    obtain ⟨-, stages, -, -, hentered⟩ := h.failed found hphase
    rw [Record.stage, hentered]
    simp
  rw [isEnded] at hended
  rw [outcome] at hfault
  cases hphase : request.phase with
  | ended result =>
    rw [hphase] at hfault
    cases hfault
    exact .inl (hfailed (by rw [hphase]; rfl))
  | overrun result =>
    rw [hphase] at hfault
    cases hfault
    cases result with
    | error found => exact .inl (hfailed (by rw [hphase]; rfl))
    | ok report =>
      exact .inr ⟨rfl, h.stage_of_sound (by rw [hphase]; rfl) (by rw [hphase]; rfl)⟩
  | _ =>
    rw [hphase] at hended
    cases hended

/-- A request that ended with a report is in the last stage of its path. -/
theorem InOrder.stage_of_ok {report : Report} (h : InOrder Stage.path request)
    (hreport : request.outcome = .ok report) : request.record.stage = .analyzed := by
  rw [outcome] at hreport
  cases hphase : request.phase with
  | ended result =>
    rw [hphase] at hreport
    cases hreport
    exact h.stage_of_sound (by rw [hphase]; rfl) (by rw [hphase]; rfl)
  | _ =>
    rw [hphase] at hreport
    cases hreport

end Request

namespace Web.Service

/-! ## The four ways to end -/

/-- What is answered about the extension that a text names, when the request for it is
over. The first three answers are meant; the last is given when there is a report that
cannot be written. -/
inductive Answers (target : Text) (request : Request) : Answer → Prop
  | refused (unnamed : Identifier.resolve? target = none)
      (outcome : request.outcome = .error .target)
      (stage : request.record.stage = .failed) :
    Answers target request (.plain 400 "Invalid or disallowed extension URL")
  | failed {identifier : Text} {fault : Fault}
      (named : Identifier.resolve? target = some identifier)
      (outcome : request.outcome = .error fault) (work : fault.IsOfWork)
      (stage : request.record.stage = .failed ∨
        fault = .removal ∧ request.record.stage = .analyzed) :
    Answers target request (.plain 500 "Failed to analyze extension")
  | responded {identifier : Text} {report : Report} {content : Bytes}
      (named : Identifier.resolve? target = some identifier)
      (outcome : request.outcome = .ok report)
      (hcontent : encoded? report.toJson = some content)
        (stage : request.record.stage = .responded) :
    Answers target request (.octets 200 content)
  | broken {identifier : Text} {report : Report}
      (named : Identifier.resolve? target = some identifier)
      (outcome : request.outcome = .ok report) (unwritable : ¬ IsWritable report.toJson)
      (stage : request.record.stage = .analyzed) :
    Answers target request .broken

variable {target : Text} {request : Request} {answer : Answer}

/-- The extension is said not to be named just if it is not. -/
theorem Answers.eq_refused_iff (h : Answers target request answer) :
    answer = .plain 400 "Invalid or disallowed extension URL" ↔
    Identifier.resolve? target = none := by
  cases h with
  | refused unnamed outcome stage => exact iff_of_true rfl unnamed
  | failed named outcome work stage => exact iff_of_false nofun (named ▸ nofun)
  | responded named outcome hcontent stage => exact iff_of_false nofun (named ▸ nofun)
  | broken named outcome unwritable stage => exact iff_of_false nofun (named ▸ nofun)

/-- The answer that is not meant is given just if there is a report that cannot be
written. -/
theorem Answers.eq_broken_iff (h : Answers target request answer) :
    answer = .broken ↔ ∃ report, request.outcome = .ok report ∧
    ¬ IsWritable report.toJson := by
  cases h with
  | refused unnamed outcome stage =>
    refine iff_of_false nofun ?_
    rintro ⟨report, hreport, -⟩
    cases outcome.symm.trans hreport
  | failed named outcome work stage =>
    refine iff_of_false (by decide) ?_
    rintro ⟨report, hreport, -⟩
    cases outcome.symm.trans hreport
  | responded named outcome hcontent stage =>
    refine iff_of_false nofun ?_
    rintro ⟨report, hreport, hunwritable⟩
    cases outcome.symm.trans hreport
    exact hunwritable ((isSome_encoded? _).mp (by rw [hcontent]; rfl))
  | broken named outcome unwritable stage =>
    exact iff_of_true rfl ⟨_, outcome, unwritable⟩

/-- A request that failed, though not for want of a name, is said to have failed. -/
theorem conclude_of_error {fault : Fault} (h : request.outcome = .error fault)
    (hne : fault ≠ .target) (disk : Disk) :
    conclude request disk = ⟨.plain 500 "Failed to analyze extension",
      some request, disk⟩ := by
  rw [conclude, h]
  cases fault with
  | target => exact absurd rfl hne
  | _ => rfl

theorem disk_conclude (request : Request)
    (disk : Disk) : (conclude request disk).disk = disk := by
  rw [conclude]
  split
  · rfl
  · rfl
  · split <;> rfl

/-- How a request that is over is answered. -/
theorem answers_conclude (hended : request.isEnded = true)
    (hin : Request.InOrder Stage.path request)
    (hrefused : request.outcome = .error .target ↔ Identifier.resolve? target = none)
    (hfault : ∀ fault, request.outcome = .error fault → fault = .target ∨
      fault.IsOfWork) (disk : Disk) :
    ∃ later, (conclude request disk).request = some later ∧
      later.exchange = request.exchange ∧
      later.record.cleanups = request.record.cleanups ∧
      Answers target later (conclude request disk).answer := by
  have hnamed (h : request.outcome ≠ .error .target) :
      ∃ identifier, Identifier.resolve? target = some identifier :=
    Option.ne_none_iff_exists'.mp (mt hrefused.mpr h)
  cases houtcome : request.outcome with
  | error fault =>
    have hstage := hin.stage_of_error hended houtcome
    rcases hfault fault houtcome with rfl | hwork
    · rw [conclude, houtcome]
      exact ⟨request, rfl, rfl, rfl,
        .refused (hrefused.mp houtcome) houtcome (hstage.resolve_right (by simp))⟩
    · have htarget : fault ≠ .target := by
        rintro rfl
        exact hwork
      obtain ⟨identifier, hidentifier⟩ := hnamed (by simpa [houtcome] using htarget)
      rw [conclude_of_error houtcome htarget]
      exact ⟨request, rfl, rfl, rfl, .failed hidentifier houtcome hwork hstage⟩
  | ok report =>
    obtain ⟨identifier, hidentifier⟩ := hnamed (by simp [houtcome])
    rw [conclude, houtcome]
    dsimp only
    cases hcontent : encoded? report.toJson with
    | some content =>
      refine ⟨{ request with
        record := request.record.advance .responded }, rfl, rfl, rfl, ?_⟩
      refine .responded hidentifier houtcome hcontent ?_
      simp [Record.stage, Record.advance]
    | none =>
      refine ⟨request, rfl, rfl, rfl,
        .broken hidentifier houtcome ?_ (hin.stage_of_ok houtcome)⟩
      rw [← isSome_encoded?, hcontent]
      exact Bool.false_ne_true

/-- A visitor who asks for an analysis is answered as the request for it ends. -/
theorem answer_eq_conclude {submission : Submission}
    (hroute : Way.ofPath (Location.path submission.asked) = .offered .analysis)
    (hmethod : submission.method = "POST") (service : Service) (world : World)
    (disk : Disk) :
    let target : Text := (Entries.get? targetField submission.form).getD []
    let answered := (Request.ofTarget service.directory (.text target)).answer
      service.auditor world disk
    service.answer world submission disk = conclude answered.1 answered.2 := by
  rw [Service.answer, hroute, hmethod]
  rfl

/-- **What is answered about an extension.** A visitor who asks for an analysis is told
that the extension is not named, just if it is not, and then nothing is fetched; or that
the analysis failed; or the report; unless there is a report that cannot be written, and
just then what was meant cannot be answered. The extraction directory was cleaned up
once, and nothing of it is left, unless something in it is too deep: then it stays, no
cleaning up is noted, and the analysis is said to have failed. -/
theorem answer_analysis (service : Service) (world : World)
    (submission : Submission) {disk : Disk}
    (hroute : Way.ofPath (Location.path submission.asked) = .offered .analysis)
    (hmethod : submission.method = "POST") (fresh : disk.IsFresh service.directory) :
    let target : Text := (Entries.get? targetField submission.form).getD []
    let outcome := service.answer world submission disk
    ∃ request, outcome.request = some request ∧ Answers target request outcome.answer ∧
      (outcome.answer = .plain 400 "Invalid or disallowed extension URL" ↔
        Identifier.resolve? target = none) ∧
      (request.exchange = none ↔ Identifier.resolve? target = none) ∧
      (outcome.answer = .broken ↔
        ∃ report, request.outcome = .ok report ∧ ¬ IsWritable report.toJson) ∧
      (request.record.cleanups = 1 ∧ outcome.disk.IsGone service.directory ∨
        request.record.cleanups = 0 ∧ request.outcome = .error .removal ∧
          outcome.answer = .plain 500 "Failed to analyze extension" ∧
          outcome.disk.isPresent service.directory = true ∧
          outcome.disk.IsTooDeep service.directory
            service.auditor.platform.removing) := by
  intro target outcome
  have houtcome := answer_eq_conclude hroute hmethod service world disk
  obtain ⟨hended, hrefused, hfetched, hfault⟩ :=
    Request.answer_ends fresh service.auditor world (.text target)
  obtain ⟨hin, hcleaned, hoverrun⟩ :=
    Call.answer_over service.auditor world (.target (.text target)) fresh
  rw [show outcome = _ from houtcome]
  show ∃ request, _
  change Request.InOrder Stage.path _ at hin
  simp only [Request.Origin.request] at hin hcleaned hoverrun
  generalize (Request.ofTarget service.directory (.text target)).answer
    service.auditor world disk =
    answered at hended hrefused hfetched hfault hin hcleaned hoverrun ⊢
  obtain ⟨finished, later⟩ := answered
  dsimp only at hended hrefused hfetched hfault hin hcleaned hoverrun ⊢
  obtain ⟨request, hrequest, hexchange, hcleanups, hanswers⟩ :=
    answers_conclude hended hin hrefused hfault later
  refine ⟨request, hrequest, hanswers, hanswers.eq_refused_iff, ?_,
    hanswers.eq_broken_iff, ?_⟩
  · rw [hexchange]
    exact hfetched
  -- Only a request whose cleaning up was overrun leaves its directory.
  rw [hcleanups, disk_conclude]
  cases hphase : finished.phase with
  | ended result => exact .inl (hcleaned result hphase)
  | overrun result =>
    obtain ⟨hnone, hpresent, hdeep⟩ := hoverrun result hphase
    have hremoval : finished.outcome = .error .removal := by rw [Request.outcome, hphase]
    have hconclude := conclude_of_error hremoval (by simp) later
    rw [hconclude] at hrequest ⊢
    cases hrequest
    exact .inr ⟨hnone, hremoval, rfl, hpresent, hdeep⟩
  | _ =>
    rw [Request.isEnded, hphase] at hended
    cases hended

/-! ### Two packages -/

/-- A visitor who asks for the analysis of an extension. -/
def visit : Submission := ⟨"POST", "/analyze-extension", [(targetField, "abc")]⟩

/-- A service that calls no tools. -/
def bareService : Service := ⟨Call.bareAuditor false, .ofNames ["work"], fun _ => []⟩

/-- The archive with nothing but a manifest. -/
def manifestArchive (octets : Bytes) : Bytes := Archive.stored [("manifest.json", octets)]

/-- A tool that would say nothing. -/
def silent (_ : Tool) : Tool.Behavior := ⟨none, .prompt, ⟨true, false⟩, ⟨0, [], []⟩⟩

/-- A world in which the store delivers the package with a manifest. -/
def delivering (octets : Bytes) : World :=
  ⟨.response ⟨Fetch.serviceAddress, 200, none, [],
    [Package.headed [7] (manifestArchive octets)], none⟩,
    silent⟩

/-- The report on a manifest without scripts, if there is one. -/
def reportOn? (manifest : List (Text × Json)) : Option Report :=
  let work : Workload := ⟨manifest, [], none⟩
  Request.reportOn? work (.steps work (.start work) (Analysis.schedule work silent))

/-- The request of the visitor once it is answered, and the disk. -/
def visited (octets : Bytes) : Request × Disk :=
  (Request.ofTarget bareService.directory (.text "abc")).answer bareService.auditor
    (delivering octets)
    .empty

theorem makeDirectory_empty :
    Disk.makeDirectory .empty bareService.directory = .ok (Call.workDisk []) := by decide

theorem ofPath_visit : Way.ofPath (Location.path visit.asked) =
    .offered .analysis := by cbv

theorem answer_visit (octets : Bytes) :
    bareService.answer (delivering octets) visit .empty =
      conclude (visited octets).1 (visited octets).2 :=
  answer_eq_conclude ofPath_visit rfl bareService (delivering octets) .empty

/-- The directory with the manifest that is delivered can be cleaned up. -/
theorem finish_delivered (octets : Bytes) :
    Chore.finish (Call.clearing (Call.workDisk [("manifest.json", octets)]))
      (Call.workDisk [("manifest.json", octets)]) = (true, .empty) := by
  cbv

/-- A request that calls no tools ends with the report on the manifest that is
delivered. -/
theorem phase_delivered {auditor : Auditor} {octets : Bytes}
    {manifest : List (Text × Json)} {report : Report}
    (htools : auditor.usesTools = false) (hplatform : auditor.platform = .plain)
    (hfetched : (Fetch.fetch auditor.fetching (delivering octets).reply "abc").outcome =
      .ok (Package.headed [7] (manifestArchive octets)))
    (hplanned : Archive.planned .plain (manifestArchive octets) =
      [.enter 990 ["manifest.json"], .write ["manifest.json"] octets])
    (hmanifest : Manifest.ofBytes octets = .ok manifest)
    (hreport : reportOn? manifest = some report) :
    ((Request.ofTarget bareService.directory (.text "abc")).answer auditor
      (delivering octets)
      .empty).1.phase = .ended (.ok report) := by
  have hrun : Archive.runActions (.ofNames ["work"])
      (Archive.planned auditor.platform (manifestArchive octets)) (Call.workDisk []) =
        (Call.workDisk [("manifest.json", octets)], .ok ()) := by
    rw [hplatform, hplanned]
    rfl
  have hfiles : Script.files auditor.platform.listing Script.ending
      (Call.workDisk [("manifest.json", octets)]) (.ofNames ["work"]) = .ok [] := by
    rw [hplatform]
    cbv
  have hwork : Request.workload auditor
      (.ofTarget bareService.directory (.text "abc")) manifest [] =
      ⟨manifest, [], none⟩ := by
    rw [Request.workload, htools]
    rfl
  have hfinish := finish_delivered octets
  rw [Call.clearing, ← hplatform] at hfinish
  exact Request.phase_answer makeDirectory_empty (by decide) hfetched
    (Package.payload_headed _ (by decide)) (Archive.extract_eq_ok.mpr ⟨hrun,
      rfl⟩) hmanifest hfiles
    hfinish hwork hreport

theorem planned_emptyManifest : Archive.planned .plain (manifestArchive [0x7B, 0x7D]) =
    [.enter 990 ["manifest.json"], .write ["manifest.json"] [0x7B, 0x7D]] := by
  decide +kernel

/-- A manifest that says nothing makes a report that can be written. -/
theorem reportOn?_nil :
    ((reportOn? []).any fun report => (encoded? report.toJson).isSome) = true := by
  decide +kernel

theorem phase_visited_emptyManifest {report : Report} (h : reportOn? [] = some report) :
    (visited [0x7B, 0x7D]).1.phase = .ended (.ok report) :=
  phase_delivered rfl rfl (by decide +kernel) planned_emptyManifest
    Call.ofBytes_emptyManifest h

/-- The report on a manifest that says nothing is answered. -/
theorem answer_analysis_emptyManifest :
    let outcome := bareService.answer (delivering [0x7B, 0x7D]) visit .empty
    ∃ request content, outcome.request = some request ∧
      outcome.answer = .octets 200 content ∧
      request.record.stage = .responded ∧ request.record.cleanups = 1 ∧
      outcome.disk.node? bareService.directory.place = none := by
  intro outcome
  obtain ⟨report, hreport, hwritable⟩ := (Option.any_eq_true _ _).mp reportOn?_nil
  obtain ⟨content, hcontent⟩ := Option.isSome_iff_exists.mp hwritable
  have hanswer : outcome.answer = .octets 200 content := by
    show (bareService.answer (delivering [0x7B, 0x7D]) visit .empty).answer = _
    rw [answer_visit, conclude, Request.outcome, phase_visited_emptyManifest hreport]
    dsimp only
    rw [hcontent]
  obtain ⟨request, hrequest, hanswers, -, -, -, hleft⟩ :=
    answer_analysis bareService (delivering [0x7B, 0x7D]) visit ofPath_visit rfl
      Call.isFresh_work
  rw [show (bareService.answer (delivering [0x7B, 0x7D]) visit .empty).answer =
    _ from hanswer]
    at hanswers
  cases hanswers with
  | responded named houtcome hfound stage =>
    rcases hleft with ⟨hcleanups, hgone⟩ | ⟨-, hremoval, -⟩
    · exact ⟨request, content, hrequest, hanswer, stage, hcleanups, hgone.node?⟩
    · cases houtcome.symm.trans hremoval

/-- A name that is no number. -/
def nanName : Bytes :=
  [0x7B, 0x22, 0x6E, 0x61, 0x6D, 0x65, 0x22, 0x3A, 0x4E, 0x61, 0x4E, 0x7D]

/-- It makes a report that cannot be written. -/
theorem reportOn?_nanName :
    ((reportOn? [("name", .float .nan)]).any fun report =>
      (encoded? report.toJson).isNone) = true := by
  decide +kernel

theorem ofBytes_nanName : Manifest.ofBytes nanName = .ok [("name", .float .nan)] := by cbv

theorem phase_visited_nanName {report : Report}
    (h : reportOn? [("name", .float .nan)] = some report) :
    (visited nanName).1.phase = .ended (.ok report) :=
  phase_delivered rfl rfl (by decide +kernel) (by decide +kernel) ofBytes_nanName h

/-- A package is fetched and analysed, and yet nothing that is meant is answered. -/
theorem answer_nanName :
    let outcome := bareService.answer (delivering nanName) visit .empty
    outcome.answer = .broken ∧ outcome.answer ≠ .plain 500 "Failed to analyze extension" ∧
      ∃ request, outcome.request = some request ∧ request.record.stage = .analyzed := by
  intro outcome
  obtain ⟨report, hreport, hunwritable⟩ := (Option.any_eq_true _ _).mp reportOn?_nanName
  have hphase := phase_visited_nanName hreport
  obtain ⟨hin, -⟩ := Call.answer_over bareService.auditor (delivering nanName)
    (.target (.text "abc")) Call.isFresh_work
  have houtcome : outcome = ⟨.broken, some (visited nanName).1, (visited nanName).2⟩ := by
    show bareService.answer (delivering nanName) visit .empty = _
    rw [answer_visit, conclude, Request.outcome, hphase]
    dsimp only
    rw [Option.isNone_iff_eq_none.mp hunwritable]
  rw [houtcome]
  exact ⟨rfl, by decide, _, rfl, hin.stage_of_ok (Request.outcome_of_ended hphase).2⟩

end Web.Service

end ExtensionAudit
