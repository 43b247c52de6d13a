import ExtensionAudit.Proofs.Request.Cleaning

/-!
# Request — how a call ends

When a call is over, its record says how far it came and why it stopped
(`Call.closing`). Whether its directory was cleaned up is another matter: it was, unless
something in it is too deep, and nothing of it is left, unless a worker that was
abandoned came in between (`Call.lifecycle`).
-/

namespace ExtensionAudit

namespace Request

/-- The course of a request is a scene on the way of its turns. -/
theorem exists_course_eq (auditor : Auditor) (request : Request) (disk : Disk)
    (turns : List Turn) :
    ∃ first rest, turns = first ++ rest ∧
      Scene.run auditor ⟨request, disk⟩ first =
        ⟨(request.course auditor disk turns).1,
          (request.course auditor disk turns).2⟩ := by
  induction turns generalizing request disk with
  | nil => exact ⟨[], [], rfl, rfl⟩
  | cons turn rest ih =>
    rw [course]
    cases hended : request.isEnded with
    | true => exact ⟨[], turn :: rest, rfl, rfl⟩
    | false =>
      obtain ⟨first, later, hsplit, hscene⟩ := ih (request.take auditor disk turn).1
        (request.take auditor disk turn).2
      exact ⟨turn :: first, later, congrArg (turn :: ·) hsplit, hscene⟩

end Request

namespace Call

/-- When a call is over, so is what happened to it, as far as its turns were taken. -/
theorem exists_sceneAfter (call : Call) : ∃ first rest, call.turns = first ++ rest ∧
    call.sceneAfter first = ⟨call.request, call.disk⟩ :=
  Request.exists_course_eq call.auditor _ call.opened call.turns

/-- The stage that a call enters in the end because of its outcome. -/
def closing : Except Fault Report → List Stage
  | .ok _ => []
  | .error _ => [.failed]

/-- What the record says of what a call came to before it was cleaned up. -/
structure Records (call : Call) (outcome : Except Fault Report) : Prop where
  stages : ∃ stages, stages <+: call.origin.path ∧
    call.request.record.entered = stages ++ closing outcome
  analyzed : (∃ report, outcome = .ok report) ↔ call.request.record.stage = .analyzed
  failed : (∃ fault, outcome = .error fault) ↔ call.request.record.stage = .failed
  error : ∀ fault, outcome = .error fault ↔ call.request.record.error = some fault

/-- A record closes with the outcome, and says which it is. -/
theorem records (call : Call) {outcome : Except Fault Report}
    (ahead : call.request.phase.ahead = [])
    (fault : call.request.phase.fault? = (Phase.ended outcome).fault?) :
    call.Records outcome := by
  -- With nothing ahead the stages of a sound request are the whole path. A request that
  -- failed has left it, and its last stage says so.
  have hin := call.inOrder
  cases outcome with
  | ok report =>
    obtain ⟨hpath, herror⟩ := hin.sound fault
    rw [ahead, List.append_nil] at hpath
    have hstage : call.request.record.stage = .analyzed := by
      rw [Record.stage, ← hpath]
      cases call.origin <;> rfl
    refine ⟨⟨call.origin.path, List.prefix_refl _, ?_⟩, ?_, ?_, ?_⟩
    · rw [closing, List.append_nil, hpath]
    · exact iff_of_true ⟨report, rfl⟩ hstage
    · rw [hstage]
      simp
    · rw [herror]
      simp
  | error found =>
    obtain ⟨herror, stages, hpre, -, hentered⟩ := hin.failed found fault
    have hstage : call.request.record.stage = .failed := by
      rw [Record.stage, hentered]
      simp
    refine ⟨⟨stages, hpre, hentered⟩, ?_, ?_, ?_⟩
    · rw [hstage]
      simp
    · exact iff_of_true ⟨found, rfl⟩ hstage
    · rw [herror]
      simp

/-- A cleaning up that came to its end was noted once. -/
theorem cleanups_of_ended (call : Call) {outcome : Except Fault Report}
    (ended : call.request.phase = .ended outcome) : call.request.record.cleanups = 1 := by
  rw [call.inOrder.cleanups, ended]
  rfl

/-- A cleaning up that came to its end, with nothing that came in between, leaves
nothing. -/
theorem isGone_of_ended (call : Call) (fresh : call.before.IsGone call.directory)
    {outcome : Except Fault Report} (ended : call.request.phase = .ended outcome)
    (hundisturbed : ¬ call.IsDisturbed call.turns) : call.disk.IsGone call.directory := by
  obtain ⟨first, rest, hturns, hscene⟩ := call.exists_sceneAfter
  have hfirst : ¬ call.IsDisturbed first := fun h => hundisturbed (hturns ▸ h.append rest)
  have hgone := isUndisturbed_sceneAfter fresh first hfirst
  rw [hscene] at hgone
  exact hgone.isGone ended fresh.not_fixed

/-- A cleaning up that was overrun is not noted, and the directory is there, with
something too deep. -/
theorem overrun_facts (call : Call) (fresh : call.before.IsGone call.directory)
    {outcome : Except Fault Report} (overrun : call.request.phase = .overrun outcome) :
    call.request.record.cleanups = 0 ∧ call.disk.isPresent call.directory = true ∧
      call.disk.IsTooDeep call.directory call.auditor.platform.removing := by
  obtain ⟨first, rest, -, hscene⟩ := call.exists_sceneAfter
  have hfollows : Scene.Follows call ⟨call.request, call.disk⟩ :=
    hscene ▸ follows_sceneAfter fresh first
  have hdeep := hfollows.overrun outcome overrun
  obtain ⟨hlocated, -⟩ := Disk.makeDirectory_ok call.isOpened
  refine ⟨?_, Disk.isPresent_of_node? (hfollows.kept.locate hlocated) hdeep.1, hdeep⟩
  rw [call.inOrder.cleanups, overrun]
  rfl

/-- **The lifecycle of a request.** Whatever happens in a call, the store is not asked
before the identifier is resolved, and no tool is called before the package is
extracted. When the call is over, it has gone through the stages in their order as far
as it came, and has failed exactly if the last of them says so, with the fault that the
record keeps. If its cleaning up came to its end, that is its outcome, the cleaning up
was noted once, and nothing of the extraction directory is left unless the call was
cancelled while its archive was extracted and its worker came in between. Otherwise the
cleaning up was overrun: it is not noted, the call fails for that and for nothing else,
and the directory is there with something in it that is too deep. -/
theorem lifecycle (call : Call) (fresh : call.before.IsGone call.directory) :
    (call.request.HasAsked → .resolved ∈ call.request.record.entered) ∧
    (call.request.analysis.isSome = true → .extracted ∈ call.request.record.entered) ∧
    (∀ outcome, call.request.phase = .ended outcome →
      call.Records outcome ∧ call.request.outcome = outcome ∧
      call.request.record.cleanups = 1 ∧
      (call.disk.isPresent call.directory = false ∧ call.disk.IsGone call.directory ∨
        call.IsAbandoned call.turns ∧ call.IsDisturbed call.turns)) ∧
    ∀ outcome, call.request.phase = .overrun outcome →
      call.Records outcome ∧ call.request.outcome = .error .removal ∧
      call.request.record.cleanups = 0 ∧
      call.disk.isPresent call.directory = true ∧
      call.disk.IsTooDeep call.directory call.auditor.platform.removing := by
  refine ⟨call.inOrder.asked, call.inOrder.analyzed,
    fun outcome ended => ⟨?_, ?_, call.cleanups_of_ended ended, ?_⟩,
    fun outcome overrun => ?_⟩
  · exact call.records (by rw [ended]; rfl) (by rw [ended])
  · rw [Request.outcome, ended]
  · by_cases hdisturbed : call.IsDisturbed call.turns
    · exact .inr ⟨hdisturbed.isAbandoned, hdisturbed⟩
    · have hgone := call.isGone_of_ended fresh ended hdisturbed
      exact .inl ⟨hgone.isPresent, hgone⟩
  · obtain ⟨hcleanups, hpresent, hdeep⟩ := call.overrun_facts fresh overrun
    refine ⟨call.records (by rw [overrun]; rfl) ?_, ?_, hcleanups, hpresent, hdeep⟩
    · rw [overrun]
      cases outcome <;> rfl
    · rw [Request.outcome, overrun]

/-- What is left of a request that is answered. -/
theorem answer_over (auditor : Auditor) (world : World) (origin : Request.Origin)
    {directory : Path} {disk : Disk} (fresh : disk.IsFresh directory) :
    let answered := (origin.request directory).answer auditor world disk
    Request.InOrder origin.path answered.1 ∧
    (∀ outcome, answered.1.phase = .ended outcome →
      answered.1.record.cleanups = 1 ∧ answered.2.IsGone directory) ∧
    ∀ outcome, answered.1.phase = .overrun outcome →
      answered.1.record.cleanups = 0 ∧ answered.2.isPresent directory = true ∧
      answered.2.IsTooDeep directory auditor.platform.removing := by
  obtain ⟨opened, hopened⟩ := fresh.made
  obtain ⟨turns, hidle, hcourse⟩ := exists_answer auditor world origin hopened
  let call : Call := ⟨auditor, origin, directory, disk, opened, hopened, turns⟩
  -- The worker never goes on by itself, so it does not come in between.
  have hundisturbed : ¬ call.IsDisturbed call.turns := by
    rintro ⟨first, rest, hturns, -⟩
    refine hidle ?_
    rw [show turns = first ++ .work :: rest from hturns]
    simp
  intro answered
  have hanswered : call.course = answered := hcourse
  rw [← hanswered]
  exact ⟨call.inOrder,
    fun outcome ended => ⟨call.cleanups_of_ended ended,
      call.isGone_of_ended fresh.gone ended hundisturbed⟩,
    fun outcome overrun => call.overrun_facts fresh.gone overrun⟩

/-! ### Two calls -/

/-- A call for an extension that is cancelled while its package is fetched. -/
def cancelledFetch : Call where
  auditor := .ofSettings .default "eslint-rules.json" (some false) .plain
  origin := .target (.text "abc")
  directory := .ofNames ["work"]
  before := .empty
  opened := workDisk []
  isOpened := makeDirectory_workDisk
  turns := [ownStep, .cancellation, ownStep, ownStep, ownStep, ownStep]

/-- The call fails after the identifier was resolved, and its directory is gone. -/
theorem lifecycle_cancelledFetch :
    cancelledFetch.request.phase = .ended (.error .cancelled) ∧
    cancelledFetch.request.record.stage = .failed ∧
    cancelledFetch.request.record.error = some .cancelled ∧
    cancelledFetch.request.record.cleanups = 1 ∧
    cancelledFetch.disk.isPresent cancelledFetch.directory = false := by
  have hphase : cancelledFetch.request.phase = .ended (.error .cancelled) := rfl
  obtain ⟨-, -, hended, -⟩ := lifecycle cancelledFetch isFresh_work.gone
  obtain ⟨hrecords, -, hcleanups, -⟩ := hended _ hphase
  exact ⟨hphase, hrecords.failed.mp ⟨_, rfl⟩, (hrecords.error _).mp rfl, hcleanups, rfl⟩

/-- An archive with a script in a directory, and no manifest. -/
def nestedArchive : Bytes := Archive.stored [("a/x.js", [0x31])]

/-- A platform on which a directory in the extraction directory can be listed, but
nothing can be removed from it. -/
def cramped : Platform := { Platform.plain with removing := 1 }

theorem planned_nestedArchive : Archive.planned cramped nestedArchive =
    [.enter 990 ["a", "x.js"], .ensure ["a"], .write ["a", "x.js"] [0x31]] := by
  decide +kernel

/-- A call for the archive on that platform, to its end. -/
def crampedCall : Call where
  auditor := { bareAuditor false with platform := cramped }
  origin := .package (Package.headed [7] nestedArchive)
  directory := .ofNames ["work"]
  before := .empty
  opened := workDisk []
  isOpened := makeDirectory_workDisk
  turns := List.replicate 9 ownStep

theorem course_crampedCall : crampedCall.course =
    Request.course { bareAuditor false with platform := cramped }
      ⟨.ofNames ["work"], ⟨[.fetched, .parsed], none, none, 0⟩, .extract,
        ⟨[.enter 990 ["a", "x.js"], .ensure ["a"], .write ["a", "x.js"] [0x31]],
          none⟩, none, none⟩
      (workDisk []) (List.replicate 8 ownStep) := by
  have hpackage :=
    Package.payload_headed nestedArchive (show [7].length < 2 ^ 32 by decide)
  rw [← planned_nestedArchive]
  show Request.course _ (.ofPackage _ _) _ (ownStep :: List.replicate 8 ownStep) = _
  rw [Request.course_cons rfl]
  simp only [ownStep, Request.take, Request.step, Request.ofPackage, hpackage,
    Except.mapError, Request.attempt]
  rfl

/-- The call fails for want of a manifest, but that is not what is said. Its directory
stays, and no cleaning up is noted. -/
theorem isPresent_crampedCall :
    crampedCall.request.phase =
      .overrun (.error (.manifest (.absent (.ofNames ["work"])))) ∧
    crampedCall.request.record.stage = .failed ∧
    crampedCall.request.record.cleanups = 0 ∧
    crampedCall.request.outcome = .error .removal ∧
    crampedCall.disk.isPresent crampedCall.directory = true := by
  rw [Call.request, Call.disk, course_crampedCall]
  exact ⟨rfl, rfl, rfl, rfl, rfl⟩

end Call

end ExtensionAudit
