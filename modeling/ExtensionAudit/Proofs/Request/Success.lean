import ExtensionAudit.Proofs.Outcome
import ExtensionAudit.Proofs.Request.Lifecycle

/-!
# Request — when nothing goes wrong

A request for a package comes to its analyses as soon as each of the stages before
succeeds by itself: the package opens, its archive is extracted, and the manifest and
the scripts are read back (`Request.course_analyzed`). Then it comes to what they come
to, and it cleans up.
-/

namespace ExtensionAudit

/-- Scripts are had when they can be searched for and all that are found can be read. -/
theorem Script.files_eq_ok {levels : Nat} {suffix : Text} {disk : Disk} {directory : Path}
    {files : Entries Text} :
    Script.files levels suffix disk directory = .ok files ↔
      Script.search levels suffix disk directory =
        .ok (Script.listing suffix disk directory) ∧
        Script.readAll disk directory (Script.listing suffix disk directory) =
          .ok files := by
  rw [Script.files, Script.search]
  split
  · exact iff_of_false nofun fun h => by cases h.1
  · exact (and_iff_right rfl).symm

namespace Request

/-- A step for which the store is not asked. -/
def Turn.plain : Turn := .step (.failure [])

/-- The turns of a request for a package in which nothing goes wrong, up to the cleaning
up: so many actions extract the archive, so many scripts are read, and these events
happen to the analyses. -/
def straight (actions scripts : Nat) (events : List Analysis.Event) : List Turn :=
  List.flatten [[Turn.plain], List.replicate actions Turn.plain,
    [Turn.plain, Turn.plain, Turn.plain],
    List.replicate scripts Turn.plain, [Turn.plain], events.map Turn.event, [Turn.plain]]

theorem mem_straight {actions scripts : Nat} {events : List Analysis.Event} {turn : Turn}
    (h : turn ∈ straight actions scripts events) :
    turn = .plain ∨ ∃ event ∈ events, turn = .event event := by
  by_cases hplain : turn = .plain
  · exact .inl hplain
  · simp only [straight, List.flatten_cons, List.flatten_nil, List.mem_append,
      List.mem_cons, List.mem_replicate, List.mem_map, List.not_mem_nil, hplain,
      and_false, or_false, false_or] at h
    obtain ⟨event, hmem, rfl⟩ := h
    exact .inr ⟨event, hmem, rfl⟩

variable {auditor : Auditor} {disk later : Disk} {directory : Path}
    {record : Record Fault}
  {worker : Worker} {exchange : Option Fetch.Exchange} {analysis : Option Analysis}

theorem course_cons {request : Request} (h : request.isEnded = false) (turn : Turn)
    (rest : List Turn) :
    request.course auditor disk (turn :: rest) =
      (request.take auditor disk turn).1.course auditor
        (request.take auditor disk turn).2 rest := by
  rw [course, h, if_neg Bool.false_ne_true]

/-- A course goes on from where its first part has led. -/
theorem course_append_of {request next : Request} {first : List Turn}
    (h : request.course auditor disk first = (next, later)) (second : List Turn) :
    request.course auditor disk (first ++ second) = next.course auditor later second := by
  rw [course_append, h]

/-- The worker does one action after another. -/
theorem course_extract {actions : List Archive.Action}
    (h : Archive.runActions directory actions disk = (later, .ok ())) :
    course auditor ⟨directory, record, .extract, ⟨actions, none⟩, exchange, analysis⟩ disk
        (List.replicate actions.length .plain) =
      (⟨directory, record, .extract, ⟨[], none⟩, exchange, analysis⟩, later) := by
  induction actions generalizing disk with
  | nil =>
    cases h
    rfl
  | cons action rest ih =>
    rw [Archive.runActions] at h
    cases ha : action.run directory disk with
    | error fault =>
      rw [ha] at h
      cases h
    | ok next =>
      rw [ha] at h
      rw [List.length_cons, List.replicate_succ, course_cons rfl, ← ih h]
      simp only [Turn.plain, take, step, Request.work, ha]

/-- One script is read after another. -/
theorem course_read {manifest : List (Text × Json)} {names : List (List Text)}
    {before files : Entries Text} (h : Script.readAll disk directory names = .ok files) :
    course auditor ⟨directory, record, .read manifest names before, worker, exchange,
      analysis⟩ disk
        (List.replicate names.length .plain) =
      (⟨directory, record, .read manifest [] (before ++ files), worker, exchange,
        analysis⟩, disk) := by
  induction names generalizing before files with
  | nil =>
    cases h
    rw [List.append_nil]
    rfl
  | cons file rest ih =>
    rw [Script.readAll, bind_eq_ok] at h
    obtain ⟨text, ht, h⟩ := h
    rw [bind_eq_ok] at h
    obtain ⟨more, hm, h⟩ := h
    cases h
    rw [List.length_cons, List.replicate_succ, course_cons rfl]
    have hstep : take auditor
        ⟨directory, record, .read manifest (file :: rest) before, worker, exchange,
          analysis⟩ disk .plain =
        (⟨directory, record,
          .read manifest rest (before ++ [(Script.pathText file, text)]), worker,
          exchange, analysis⟩, disk) := by
      simp only [Turn.plain, take, step, ht]
      rfl
    rw [hstep, ih hm, List.append_assoc]
    rfl

/-- Chores that come to their end are done in at most as many turns as there are of
them. -/
theorem course_chores {outcome : Except Fault Report} {chores : List Chore}
    {turns : Nat} (h : Chore.finish chores disk = (true, later))
    (hturns : Chore.costs disk chores < turns) :
    course auditor
        ⟨directory, record, .cleanUp outcome (some chores), worker, exchange,
          analysis⟩ disk
        (List.replicate turns .plain) =
      (⟨directory, record.cleanedUp, .ended outcome, worker, exchange,
        analysis⟩, later) := by
  induction turns generalizing chores disk with
  | zero => cases hturns
  | succ turns ih =>
    rw [List.replicate_succ, course_cons rfl]
    cases chores with
    | nil =>
      rw [Chore.finish] at h
      cases h
      exact course_of_isEnded rfl _
    | cons chore rest =>
      rw [Chore.finish] at h
      split at h
      · rename_i more next hrun
        have hless : Chore.costs next (more ++ rest) < Chore.costs disk (chore :: rest) :=
          Chore.costs_lt hrun
        simp only [Turn.plain, take, step, clean, hrun]
        exact ih h (by omega)
      · cases h

/-- What events do to a request whose analyses are under way, they do to the analyses. -/
theorem foldl_notice {work : Workload} (started : Analysis)
    (events : List Analysis.Event) :
    events.foldl notice ⟨directory, record, .analyze work, worker, exchange,
      some started⟩ =
      ⟨directory, record, .analyze work, worker, exchange,
        some (started.steps work events)⟩ := by
  induction events generalizing started with
  | nil => rfl
  | cons event rest ih => exact ih (started.step work event)

variable {opened after : Disk} {package archive : Bytes} {count : Nat}
  {manifest : List (Text × Json)} {files : Entries Text} {report : Report}
  {events : List Analysis.Event}

/-- The report on the four analyses of a workload, once they have come to results that
make one. -/
def reportOn? (work : Workload) (settled : Analysis) : Option Report :=
  match settled.outcome? with
  | some (.ok parts) => (Request.report work.manifest parts).toOption
  | _ => none

/-- With the four results there, a request comes to the report on them. -/
theorem course_conclude {work : Workload} {settled : Analysis}
    (h : reportOn? work settled = some report) :
    course auditor ⟨directory, record, .analyze work, worker, exchange,
      some settled⟩ disk [.plain] =
      (⟨directory, record.advance .analyzed, .cleanUp (.ok report) none, worker, exchange,
        some settled⟩, disk) := by
  rw [reportOn?] at h
  split at h
  case h_2 => cases h
  rename_i parts ho
  have hreport := toOption_eq_some.mp h
  rw [course_cons rfl]
  simp only [Turn.plain, take, step, conclude, settlement?, Option.bind_some, ho, hreport]
  rfl

/-- With a failure there once the four are settled, a request comes to it. -/
theorem course_conclude_fault {work : Workload} {settled : Analysis} {fault : Fault}
    (h : settled.outcome? = some (.error fault)) :
    course auditor ⟨directory, record, .analyze work, worker, exchange,
      some settled⟩ disk [.plain] =
      (⟨directory, record.fail fault, .cleanUp (.error fault) none, worker, exchange,
        some settled⟩,
        disk) := by
  rw [course_cons rfl]
  simp only [Turn.plain, take, step, conclude, settlement?, Option.bind_some, h]
  rfl

/-- A request whose package is extracted and read back comes to its analyses, and to
whatever happens to them. -/
theorem course_analyzed (hpackage : Package.payload package = .ok archive)
    (hextract : Archive.extract auditor.platform directory archive opened =
      (after, .ok count)) (hmanifest : Manifest.read after directory = .ok manifest)
    (hfiles : Script.files auditor.platform.listing Script.ending after directory =
      .ok files) {work : Workload}
    (hwork : workload auditor (.ofPackage directory package) manifest files = work) :
    (ofPackage directory package).course auditor opened
      (straight (Archive.planned auditor.platform archive).length
        (Script.listing Script.ending after directory).length events) =
      course auditor ⟨directory, ⟨[.fetched, .parsed, .extracted], none, none, 0⟩,
        .analyze work,
        ⟨[], none⟩, none, some (.steps work (.start work) events)⟩ after [.plain] := by
  obtain ⟨hrun, -⟩ := Archive.extract_eq_ok.mp hextract
  obtain ⟨hsearch, hread⟩ := Script.files_eq_ok.mp hfiles
  have hparse : course auditor (ofPackage directory package) opened [.plain] =
      (⟨directory, ⟨[.fetched, .parsed], none, none, 0⟩, .extract,
        ⟨Archive.planned auditor.platform archive, none⟩,
        none, none⟩, opened) := by
    rw [course_cons rfl]
    simp only [Turn.plain, take, step, ofPackage, hpackage]
    rfl
  have hback : ∀ record : Record Fault,
      course auditor ⟨directory, record, .extract, ⟨[], none⟩, none, none⟩ after
        [.plain, .plain, .plain] =
      (⟨directory, record,
        .read manifest (Script.listing Script.ending after directory) [],
        ⟨[], none⟩, none, none⟩, after) := by
    intro record
    have hopen : take auditor ⟨directory, record, .readManifest, ⟨[], none⟩, none,
        none⟩ after .plain =
        (⟨directory, record, .list manifest, ⟨[], none⟩, none, none⟩, after) := by
      simp only [Turn.plain, take, step, hmanifest]
      rfl
    rw [course_cons rfl]
    show course auditor ⟨directory, record, .readManifest, ⟨[], none⟩, none, none⟩ after
      [.plain, .plain] = _
    rw [course_cons rfl, hopen, course_cons rfl]
    simp only [Turn.plain, take, step, hsearch]
    rfl
  have hstart : ∀ record : Record Fault,
      course auditor ⟨directory, record, .read manifest [] files, ⟨[], none⟩,
        none, none⟩ after
        [.plain] =
      (⟨directory, record.advance .extracted, .analyze work, ⟨[], none⟩, none,
        some (.start work)⟩,
        after) := by
    subst hwork
    exact fun _ => rfl
  simp only [straight, List.flatten_cons, List.flatten_nil, List.append_nil]
  -- One stretch of turns after another: parse, extract, read back, start, analyse.
  rw [course_append_of hparse, course_append_of (course_extract hrun),
    course_append_of (hback _), course_append_of (course_read hread),
    List.nil_append, course_append_of (hstart _),
    course_append_of (course_events auditor after rfl events), foldl_notice]
  rfl

end Request

end ExtensionAudit
