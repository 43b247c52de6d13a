import ExtensionAudit.Proofs.Request.Cleaning
import ExtensionAudit.Proofs.Tool.Alike

/-!
# Request — requests that go alike

A request does not notice which directory it has: with another one that is alike it
takes the same turns to the same effect. Where the name of the directory gets into what
it holds, and that is only in faults and in what the tools are given, the one request
has the one name and the other has the other.
-/

namespace ExtensionAudit

variable {auditor : Auditor} {path path' : Path} {disk disk' : Disk}

/-! ## Records, phases and workers -/

/-- Two records that differ only in the name of a directory in the failure. -/
structure Record.Alike (path path' : Path) (record record' : Record Fault) : Prop where
  entered : record.entered = record'.entered
  identifier : record.identifier = record'.identifier
  error : Option.Rel (Fault.Alike path path') record.error record'.error
  cleanups : record.cleanups = record'.cleanups

/-- With one directory there is no difference left. -/
theorem Record.Alike.eq {record record' : Record Fault}
    (h : record.Alike path path record') : record = record' := by
  obtain ⟨entered, identifier, error, cleanups⟩ := record
  obtain ⟨entered', identifier', error', cleanups'⟩ := record'
  obtain ⟨rfl, rfl, herror, rfl⟩ := h
  cases herror with
  | none => rfl
  | some herror => rw [herror.eq]

/-- What a request comes to, for two directories. -/
abbrev Request.OutcomeAlike (path path' : Path) : Except Fault Report →
    Except Fault Report → Prop :=
  Corresponds (Fault.Alike path path') Eq

/-- Two requests with the same to do next. -/
inductive Phase.Alike (auditor : Auditor) (path path' : Path) : Phase → Phase → Prop
  | resolve (target : Json) : Alike auditor path path' (.resolve target) (.resolve target)
  | fetch (identifier : Text) :
      Alike auditor path path' (.fetch identifier) (.fetch identifier)
  | parse (package : Bytes) : Alike auditor path path' (.parse package) (.parse package)
  | extract : Alike auditor path path' .extract .extract
  | readManifest : Alike auditor path path' .readManifest .readManifest
  | list (manifest : List (Text × Json)) :
      Alike auditor path path' (.list manifest) (.list manifest)
  | read (manifest : List (Text × Json)) (pending : List (List Text))
      (files : Entries Text)
    (straight : ∀ names ∈ pending, Disk.above ∉ names) :
    Alike auditor path path' (.read manifest pending files) (.read manifest pending files)
  | analyze (manifest : List (Text × Json)) (files : Entries Text) :
    Alike auditor path path' (.analyze (auditor.workload path manifest files))
      (.analyze (auditor.workload path' manifest files))
  | cleanUp {outcome outcome' : Except Fault Report}
    (h : Request.OutcomeAlike path path' outcome outcome')
    (chores : Option (List Chore)) :
    Alike auditor path path'
      (.cleanUp outcome (chores.map (List.map (Chore.under path.place))))
      (.cleanUp outcome' (chores.map (List.map (Chore.under path'.place))))
  | ended {outcome outcome' : Except Fault Report}
    (h : Request.OutcomeAlike path path' outcome outcome') :
    Alike auditor path path' (.ended outcome) (.ended outcome')
  | overrun {outcome outcome' : Except Fault Report}
    (h : Request.OutcomeAlike path path' outcome outcome') :
    Alike auditor path path' (.overrun outcome) (.overrun outcome')

/-- Two workers with the same still to do, all of it by names that lead down. -/
structure Worker.Alike (path path' : Path) (worker worker' : Worker) : Prop where
  pending : worker.pending = worker'.pending
  straight : ∀ action ∈ worker.pending, action.IsStraight
  fault : Option.Rel (Archive.Fault.Alike path path') worker.fault worker'.fault

theorem Worker.Alike.of_straight {pending : List Archive.Action}
    (h : ∀ action ∈ pending, action.IsStraight) (path path' : Path) :
    Worker.Alike path path' ⟨pending, none⟩ ⟨pending, none⟩ := ⟨rfl, h, .none⟩

theorem Worker.Alike.idle (path path' : Path) :
    Worker.Alike path path' ⟨[], none⟩ ⟨[], none⟩ := ⟨rfl, nofun, .none⟩

/-! ## Requests -/

namespace Request

/-- Two requests of one auditor in two directories, just as far. -/
structure Alike (auditor : Auditor) (path path' : Path)
    (request request' : Request) : Prop where
  spelling : auditor.SpellsAlike path path'
  directory : request.directory = path
  directory' : request'.directory = path'
  record : request.record.Alike path path' request'.record
  phase : request.phase.Alike auditor path path' request'.phase
  worker : request.worker.Alike path path' request'.worker
  exchange : request.exchange = request'.exchange
  analysis : Option.Rel (Analysis.Alike path path') request.analysis request'.analysis

/-- Two requests that are just as far, and have done the same in their directories. -/
structure Tandem (auditor : Auditor) (path path' : Path) (disk disk' : Disk)
    (next next' : Request × Disk) : Prop where
  request : next.1.Alike auditor path path' next'.1
  disk : Disk.Tandem path path' disk disk' next.2 next'.2

/-- The report does not tell apart what it says the same of. -/
theorem report_alike {parts parts' : List Part} (h : List.Forall₂ Part.Alike parts parts')
    (manifest : List (Text × Json)) : report manifest parts = report manifest parts' := by
  unfold report
  split
  · obtain - | ⟨hscores, - | ⟨husage, - | ⟨hfindings, - | ⟨hlint, - | -⟩⟩⟩⟩ := h
    cases hscores
    cases husage
    cases hlint
    cases hfindings with
    | same => rfl
    | findings hlibraries => simp only [hlibraries]
  · rename_i hother
    split
    · -- The one list has the form that the other has.
      obtain - | ⟨hscores, - | ⟨husage, - | ⟨hfindings, - | ⟨hlint, - | -⟩⟩⟩⟩ := h
      cases hscores
      cases husage
      cases hlint
      cases hfindings <;> exact absurd rfl (hother _ _ _ _)
    · rfl

namespace Alike

variable {request request' : Request}

theorem identify (h : request.Alike auditor path path' request') (id : Text) :
    Alike auditor path path' { request with
      record := { request.record with identifier := some id } }
      { request' with record := { request'.record with identifier := some id } } :=
  { h with record := { h.record with identifier := rfl } }

theorem setWorker (h : request.Alike auditor path path' request')
    {worker worker' : Worker} (hworker : worker.Alike path path' worker') :
    Alike auditor path path' { request with worker := worker }
      { request' with worker := worker' } :=
  { h with worker := hworker }

theorem setExchange (h : request.Alike auditor path path' request')
    (exchange : Option Fetch.Exchange) :
    Alike auditor path path' { request with exchange := exchange }
      { request' with exchange := exchange } :=
  { h with exchange := rfl }

theorem setAnalysis (h : request.Alike auditor path path' request')
    {analysis analysis' : Analysis} (hanalysis : analysis.Alike path path' analysis') :
    Alike auditor path path' { request with analysis := some analysis }
      { request' with analysis := some analysis' } :=
  { h with analysis := .some hanalysis }

theorem goOn (h : request.Alike auditor path path' request') {phase phase' : Phase}
    (hphase : phase.Alike auditor path path' phase') :
    (request.goOn phase).Alike auditor path path' (request'.goOn phase') :=
  { h with phase := hphase }

theorem enter (h : request.Alike auditor path path' request') (stage : Stage)
    {phase phase' : Phase} (hphase : phase.Alike auditor path path' phase') :
    (request.enter stage phase).Alike auditor path path'
      (request'.enter stage phase') := by
  refine { h with record := { h.record with entered := ?_ }, phase := hphase }
  exact congrArg (· ++ [stage]) h.record.entered

theorem fail (h : request.Alike auditor path path' request') {fault fault' : Fault}
    (hfault : fault.Alike path path' fault') :
    (request.fail fault).Alike auditor path path' (request'.fail fault') := by
  refine { h with
    record := { h.record with entered := ?_, error := .some hfault }
    phase := .cleanUp (.error hfault) none }
  exact congrArg (· ++ [Stage.failed]) h.record.entered

theorem attempt (h : request.Alike auditor path path' request')
    {α β : Type} {values : α → β → Prop} {x : Except Fault α}
    {y : Except Fault β} {next : α → Request} {next' : β → Request}
    (hx : Corresponds (Fault.Alike path path') values x y)
    (hnext : ∀ a b, values a b → (next a).Alike auditor path path' (next' b)) :
    (request.attempt x next).Alike auditor path path' (request'.attempt y next') := by
  cases hx with
  | ok hvalue => exact hnext _ _ hvalue
  | error hfault => exact h.fail hfault

/-- What does not depend on the directory comes to the same. -/
theorem attempt_same (h : request.Alike auditor path path' request')
    {α : Type} (x : Except Fault α) {next next' : α → Request}
    (hnext : ∀ a, (next a).Alike auditor path path' (next' a)) :
    (request.attempt x next).Alike auditor path path' (request'.attempt x next') := by
  refine h.attempt (.refl .same x) fun a _ heq => ?_
  subst heq
  exact hnext a

/-- The workers do the same. -/
theorem work (h : request.Alike auditor path path' request')
    (hd : disk.Alike path disk' path') :
    Tandem auditor path path' disk disk' (request.work disk) (request'.work disk') := by
  unfold Request.work
  rw [← h.worker.pending]
  cases hpending : request.worker.pending with
  | nil => exact ⟨h, hd.rest⟩
  | cons action rest =>
    have hstraight := h.worker.straight
    rw [hpending] at hstraight
    obtain ⟨haction, hrest⟩ := List.forall_mem_cons.mp hstraight
    have hrun :
        Corresponds (Archive.Fault.Alike path path') (Disk.Tandem path path' disk disk')
        (action.run request.directory disk) (action.run request'.directory disk') := by
      rw [h.directory, h.directory']
      exact hd.runAction haction
    dsimp only
    generalize action.run request.directory disk = x at hrun
    generalize action.run request'.directory disk' = y at hrun
    cases hrun with
    | ok hdisk => exact ⟨h.setWorker (.of_straight hrest path path'), hdisk⟩
    | error hfault => exact ⟨h.setWorker ⟨rfl, nofun, .some hfault⟩, hd.rest⟩

/-- What the analyses came to. -/
theorem settlement? (h : request.Alike auditor path path' request') :
    Option.Rel (Corresponds (Fault.Alike path path') (List.Forall₂ Part.Alike))
      request.settlement?
      request'.settlement? := by
  have hanalysis := h.analysis
  rw [Request.settlement?, Request.settlement?]
  generalize request.analysis = analysis at hanalysis
  generalize request'.analysis = analysis' at hanalysis
  cases hanalysis with
  | none => exact .none
  | some hanalysis => exact hanalysis.join.outcome?

theorem conclude (h : request.Alike auditor path path' request')
    (manifest : List (Text × Json)) (files : Entries Text) :
    (request.conclude (auditor.workload path manifest files)).Alike auditor path path'
      (request'.conclude (auditor.workload path' manifest files)) := by
  have hsettlement := h.settlement?
  unfold Request.conclude
  generalize request.settlement? = settlement at hsettlement
  generalize request'.settlement? = settlement' at hsettlement
  cases hsettlement with
  | none => exact h
  | some hsettlement =>
    cases hsettlement with
    | error hfault => exact h.fail hfault
    | ok hparts =>
      dsimp only
      rw [report_alike hparts]
      exact h.attempt_same _ fun report => h.enter .analyzed (.cleanUp (.ok rfl) none)

theorem notice (h : request.Alike auditor path path' request')
    {event event' : Analysis.Event} (hevent : event.Alike path path' event') :
    (request.notice event).Alike auditor path path' (request'.notice event') := by
  obtain ⟨directory, record, phase, worker, exchange, analysis⟩ := request
  obtain ⟨directory', record', phase', worker', exchange', analysis'⟩ := request'
  have hphase := h.phase
  have hanalysis := h.analysis
  dsimp only at hphase hanalysis
  cases hphase with
  | analyze manifest files =>
    refine { h with analysis := ?_ }
    cases hanalysis with
    | none => exact .none
    | some hanalysis => exact .some (hanalysis.step h.spelling manifest files hevent)
  | _ => exact h

theorem cancel (h : request.Alike auditor path path' request') :
    request.cancel.Alike auditor path path' request'.cancel := by
  obtain ⟨directory, record, phase, worker, exchange, analysis⟩ := request
  obtain ⟨directory', record', phase', worker', exchange', analysis'⟩ := request'
  have hphase := h.phase
  dsimp only at hphase
  cases hphase with
  | fetch identifier => exact h.fail (.same _)
  | extract => exact h.fail (.same _)
  | list manifest => exact h.fail (.same _)
  | read manifest pending files straight => exact h.fail (.same _)
  | _ => exact h.notice (.same .aborted)

theorem breakOff (h : request.Alike auditor path path' request') (fault : Fault) :
    (request.breakOff fault).Alike auditor path path' (request'.breakOff fault) := by
  have hsettlement := h.settlement?
  have hphase := h.phase
  unfold Request.breakOff
  generalize request.settlement? = settlement at hsettlement
  generalize request'.settlement? = settlement' at hsettlement
  generalize hp : request.phase = phase at hphase
  generalize hp' : request'.phase = phase' at hphase
  cases hphase with
  | analyze manifest files =>
    cases hsettlement with
    | none => exact h
    | some hsettlement =>
      cases hsettlement with
      | ok _ => exact h.fail (.same fault)
      | error _ => exact h
  | extract => exact (h.setWorker (.idle path path')).fail (.same fault)
  | cleanUp _ _ => exact h
  | ended _ => exact h
  | overrun _ => exact h
  | _ => exact h.fail (.same fault)

/-- A step of the cleaning up does the same for both. -/
theorem clean (h : request.Alike auditor path path' request')
    (hd : disk.Alike path disk' path') {outcome outcome' : Except Fault Report}
    (houtcome : OutcomeAlike path path' outcome outcome') (levels : Nat)
    (chores : Option (List Chore)) :
    Tandem auditor path path' disk disk'
      (request.clean levels disk outcome (chores.map (List.map (Chore.under path.place))))
      (request'.clean levels disk' outcome'
        (chores.map (List.map (Chore.under path'.place)))) := by
  cases chores with
  | none =>
    obtain ⟨chores, hstart, hstart'⟩ := hd.start levels
    simp only [Option.map_none, Request.clean, h.directory, h.directory', hstart, hstart']
    exact ⟨h.goOn (.cleanUp houtcome (some chores)), hd.rest⟩
  | some chores =>
    cases chores with
    | nil =>
      refine ⟨{ h with
        record := { h.record with cleanups := ?_ }, phase := .ended houtcome }, hd.rest⟩
      exact congrArg (· + 1) h.record.cleanups
    | cons chore rest =>
      have hrun := hd.run chore
      simp only [Option.map_some, List.map_cons, Request.clean]
      generalize (chore.under path.place).run disk = x at hrun
      generalize (chore.under path'.place).run disk' = y at hrun
      cases hrun with
      | none => exact ⟨h.goOn (.overrun houtcome), hd.rest⟩
      | @some next next' hnext =>
        obtain ⟨more, hmore, hmore', hdisk⟩ := hnext
        dsimp only
        rw [hmore, hmore', ← List.map_append, ← List.map_append]
        exact ⟨h.goOn (.cleanUp houtcome (some (more ++ rest))), hdisk⟩

/-- The next step does the same for both. -/
theorem step (h : request.Alike auditor path path' request')
    (hd : disk.Alike path disk' path') (reply : Fetch.Reply) :
    Tandem auditor path path' disk disk' (request.step auditor reply disk)
      (request'.step auditor reply disk') := by
  -- What is read differs in the two only by the paths in its faults, so both go on to
  -- the same stage, or both fail.
  obtain ⟨directory, record, phase, worker, exchange, analysis⟩ := request
  obtain ⟨directory', record', phase', worker', exchange', analysis'⟩ := request'
  obtain rfl : directory = path := h.directory
  obtain rfl : directory' = path' := h.directory'
  have halike := h.phase
  dsimp only at halike
  cases halike with
  | resolve target =>
    simp only [Request.step]
    cases Identifier.ofJson? target with
    | none => exact ⟨h.fail (.same .target), hd.rest⟩
    | some id =>
      exact ⟨(h.identify id).enter .resolved (.fetch id), hd.rest⟩
  | fetch id =>
    have hasked := h.setExchange (some (Fetch.fetch auditor.fetching reply id))
    exact ⟨hasked.attempt_same _ fun package => hasked.enter .fetched (.parse package),
      hd.rest⟩
  | parse package =>
    refine ⟨h.attempt_same _ fun archive => ?_, hd.rest⟩
    have hstraight : ∀ action ∈ Archive.planned auditor.platform archive,
        action.IsStraight :=
      fun _ => Archive.planned_isStraight
    exact (h.setWorker (.of_straight hstraight directory directory')).enter
      .parsed .extract
  | extract =>
    obtain ⟨pending, fault⟩ := worker
    obtain ⟨pending', fault'⟩ := worker'
    obtain ⟨rfl, hstraight, hfault⟩ := h.worker
    cases pending with
    | nil =>
      cases hfault with
      | none => exact ⟨h.goOn .readManifest, hd.rest⟩
      | some hfault => exact ⟨h.fail (.archive hfault), hd.rest⟩
    | cons action rest => exact h.work hd
  | readManifest =>
    have hread := hd.readManifest.mapError fun _ _ => Fault.Alike.manifest
    refine ⟨h.attempt hread fun manifest manifest' heq => ?_, hd.rest⟩
    rw [heq]
    exact h.goOn (.list manifest')
  | list manifest =>
    have hsearch := (hd.search auditor.platform.listing Script.ending).mapError
      fun _ _ => Fault.Alike.script
    refine ⟨h.attempt hsearch fun found found' heq => ?_, hd.rest⟩
    obtain ⟨rfl, hstraight⟩ := heq
    exact h.goOn (.read manifest found [] hstraight)
  | read manifest pending files straight =>
    cases pending with
    | nil =>
      have hstarted := h.setAnalysis (.start auditor directory directory' manifest files)
      exact ⟨hstarted.enter .extracted (.analyze manifest files), hd.rest⟩
    | cons names rest =>
      obtain ⟨hnames, hrest⟩ := List.forall_mem_cons.mp straight
      have hread := (hd.readScript hnames).mapError fun _ _ => Fault.Alike.script
      refine ⟨h.attempt hread fun text text' heq => ?_, hd.rest⟩
      rw [heq]
      exact h.goOn (.read manifest rest _ hrest)
  | analyze manifest files => exact ⟨h.conclude manifest files, hd.rest⟩
  | cleanUp houtcome chores => exact h.clean hd houtcome auditor.platform.removing chores
  | ended houtcome => exact ⟨h, hd.rest⟩
  | overrun houtcome => exact ⟨h, hd.rest⟩

/-- A turn does the same for both. -/
theorem take (h : request.Alike auditor path path' request')
    (hd : disk.Alike path disk' path') (turn : Turn) :
    Tandem auditor path path' disk disk' (request.take auditor disk turn)
      (request'.take auditor disk' turn) := by
  cases turn with
  | step reply => exact h.step hd reply
  | work => exact h.work hd
  | event event => exact ⟨h.notice (.same event), hd.rest⟩
  | failure fault => exact ⟨h.breakOff fault, hd.rest⟩
  | cancellation => exact ⟨h.cancel, hd.rest⟩

end Alike

/-- Two requests for the same are alike when they have just come. -/
theorem alike_request (origin : Origin) (hspelling : auditor.SpellsAlike path path') :
    (origin.request path).Alike auditor path path' (origin.request path') := by
  cases origin with
  | target value =>
    exact ⟨hspelling, rfl, rfl, ⟨rfl, rfl, .none, rfl⟩, .resolve value,
      .idle path path', rfl, .none⟩
  | package bytes =>
    exact ⟨hspelling, rfl, rfl, ⟨rfl, rfl, .none, rfl⟩, .parse bytes,
      .idle path path', rfl, .none⟩

end Request

end ExtensionAudit
