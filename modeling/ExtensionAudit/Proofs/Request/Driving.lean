import ExtensionAudit.Proofs.Chore
import ExtensionAudit.Proofs.Request.Ending
import ExtensionAudit.Proofs.Request.Schedule
import ExtensionAudit.Proofs.Request.Success

/-!
# Request — driving ends

A request that is driven ends. As long as nothing is wrong but the work itself
(`Request.Working`), it does not wait for ever, and it ends with a report or with a
fault of the work (`Request.Working.drive`). A request for an extension may besides end
for want of an extension that is named, and then nothing is fetched
(`Request.answer_ends`); one for a package may not (`Request.answer_package_ends`). With
a report a request ends as soon as each of its stages succeeds by itself
(`Request.phase_answer`).
-/

namespace ExtensionAudit

/-- What a request has come to in a phase, if there is nothing left but the cleaning
up. -/
def Phase.outcome? : Phase → Option (Except Fault Report)
  | .cleanUp outcome _ | .ended outcome | .overrun outcome => some outcome
  | _ => none

theorem Phase.outcome?_of_isBusy {phase : Phase}
    (h : phase.isBusy = true) : phase.outcome? = none := by
  cases phase with
  | cleanUp outcome chores => exact absurd h (by simp [isBusy, Request.rank])
  | ended outcome => exact absurd h (by simp [isBusy, Request.rank])
  | overrun outcome => exact absurd h (by simp [isBusy, Request.rank])
  | _ => rfl

namespace Request

/-! ## On the way -/

/-- What is known of a request while it is driven, once it has its extension or its
package. What it is for is settled, there is no fault but one of the work, its analyses
have just been started, and its report is made of their parts. -/
structure Working (request : Request) : Prop where
  resolved : ∀ target, request.phase ≠ .resolve target
  fault : ∀ fault, request.phase.outcome? = some (.error fault) → fault.IsOfWork
  started : ∀ work, request.phase = .analyze work → request.analysis = some (.start work)
  report : ∀ report, request.phase.outcome? = some (.ok report) →
    ∃ manifest parts, Request.report manifest parts = .ok report

variable {target : Json} {request : Request} {identifier : Text}

/-- A request that goes on, to anything but its analyses. -/
theorem Working.goOn {after : Request} (busy : after.phase.isBusy = true)
    (resolved : after.phase.isResolve = false) (idle : after.phase.isAnalyze = false) :
    Working after := by
  refine ⟨Phase.ne_resolve resolved, fun fault h => ?_,
    fun work h => absurd h (Phase.ne_analyze idle work), fun report h => ?_⟩
  · cases (Phase.outcome?_of_isBusy busy).symm.trans h
  · cases (Phase.outcome?_of_isBusy busy).symm.trans h

theorem Working.fail {fault : Fault} (h : fault.IsOfWork) :
    Working (request.fail fault) := by
  refine ⟨nofun, fun found hfound => ?_, nofun, nofun⟩
  cases hfound
  exact h

theorem Working.attempt {α ε : Type} {result : Except ε α} {wrap : ε → Fault}
    {next : α → Request} (hwrap : ∀ error, (wrap error).IsOfWork)
    (hnext : ∀ a, result = .ok a → Working (next a)) :
    Working (request.attempt (result.mapError wrap) next) := by
  cases result with
  | ok a => exact hnext a rfl
  | error error => exact .fail (hwrap error)

/-- What is known of a request that has come to something stays known as long as that
stays the same. -/
theorem Working.close {after : Request} {outcome : Except Fault Report}
    (h : Working request) (hbefore : request.phase.outcome? = some outcome)
    (hafter : after.phase.outcome? = some outcome) :
    Working after := by
  refine ⟨fun target hphase => ?_, fun fault hfault => h.fault fault ?_,
    fun work hphase => ?_,
    fun report hreport => h.report report ?_⟩
  · rw [hphase] at hafter
    cases hafter
  · rw [hbefore, ← hafter, hfault]
  · rw [hphase] at hafter
    cases hafter
  · rw [hbefore, ← hafter, hreport]

/-- A request whose analyses went as they go by themselves goes on from them. -/
theorem Working.conclude {work : Workload} {behavior : Tool → Tool.Behavior}
    (hanalysis : request.analysis =
      some (.steps work (.start work) (Analysis.schedule work behavior))) :
    request.settlement?.isNone = false ∧ Working (request.conclude work) := by
  have horderly := Analysis.orderly_schedule work behavior
  obtain ⟨result, hresult⟩ :=
    Option.isSome_iff_exists.mp (Analysis.outcome?_schedule work behavior)
  have hsettled : request.settlement? = some result := by
    rw [settlement?, hanalysis, Option.bind_some, hresult]
  refine ⟨by rw [hsettled]; rfl, ?_⟩
  rw [Request.conclude, hsettled]
  cases result with
  | error fault => exact .fail (horderly.failure fault (Join.failure_of_outcome? hresult))
  | ok parts =>
    obtain ⟨scores, entries, summary, rfl, -⟩ := horderly.attended.isSound.outcome hresult
    dsimp only
    cases hreport : Request.report work.manifest
        [.scores scores, .usage (Script.usage work.files), .findings entries,
          .lint summary] with
    | error fault =>
      refine .fail ?_
      obtain ⟨misuse, -, rfl⟩ := mapError_eq_error.mp hreport
      trivial
    | ok report =>
      refine ⟨Phase.ne_resolve rfl, (fun _ h => by cases h),
        fun work h => absurd h (Phase.ne_analyze rfl work),
        fun found hfound => ⟨_, _, hreport.trans ?_⟩⟩
      cases hfound
      rfl

/-- What is known of a request stays known with a step before and after its analyses. -/
theorem Working.step (h : Working request) (hended : request.isEnded = false)
    (hidle : request.phase.isAnalyze = false) (auditor : Auditor) (reply : Fetch.Reply)
    (disk : Disk) : Working (request.step auditor reply disk).1 := by
  obtain ⟨directory, record, phase, worker, exchange, analysis⟩ := request
  cases phase with
  | resolve other => exact absurd rfl (h.resolved other)
  | fetch id => exact .attempt (fun _ => trivial) fun _ _ => .goOn rfl rfl rfl
  | parse package => exact .attempt (fun _ => trivial) fun _ _ => .goOn rfl rfl rfl
  | extract =>
    obtain ⟨pending, stopped⟩ := worker
    cases pending with
    | nil =>
      cases stopped with
      | none => exact .goOn rfl rfl rfl
      | some stopped => exact .fail trivial
    | cons action rest =>
      simp only [Request.step, work]
      split <;> exact .goOn rfl rfl rfl
  | readManifest => exact .attempt (fun _ => trivial) fun _ _ => .goOn rfl rfl rfl
  | list manifest => exact .attempt (fun _ => trivial) fun _ _ => .goOn rfl rfl rfl
  | read manifest pending files =>
    cases pending with
    | nil =>
      refine ⟨Phase.ne_resolve rfl, (fun _ h => by cases h), fun work hwork => ?_,
        fun _ h => by cases h⟩
      cases hwork
      rfl
    | cons names rest => exact .attempt (fun _ => trivial) fun _ _ => .goOn rfl rfl rfl
  | analyze work => cases hidle
  | cleanUp outcome chores =>
    obtain ⟨later, cleaned, hclean, hlater⟩ := clean_cases auditor.platform.removing
      ⟨directory, record, .cleanUp outcome chores, worker, exchange,
        analysis⟩ disk outcome chores
    rw [Request.step, hclean]
    refine h.close rfl ?_
    rcases hlater with ⟨left, rfl⟩ | rfl | rfl <;> rfl
  | ended outcome => cases hended
  | overrun outcome => cases hended

theorem undergo_of_idle (hidle : request.phase.isAnalyze = false) (world : World) :
    request.undergo world = request := by
  unfold undergo
  split
  · rename_i work hphase
    exact absurd hphase (Phase.ne_analyze hidle work)
  · rfl

/-- What happens to a request whose analyses have just been started happens to these. -/
theorem undergo_start (directory : Path) (record : Record Fault) (work : Workload)
    (worker : Worker) (exchange : Option Fetch.Exchange) (world : World) :
    undergo world ⟨directory, record, .analyze work, worker, exchange,
      some (.start work)⟩ =
      ⟨directory, record, .analyze work, worker, exchange,
        some (.steps work (.start work) (Analysis.schedule work world.behavior))⟩ :=
  foldl_notice _ _

theorem isWaiting_of_idle (hidle : request.phase.isAnalyze = false) :
    request.isWaiting = false := by
  unfold isWaiting
  split
  · rename_i work hphase
    exact absurd hphase (Phase.ne_analyze hidle work)
  · rfl

/-- Before and after its analyses a request is driven by its steps alone. -/
theorem drive_of_idle {auditor : Auditor} {world : World} {disk : Disk}
    (hended : request.isEnded = false) (hidle : request.phase.isAnalyze = false) :
    request.drive auditor world disk =
      (request.step auditor world.reply disk).1.drive auditor world
        (request.step auditor world.reply disk).2 := by
  rw [drive, hended, if_neg Bool.false_ne_true, undergo_of_idle hidle,
    isWaiting_of_idle hidle, if_neg Bool.false_ne_true]

/-- One step of the driver. The request does not wait in vain, and what is known of it
stays known. -/
theorem Working.advance (h : Working request) (hended : request.isEnded = false)
    (auditor : Auditor) (world : World) (disk : Disk) :
    (request.undergo world).isWaiting = false ∧
      Working ((request.undergo world).step auditor world.reply disk).1 := by
  cases hidle : request.phase.isAnalyze with
  | false =>
    rw [undergo_of_idle hidle]
    exact ⟨isWaiting_of_idle hidle, h.step hended hidle auditor world.reply disk⟩
  | true =>
    obtain ⟨work, hphase⟩ := Phase.eq_analyze hidle
    obtain ⟨directory, record, phase, worker, exchange, analysis⟩ := request
    cases hphase
    cases h.started work rfl
    rw [undergo_start]
    simp only [isWaiting, Request.step]
    exact Working.conclude rfl

/-- A property of the request that its own steps keep, whatever happens to its
analyses. -/
theorem Working.drive_induction {P : Request → Prop}
    (h : Working request) (auditor : Auditor) (world : World)
    (disk : Disk) (start : P request) (step : ∀ request disk, P request →
      P ((request.undergo world).step auditor world.reply disk).1) :
    (request.drive auditor world disk).1.isEnded = true ∧
      Working (request.drive auditor world disk).1 ∧
      P (request.drive auditor world disk).1 := by
  -- The induction is on the steps of the driver, and it never stops for a request that
  -- waits.
  induction request, disk using drive.induct auditor world with
  | case1 request disk hended =>
    rw [Request.drive, if_pos hended]
    exact ⟨hended, h, start⟩
  | case2 request disk hended hwaiting =>
    obtain ⟨hnot, -⟩ := h.advance (by simpa using hended) auditor world disk
    rw [hwaiting] at hnot
    cases hnot
  | case3 request disk hended hwaiting next ih =>
    obtain ⟨-, hnext⟩ := h.advance (by simpa using hended) auditor world disk
    rw [Request.drive, if_neg hended, if_neg hwaiting]
    exact ih hnext (step request disk start)

/-- **Driving ends.** A request that is driven does not wait for ever, and what is known
of it stays known. -/
theorem Working.drive (h : Working request) (auditor : Auditor) (world : World)
    (disk : Disk) :
    (request.drive auditor world disk).1.isEnded = true ∧
      Working (request.drive auditor world disk).1 := by
  obtain ⟨hended, hworking, -⟩ :=
    h.drive_induction (P := fun _ => True) auditor world disk trivial fun _ _ _ => trivial
  exact ⟨hended, hworking⟩

theorem outcome_of_ended {outcome : Except Fault Report}
    (h : request.phase = .ended outcome) :
    request.isEnded = true ∧ request.outcome = outcome := by
  rw [isEnded, Request.outcome, h]
  exact ⟨rfl, rfl⟩

/-- What became of a request that is over, as far as it is known. -/
theorem Working.outcome (h : Working request) (hended : request.isEnded = true) :
    (∀ fault, request.outcome = .error fault → fault.IsOfWork) ∧
      ∀ report, request.outcome = .ok report →
        ∃ manifest parts, Request.report manifest parts = .ok report := by
  obtain ⟨directory, record, phase, worker, exchange, analysis⟩ := request
  cases phase with
  | ended outcome =>
    exact ⟨fun fault hfault => h.fault fault (congrArg some hfault),
      fun report hreport => h.report report (congrArg some hreport)⟩
  | overrun outcome =>
    refine ⟨fun fault hfault => ?_, nofun⟩
    cases hfault
    trivial
  | _ => cases hended

/-! ## The store -/

theorem exchange_undergo (world : World) (request : Request) :
    (request.undergo world).exchange = request.exchange := by
  have hnotice (events : List Analysis.Event) (request : Request) :
      (events.foldl notice request).exchange = request.exchange := by
    induction events generalizing request with
    | nil => rfl
    | cons event rest ih =>
      rw [List.foldl_cons, ih, notice]
      split <;> rfl
  unfold undergo
  split
  · exact hnotice _ _
  · rfl

theorem isSome_exchange_attempt {α : Type} {result : Except Fault α} {next : α → Request}
    (h : request.exchange.isSome = true) (hnext : ∀ a, (next a).exchange.isSome = true) :
    (request.attempt result next).exchange.isSome = true := by
  cases result with
  | ok a => exact hnext a
  | error fault => exact h

/-- Once the store was asked, it was asked. -/
theorem isSome_exchange_step (auditor : Auditor) (reply : Fetch.Reply) (disk : Disk)
    (h : request.exchange.isSome = true) :
    (request.step auditor reply disk).1.exchange.isSome = true := by
  obtain ⟨directory, record, phase, worker, exchange, analysis⟩ := request
  cases phase with
  | resolve target =>
    simp only [Request.step]
    split <;> exact h
  | fetch id => exact isSome_exchange_attempt rfl fun _ => rfl
  | parse package => exact isSome_exchange_attempt h fun _ => h
  | extract =>
    obtain ⟨pending, stopped⟩ := worker
    cases pending with
    | nil => cases stopped <;> exact h
    | cons action rest =>
      simp only [Request.step, work]
      split <;> exact h
  | readManifest => exact isSome_exchange_attempt h fun _ => h
  | list manifest => exact isSome_exchange_attempt h fun _ => h
  | read manifest pending files =>
    cases pending with
    | nil => exact h
    | cons names rest => exact isSome_exchange_attempt h fun _ => h
  | analyze work =>
    simp only [Request.step, Request.conclude]
    split
    · exact h
    · exact h
    · exact isSome_exchange_attempt h fun _ => h
  | cleanUp outcome chores =>
    obtain ⟨phase, cleaned, hclean, -⟩ := clean_cases auditor.platform.removing
      ⟨directory, record, .cleanUp outcome chores, worker, exchange,
        analysis⟩ disk outcome chores
    rw [Request.step, hclean]
    exact h
  | _ => exact h

/-! ## Answers -/

section Cleaning

variable {auditor : Auditor} {world : World} {disk later : Disk} {directory : Path}
  {record : Record Fault} {worker : Worker} {exchange : Option Fetch.Exchange}
  {analysis : Option Analysis} {outcome : Except Fault Report}

/-- Chores that come to their end are done one after another. -/
theorem drive_chores {chores : List Chore}
    (h : Chore.finish chores disk = (true, later)) :
    drive auditor world
        ⟨directory, record, .cleanUp outcome (some chores), worker, exchange,
          analysis⟩ disk =
      (⟨directory, record.cleanedUp, .ended outcome, worker, exchange,
        analysis⟩, later) := by
  -- The induction is on the chores that are still to be done.
  induction chores, disk using Chore.finish.induct with
  | case1 disk =>
    rw [Chore.finish] at h
    cases h
    rw [drive_of_idle rfl rfl, drive]
    rfl
  | case2 disk chore rest more next hrun ih =>
    rw [Chore.finish_of_some hrun] at h
    rw [drive_of_idle rfl rfl]
    simp only [step, clean, hrun]
    exact ih h
  | case3 disk chore rest hrun =>
    rw [Chore.finish_of_none hrun] at h
    cases h

/-- The cleaning up of a request that does nothing else any more. -/
theorem drive_cleanUp (h : Chore.finish
      (Chore.start auditor.platform.removing disk directory) disk = (true, later)) :
    drive auditor world ⟨directory, record, .cleanUp outcome none, worker, exchange,
      analysis⟩ disk =
      (⟨directory, record.cleanedUp, .ended outcome, worker, exchange,
        analysis⟩, later) :=
  (drive_of_idle rfl rfl).trans (drive_chores h)

end Cleaning

/-- A request for what names no extension ends for want of one, and nothing is fetched
or analysed. -/
theorem answer_of_unnamed {directory : Path} {disk : Disk}
    (fresh : disk.IsFresh directory) (h : Identifier.ofJson? target = none)
    (auditor : Auditor) (world : World) :
    let request := ((ofTarget directory target).answer auditor world disk).1
    request.phase = .ended (.error .target) ∧ request.exchange = none ∧
      request.analysis = none := by
  intro request
  obtain ⟨opened, hopened⟩ := fresh.made
  obtain ⟨later, hfinish⟩ := Chore.finish_of_isEmptyDirectory
    (fresh.gone.isEmptyDirectory hopened) auditor.platform.removing
  have hresolve : step auditor world.reply (ofTarget directory target) opened =
      ((ofTarget directory target).fail .target, opened) := by
    simp only [step, ofTarget, h]
  have hanswer : request = { (ofTarget directory target).fail .target with
      record := ((ofTarget directory target).fail .target).record.cleanedUp
      phase := .ended (.error .target) } := by
    show ((ofTarget directory target).answer auditor world disk).1 = _
    have hopen : (ofTarget directory target).openDirectory disk = opened := by
      simp only [openDirectory, ofTarget, hopened]
    rw [answer, hopen, drive_of_idle rfl rfl, hresolve]
    exact congrArg Prod.fst (drive_cleanUp hfinish)
  rw [hanswer]
  exact ⟨rfl, rfl, rfl⟩

/-- A request for an extension that is named asks the store, and ends. -/
theorem answer_of_named (h : Identifier.ofJson? target = some identifier)
    (auditor : Auditor) (world : World) (directory : Path) (disk : Disk) :
    let request := ((ofTarget directory target).answer auditor world disk).1
    request.isEnded = true ∧ Working request ∧ request.exchange.isSome = true := by
  intro request
  let named : Request :=
    ⟨directory, ⟨[.resolved], some identifier, none, 0⟩, .fetch identifier,
      ⟨[], none⟩, none, none⟩
  have hresolve (disk : Disk) :
      step auditor world.reply (ofTarget directory target) disk = (named, disk) := by
    simp only [step, ofTarget, h]
    rfl
  have hnamed : Working named := .goOn rfl rfl rfl
  have hanswer : request = ((named.step auditor world.reply
      ((ofTarget directory target).openDirectory disk)).1.drive auditor world
        (named.step auditor world.reply
          ((ofTarget directory target).openDirectory disk)).2).1 := by
    show ((ofTarget directory target).answer auditor world disk).1 = _
    rw [answer, drive_of_idle rfl rfl, hresolve, drive_of_idle rfl rfl]
  rw [hanswer]
  refine (hnamed.step rfl rfl auditor world.reply _).drive_induction
    (P := fun request => request.exchange.isSome = true) auditor world _ ?_
      fun later disk hfetched => ?_
  · exact isSome_exchange_attempt rfl fun _ => rfl
  · refine isSome_exchange_step auditor world.reply disk ?_
    rw [exchange_undergo]
    exact hfetched

/-- **A request for an extension ends.** It ends for want of an extension that is named,
and then nothing is fetched, just if none is; else the store is asked, and the request
ends with a report or with a fault of the work on it. -/
theorem answer_ends {directory : Path} {disk : Disk} (fresh : disk.IsFresh directory)
    (auditor : Auditor) (world : World) (target : Json) :
    let request := ((ofTarget directory target).answer auditor world disk).1
    request.isEnded = true ∧
      (request.outcome = .error .target ↔ Identifier.ofJson? target = none) ∧
      (request.exchange = none ↔ Identifier.ofJson? target = none) ∧
      ∀ fault, request.outcome = .error fault → fault = .target ∨ fault.IsOfWork := by
  intro request
  cases hnamed : Identifier.ofJson? target with
  | none =>
    obtain ⟨hphase, hfetched, -⟩ := answer_of_unnamed fresh hnamed auditor world
    obtain ⟨hended, houtcome⟩ := outcome_of_ended hphase
    refine ⟨hended, iff_of_true houtcome rfl, iff_of_true hfetched rfl,
      fun fault hfault => .inl ?_⟩
    cases houtcome.symm.trans hfault
    rfl
  | some identifier =>
    obtain ⟨hended, hworking, hfetched⟩ :=
      answer_of_named hnamed auditor world directory disk
    obtain ⟨hfault, -⟩ := hworking.outcome hended
    exact ⟨hended, iff_of_false (hfault .target) nofun,
      iff_of_false (Option.isSome_iff_ne_none.mp hfetched) nofun,
      fun fault h => .inr (hfault fault h)⟩

/-- **A request for a package ends**, with a report or with a fault of the work on it. -/
theorem answer_package_ends (auditor : Auditor) (world : World) (directory : Path)
    (package : Bytes) (disk : Disk) :
    let request := ((ofPackage directory package).answer auditor world disk).1
    request.isEnded = true ∧ Working request := by
  have hstart : Working (ofPackage directory package) := .goOn rfl rfl rfl
  exact hstart.drive auditor world _

/-! ## When nothing goes wrong -/

variable {auditor : Auditor} {world : World} {disk later : Disk} {directory : Path}
    {record : Record Fault}
  {worker : Worker} {exchange : Option Fetch.Exchange} {analysis : Option Analysis}

/-- The archive is extracted, one action after another. -/
theorem drive_extract {actions : List Archive.Action}
    (h : Archive.runActions directory actions disk = (later, .ok ())) :
    drive auditor world ⟨directory, record, .extract, ⟨actions, none⟩, exchange,
      analysis⟩ disk =
      drive auditor world ⟨directory, record, .readManifest, ⟨[], none⟩, exchange,
        analysis⟩ later := by
  induction actions generalizing disk with
  | nil =>
    cases h
    exact drive_of_idle rfl rfl
  | cons action rest ih =>
    rw [Archive.runActions] at h
    cases hrun : action.run directory disk with
    | error fault =>
      rw [hrun] at h
      cases h
    | ok next =>
      rw [hrun] at h
      refine (drive_of_idle rfl rfl).trans ?_
      rw [← ih h]
      simp only [step, Request.work, hrun]

/-- The scripts are read, one after another, and the analyses are started. -/
theorem drive_read {manifest : List (Text × Json)}
    {names : List (List Text)} {before files : Entries Text}
    (h : Script.readAll disk directory names = .ok files) {work : Workload} (hwork :
      workload auditor (.ofTarget directory target) manifest (before ++ files) = work) :
    drive auditor world ⟨directory, record, .read manifest names before, worker,
      exchange, analysis⟩ disk =
      drive auditor world ⟨directory, record.advance .extracted, .analyze work,
        worker, exchange,
        some (.start work)⟩ disk := by
  induction names generalizing before files with
  | nil =>
    cases h
    rw [List.append_nil] at hwork
    subst hwork
    exact drive_of_idle rfl rfl
  | cons file rest ih =>
    rw [Script.readAll, bind_eq_ok] at h
    obtain ⟨text, htext, h⟩ := h
    rw [bind_eq_ok] at h
    obtain ⟨more, hmore, h⟩ := h
    cases h
    have hstep : step auditor world.reply
        ⟨directory, record, .read manifest (file :: rest) before, worker, exchange,
          analysis⟩ disk =
        (⟨directory, record,
          .read manifest rest (before ++ [(Script.pathText file, text)]), worker,
          exchange, analysis⟩, disk) := by
      simp only [step, htext]
      rfl
    refine (drive_of_idle rfl rfl).trans ?_
    rw [hstep]
    refine ih hmore ?_
    rw [List.append_assoc]
    exact hwork

/-- The analyses go as they go by themselves, the report is put together, and the
directory is cleaned up. -/
theorem phase_drive_analyze {work : Workload} {report : Report}
    (hfinish : Chore.finish (Chore.start auditor.platform.removing disk directory)
      disk = (true, later)) (h : reportOn? work (.steps work (.start work)
        (Analysis.schedule work world.behavior)) = some report) :
    (drive auditor world ⟨directory, record, .analyze work, worker, exchange,
      some (.start work)⟩
      disk).1.phase = .ended (.ok report) := by
  rw [reportOn?] at h
  split at h
  case h_2 => cases h
  rename_i parts hsettled
  have hreport := toOption_eq_some.mp h
  have hwaiting : isWaiting ⟨directory, record, .analyze work, worker, exchange,
      some (.steps work (.start work) (Analysis.schedule work world.behavior))⟩ =
        false := by
    simp only [isWaiting, settlement?, Option.bind_some, hsettled, Option.isNone_some]
  have hconclude : step auditor world.reply ⟨directory, record, .analyze work,
      worker, exchange,
      some (.steps work (.start work) (Analysis.schedule work world.behavior))⟩ disk =
      (⟨directory, record.advance .analyzed, .cleanUp (.ok report) none, worker, exchange,
        some (.steps work (.start work) (Analysis.schedule work world.behavior))⟩,
        disk) := by
    simp only [step, conclude, settlement?, Option.bind_some, hsettled, hreport]
    rfl
  rw [drive, undergo_start, hwaiting, hconclude]
  exact congrArg (·.1.phase) (drive_cleanUp hfinish)

/-- **A request in which every stage succeeds ends with the report.** -/
theorem phase_answer {before opened after cleared : Disk} {identifier : Text}
    {package archive : Bytes} {count : Nat} {manifest : List (Text × Json)}
    {files : Entries Text} {work : Workload} {report : Report}
    (hopened : before.makeDirectory directory = .ok opened)
    (hnamed : Identifier.ofJson? target = some identifier)
    (hfetched : (Fetch.fetch auditor.fetching world.reply identifier).outcome =
      .ok package) (hpackage : Package.payload package = .ok archive)
    (hextract : Archive.extract auditor.platform directory archive opened =
      (after, .ok count)) (hmanifest : Manifest.read after directory = .ok manifest)
    (hfiles : Script.files auditor.platform.listing Script.ending after directory =
      .ok files) (hfinish : Chore.finish
        (Chore.start auditor.platform.removing after directory) after = (true, cleared))
    (hwork : workload auditor (.ofTarget directory target) manifest files = work)
    (hreport : reportOn? work (.steps work (.start work)
      (Analysis.schedule work world.behavior)) = some report) :
    ((ofTarget directory target).answer auditor world before).1.phase =
      .ended (.ok report) := by
  obtain ⟨hrun, -⟩ := Archive.extract_eq_ok.mp hextract
  obtain ⟨hsearch, hback⟩ := Script.files_eq_ok.mp hfiles
  -- What each of the stages up to the reading of the files makes of the request.
  have hresolve : step auditor world.reply (ofTarget directory target) opened =
      (⟨directory, ⟨[.resolved], some identifier, none, 0⟩, .fetch identifier,
        ⟨[], none⟩, none, none⟩,
        opened) := by
    simp only [step, ofTarget, hnamed]
    rfl
  have hfetch : step auditor world.reply
      ⟨directory, ⟨[.resolved], some identifier, none, 0⟩, .fetch identifier,
        ⟨[], none⟩, none, none⟩
      opened =
      (⟨directory, ⟨[.resolved, .fetched], some identifier, none, 0⟩,
        .parse package, ⟨[], none⟩,
        some (Fetch.fetch auditor.fetching world.reply identifier), none⟩, opened) := by
    simp only [step, hfetched]
    rfl
  have hparse (exchange : Option Fetch.Exchange) : step auditor world.reply
      ⟨directory, ⟨[.resolved, .fetched], some identifier, none, 0⟩,
        .parse package, ⟨[], none⟩,
        exchange, none⟩ opened =
      (⟨directory, ⟨[.resolved, .fetched, .parsed], some identifier, none, 0⟩, .extract,
        ⟨Archive.planned auditor.platform archive, none⟩, exchange, none⟩, opened) := by
    simp only [step, hpackage]
    rfl
  have hread (record : Record Fault) (exchange : Option Fetch.Exchange) :
      step auditor world.reply
      ⟨directory, record, .readManifest, ⟨[], none⟩, exchange, none⟩ after =
      (⟨directory, record, .list manifest, ⟨[], none⟩, exchange, none⟩, after) := by
    simp only [step, hmanifest]
    rfl
  -- The request is driven through them one after the other.
  rw [answer, openDirectory]
  simp only [ofTarget, hopened]
  rw [drive_of_idle rfl rfl, ← ofTarget, hresolve, drive_of_idle rfl rfl, hfetch,
    drive_of_idle rfl rfl, hparse, drive_extract hrun, drive_of_idle rfl rfl, hread,
    drive_of_idle rfl rfl]
  have hall : workload auditor (.ofTarget directory target) manifest ([] ++ files) =
      work := hwork
  simp only [step, hsearch]
  exact (congrArg (·.1.phase) (drive_read hback hall)).trans
    (phase_drive_analyze hfinish hreport)

end ExtensionAudit.Request
