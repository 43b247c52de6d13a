import ExtensionAudit.Proofs.Archive.Gone
import ExtensionAudit.Proofs.Request.Lifecycle

/-!
# Request — what a turn does to the disk

A turn in the course of a request is a step of the cleaning up, or leaves the cleaning
up as it is (`Request.take_cases`). In the one case a chore is done
(`Request.Clearing`), in the other the worker does an action or the disk stays as it is
(`Request.Labour`).
-/

namespace ExtensionAudit

/-- What is left of the cleaning up, if it has begun and was not overrun. -/
def Phase.left? : Phase → Option (List Chore)
  | .cleanUp _ chores => chores
  | .ended _ => some []
  | _ => none

theorem Phase.left?_of_hasBegun {phase : Phase} (h : phase.hasBegun = false) :
    phase.left? = none := by
  cases phase with
  | cleanUp outcome chores =>
    cases chores with
    | none => rfl
    | some chores => cases h
  | ended outcome => cases h
  | _ => rfl

namespace Request

/-! ## The worker -/

/-- What a turn makes of the worker and of the disk, if it is no step of the cleaning
up. The worker is left alone, or is given an archive, or stops, or does an action. It is
left alone while it has something to do and the request goes on without it only if the
request is cancelled. -/
inductive Labour (turn : Turn) (before after : Request) (disk later : Disk) : Prop
  | rests (worker : after.worker = before.worker) (unchanged : later = disk)
      (abandoned : before.phase = .extract →
        after.phase = .extract ∨ turn = .cancellation ∨ before.worker.pending = [])
  | begins (platform : Platform) (archive : Bytes)
      (worker : after.worker = ⟨Archive.planned platform archive, none⟩)
      (phase : after.phase = .extract) (unchanged : later = disk)
  | stops (worker : after.worker.pending = []) (unchanged : later = disk)
  | acts (action : Archive.Action) (rest : List Archive.Action)
      (pending : before.worker.pending = action :: rest)
      (run : action.run before.directory disk = .ok later)
      (worker : after.worker = ⟨rest, none⟩) (phase : after.phase = before.phase)
      (turn : turn = .work ∨ before.phase = .extract)

/-- The worker is left alone where nothing is extracted. -/
theorem Labour.idle {turn : Turn} {before after : Request} {disk : Disk}
    (hphase : before.phase ≠ .extract) (worker : after.worker = before.worker) :
    Labour turn before after disk disk :=
  .rests worker rfl fun h => absurd h hphase

/-- A turn leaves the disk as it is, or the worker does an action. -/
theorem Labour.disk_cases {turn : Turn} {before after : Request} {disk later : Disk}
    (h : Labour turn before after disk later) :
    later = disk ∨
      ∃ action ∈ before.worker.pending, action.run before.directory disk = .ok later ∧
      (turn = .work ∨ before.phase = .extract) := by
  cases h with
  | rests worker unchanged => exact .inl unchanged
  | begins platform archive worker phase unchanged => exact .inl unchanged
  | stops worker unchanged => exact .inl unchanged
  | acts action rest pending run worker phase turn =>
    exact .inr ⟨action, pending ▸ List.mem_cons_self, run, turn⟩

/-- No directory is taken away, and nothing else. -/
theorem Labour.keeps {turn : Turn} {before after : Request} {disk later : Disk}
    (h : Labour turn before after disk later) :
    disk.Keeps later ∧ ∀ key, later.node? key = none → disk.node? key = none := by
  rcases h.disk_cases with rfl | ⟨action, -, hrun, -⟩
  · exact ⟨.refl _, fun _ => id⟩
  · exact ⟨Archive.Action.keeps hrun, fun _ => Archive.Action.node?_of_run hrun⟩

/-- What the worker has to do after a turn is what it had to do, or is what an archive
asks for. -/
theorem Labour.pending_cases {turn : Turn} {before after : Request} {disk later : Disk}
    (h : Labour turn before after disk later) {action : Archive.Action}
    (hm : action ∈ after.worker.pending) :
    action ∈ before.worker.pending ∨ ∃ platform archive, action ∈
      Archive.planned platform archive := by
  cases h with
  | rests worker => exact .inl (worker ▸ hm)
  | begins platform archive worker =>
    rw [worker] at hm
    exact .inr ⟨platform, archive, hm⟩
  | stops worker =>
    rw [worker] at hm
    cases hm
  | acts first rest pending run worker =>
    rw [worker] at hm
    exact .inl (pending ▸ List.mem_cons_of_mem first hm)

theorem worker_attempt {α : Type} {request : Request} {result : Except Fault α}
    {next : α → Request} (h : ∀ a, (next a).worker = request.worker) :
    (request.attempt result next).worker = request.worker := by
  cases result with
  | ok a => exact h a
  | error fault => rfl

theorem work_labour {turn : Turn} {request : Request} (disk : Disk)
    (h : turn = .work ∨ request.phase = .extract) :
    Labour turn request (request.work disk).1 disk (request.work disk).2 := by
  cases hpending : request.worker.pending with
  | nil =>
    simp only [work, hpending]
    exact .rests rfl rfl fun _ => .inr (.inr hpending)
  | cons action rest =>
    simp only [work, hpending]
    cases hrun : action.run request.directory disk with
    | ok later => exact .acts action rest hpending hrun rfl rfl h
    | error fault => exact .stops rfl rfl

theorem step_labour (auditor : Auditor) (reply : Fetch.Reply) {request : Request}
    (disk : Disk) (h : ∀ outcome chores, request.phase ≠ .cleanUp outcome chores) :
    Labour (.step reply) request (request.step auditor reply disk).1 disk
      (request.step auditor reply disk).2 := by
  obtain ⟨directory, record, phase, worker, exchange, analysis⟩ := request
  cases phase with
  | resolve target =>
    simp only [step]
    split <;> exact .idle (by simp) rfl
  | fetch id => exact .idle (by simp) (worker_attempt fun _ => rfl)
  | parse package =>
    simp only [step]
    cases Package.payload package with
    | ok archive => exact .begins auditor.platform archive rfl rfl rfl
    | error fault => exact .idle (by simp) rfl
  | extract =>
    obtain ⟨pending, fault⟩ := worker
    cases pending with
    | nil => cases fault <;> exact .rests rfl rfl fun _ => .inr (.inr rfl)
    | cons action rest => exact work_labour disk (.inr rfl)
  | readManifest => exact .idle (by simp) (worker_attempt fun _ => rfl)
  | list manifest => exact .idle (by simp) (worker_attempt fun _ => rfl)
  | read manifest pending files =>
    cases pending with
    | nil => exact .idle (by simp) rfl
    | cons names rest => exact .idle (by simp) (worker_attempt fun _ => rfl)
  | analyze work =>
    refine .idle (by simp) ?_
    simp only [step, conclude]
    split
    · rfl
    · rfl
    · exact worker_attempt fun _ => rfl
  | cleanUp outcome chores => exact absurd rfl (h outcome chores)
  | ended outcome => exact .idle (by simp) rfl
  | overrun outcome => exact .idle (by simp) rfl

theorem take_labour (auditor : Auditor) {request : Request} (disk : Disk) {turn : Turn}
    (h : ∀ outcome chores reply, request.phase = .cleanUp outcome chores →
      turn ≠ .step reply) :
    Labour turn request (request.take auditor disk turn).1 disk
      (request.take auditor disk turn).2 := by
  cases turn with
  | step reply =>
    exact step_labour auditor reply disk fun outcome chores hphase =>
      h outcome chores reply hphase rfl
  | work => exact work_labour disk (.inl rfl)
  | event event =>
    refine .rests (worker_notice request event) rfl fun hphase => .inl ?_
    rw [take, phase_notice, hphase]
  | failure fault =>
    obtain ⟨directory, record, phase, worker, exchange, analysis⟩ := request
    cases phase with
    | extract => exact .stops rfl rfl
    | analyze work =>
      refine .idle (by simp) ?_
      simp only [take, breakOff]
      split <;> rfl
    | _ => exact .idle (by simp) rfl
  | cancellation =>
    refine .rests ?_ rfl fun _ => .inr (.inl rfl)
    simp only [take, cancel]
    split
    any_goals rfl
    exact worker_notice request _

/-! ## The cleaning up -/

/-- A step of the cleaning up. It begins, or a chore is done, or it is noted that none
is left, or it is overrun by one. -/
inductive Clearing (levels : Nat) (outcome : Except Fault Report) (request : Request)
    (disk : Disk) :
    Request → Disk → Prop
  | begins (phase : request.phase = .cleanUp outcome none) :
      Clearing levels outcome request disk
        (request.goOn
          (.cleanUp outcome (some (Chore.start levels disk request.directory)))) disk
  | does {chore : Chore} {rest more : List Chore} {later : Disk}
      (phase : request.phase = .cleanUp outcome (some (chore :: rest)))
      (run : chore.run disk = some (more, later)) :
      Clearing levels outcome request disk
        (request.goOn (.cleanUp outcome (some (more ++ rest)))) later
  | ends (phase : request.phase = .cleanUp outcome (some [])) :
      Clearing levels outcome request disk
        { request with record := request.record.cleanedUp, phase := .ended outcome } disk
  | isOverrun {chore : Chore} {rest : List Chore}
      (phase : request.phase = .cleanUp outcome (some (chore :: rest)))
      (run : chore.run disk = none) :
      Clearing levels outcome request disk (request.goOn (.overrun outcome)) disk

theorem clean_clearing {request : Request} {outcome : Except Fault Report}
    {chores : Option (List Chore)} (h : request.phase = .cleanUp outcome chores)
    (levels : Nat) (disk : Disk) :
    Clearing levels outcome request disk (request.clean levels disk outcome chores).1
      (request.clean levels disk outcome chores).2 := by
  rw [clean.eq_def]
  split
  · exact .begins h
  · exact .ends h
  · split
    · exact .does h ‹_›
    · exact .isOverrun h ‹_›

theorem Clearing.worker {levels : Nat} {outcome : Except Fault Report}
    {request after : Request} {disk later : Disk}
    (h : Clearing levels outcome request disk after later) :
    after.worker = request.worker := by
  cases h <;> rfl

theorem Clearing.phase_ne_extract {levels : Nat} {outcome : Except Fault Report}
    {request after : Request} {disk later : Disk}
    (h : Clearing levels outcome request disk after later) :
    request.phase ≠ .extract := by
  cases h with
  | begins hphase => simp [hphase]
  | does hphase => simp [hphase]
  | ends hphase => simp [hphase]
  | isOverrun hphase => simp [hphase]

/-- While there is something else to do, the cleaning up does not begin. -/
theorem hasBegun_take {auditor : Auditor} {request : Request}
    {disk : Disk} {turn : Turn} (h : request.phase.isBusy = true) :
    (request.take auditor disk turn).1.phase.hasBegun = false := by
  cases take_passage auditor request disk turn with
  | stays phase =>
    rw [phase]
    exact Phase.hasBegun_of_isBusy h
  | goesOn stages busy ahead sound unbegun => exact unbegun
  | fails fault busy phase =>
    rw [phase]
    rfl
  | clears outcome phase =>
    rw [phase] at h
    cases h
  | cleansUp outcome phase =>
    rw [phase] at h
    cases h
  | overruns outcome phase =>
    rw [phase] at h
    cases h

/-- The cleaning up does not go on. -/
structure Rests (before after : Request) : Prop where
  busy : before.phase.isBusy = true → after.phase.hasBegun = false
  idle : before.phase.isBusy = false → after.phase = before.phase

theorem Rests.hasBegun {before after : Request} (h : Rests before after) :
    after.phase.hasBegun = before.phase.hasBegun := by
  cases hbusy : before.phase.isBusy with
  | true => rw [h.busy hbusy, Phase.hasBegun_of_isBusy hbusy]
  | false => rw [h.idle hbusy]

theorem Rests.left? {before after : Request} (h : Rests before after) :
    after.phase.left? = before.phase.left? := by
  cases hbusy : before.phase.isBusy with
  | true =>
    rw [Phase.left?_of_hasBegun (h.busy hbusy),
      Phase.left?_of_hasBegun (Phase.hasBegun_of_isBusy hbusy)]
  | false => rw [h.idle hbusy]

theorem Rests.phase {before after : Request} (h : Rests before after)
    (hbegun : before.phase.hasBegun = true) : after.phase = before.phase := by
  cases hbusy : before.phase.isBusy with
  | true =>
    exact absurd ((Phase.hasBegun_of_isBusy hbusy).symm.trans hbegun) Bool.false_ne_true
  | false => exact h.idle hbusy

theorem take_rests (auditor : Auditor) {request : Request} (disk : Disk) {turn : Turn}
    (h : ∀ outcome chores reply, request.phase = .cleanUp outcome chores →
      turn ≠ .step reply) :
    Rests request (request.take auditor disk turn).1 := by
  refine ⟨hasBegun_take, fun hidle => ?_⟩
  obtain ⟨directory, record, phase, worker, exchange, analysis⟩ := request
  cases turn with
  | step reply =>
    cases phase with
    | cleanUp outcome chores => exact absurd rfl (h outcome chores reply rfl)
    | ended outcome => rfl
    | overrun outcome => rfl
    | _ => cases hidle
  | work => exact phase_work _ disk
  | event event => exact phase_notice _ event
  | failure fault =>
    cases phase with
    | cleanUp outcome chores => rfl
    | ended outcome => rfl
    | overrun outcome => rfl
    | _ => cases hidle
  | cancellation =>
    cases phase with
    | cleanUp outcome chores => rfl
    | ended outcome => rfl
    | overrun outcome => rfl
    | _ => cases hidle

/-- **What a turn can do to the disk.** -/
theorem take_cases (auditor : Auditor) (request : Request) (disk : Disk) (turn : Turn) :
    Labour turn request (request.take auditor disk turn).1 disk
      (request.take auditor disk turn).2 ∧
      Rests request (request.take auditor disk turn).1 ∨
    ∃ outcome reply, turn = .step reply ∧
      Clearing auditor.platform.removing outcome request disk
        (request.take auditor disk turn).1
        (request.take auditor disk turn).2 := by
  by_cases h : ∀ outcome chores reply, request.phase = .cleanUp outcome chores →
    turn ≠ .step reply
  · exact .inl ⟨take_labour auditor disk h, take_rests auditor disk h⟩
  · simp only [not_forall, not_not] at h
    obtain ⟨outcome, chores, reply, hphase, rfl⟩ := h
    refine .inr ⟨outcome, reply, rfl, ?_⟩
    simp only [take, step, hphase]
    exact clean_clearing hphase _ disk

end Request

end ExtensionAudit
