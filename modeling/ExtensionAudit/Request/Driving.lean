import ExtensionAudit.Request.Basic

/-!
Driving a request to its end. Every step leaves fewer phases, or less to do in the same
phase, so a request that nothing else touches ends. What is left of the cleaning up
depends on the disk.
-/

namespace ExtensionAudit.Request

/-- The phases still to come, and the steps still to take in this one. -/
def measure (levels : Nat) (request : Request) (disk : Disk) : Nat × Nat :=
  (rank request.phase, request.remaining levels disk)

/-- Is the request over? -/
def isEnded (request : Request) : Bool :=
  match request.phase with
  | .ended _ | .overrun _ => true
  | _ => false

theorem rank_attempt {α : Type} {request : Request} {result : Except Fault α}
    {next : α → Request} {n : Nat} (hn : 1 < n) (h : ∀ a, rank (next a).phase < n) :
    rank (request.attempt result next).phase < n := by
  cases result with
  | ok a => exact h a
  | error fault => exact hn

theorem phase_work (request : Request) (disk : Disk) :
    (request.work disk).1.phase = request.phase := by
  unfold work
  split
  · rfl
  · split <;> rfl

theorem length_pending_work (request : Request) (disk : Disk) {action : Archive.Action}
    {rest : List Archive.Action} (h : request.worker.pending = action :: rest) :
    (request.work disk).1.worker.pending.length < request.worker.pending.length := by
  unfold work
  rw [h]
  dsimp only
  split <;> simp

/-- Everything that happens to the analyses, if they are under way. -/
def undergo (world : World) (request : Request) : Request :=
  match request.phase with
  | .analyze work => (Analysis.schedule work world.behavior).foldl notice request
  | _ => request

/-- Is the request waiting for analyses that are not settled? -/
def isWaiting (request : Request) : Bool :=
  match request.phase with
  | .analyze _ => request.settlement?.isNone
  | _ => false

@[simp] theorem phase_notice (request : Request) (event : Analysis.Event) :
    (request.notice event).phase = request.phase := by
  unfold notice
  split <;> rfl

@[simp] theorem directory_notice (request : Request) (event : Analysis.Event) :
    (request.notice event).directory = request.directory := by
  unfold notice
  split <;> rfl

@[simp] theorem worker_notice (request : Request) (event : Analysis.Event) :
    (request.notice event).worker = request.worker := by
  unfold notice
  split <;> rfl

theorem measure_foldl_notice (levels : Nat) (events : List Analysis.Event)
    (request : Request) (disk : Disk) :
    (events.foldl notice request).measure levels disk = request.measure levels disk := by
  induction events generalizing request with
  | nil => rfl
  | cons event rest ih =>
    rw [List.foldl_cons, ih]
    simp [measure, remaining]

theorem phase_foldl_notice (events : List Analysis.Event) (request : Request) :
    (events.foldl notice request).phase = request.phase := by
  induction events generalizing request with
  | nil => rfl
  | cons event rest ih => rw [List.foldl_cons, ih, phase_notice]

theorem phase_undergo (world : World) (request : Request) :
    (request.undergo world).phase = request.phase := by
  unfold undergo
  split
  · exact phase_foldl_notice _ _
  · rfl

theorem isEnded_undergo (world : World) (request : Request) :
    (request.undergo world).isEnded = request.isEnded := by
  rw [isEnded, isEnded, phase_undergo]

theorem measure_undergo (levels : Nat) (world : World) (request : Request) (disk : Disk) :
    (request.undergo world).measure levels disk = request.measure levels disk := by
  unfold undergo
  split
  · exact measure_foldl_notice _ _ _ _
  · rfl

theorem rank_conclude_lt (request : Request) (work : Workload)
    (h : request.settlement?.isNone = false) :
    rank (request.conclude work).phase < 2 := by
  unfold conclude
  split
  · rename_i hn
    simp [hn] at h
  · exact Nat.one_lt_two
  · exact rank_attempt Nat.one_lt_two fun _ => Nat.one_lt_two

theorem measure_clean_lt {request : Request} {outcome : Except Fault Report}
    {chores : Option (List Chore)} (h : request.phase = .cleanUp outcome chores)
    (levels : Nat) (disk : Disk) :
    Prod.Lex (· < ·) (· < ·)
      ((request.clean levels disk outcome chores).1.measure levels
        (request.clean levels disk outcome chores).2)
      (request.measure levels disk) := by
  have hover {after : Request} {later : Disk} (hafter : rank after.phase = 0) :
      Prod.Lex (· < ·) (· < ·) (after.measure levels later)
        (request.measure levels disk) := by
    refine Prod.Lex.left _ _ ?_
    rw [hafter, h]
    exact Nat.one_pos
  have hless {after : Request} {later : Disk} (hafter : rank after.phase = 1)
      (hlt : after.remaining levels later < request.remaining levels disk) :
      Prod.Lex (· < ·) (· < ·) (after.measure levels later)
        (request.measure levels disk) := by
    rw [measure, measure, hafter, h]
    exact Prod.Lex.right _ hlt
  have hremaining : request.remaining levels disk =
      Chore.left levels disk request.directory chores := by
    rw [remaining, h]
  rw [clean.eq_def]
  split
  · exact hless rfl (hremaining ▸ Nat.lt_succ_self _)
  · exact hover rfl
  · split
    · rename_i hrun
      exact hless rfl (hremaining ▸ Chore.costs_lt hrun)
    · exact hover rfl

theorem measure_step_lt (auditor : Auditor) (reply : Fetch.Reply) (request : Request)
    (disk : Disk) (h : request.isEnded = false) (hw : request.isWaiting = false) :
    Prod.Lex (· < ·) (· < ·)
      ((request.step auditor reply disk).1.measure auditor.platform.removing
        (request.step auditor reply disk).2)
      (request.measure auditor.platform.removing disk) := by
  obtain ⟨directory, record, phase, worker, exchange, analysis⟩ := request
  cases phase with
  | resolve target =>
    refine Prod.Lex.left _ _ ?_
    simp only [step]
    split <;> simp [fail, enter, rank]
  | fetch id =>
    refine Prod.Lex.left _ _ ?_
    exact rank_attempt (by simp [rank]) fun _ => by simp [enter, rank]
  | parse package =>
    refine Prod.Lex.left _ _ ?_
    exact rank_attempt (by simp [rank]) fun _ => by simp [enter, rank]
  | extract =>
    obtain ⟨pending, fault⟩ := worker
    cases pending with
    | nil => cases fault <;> exact Prod.Lex.left _ _ (by simp [step, goOn, fail, rank])
    | cons action rest =>
      simp only [step, measure]
      rw [phase_work]
      refine Prod.Lex.right _ ?_
      have hp := phase_work ⟨directory, record, .extract, ⟨action :: rest, fault⟩,
          exchange, analysis⟩
        disk
      have hl := length_pending_work
        ⟨directory, record, .extract, ⟨action :: rest, fault⟩, exchange,
          analysis⟩ disk rfl
      simpa only [remaining, hp] using hl
  | readManifest =>
    refine Prod.Lex.left _ _ ?_
    exact rank_attempt (by simp [rank]) fun _ => by simp [goOn, rank]
  | list manifest =>
    refine Prod.Lex.left _ _ ?_
    exact rank_attempt (by simp [rank]) fun _ => by simp [goOn, rank]
  | read manifest pending files =>
    cases pending with
    | nil => exact Prod.Lex.left _ _ (by simp [step, enter, rank])
    | cons names rest =>
      simp only [step]
      cases (Script.read disk directory names) with
      | ok text => exact Prod.Lex.right _ (Nat.lt_succ_self _)
      | error fault => exact Prod.Lex.left _ _ (show 1 < 3 by decide)
  | analyze work => exact Prod.Lex.left _ _ (rank_conclude_lt _ _ hw)
  | cleanUp outcome chores => exact measure_clean_lt rfl _ disk
  | ended outcome => simp [isEnded] at h
  | overrun outcome => simp [isEnded] at h

/-- Takes steps until the request is over; what happens to its analyses happens before
it asks for their outcome. -/
def drive (auditor : Auditor) (world : World) (request : Request)
    (disk : Disk) : Request × Disk :=
  if request.isEnded then (request, disk)
  else if (request.undergo world).isWaiting then (request.undergo world, disk)
  else
    let next := (request.undergo world).step auditor world.reply disk
    drive auditor world next.1 next.2
termination_by request.measure auditor.platform.removing disk
decreasing_by
  rename_i he hw
  rw [← measure_undergo _ world request]
  refine measure_step_lt auditor world.reply _ disk ?_ (by simpa using hw)
  rw [isEnded_undergo]
  simpa using he

/-- What became of a request that is over. If the cleaning up was overrun, nothing else
counts. -/
def outcome (request : Request) : Except Fault Report :=
  match request.phase with
  | .ended outcome => outcome
  | .overrun _ => .error .removal
  | _ => .error .cancelled

/-- Makes the extraction directory of a request. -/
def openDirectory (request : Request) (disk : Disk) : Disk :=
  match disk.makeDirectory request.directory with
  | .ok disk => disk
  | .error _ => disk

/-- Answers a request from its start to its end. -/
def answer (auditor : Auditor) (world : World) (request : Request)
    (disk : Disk) : Request × Disk :=
  request.drive auditor world (request.openDirectory disk)

/-- The tools that were called for a request, with what was done to their processes. -/
def calls (auditor : Auditor) (request : Request) :
    List (Tool × Tool.Invocation × List Tool.Act) :=
  match request.analysis with
  | some analysis =>
    if auditor.usesTools then
      [.eslint, .retire].map fun tool =>
        (tool, auditor.invocation request.directory tool, (analysis.run tool).acts)
    else []
  | none => []

end ExtensionAudit.Request
