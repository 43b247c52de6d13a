import ExtensionAudit.Proofs.Chore
import ExtensionAudit.Proofs.Request.Labour
import ExtensionAudit.Proofs.Request.Total
import ExtensionAudit.Request.Scene

/-!
# Request — cleaning up while the worker goes on

A request is over when its cleaning up is noted, or overrun by a directory that is too
deep. When it is noted, the extraction directory is gone, and stays so, unless the
request was cancelled while its archive was extracted: then nothing waits for the
worker, which goes on beside the cleaning up and after it (`Call.directory_cleaned`).
What it puts into a directory that has been listed keeps the directory from being
removed, and when the directory is gone, it makes it once more.
-/

namespace ExtensionAudit

/-- Is the path a directory, with something in it more than so many levels down? -/
def Disk.IsTooDeep (disk : Disk) (path : Path) (levels : Nat) : Prop :=
  disk.node? path.place = some .directory ∧
    ∃ names, levels < names.length ∧ disk.node? (path.place ++ names) ≠ none

/-! ## Scenes -/

namespace Scene

variable {call : Call} {scene : Scene} {turn : Request.Turn}
    {outcome : Except Fault Report}

/-- What holds of every scene of a call. What was there before the extraction directory
was made stays there. The directory is a tree until the cleaning up begins. As long as
something is left of that, the directory is there, and what is left is about it. If it
was overrun, something in it is too deep. -/
structure Follows (call : Call) (scene : Scene) : Prop where
  inOrder : Request.InOrder call.origin.path scene.request
  workspace : scene.request.directory = call.directory
  kept : call.before.Keeps scene.disk
  straight : ∀ action ∈ scene.request.worker.pending, action.IsStraight
  tree : scene.request.phase.hasBegun = false → scene.disk.IsTree call.directory
  standing : ∀ chores, scene.request.phase.left? = some chores → chores ≠ [] →
    scene.disk.node? call.directory.place = some .directory ∧
      Chore.AreFor call.auditor.platform.removing call.directory.place chores
  overrun : ∀ outcome, scene.request.phase = .overrun outcome →
    scene.disk.IsTooDeep call.directory call.auditor.platform.removing

theorem clearing_step {chores : Option (List Chore)}
    (h : scene.request.phase = .cleanUp outcome chores) (auditor : Auditor)
    (reply : Fetch.Reply) : ∃ after later,
      scene.take auditor (.step reply) = ⟨after, later⟩ ∧
        Request.Clearing auditor.platform.removing outcome scene.request scene.disk
          after later := by
  have hstep : scene.take auditor (.step reply) =
      ⟨(scene.request.clean auditor.platform.removing scene.disk outcome chores).1,
        (scene.request.clean auditor.platform.removing scene.disk outcome chores).2⟩ := by
    simp only [take, Request.take, Request.step, h]
  exact ⟨_, _, hstep, Request.clean_clearing h _ scene.disk⟩

/-- With a chore that is done, what follows from the one before follows still. -/
theorem Follows.chore {chore : Chore} {rest more : List Chore} {later : Disk}
    (h : Follows call scene) (fresh : call.before.IsGone call.directory)
    (hphase : scene.request.phase = .cleanUp outcome (some (chore :: rest)))
    (hrun : chore.run scene.disk = some (more, later)) :
    call.before.Keeps later ∧ (more ++ rest ≠ [] →
      later.node? call.directory.place = some .directory ∧
        Chore.AreFor call.auditor.platform.removing call.directory.place
          (more ++ rest)) := by
  obtain ⟨hdirectory, hchores⟩ :=
    h.standing (chore :: rest) (by rw [hphase]; rfl) (List.cons_ne_nil _ _)
  have hbelow : call.directory.place <+: chore.place := by
    rcases hchores.cases with ⟨hchore, -⟩ | ⟨rfl, -⟩
    · exact hchore.isPrefix
    · exact List.prefix_refl _
  refine ⟨fun key hkey => ?_, fun hne => ?_⟩
  · -- What was a directory before is neither the extraction directory nor below it.
    have hother : key ≠ chore.place := by
      rintro rfl
      obtain ⟨names, hnames⟩ := hbelow
      rw [← hnames, fresh names] at hkey
      cases hkey
    exact (Chore.node?_run_of_ne (.inl hother) hrun).trans (h.kept key hkey)
  · rcases hchores.cases with ⟨hchore, hrest⟩ | ⟨rfl, rfl⟩
    · exact ⟨(hchore.node?_run hrun).trans hdirectory, .run hchore hrest hrun⟩
    · -- The last chore leads to no other.
      cases Chore.does_of_run hrun with
      | drops | leaves => exact absurd rfl hne

/-- A chore that overruns the cleaning up has found something too deep. -/
theorem Follows.isTooDeep {chore : Chore} {rest : List Chore} (h : Follows call scene)
    (hphase : scene.request.phase = .cleanUp outcome (some (chore :: rest)))
    (hrun : chore.run scene.disk = none) :
    scene.disk.IsTooDeep call.directory call.auditor.platform.removing := by
  obtain ⟨hdirectory, hchores⟩ :=
    h.standing (chore :: rest) (by rw [hphase]; rfl) (List.cons_ne_nil _ _)
  rcases hchores.cases with ⟨hchore, -⟩ | ⟨rfl, -⟩
  · obtain ⟨names, node, hdeep, hm⟩ := hchore.of_overrun hrun
    exact ⟨hdirectory, names, hdeep, Disk.node?_ne_none_of_mem hm⟩
  · obtain ⟨place, hsweep, -⟩ := Chore.of_run_eq_none hrun
    cases hsweep

theorem Follows.clearing {after : Request} {later : Disk} (h : Follows call scene)
    (fresh : call.before.IsGone call.directory) (hclearing : Request.Clearing
      call.auditor.platform.removing outcome scene.request scene.disk after later)
    (inOrder : Request.InOrder call.origin.path after) :
    Follows call ⟨after, later⟩ := by
  cases hclearing with
  | begins hphase =>
    have htree := h.tree (by rw [hphase]; rfl)
    refine ⟨inOrder, h.workspace, h.kept, h.straight, nofun,
      fun chores hchores _ => ?_, nofun⟩
    cases hchores
    rw [h.workspace]
    exact ⟨htree.isDirectory, Chore.areFor_start htree _⟩
  | does hphase hrun =>
    obtain ⟨hkept, hstanding⟩ := h.chore fresh hphase hrun
    refine ⟨inOrder, h.workspace, hkept, h.straight, nofun,
      fun chores hchores hne => ?_, nofun⟩
    cases hchores
    exact hstanding hne
  | ends hphase =>
    refine ⟨inOrder, h.workspace, h.kept, h.straight, nofun,
      fun chores hchores hne => ?_, nofun⟩
    cases hchores
    exact absurd rfl hne
  | isOverrun hphase hrun =>
    exact ⟨inOrder, h.workspace, h.kept, h.straight, nofun, nofun, fun _ _ =>
      h.isTooDeep hphase hrun⟩

theorem Follows.labour {after : Request} {later : Disk} (h : Follows call scene)
    (hlabour : Request.Labour turn scene.request after scene.disk later)
    (hrests : Request.Rests scene.request after)
    (inOrder : Request.InOrder call.origin.path after)
    (workspace : after.directory = scene.request.directory) :
    Follows call ⟨after, later⟩ := by
  obtain ⟨hkeeps, hnothing⟩ := hlabour.keeps
  refine ⟨inOrder, workspace.trans h.workspace, h.kept.trans hkeeps, fun action hm => ?_,
    fun hbegun => ?_, fun chores hchores hne => ?_, fun outcome hphase => ?_⟩
  · rcases hlabour.pending_cases hm with hm | ⟨platform, archive, hm⟩
    · exact h.straight action hm
    · exact Archive.planned_isStraight hm
  · have htree := h.tree (hrests.hasBegun.symm.trans hbegun)
    rcases hlabour.disk_cases with hdisk | ⟨action, hm, hrun, -⟩
    · rw [hdisk]
      exact htree
    · rw [h.workspace] at hrun
      exact Archive.Action.isTree_run (h.straight action hm) htree hrun
  · obtain ⟨hdirectory, hare⟩ := h.standing chores (hrests.left?.symm.trans hchores) hne
    exact ⟨hkeeps _ hdirectory, hare⟩
  · have hbegun : scene.request.phase.hasBegun = true := by
      rw [← hrests.hasBegun, show after.phase = .overrun outcome from hphase]
      rfl
    obtain ⟨hdirectory, names, hdeep, hthere⟩ :=
      h.overrun outcome ((hrests.phase hbegun).symm.trans hphase)
    exact ⟨hkeeps _ hdirectory, names, hdeep, fun hnone => hthere (hnothing _ hnone)⟩

theorem Follows.take (h : Follows call scene) (fresh : call.before.IsGone call.directory)
    (turn : Request.Turn) : Follows call (scene.take call.auditor turn) := by
  have hinOrder :=
    h.inOrder.passage (Request.take_passage call.auditor scene.request scene.disk turn)
  rcases Request.take_cases call.auditor scene.request scene.disk turn with
    ⟨hlabour, hrests⟩ | ⟨outcome, reply, -, hclearing⟩
  · exact h.labour hlabour hrests hinOrder (Request.directory_take ..)
  · exact h.clearing fresh hclearing hinOrder

end Scene

namespace Call

variable {call : Call} {turns : List Request.Turn}

theorem sceneAfter_append (call : Call) (first second : List Request.Turn) :
    call.sceneAfter (first ++ second) =
      (call.sceneAfter first).run call.auditor second := by
  rw [sceneAfter, Scene.run, List.foldl_append]
  rfl

theorem sceneAfter_concat (call : Call) (turns : List Request.Turn)
    (turn : Request.Turn) :
    call.sceneAfter (turns ++ [turn]) = (call.sceneAfter turns).take call.auditor turn :=
  call.sceneAfter_append turns [turn]

theorem follows_sceneAfter (fresh : call.before.IsGone call.directory)
    (turns : List Request.Turn) :
    Scene.Follows call (call.sceneAfter turns) := by
  induction turns using List.reverseRecOn with
  | nil =>
    have hleft : (call.origin.request call.directory).phase.left? = none := by
      cases call.origin <;> rfl
    have hgoing : (call.origin.request call.directory).isEnded = false := by
      cases call.origin <;> rfl
    have hkept : call.before.Keeps call.opened := by
      obtain ⟨-, hnone, -, hopened⟩ := Disk.makeDirectory_ok call.isOpened
      rw [hopened]
      exact .put (by simp [hnone]) _
    refine ⟨Request.inOrder_request call.directory call.origin, ?_, hkept, ?_,
      fun _ => (fresh.isEmptyDirectory call.isOpened).isTree, fun chores h => ?_,
      fun outcome h => ?_⟩
    · show (call.origin.request call.directory).directory = call.directory
      cases call.origin <;> rfl
    · show ∀ action ∈ (call.origin.request call.directory).worker.pending,
        action.IsStraight
      cases call.origin <;> exact nofun
    · cases hleft.symm.trans h
    · rw [Request.isEnded,
        show (call.origin.request call.directory).phase = .overrun outcome from h]
        at hgoing
      cases hgoing
  | append_singleton turns turn ih =>
    rw [sceneAfter_concat]
    exact ih.take fresh turn

end Call

/-! ## When nothing comes in between -/

namespace Scene

variable {call : Call} {scene : Scene} {outcome : Except Fault Report}

/-- What is left of the cleaning up, and the disk, are what its chores come to by
themselves, starting from a tree. -/
def IsUndisturbed (call : Call) (scene : Scene) : Prop :=
  ∀ chores, scene.request.phase.left? = some chores →
    ∃ grown : Disk, grown.IsTree call.directory ∧
    Chore.Leads (Chore.start call.auditor.platform.removing grown call.directory, grown)
      (chores, scene.disk)

theorem IsUndisturbed.clearing {after : Request} {later : Disk}
    (h : IsUndisturbed call scene) (hfollows : Follows call scene)
    (hclearing : Request.Clearing call.auditor.platform.removing outcome scene.request
      scene.disk after later) : IsUndisturbed call ⟨after, later⟩ := by
  cases hclearing with
  | begins hphase =>
    intro chores hchores
    cases hchores
    refine ⟨scene.disk, hfollows.tree (by rw [hphase]; rfl), ?_⟩
    rw [hfollows.workspace]
    exact .refl _
  | does hphase hrun =>
    intro chores hchores
    cases hchores
    obtain ⟨grown, htree, hleads⟩ := h _ (by rw [hphase]; rfl)
    exact ⟨grown, htree, hleads.concat hrun⟩
  | ends hphase =>
    intro chores hchores
    cases hchores
    exact h [] (by rw [hphase]; rfl)
  | isOverrun hphase hrun => exact nofun

/-- When the chores are done, and nothing came in between, the directory is gone. -/
theorem IsUndisturbed.isGone (h : IsUndisturbed call scene)
    (hphase : scene.request.phase = .ended outcome)
    (hfixed : ¬ Disk.IsFixed call.directory.place) :
    scene.disk.IsGone call.directory := by
  obtain ⟨grown, htree, hleads⟩ := h [] (by rw [hphase]; rfl)
  rw [hleads.of_start htree hfixed]
  exact Disk.node?_remove hfixed grown

/-- A cleaning up comes to its end, or is overrun, when nothing comes in between any
more, whatever came before. -/
theorem exists_run_over (scene : Scene) {chores : Option (List Chore)}
    (hphase : scene.request.phase = .cleanUp outcome chores) (auditor : Auditor)
    (reply : Fetch.Reply) :
    ∃ n, let last := scene.run auditor (List.replicate n (.step reply))
      last.request.phase = .ended outcome ∨ last.request.phase = .overrun outcome := by
  -- The induction is on the chores that are left at the most.
  induction hleft : scene.request.remaining auditor.platform.removing scene.disk using
    Nat.strong_induction_on generalizing scene chores with
  | _ left ih =>
    obtain ⟨after, later, htake, hclearing⟩ := clearing_step hphase auditor reply
    have hnext {chores : List Chore}
        (hafter : after.phase = .cleanUp outcome (some chores))
        (hless : Chore.costs later chores < left) :
        ∃ n, let last := scene.run auditor (List.replicate n (.step reply))
          last.request.phase = .ended outcome ∨
          last.request.phase = .overrun outcome := by
      have hremaining : after.remaining auditor.platform.removing later =
          Chore.costs later chores := by
        rw [Request.remaining, hafter]
        rfl
      obtain ⟨n, hn⟩ := ih _ hless ⟨after, later⟩ hafter hremaining
      refine ⟨n + 1, ?_⟩
      rw [List.replicate_succ, run, List.foldl_cons, htake]
      exact hn
    have hlast : scene.run auditor (List.replicate 1 (.step reply)) =
        ⟨after, later⟩ := htake
    subst hleft
    cases hclearing with
    | begins hbegun =>
      refine hnext rfl ?_
      rw [Request.remaining, hbegun]
      exact Nat.lt_succ_self _
    | does hdone hrun =>
      refine hnext rfl ?_
      rw [Request.remaining, hdone]
      exact Chore.costs_lt hrun
    | ends => exact ⟨1, .inl (by rw [hlast])⟩
    | isOverrun => exact ⟨1, .inr (by rw [hlast]; rfl)⟩

end Scene

/-! ## What comes in between -/

namespace Call

variable {call : Call} {turns : List Request.Turn}

/-- The worker changed the disk when the cleaning up had begun. -/
def IsDisturbed (call : Call) (turns : List Request.Turn) : Prop :=
  ∃ first rest, turns = first ++ .work :: rest ∧
    (call.sceneAfter first).request.phase.hasBegun = true ∧
    (call.sceneAfter (first ++ [.work])).disk ≠ (call.sceneAfter first).disk

/-- The request was cancelled while its archive was extracted. -/
def IsAbandoned (call : Call) (turns : List Request.Turn) : Prop :=
  ∃ first rest, turns = first ++ .cancellation :: rest ∧
    (call.sceneAfter first).request.phase = .extract

theorem IsDisturbed.append (h : call.IsDisturbed turns) (more : List Request.Turn) :
    call.IsDisturbed (turns ++ more) := by
  obtain ⟨first, rest, rfl, hbegun, hdisk⟩ := h
  exact ⟨first, rest ++ more, by simp, hbegun, hdisk⟩

theorem IsAbandoned.append (h : call.IsAbandoned turns) (more : List Request.Turn) :
    call.IsAbandoned (turns ++ more) := by
  obtain ⟨first, rest, rfl, hphase⟩ := h
  exact ⟨first, rest ++ more, by simp, hphase⟩

theorem isUndisturbed_sceneAfter (fresh : call.before.IsGone call.directory)
    (turns : List Request.Turn) (h : ¬ call.IsDisturbed turns) :
    Scene.IsUndisturbed call (call.sceneAfter turns) := by
  induction turns using List.reverseRecOn with
  | nil =>
    intro chores hchores
    have hleft : (call.origin.request call.directory).phase.left? = none := by
      cases call.origin <;> rfl
    cases hleft.symm.trans hchores
  | append_singleton turns turn ih =>
    have hscene := ih fun hdisturbed => h (hdisturbed.append [turn])
    have hfollows := follows_sceneAfter fresh turns
    rw [sceneAfter_concat]
    rcases Request.take_cases call.auditor (call.sceneAfter turns).request
      (call.sceneAfter turns).disk
      turn with ⟨hlabour, hrests⟩ | ⟨outcome, reply, -, hclearing⟩
    · intro chores hchores
      have hleft := hrests.left?.symm.trans hchores
      have hbegun : (call.sceneAfter turns).request.phase.hasBegun = true := by
        by_contra hnot
        rw [Phase.left?_of_hasBegun (by simpa using hnot)] at hleft
        cases hleft
      have hdisk : ((call.sceneAfter turns).take call.auditor turn).disk =
          (call.sceneAfter turns).disk := by
        -- Only the worker could change the disk here, and then it would come in between.
        by_contra hchanged
        rcases hlabour.disk_cases with hsame | ⟨action, -, -, rfl | hextract⟩
        · exact hchanged hsame
        · refine h ⟨turns, [], rfl, hbegun, ?_⟩
          rw [sceneAfter_concat]
          exact hchanged
        · rw [hextract] at hbegun
          cases hbegun
      rw [hdisk]
      exact hscene chores hleft
    · exact hscene.clearing hfollows hclearing

/-- A worker that has something to do extracts for the request, or was abandoned by it. -/
theorem phase_of_pending (turns : List Request.Turn)
    (h : (call.sceneAfter turns).request.worker.pending ≠ []) :
    (call.sceneAfter turns).request.phase = .extract ∨ call.IsAbandoned turns := by
  induction turns using List.reverseRecOn with
  | nil =>
    refine absurd ?_ h
    show (call.origin.request call.directory).worker.pending = []
    cases call.origin <;> rfl
  | append_singleton turns turn ih =>
    rw [sceneAfter_concat] at h ⊢
    have hearlier (hpending : (call.sceneAfter turns).request.worker.pending ≠ [])
        (hphase : (call.sceneAfter turns).request.phase ≠ .extract) :
        call.IsAbandoned (turns ++ [turn]) :=
      ((ih hpending).resolve_left hphase).append [turn]
    rcases Request.take_cases call.auditor (call.sceneAfter turns).request
      (call.sceneAfter turns).disk
      turn with ⟨hlabour, -⟩ | ⟨outcome, reply, -, hclearing⟩
    · -- A request leaves its worker with something to do only when it is cancelled. In
      -- any other phase the worker had something to do before, so it was left then.
      by_cases hphase : (call.sceneAfter turns).request.phase = .extract
      · cases hlabour with
        | rests worker unchanged abandoned =>
          rcases abandoned hphase with hextract | rfl | hpending
          · exact .inl hextract
          · exact .inr ⟨turns, [], rfl, hphase⟩
          · exact absurd (worker ▸ hpending) h
        | begins platform archive worker phase => exact .inl phase
        | stops worker => exact absurd worker h
        | acts action rest pending run worker phase => exact .inl (phase.trans hphase)
      · cases hlabour with
        | rests worker => exact .inr (hearlier (worker ▸ h) hphase)
        | begins platform archive worker phase => exact .inl phase
        | stops worker => exact absurd worker h
        | acts action rest pending => exact .inr (hearlier (by simp [pending]) hphase)
    · -- The cleaning up leaves the worker alone.
      have hworker : ((call.sceneAfter turns).take call.auditor turn).request.worker =
          (call.sceneAfter turns).request.worker := hclearing.worker
      rw [hworker] at h
      exact .inr (hearlier h hclearing.phase_ne_extract)

/-- Only a worker that was abandoned comes in between. -/
theorem IsDisturbed.isAbandoned (h : call.IsDisturbed turns) :
    call.IsAbandoned turns := by
  obtain ⟨first, rest, rfl, hbegun, hdisk⟩ := h
  have hpending : (call.sceneAfter first).request.worker.pending ≠ [] := by
    intro hpending
    rw [sceneAfter_concat] at hdisk
    exact hdisk (by simp only [Scene.take, Request.take, Request.work, hpending])
  have hphase : (call.sceneAfter first).request.phase ≠ .extract := by
    intro hextract
    rw [hextract] at hbegun
    cases hbegun
  exact ((phase_of_pending first hpending).resolve_left hphase).append _

end Call

/-! ## Afterwards -/

namespace Scene

variable {call : Call} {scene : Scene} {turn : Request.Turn}

/-- The worker is about to put something where the extraction directory was. -/
def IsAboutToPut (scene : Scene) : Prop :=
  ∃ action rest, scene.request.worker.pending = action :: rest ∧ action.IsRooted

/-- When a request is over, only its worker does anything. -/
theorem take_of_isEnded (h : scene.request.isEnded = true) (hturn : turn ≠ .work)
    (auditor : Auditor) :
    scene.take auditor turn = scene := by
  obtain ⟨⟨directory, record, phase, worker, exchange, analysis⟩, disk⟩ := scene
  cases phase with
  | ended outcome =>
    cases turn with
    | work => exact absurd rfl hturn
    | _ => rfl
  | overrun outcome =>
    cases turn with
    | work => exact absurd rfl hturn
    | _ => rfl
  | _ => cases h

/-- The worker leaves the directory gone just if it was gone and the worker was not
about to put something there. Then it has nothing left to do. -/
theorem Follows.isGone_work_iff (h : Follows call scene) :
    ((scene.request.work scene.disk).2.IsGone call.directory ↔
      scene.disk.IsGone call.directory ∧ ¬ scene.IsAboutToPut) ∧
    (scene.disk.IsGone call.directory → ¬ scene.IsAboutToPut →
      (scene.request.work scene.disk).1.worker.pending = []) := by
  obtain ⟨hlocated, -, hparent, -⟩ := Disk.makeDirectory_ok call.isOpened
  rw [Request.work]
  cases hpending : scene.request.worker.pending with
  | nil =>
    refine ⟨(and_iff_left ?_).symm, fun _ _ => hpending⟩
    rintro ⟨action, rest, hcons, -⟩
    cases hpending.symm.trans hcons
  | cons action rest =>
    have habout (hrooted : action.IsRooted) : scene.IsAboutToPut :=
      ⟨action, rest, hpending, hrooted⟩
    dsimp only
    cases hrun : action.run scene.request.directory scene.disk with
    | ok later =>
      -- An action that is done leaves something in the directory.
      rw [h.workspace] at hrun
      have hrooted (hgone : scene.disk.IsGone call.directory) :=
        Archive.Action.rooted_of_run hgone hrun
      refine ⟨iff_of_false (fun hgone => ?_) fun h => h.2 (habout (hrooted h.1).1),
        fun hgone hnot => absurd (habout (hrooted hgone).1) hnot⟩
      exact (hrooted fun names =>
        Archive.Action.node?_of_run hrun (hgone names)).2 hgone.node?
    | error fault =>
      -- An action that fails changes nothing. It is none that makes the directory again,
      -- as what the directory was in is still there.
      rw [h.workspace] at hrun
      refine ⟨⟨fun hgone => ⟨hgone, ?_⟩, fun hgone => hgone.1⟩, fun _ _ => rfl⟩
      rintro ⟨other, others, hcons, hrooted⟩
      cases hpending.symm.trans hcons
      obtain ⟨later, hlater⟩ :=
        Archive.Action.run_of_isRooted hgone (h.kept.locate hlocated)
        (h.kept _ hparent) hrooted
      cases hrun.symm.trans hlater

/-- Whatever turns come when a request is over, the directory is gone just if it was
gone, and the worker either does nothing or was not about to put something there. -/
theorem Follows.isGone_run_iff (h : Follows call scene)
    (fresh : call.before.IsGone call.directory) (hended : scene.request.isEnded = true)
    (later : List Request.Turn) :
    (scene.run call.auditor later).disk.IsGone call.directory ↔
      scene.disk.IsGone call.directory ∧ (.work ∈ later → ¬ scene.IsAboutToPut) := by
  induction later generalizing scene with
  | nil => exact (and_iff_left fun h => absurd h List.not_mem_nil).symm
  | cons turn rest ih =>
    show ((scene.take call.auditor turn).run call.auditor rest).disk.IsGone
        call.directory ↔ _
    by_cases hturn : turn = .work
    · subst hturn
      obtain ⟨hgone, hdone⟩ := h.isGone_work_iff
      have hnext : (scene.take call.auditor .work).request.isEnded = true := by
        rw [Request.isEnded, show (scene.take call.auditor .work).request.phase =
          scene.request.phase from Request.phase_work scene.request scene.disk]
        exact hended
      rw [ih (h.take fresh .work) hnext]
      constructor
      · rintro ⟨hlater, -⟩
        exact ⟨(hgone.mp hlater).1, fun _ => (hgone.mp hlater).2⟩
      · -- The worker fails at this turn, and has nothing to do at a later one.
        rintro ⟨hnow, hnot⟩
        have habout := hnot List.mem_cons_self
        refine ⟨hgone.mpr ⟨hnow, habout⟩, ?_⟩
        rintro - ⟨action, others, hcons, -⟩
        cases (hdone hnow habout).symm.trans hcons
    · rw [take_of_isEnded hended hturn, ih h hended, List.mem_cons,
        or_iff_right (Ne.symm hturn)]

end Scene

namespace Call

/-- **What is left of the extraction directory.** The cleaning up of a request comes to
its end when nothing comes in between any more, or is overrun by something that is too
deep. When it has come to its end, it was noted once. If the request was not cancelled
while its archive was extracted, nothing is at the directory or below it then and ever
after. If something is there, the request was cancelled so, and its worker changed the
disk when the cleaning up had begun. And nothing is there later just if nothing is there
now and the worker either does nothing more or is not about to put something in the
place of the directory. -/
theorem directory_cleaned (call : Call) (fresh : call.before.IsGone call.directory) :
    (∀ outcome chores, call.scene.request.phase = .cleanUp outcome chores → ∀ reply, ∃ n,
      let last := call.sceneAfter (call.turns ++ List.replicate n (.step reply))
      last.request.phase = .ended outcome ∨
        last.request.phase = .overrun outcome ∧
          last.disk.IsTooDeep call.directory call.auditor.platform.removing) ∧
    ∀ outcome, call.scene.request.phase = .ended outcome →
      call.scene.request.record.cleanups = 1 ∧
      (¬ call.IsAbandoned call.turns →
        ∀ later, (call.sceneAfter (call.turns ++ later)).disk.IsGone call.directory) ∧
      (¬ call.scene.disk.IsGone call.directory →
        call.IsAbandoned call.turns ∧ call.IsDisturbed call.turns) ∧
      ∀ later, (call.sceneAfter (call.turns ++ later)).disk.IsGone call.directory ↔
        call.scene.disk.IsGone call.directory ∧
        (.work ∈ later → ¬ call.scene.IsAboutToPut) := by
  refine ⟨fun outcome chores cleaning reply => ?_, fun outcome ended => ?_⟩
  · obtain ⟨n, hn⟩ := Scene.exists_run_over call.scene cleaning call.auditor reply
    have hlast := follows_sceneAfter fresh (call.turns ++ List.replicate n (.step reply))
    rw [scene, ← sceneAfter_append] at hn
    exact ⟨n, hn.imp_right fun hover => ⟨hover, hlast.overrun outcome hover⟩⟩
  have hfollows : Scene.Follows call call.scene := follows_sceneAfter fresh call.turns
  have hended : call.scene.request.isEnded = true := by rw [Request.isEnded, ended]
  have hgone (h : ¬ call.IsDisturbed call.turns) :
      call.scene.disk.IsGone call.directory :=
    (isUndisturbed_sceneAfter fresh call.turns h).isGone ended fresh.not_fixed
  have hlater (later : List Request.Turn) :
      (call.sceneAfter (call.turns ++ later)).disk.IsGone call.directory ↔
        call.scene.disk.IsGone call.directory ∧
        (.work ∈ later → ¬ call.scene.IsAboutToPut) := by
    rw [sceneAfter_append]
    exact hfollows.isGone_run_iff fresh hended later
  refine ⟨?_, fun h later => ?_, fun h => ?_, hlater⟩
  · rw [hfollows.inOrder.cleanups, ended]
    rfl
  · refine (hlater later).mpr ⟨hgone fun hdisturbed => h hdisturbed.isAbandoned, ?_⟩
    rintro - ⟨action, rest, hpending, -⟩
    have hphase : call.scene.request.phase ≠ .extract := by simp [ended]
    have hne : call.scene.request.worker.pending ≠ [] := by simp [hpending]
    exact h ((phase_of_pending call.turns hne).resolve_left hphase)
  · have hdisturbed : call.IsDisturbed call.turns := by
      by_contra hnot
      exact h (hgone hnot)
    exact ⟨hdisturbed.isAbandoned, hdisturbed⟩

/-! ### Two requests that are cancelled -/

/-- A call for a package with nothing but a manifest. -/
def plainExtraction (turns : List Request.Turn) : Call where
  auditor := bareAuditor false
  origin := .package (Package.headed [7] plainArchive)
  directory := .ofNames ["work"]
  before := .empty
  opened := workDisk []
  isOpened := makeDirectory_workDisk
  turns := turns

/-- A step of the request by itself. -/
def ownStep : Request.Turn := .step (.failure [])

/-- The request is cancelled when its package is opened, and the worker waits until it
is over. -/
def lateWorker : Call :=
  plainExtraction [ownStep, .cancellation, ownStep, ownStep, ownStep, ownStep]

/-- The request is cancelled, and the worker writes the manifest when the directory has
been listed. -/
def interveningWorker : Call :=
  plainExtraction [ownStep, .work, .cancellation, ownStep, ownStep, .work,
    ownStep, ownStep]

/-- The scene when the package is opened. -/
def openedScene : Scene :=
  ⟨⟨.ofNames ["work"], ⟨[.fetched, .parsed], none, none, 0⟩, .extract,
    ⟨[.enter Platform.plain.making ["manifest.json"],
      .write ["manifest.json"] emptyManifest.2], none⟩,
    none, none⟩, workDisk []⟩

theorem sceneAfter_ownStep (turns rest : List Request.Turn) :
    (plainExtraction turns).sceneAfter (ownStep :: rest) =
      openedScene.run (bareAuditor false) rest := by
  have hstep : Scene.take (bareAuditor false)
      ⟨.ofPackage (.ofNames ["work"]) (Package.headed [7] plainArchive),
        workDisk []⟩ ownStep =
        openedScene := by
    have hplatform : (bareAuditor false).platform = .plain := rfl
    simp only [ownStep, Scene.take, Request.take, Request.step, Request.ofPackage,
      Package.payload_headed plainArchive (show [7].length < 2 ^ 32 by decide),
      Except.mapError, Request.attempt, hplatform, planned_plainArchive]
    rfl
  rw [sceneAfter, Scene.run, List.foldl_cons]
  exact congrArg (fun scene =>
    List.foldl (Scene.take (bareAuditor false)) scene rest) hstep

theorem isFresh_work : Disk.empty.IsFresh (.ofNames ["work"]) :=
  Disk.isFresh_empty (by rintro (h | h) <;> cases h) ⟨workDisk [], by decide⟩

/-- The directory of the one request is gone at the end, and stays so just if the worker
does nothing more. -/
theorem directory_cleaned_lateWorker :
    lateWorker.scene.request.record.cleanups = 1 ∧
      ∀ later, (lateWorker.sceneAfter (lateWorker.turns ++ later)).disk.IsGone
        lateWorker.directory ↔
        .work ∉ later := by
  have hscene : lateWorker.scene =
      openedScene.run (bareAuditor false) [.cancellation, ownStep, ownStep,
        ownStep, ownStep] :=
    sceneAfter_ownStep _ _
  have hended : lateWorker.scene.request.phase = .ended (.error .cancelled) := by
    rw [hscene]
    rfl
  obtain ⟨-, hover⟩ := directory_cleaned lateWorker isFresh_work.gone
  obtain ⟨hcleanups, -, -, hlater⟩ := hover _ hended
  have hgone : lateWorker.scene.disk.IsGone lateWorker.directory := by
    rw [hscene]
    exact isFresh_work.gone
  have habout : lateWorker.scene.IsAboutToPut := by
    rw [hscene]
    exact ⟨_, _, rfl, show 1 ≤ 990 by decide⟩
  refine ⟨hcleanups, fun later => ?_⟩
  rw [hlater later, and_iff_right hgone]
  exact ⟨fun h hwork => h hwork habout, fun h hwork => absurd hwork h⟩

/-- The one directory is there once more after the request is over, and the other is
there when it is over. -/
theorem isPresent_cancelled :
    (lateWorker.scene.request.phase = .ended (.error .cancelled) ∧
      lateWorker.scene.request.record.cleanups = 1 ∧
      lateWorker.scene.disk.isPresent lateWorker.directory = false ∧
      (lateWorker.sceneAfter (lateWorker.turns ++ [.work])).disk.isPresent
        lateWorker.directory = true) ∧
    interveningWorker.scene.request.phase = .ended (.error .cancelled) ∧
      interveningWorker.scene.request.record.cleanups = 1 ∧
      interveningWorker.scene.disk.isPresent interveningWorker.directory = true := by
  have hlate : lateWorker.scene =
      openedScene.run (bareAuditor false) [.cancellation, ownStep, ownStep,
        ownStep, ownStep] :=
    sceneAfter_ownStep _ _
  have hlater : lateWorker.sceneAfter (lateWorker.turns ++ [.work]) =
      openedScene.run (bareAuditor false)
        [.cancellation, ownStep, ownStep, ownStep, ownStep, .work] :=
    sceneAfter_ownStep _ _
  have hintervening : interveningWorker.scene =
      openedScene.run (bareAuditor false)
        [.work, .cancellation, ownStep, ownStep, .work, ownStep, ownStep] :=
    sceneAfter_ownStep _ _
  rw [hlate, hlater, hintervening]
  exact ⟨⟨rfl, rfl, rfl, rfl⟩, rfl, rfl, rfl⟩

end Call

end ExtensionAudit
