import ExtensionAudit.Disk.Basic

/-!
Removing a directory chore by chore, so that something else can happen to the disk in
between. A directory is listed before anything in it is removed. Then what was listed is
removed, node by node, and then the directory itself, if nothing is in it by then. What
cannot be removed stays, and nobody is told. But every directory is listed within the
listing of the one it is in, and when there are too many of them within one another, the
removal is given up where it is.
-/

namespace ExtensionAudit

namespace Disk

/-- Is a place right below another one? -/
def isRightBelow : List Text → List Text → Bool
  | [], [_] => true
  | name :: place, other :: key => sameName name other && isRightBelow place key
  | _, _ => false

/-- The nodes right below a place. -/
def children (disk : Disk) (place : List Text) : List (List Text × Node) :=
  disk.nodes.filter fun (key, _) => isRightBelow place key

/-- Removes a node, and leaves what is below it. -/
def drop (disk : Disk) (place : List Text) : Disk :=
  ⟨disk.nodes.filter fun (key, _) => key != place⟩

end Disk

/-- What there is to do for the removal of a directory: to list one from which so many
levels further down can be listed, to remove a file, or to remove a directory with
nothing in it. -/
inductive Chore
  | sweep (levels : Nat) (place : List Text)
  | unlink (place : List Text)
  | dismiss (place : List Text)
deriving DecidableEq

namespace Chore

/-- The place that a chore is about. -/
def place : Chore → List Text
  | .sweep _ place | .unlink place | .dismiss place => place

/-- The chores by which a node that was listed is removed. -/
def removing (levels : Nat) : List Text × Node → List Chore
  | (place, .directory) => [.sweep levels place, .dismiss place]
  | (place, .file _) => [.unlink place]

/-- Does a chore: what comes of it is the chores that it leads to, and the disk. Nothing
comes of it if something is found where there are no levels left. -/
def run (disk : Disk) : Chore → Option (List Chore × Disk)
  | .sweep 0 place => if disk.children place = [] then some ([], disk) else none
  | .sweep (levels + 1) place =>
    some ((disk.children place).flatMap (removing levels), disk)
  | .unlink place =>
    match disk.node? place with
    | some (.file _) => some ([], disk.drop place)
    | _ => some ([], disk)
  | .dismiss place =>
    if disk.node? place = some .directory ∧
      disk.children place = [] then some ([], disk.drop place)
    else some ([], disk)

/-- The chores by which what a path names is removed, if it names anything. -/
def start (levels : Nat) (disk : Disk) (path : Path) : List Chore :=
  match disk.locate path with
  | .ok place =>
    if (disk.node? place).isSome then [.sweep levels place, .dismiss place] else []
  | .error _ => []

/-- The sum of numbers. -/
def total : List Nat → Nat
  | [] => 0
  | number :: rest => number + total rest

/-- How many chores it takes at the most to remove what is in a directory, so many
levels down. -/
def sweepCost (disk : Disk) : Nat → List Text → Nat
  | 0, _ => 1
  | levels + 1, place =>
    1 + total ((disk.children place).map fun (key, node) =>
      match node with
      | .directory => sweepCost disk levels key + 1
      | .file _ => 1)

/-- How many chores a chore stands for at the most, with those that it leads to. -/
def cost (disk : Disk) : Chore → Nat
  | .sweep levels place => sweepCost disk levels place
  | .unlink _ | .dismiss _ => 1

/-- How many chores some chores stand for at the most. -/
def costs (disk : Disk) (chores : List Chore) : Nat := total (chores.map (cost disk))

/-- How many chores are left at the most of the removal of what a path names, which may
not have begun. -/
def left (levels : Nat) (disk : Disk) (path : Path) : Option (List Chore) → Nat
  | none => costs disk (start levels disk path) + 1
  | some chores => costs disk chores

theorem total_append (first second : List Nat) :
    total (first ++ second) = total first + total second := by
  induction first with
  | nil => exact (Nat.zero_add _).symm
  | cons number rest ih => rw [List.cons_append, total, ih, total, Nat.add_assoc]

theorem costs_append (disk : Disk) (first second : List Chore) :
    costs disk (first ++ second) = costs disk first + costs disk second := by
  rw [costs, List.map_append, total_append]
  rfl

theorem costs_removing (disk : Disk) (levels : Nat) (entries : List (List Text × Node)) :
    costs disk (entries.flatMap (removing levels)) =
      total (entries.map fun (key, node) =>
        match node with
        | .directory => sweepCost disk levels key + 1
        | .file _ => 1) := by
  induction entries with
  | nil => rfl
  | cons entry rest ih =>
    obtain ⟨key, node⟩ := entry
    rw [List.flatMap_cons, costs_append, ih, List.map_cons, total]
    cases node <;> rfl

theorem total_map_le {α : Type} {f g : α → Nat} {first second : List α}
    (h : first.Sublist second) (hle : ∀ a, f a ≤ g a) :
    total (first.map f) ≤ total (second.map g) := by
  induction h with
  | slnil => exact Nat.le_refl 0
  | cons a _ ih =>
    rw [List.map_cons, total]
    exact Nat.le_trans ih (Nat.le_add_left _ _)
  | cons_cons a _ ih =>
    rw [List.map_cons, List.map_cons, total, total]
    exact Nat.add_le_add (hle a) ih

/-- With less on the disk there is no more to do. -/
theorem sweepCost_le {disk later : Disk} (h : later.nodes.Sublist disk.nodes)
    (levels : Nat) (place : List Text) : sweepCost later levels place ≤
    sweepCost disk levels place := by
  induction levels generalizing place with
  | zero => exact Nat.le_refl 1
  | succ levels ih =>
    refine Nat.add_le_add_left (total_map_le (h.filter _) ?_) 1
    rintro ⟨key, node⟩
    cases node with
    | directory => exact Nat.add_le_add_right (ih key) 1
    | file content => exact Nat.le_refl 1

theorem costs_le {disk later : Disk} (h : later.nodes.Sublist disk.nodes)
    (chores : List Chore) :
    costs later chores ≤ costs disk chores := by
  refine total_map_le (List.Sublist.refl chores) fun chore => ?_
  cases chore with
  | sweep levels place => exact sweepCost_le h levels place
  | _ => exact Nat.le_refl 1

/-- What comes of a chore. It lists a directory, or it removes the node at its place, or
nothing comes of it. -/
inductive Does (disk : Disk) : Chore → List Chore → Disk → Prop
  | lists (levels : Nat) (place : List Text) :
    Does disk (.sweep (levels + 1) place)
      ((disk.children place).flatMap (removing levels)) disk
  | drops {chore : Chore} (h : ∀ levels place, chore ≠ .sweep levels place) :
    Does disk chore [] (disk.drop chore.place)
  | leaves (chore : Chore) : Does disk chore [] disk

theorem does_of_run {disk later : Disk} {chore : Chore} {more : List Chore}
    (h : chore.run disk = some (more, later)) : Does disk chore more later := by
  cases chore with
  | sweep levels place =>
    cases levels with
    | zero =>
      simp only [run] at h
      split at h <;> cases h
      exact .leaves _
    | succ levels =>
      cases h
      exact .lists levels place
  | unlink place =>
    simp only [run] at h
    split at h <;> cases h
    · exact .drops fun _ _ => Chore.noConfusion
    · exact .leaves _
  | dismiss place =>
    simp only [run] at h
    split at h <;> cases h
    · exact .drops fun _ _ => Chore.noConfusion
    · exact .leaves _

/-- Only a listing without levels left comes to nothing, where something is found. -/
theorem of_run_eq_none {disk : Disk} {chore : Chore} (h : chore.run disk = none) :
    ∃ place, chore = .sweep 0 place ∧ disk.children place ≠ [] := by
  cases chore with
  | sweep levels place =>
    cases levels with
    | zero =>
      simp only [run] at h
      split at h
      · cases h
      · exact ⟨place, rfl, ‹_›⟩
    | succ levels => cases h
  | unlink place =>
    simp only [run] at h
    split at h <;> cases h
  | dismiss place =>
    simp only [run] at h
    split at h <;> cases h

/-- A chore puts nothing on the disk. -/
theorem Does.sublist {disk later : Disk} {chore : Chore} {more : List Chore}
    (h : Does disk chore more later) : later.nodes.Sublist disk.nodes := by
  cases h with
  | drops h => exact List.filter_sublist
  | lists | leaves => exact .refl _

theorem cost_pos (disk : Disk) (chore : Chore) : 0 < cost disk chore := by
  cases chore with
  | sweep levels place =>
    cases levels with
    | zero => exact Nat.one_pos
    | succ levels => exact Nat.lt_add_right _ Nat.one_pos
  | unlink | dismiss => exact Nat.one_pos

theorem Does.costs_lt {disk later : Disk} {chore : Chore} {more : List Chore}
    (h : Does disk chore more later) : costs later more < cost disk chore := by
  cases h with
  | lists levels place =>
    rw [costs_removing]
    exact Nat.lt_add_of_pos_left Nat.one_pos
  | drops | leaves => exact cost_pos disk chore

/-- With a chore that is done there is less to do. -/
theorem costs_lt {disk later : Disk} {chore : Chore} {more rest : List Chore}
    (h : chore.run disk = some (more, later)) :
    costs later (more ++ rest) < costs disk (chore :: rest) := by
  rw [costs_append]
  have hdoes := does_of_run h
  exact Nat.add_lt_add_of_lt_of_le hdoes.costs_lt (costs_le hdoes.sublist rest)

/-- Does chore after chore, and says whether it came to the end. -/
def finish (chores : List Chore) (disk : Disk) : Bool × Disk :=
  match chores with
  | [] => (true, disk)
  | chore :: rest =>
    match _ : chore.run disk with
    | some (more, later) => finish (more ++ rest) later
    | none => (false, disk)
termination_by costs disk chores
decreasing_by exact costs_lt ‹_›

end Chore

end ExtensionAudit
