import ExtensionAudit.Disk.Chore
import ExtensionAudit.Proofs.Disk
import Mathlib.Data.List.Basic

/-!
# Chore — a directory removed chore by chore

If nothing comes in between and the chores by which a directory is removed come to their
end, it is removed with everything below it, as if that were done at once
(`Chore.Leads.of_start`). How far down a chore has come is said by what it is about
(`Chore.IsWithin`), so the removal is given up only if something is too deep
(`Chore.IsWithin.of_overrun`), and the directory itself is removed last
(`Chore.AreFor`).
-/

namespace ExtensionAudit

namespace Disk

/-! ## Trees -/

/-- A place below which nothing is there twice, and what has something below it is a
directory. -/
structure IsGrown (disk : Disk) (place : List Text) : Prop where
  distinct : ((disk.below place).map (·.1)).Nodup
  directories : ∀ first second node, first ≠ [] → second ≠ [] →
    (place ++ (first ++ second), node) ∈ disk.nodes →
    (place ++ first, .directory) ∈ disk.nodes

theorem IsTree.isGrown {disk : Disk} {root : Path}
    (h : disk.IsTree root) : disk.IsGrown root.place :=
  ⟨h.distinct, fun _ _ _ hfirst hsecond hm => h.directory_above hfirst hsecond hm⟩

theorem isBelow_append {place key : List Text} (names : List Text)
    (h : isBelow (place ++ names) key = true) : isBelow place key = true := by
  obtain ⟨more, hne, rfl⟩ := isBelow_iff.mp h
  exact isBelow_iff.mpr ⟨names ++ more,
    List.append_ne_nil_of_right_ne_nil names hne, by simp⟩

theorem below_append_sublist (disk : Disk) (place names : List Text) :
    (disk.below (place ++ names)).Sublist (disk.below place) :=
  List.monotone_filter_right disk.nodes fun _ h => isBelow_append names h

namespace IsGrown

variable {disk : Disk} {place names : List Text} {node : Node}

theorem descend (h : disk.IsGrown place) (names : List Text) :
    disk.IsGrown (place ++ names) := by
  refine ⟨h.distinct.sublist ((below_append_sublist disk place names).map _),
    fun first second node hfirst hsecond hm => ?_⟩
  rw [List.append_assoc] at hm ⊢
  refine h.directories (names ++ first) second node
    (List.append_ne_nil_of_right_ne_nil names hfirst) hsecond ?_
  rwa [List.append_assoc]

theorem remove (h : disk.IsGrown place) (names : List Text) :
    (disk.remove (place ++ names)).IsGrown place := by
  refine ⟨h.distinct.sublist
    (List.Sublist.map _ (List.Sublist.filter _ List.filter_sublist)),
    fun first second node hfirst hsecond hm => ?_⟩
  obtain ⟨hm, hkept⟩ := List.mem_filter.mp hm
  refine List.mem_filter.mpr ⟨h.directories first second node hfirst hsecond hm, ?_⟩
  -- What is removed with a place is removed with every place above it.
  simp only [Bool.not_eq_true', ← Bool.not_eq_true, List.isPrefixOf_iff_prefix] at hkept ⊢
  refine fun hpre => hkept (hpre.trans ?_)
  rw [← List.append_assoc]
  exact List.prefix_append _ _

/-- What can be looked up below the place is what is there. -/
theorem node?_eq_some_iff (h : disk.IsGrown place) (hfixed : ¬ IsFixed place)
    (hne : names ≠ []) :
    disk.node? (place ++ names) = some node ↔ (place ++ names, node) ∈ disk.nodes := by
  rw [node?_of_not_fixed (not_fixed_append hfixed names), ← find_below hne,
    find_eq_some_iff h.distinct, mem_below hne]

/-- A file has nothing below it. -/
theorem eq_of_file (h : disk.IsGrown place)
    (hfixed : ¬ IsFixed place) (hne : names ≠ []) {content : Bytes}
    (hfile : disk.node? (place ++ names) = some (.file content))
    {entry : List Text × Node} (hm : entry ∈ disk.nodes)
    (hpre : place ++ names <+: entry.1) : entry.1 = place ++ names := by
  obtain ⟨key, node⟩ := entry
  obtain ⟨more, rfl⟩ := hpre
  by_contra hmore
  rw [List.append_assoc] at hm
  have hdirectory :=
    h.directories names more node hne (fun hnil => hmore (by simp [hnil])) hm
  rw [(h.node?_eq_some_iff hfixed hne).mpr hdirectory] at hfile
  cases hfile

end IsGrown

/-! ## What is right below a place -/

theorem isRightBelow_iff {place key : List Text} :
    isRightBelow place key = true ↔ ∃ name, key = place ++ [name] := by
  induction place generalizing key with
  | nil =>
    cases key with
    | nil => simp [isRightBelow]
    | cons name rest => cases rest <;> simp [isRightBelow]
  | cons first rest ih =>
    cases key with
    | nil => simp [isRightBelow]
    | cons other more =>
      rw [isRightBelow, Bool.and_eq_true, sameName_iff, ih]
      constructor
      · rintro ⟨rfl, name, rfl⟩
        exact ⟨name, rfl⟩
      · rintro ⟨name, hkey⟩
        rw [List.cons_append, List.cons.injEq] at hkey
        exact ⟨hkey.1.symm, name, hkey.2⟩

theorem mem_children {disk : Disk} {place key : List Text} {node : Node} :
    (key, node) ∈ disk.children place ↔ (∃ name, key = place ++ [name]) ∧
    (key, node) ∈ disk.nodes := by
  rw [children, List.mem_filter, and_comm, isRightBelow_iff]

theorem children_sublist (disk : Disk) (place : List Text) :
    (disk.children place).Sublist (disk.below place) := by
  refine List.monotone_filter_right disk.nodes fun entry h => ?_
  obtain ⟨name, hkey⟩ := isRightBelow_iff.mp h
  exact isBelow_iff.mpr ⟨[name], List.cons_ne_nil _ _, hkey⟩

/-- What is below a place in a tree is at or below what is right below it. -/
theorem IsGrown.exists_child {disk : Disk} {place : List Text} (h : disk.IsGrown place)
    {entry : List Text × Node} (hm : entry ∈ disk.nodes) (hpre : place <+: entry.1)
    (hne : entry.1 ≠ place) : ∃ child ∈ disk.children place, child.1 <+: entry.1 := by
  obtain ⟨key, node⟩ := entry
  obtain ⟨names, rfl⟩ := hpre
  cases names with
  | nil => exact absurd (List.append_nil place) hne
  | cons name rest =>
    cases rest with
    | nil => exact ⟨_, mem_children.mpr ⟨⟨name, rfl⟩, hm⟩, List.prefix_refl _⟩
    | cons next more =>
      refine ⟨(place ++ [name], .directory), mem_children.mpr ⟨⟨name, rfl⟩, ?_⟩, ?_⟩
      · exact h.directories [name] (next :: more) node (by simp) (by simp) hm
      · exact ⟨next :: more, by simp⟩

/-! ## Removals -/

theorem drop_eq_remove {disk : Disk} {place : List Text}
    (h : ∀ entry ∈ disk.nodes, place <+: entry.1 → entry.1 = place) :
    disk.drop place = disk.remove place := by
  rw [drop, remove]
  congr 1
  refine List.filter_congr fun entry hm => ?_
  rw [Bool.eq_iff_iff]
  simp only [bne_iff_ne, Bool.not_eq_true', ← Bool.not_eq_true,
    List.isPrefixOf_iff_prefix]
  exact not_congr ⟨fun he => he ▸ List.prefix_refl _, h entry hm⟩

/-- Removes what each of some places leads to. -/
def removeAll (disk : Disk) (places : List (List Text)) : Disk := places.foldl remove disk

theorem nodes_removeAll (disk : Disk) (places : List (List Text)) :
    (disk.removeAll places).nodes =
      disk.nodes.filter fun entry => places.all fun place =>
        !place.isPrefixOf entry.1 := by
  induction places generalizing disk with
  | nil => simp [removeAll]
  | cons place rest ih =>
    rw [removeAll, List.foldl_cons, ← removeAll, ih, remove, List.filter_filter]
    refine List.filter_congr fun entry _ => ?_
    rw [List.all_cons, Bool.and_comm]

end Disk

namespace Chore

open Disk

/-! ## Chores one after the other -/

theorem finish_of_some {disk later : Disk} {chore : Chore} {more : List Chore}
    (h : chore.run disk = some (more, later)) (rest : List Chore) :
    finish (chore :: rest) disk = finish (more ++ rest) later := by
  rw [finish]
  split
  · rename_i hrun
    cases h.symm.trans hrun
    rfl
  · rename_i hrun
    cases h.symm.trans hrun

theorem finish_of_none {disk : Disk} {chore : Chore} (h : chore.run disk = none)
    (rest : List Chore) :
    finish (chore :: rest) disk = (false, disk) := by
  rw [finish]
  split
  · rename_i hrun
    cases h.symm.trans hrun
  · rfl

/-- By some chores the one state of the removal leads to the other. -/
inductive Leads : List Chore × Disk → List Chore × Disk → Prop
  | refl (state : List Chore × Disk) : Leads state state
  | next {chore : Chore} {rest more : List Chore} {disk later : Disk}
      {last : List Chore × Disk}
    (run : chore.run disk = some (more, later))
      (leads : Leads (more ++ rest, later) last) :
    Leads (chore :: rest, disk) last

/-- One chore more at the end. -/
theorem Leads.concat {first : List Chore × Disk} {chore : Chore} {rest more : List Chore}
    {disk later : Disk} (h : Leads first (chore :: rest, disk))
    (run : chore.run disk = some (more, later)) : Leads first (more ++ rest, later) := by
  generalize hlast : (chore :: rest, disk) = last at h
  induction h with
  | refl state =>
    cases hlast
    exact .next run (.refl _)
  | next earlier _ ih => exact .next earlier (ih hlast)

theorem leads_cons_iff {chore : Chore} {rest : List Chore} {disk last : Disk} :
    Leads (chore :: rest, disk) ([], last) ↔
      ∃ more later, chore.run disk = some (more, later) ∧
      Leads (more ++ rest, later) ([], last) := by
  constructor
  · intro h
    cases h with
    | next run leads => exact ⟨_, _, run, leads⟩
  · rintro ⟨more, later, run, leads⟩
    exact .next run leads

theorem Leads.of_unlink {disk last : Disk} {place names : List Text} {rest : List Chore}
    (h : disk.IsGrown place) (hfixed : ¬ IsFixed place) (hne : names ≠ [])
    {content : Bytes} (hfile : disk.node? (place ++ names) = some (.file content))
    (hleads : Leads (.unlink (place ++ names) :: rest, disk) ([], last)) :
    Leads (rest, disk.remove (place ++ names)) ([], last) := by
  obtain ⟨more, later, hrun, hrest⟩ := leads_cons_iff.mp hleads
  simp only [run, hfile] at hrun
  cases hrun
  rwa [drop_eq_remove fun entry hm hpre => h.eq_of_file hfixed hne hfile hm hpre] at hrest

/-- A directory is dismissed once nothing is below it. -/
theorem Leads.of_dismiss {disk last : Disk} {place : List Text} {rest : List Chore}
    (h : disk.node? place = some .directory)
    (hempty : ∀ entry ∈ disk.nodes, place <+: entry.1 → entry.1 = place)
    (hleads : Leads (.dismiss place :: rest, disk) ([], last)) :
    Leads (rest, disk.remove place) ([], last) := by
  have hchildren : disk.children place = [] := by
    rw [List.eq_nil_iff_forall_not_mem]
    rintro ⟨key, node⟩ hm
    obtain ⟨⟨name, rfl⟩, hm⟩ := mem_children.mp hm
    exact absurd (hempty _ hm (List.prefix_append _ _)) (by simp)
  obtain ⟨more, later, hrun, hrest⟩ := leads_cons_iff.mp hleads
  simp only [run, h, hchildren, and_self, if_true] at hrun
  cases hrun
  rwa [drop_eq_remove hempty] at hrest

/-- What is right below a place is removed node by node, if its directories are. -/
theorem Leads.of_removing {disk last : Disk} {place : List Text}
    {entries : List (List Text × Node)} {levels : Nat} {rest : List Chore}
    (ih : ∀ (disk : Disk) (place : List Text) (rest : List Chore), disk.IsGrown place →
      ¬ IsFixed place → disk.node? place = some .directory →
      Leads (.sweep levels place :: .dismiss place :: rest, disk) ([], last) →
      Leads (rest, disk.remove place) ([], last))
    (h : disk.IsGrown place) (hfixed : ¬ IsFixed place)
    (hentries : ∀ entry ∈ entries, entry ∈ disk.children place)
    (hdistinct : (entries.map (·.1)).Nodup)
    (hleads : Leads (entries.flatMap (removing levels) ++ rest, disk) ([], last)) :
    Leads (rest, disk.removeAll (entries.map (·.1))) ([], last) := by
  induction entries generalizing disk with
  | nil => exact hleads
  | cons entry more ihmore =>
    obtain ⟨hentry, hmore⟩ := List.forall_mem_cons.mp hentries
    rw [List.map_cons, List.nodup_cons] at hdistinct
    obtain ⟨hnot, hdistinct⟩ := hdistinct
    obtain ⟨key, node⟩ := entry
    obtain ⟨⟨name, rfl⟩, hm⟩ := mem_children.mp hentry
    rw [List.flatMap_cons, List.append_assoc] at hleads
    -- The first node goes with what is below it; the others stay where they are.
    have hfirst :
        Leads (more.flatMap (removing levels) ++ rest, disk.remove (place ++ [name]))
        ([], last) := by
      have hnode := (h.node?_eq_some_iff hfixed (List.cons_ne_nil _ _)).mpr hm
      cases node with
      | directory =>
        exact ih disk _ _ (h.descend [name]) (not_fixed_append hfixed [name]) hnode hleads
      | file content => exact hleads.of_unlink h hfixed (List.cons_ne_nil _ _) hnode
    refine ihmore (h.remove [name]) (fun other hother => ?_) hdistinct hfirst
    obtain ⟨otherKey, otherNode⟩ := other
    obtain ⟨⟨otherName, rfl⟩, hm'⟩ := mem_children.mp (hmore _ hother)
    refine mem_children.mpr ⟨⟨otherName, rfl⟩, List.mem_filter.mpr ⟨hm', ?_⟩⟩
    simp only [Bool.not_eq_true', ← Bool.not_eq_true, List.isPrefixOf_iff_prefix]
    intro hpre
    rw [hpre.eq_of_length (by simp)] at hnot
    exact hnot (List.mem_map.mpr ⟨_, hother, rfl⟩)

/-- Once everything right below a place is removed, nothing is below it. -/
theorem eq_of_mem_removeAll {disk : Disk} {place : List Text}
    (h : disk.IsGrown place) {entry : List Text × Node}
    (hm : entry ∈ (disk.removeAll ((disk.children place).map (·.1))).nodes)
    (hpre : place <+: entry.1) : entry.1 = place := by
  by_contra hne
  rw [nodes_removeAll, List.mem_filter, List.all_eq_true] at hm
  obtain ⟨child, hchild, hbelow⟩ := h.exists_child hm.1 hpre hne
  have hkept := hm.2 _ (List.mem_map_of_mem (f := Prod.fst) hchild)
  rw [List.isPrefixOf_iff_prefix.mpr hbelow] at hkept
  cases hkept

theorem remove_removeAll {disk : Disk} {place : List Text} :
    (disk.removeAll ((disk.children place).map (·.1))).remove place =
      disk.remove place := by
  rw [Disk.remove, nodes_removeAll, List.filter_filter, Disk.remove]
  congr 1
  refine List.filter_congr fun entry hm => ?_
  obtain ⟨key, node⟩ := entry
  dsimp only
  cases hpre : place.isPrefixOf key with
  | true => rfl
  | false =>
    rw [Bool.not_false, Bool.true_and, List.all_eq_true]
    intro other hother
    obtain ⟨⟨child, node⟩, hchild, rfl⟩ := List.mem_map.mp hother
    obtain ⟨⟨name, rfl⟩, -⟩ := mem_children.mp hchild
    rw [Bool.not_eq_true', ← Bool.not_eq_true, List.isPrefixOf_iff_prefix]
    rw [← Bool.not_eq_true, List.isPrefixOf_iff_prefix] at hpre
    exact fun h => hpre ((List.prefix_append _ _).trans h)

/-- Once everything right below a place is removed, the place itself is still there. -/
theorem directory_removeAll {disk : Disk} {place : List Text} (hfixed : ¬ IsFixed place)
    (h : disk.node? place = some .directory) :
    (disk.removeAll ((disk.children place).map (·.1))).node? place = some .directory := by
  rw [node?_of_not_fixed hfixed, nodes_removeAll, find_filter (p := fun key =>
    ((disk.children place).map (·.1)).all fun child => !child.isPrefixOf key),
    ← node?_of_not_fixed hfixed, h]
  rw [List.all_eq_true]
  intro key hkey
  obtain ⟨⟨child, node⟩, hchild, rfl⟩ := List.mem_map.mp hkey
  obtain ⟨⟨name, rfl⟩, -⟩ := mem_children.mp hchild
  rw [Bool.not_eq_true', ← Bool.not_eq_true, List.isPrefixOf_iff_prefix]
  exact fun hpre => absurd hpre.length_le (by simp)

/-- **A directory is removed.** When nothing comes in between, a directory that is
listed, and dismissed after what was found in it, is removed with everything below
it. -/
theorem Leads.of_sweep {disk last : Disk} {place : List Text}
    {rest : List Chore} {levels : Nat} (h : disk.IsGrown place)
    (hfixed : ¬ IsFixed place) (hdirectory : disk.node? place = some .directory)
    (hleads : Leads (.sweep levels place :: .dismiss place :: rest, disk) ([], last)) :
    Leads (rest, disk.remove place) ([], last) := by
  -- The induction is on how far down the directory can be listed.
  induction levels generalizing disk place rest with
  | zero =>
    obtain ⟨more, later, hrun, hlisted⟩ := leads_cons_iff.mp hleads
    simp only [run] at hrun
    split at hrun
    · rename_i hchildren
      cases hrun
      refine hlisted.of_dismiss hdirectory fun entry hm hpre => ?_
      by_contra hne
      obtain ⟨child, hchild, -⟩ := h.exists_child hm hpre hne
      rw [hchildren] at hchild
      cases hchild
    · cases hrun
  | succ levels ih =>
    obtain ⟨more, later, hrun, hlisted⟩ := leads_cons_iff.mp hleads
    cases hrun
    have hremoved := hlisted.of_removing (fun _ _ _ => ih) h hfixed (fun _ hm => hm)
      (h.distinct.sublist ((children_sublist disk place).map _))
    have hdismissed := hremoved.of_dismiss (directory_removeAll hfixed hdirectory)
      fun entry hm => eq_of_mem_removeAll h hm
    rwa [remove_removeAll] at hdismissed

theorem start_of_isTree {disk : Disk} {root : Path} (h : disk.IsTree root)
    (levels : Nat) :
    start levels disk root = [.sweep levels root.place, .dismiss root.place] := by
  rw [start, h.located]
  simp only [h.isDirectory, Option.isSome_some, if_true]

/-- An empty directory is removed, however few levels there are. -/
theorem finish_of_isEmptyDirectory {disk : Disk}
    {root : Path} (h : disk.IsEmptyDirectory root)
    (levels : Nat) : ∃ later, finish (start levels disk root) disk = (true, later) := by
  have htree := h.isTree
  have hchildren : disk.children root.place = [] := by
    have hbelow := children_sublist disk root.place
    rwa [h.2, List.sublist_nil] at hbelow
  have hsweep : (Chore.sweep levels root.place).run disk = some ([], disk) := by
    cases levels with
    | zero => simp only [run, hchildren, if_true]
    | succ levels => simp only [run, hchildren, List.flatMap_nil]
  have hdismiss : (Chore.dismiss root.place).run disk =
      some ([], disk.drop root.place) := by
    simp only [run, htree.isDirectory, hchildren, and_self, if_true]
  refine ⟨disk.drop root.place, ?_⟩
  rw [start_of_isTree htree, finish_of_some hsweep, List.nil_append,
    finish_of_some hdismiss, List.nil_append, finish]

/-- The chores by which a tree is removed, undisturbed, come to what its removal at once
comes to. -/
theorem Leads.of_start {disk last : Disk} {root : Path} {levels : Nat}
    (h : disk.IsTree root) (hfixed : ¬ IsFixed root.place)
    (hleads : Leads (start levels disk root, disk) ([], last)) :
    last = disk.remove root.place := by
  rw [start_of_isTree h] at hleads
  have hdone := hleads.of_sweep h.isGrown hfixed h.isDirectory
  cases hdone with
  | refl => rfl

/-! ## How far down the chores have come -/

/-- Does a chore list a directory, or one in it, with so many levels left, or remove
something in it? -/
def IsWithin (levels : Nat) (root : List Text) : Chore → Prop
  | .sweep left place => ∃ names, place = root ++ names ∧ names.length + left = levels
  | .unlink place | .dismiss place => ∃ names, names ≠ [] ∧ place = root ++ names

theorem IsWithin.isPrefix {levels : Nat} {root : List Text} {chore : Chore}
    (h : chore.IsWithin levels root) : root <+: chore.place := by
  cases chore with
  | sweep left place =>
    obtain ⟨names, rfl, -⟩ := h
    exact List.prefix_append _ _
  | unlink place | dismiss place =>
    obtain ⟨names, -, rfl⟩ := h
    exact List.prefix_append _ _

theorem isWithin_of_mem_removing {levels left : Nat}
    {root names : List Text} {node : Node} {chore : Chore}
    (hne : names ≠ []) (hlevels : names.length + left = levels)
    (h : chore ∈ removing left (root ++ names, node)) : chore.IsWithin levels root := by
  cases node with
  | directory =>
    rcases List.mem_pair.mp h with rfl | rfl
    · exact ⟨names, rfl, hlevels⟩
    · exact ⟨names, hne, rfl⟩
  | file content =>
    cases List.mem_singleton.mp h
    exact ⟨names, hne, rfl⟩

/-- The chores that a chore leads to are further down. -/
theorem IsWithin.run {levels : Nat} {root : List Text}
    {chore next : Chore} {more : List Chore} {disk later : Disk}
    (h : chore.IsWithin levels root) (hrun : chore.run disk = some (more, later))
    (hm : next ∈ more) : next.IsWithin levels root := by
  cases does_of_run hrun with
  | lists left place =>
    obtain ⟨⟨key, node⟩, hentry, hnext⟩ := List.mem_flatMap.mp hm
    obtain ⟨⟨name, rfl⟩, -⟩ := mem_children.mp hentry
    obtain ⟨names, rfl, hlevels⟩ := h
    rw [List.append_assoc] at hnext
    refine isWithin_of_mem_removing
      (List.append_ne_nil_of_right_ne_nil _ (List.cons_ne_nil _ _)) ?_ hnext
    rw [List.length_append, List.length_singleton]
    omega
  | drops | leaves => cases hm

/-- A removal is given up where something is too deep. -/
theorem IsWithin.of_overrun {levels : Nat} {root : List Text} {chore : Chore}
    {disk : Disk} (h : chore.IsWithin levels root) (hrun : chore.run disk = none) :
    ∃ names node, levels < names.length ∧ (root ++ names, node) ∈ disk.nodes := by
  obtain ⟨place, rfl, hchildren⟩ := of_run_eq_none hrun
  obtain ⟨⟨key, node⟩, hentry⟩ := List.exists_mem_of_ne_nil _ hchildren
  obtain ⟨⟨name, rfl⟩, hm⟩ := mem_children.mp hentry
  obtain ⟨names, rfl, hlevels⟩ := h
  -- All the levels are used up by the way to the directory, and the child is below it.
  refine ⟨names ++ [name], node, ?_, by rwa [← List.append_assoc]⟩
  rw [List.length_append, List.length_singleton]
  omega

/-- The chores of a removal: the directory itself is dismissed last. -/
def AreFor (levels : Nat) (root : List Text) (chores : List Chore) : Prop :=
  ∃ first, chores = first ++ [.dismiss root] ∧ ∀ chore ∈ first, chore.IsWithin levels root

theorem areFor_start {disk : Disk} {root : Path} (h : disk.IsTree root) (levels : Nat) :
    AreFor levels root.place (start levels disk root) := by
  rw [start_of_isTree h]
  refine ⟨[.sweep levels root.place], rfl, fun chore hm => ?_⟩
  cases List.mem_singleton.mp hm
  exact ⟨[], (List.append_nil _).symm, Nat.zero_add _⟩

/-- The next of the chores is about something in the directory, or else it is the last. -/
theorem AreFor.cases {levels : Nat} {root : List Text} {chore : Chore} {rest : List Chore}
    (h : AreFor levels root (chore :: rest)) :
    chore.IsWithin levels root ∧ AreFor levels root rest ∨ chore = .dismiss root ∧
      rest = [] := by
  obtain ⟨first, hsplit, hfirst⟩ := h
  cases first with
  | nil =>
    cases hsplit
    exact .inr ⟨rfl, rfl⟩
  | cons next more =>
    rw [List.cons_append, List.cons.injEq] at hsplit
    obtain ⟨rfl, rfl⟩ := hsplit
    rw [List.forall_mem_cons] at hfirst
    exact .inl ⟨hfirst.1, more, rfl, hfirst.2⟩

theorem AreFor.run {levels : Nat} {root : List Text} {chore : Chore}
    {rest more : List Chore} {disk later : Disk} (hchore : chore.IsWithin levels root)
    (hrest : AreFor levels root rest) (hrun : chore.run disk = some (more, later)) :
    AreFor levels root (more ++ rest) := by
  obtain ⟨first, rfl, hfirst⟩ := hrest
  refine ⟨more ++ first, (List.append_assoc _ _ _).symm, fun next hm => ?_⟩
  rcases List.mem_append.mp hm with hm | hm
  · exact hchore.run hrun hm
  · exact hfirst next hm

/-! ## What chores leave alone -/

theorem node?_drop_of_ne {place key : List Text} (h : key ≠ place) (disk : Disk) :
    (disk.drop place).node? key = disk.node? key := by
  by_cases hfixed : IsFixed key
  · rw [node?_fixed hfixed, node?_fixed hfixed]
  · rw [node?_of_not_fixed hfixed, node?_of_not_fixed hfixed, drop]
    exact find_filter (p := fun other => other != place) (by simpa using h) disk.nodes

/-- A chore changes nothing but its own place, and by a listing nothing is changed. -/
theorem node?_run_of_ne {chore : Chore} {key : List Text} {disk later : Disk}
    {more : List Chore} (h : key ≠ chore.place ∨ ∃ levels, chore = .sweep levels key)
    (hrun : chore.run disk = some (more, later)) :
    later.node? key = disk.node? key := by
  cases does_of_run hrun with
  | lists | leaves => rfl
  | drops hno =>
    refine node?_drop_of_ne (h.resolve_right ?_) disk
    rintro ⟨levels, heq⟩
    exact hno levels key heq

/-- The chores before the last leave the directory itself. -/
theorem IsWithin.node?_run {levels : Nat} {root : List Text} {chore : Chore}
    {disk later : Disk} {more : List Chore} (h : chore.IsWithin levels root)
    (hrun : chore.run disk = some (more, later)) :
    later.node? root = disk.node? root := by
  refine node?_run_of_ne ?_ hrun
  cases chore with
  | sweep left place =>
    obtain ⟨names, rfl, -⟩ := h
    by_cases hnames : names = []
    · exact .inr ⟨left, by rw [hnames, List.append_nil]⟩
    · exact .inl fun heq => hnames (List.self_eq_append_right.mp heq)
  | unlink place | dismiss place =>
    obtain ⟨names, hne, rfl⟩ := h
    exact .inl fun heq => hne (List.self_eq_append_right.mp heq)

end Chore

end ExtensionAudit
