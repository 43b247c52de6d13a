import ExtensionAudit.Proofs.Chore
import ExtensionAudit.Proofs.Outcome
import ExtensionAudit.Request.Company

/-!
# Disk — what is in a directory

What is at a directory and below it, by the names that lead there from it, is all that
decides what is done in it. What is done in a directory is confined to it
(`Disk.Confined`), so it changes nothing outside, and nothing in another directory that
is not in it, nor it in that one.
-/

namespace ExtensionAudit

namespace Disk

variable {place other key names : List Text} {node : Node}
    {nodes : List (List Text × Node)} {disk later : Disk}

/-! ## Contents -/

theorem rest?_eq_some_iff : rest? place key = some names ↔ key = place ++ names := by
  rw [rest?]
  split
  · rename_i hpre
    obtain ⟨more, rfl⟩ := List.isPrefixOf_iff_prefix.mp hpre
    rw [List.drop_left, Option.some.injEq, List.append_cancel_left_eq]
  · rename_i hpre
    refine iff_of_false nofun fun heq => hpre ?_
    rw [heq]
    exact List.isPrefixOf_iff_prefix.mpr (List.prefix_append place names)

theorem isPrefixOf_append (place names : List Text) :
    place.isPrefixOf (place ++ names) = true :=
  List.isPrefixOf_iff_prefix.mpr (List.prefix_append place names)

@[simp] theorem rest?_append (place names : List Text) :
    rest? place (place ++ names) = some names :=
  rest?_eq_some_iff.mpr rfl

theorem rest?_eq_none (h : ¬ place <+: key) : rest? place key = none := by
  rw [rest?, if_neg fun hpre => h (List.isPrefixOf_iff_prefix.mp hpre)]

@[simp] theorem contents_cons (place names : List Text) (node : Node)
    (nodes : List (List Text × Node)) :
    contents ⟨(place ++ names, node) :: nodes⟩ place =
      (names, node) :: contents ⟨nodes⟩ place := by
  simp [contents]

theorem contents_cons_outside (h : ¬ place <+: key) (node : Node)
    (nodes : List (List Text × Node)) :
    contents ⟨(key, node) :: nodes⟩ place = contents ⟨nodes⟩ place := by
  simp [contents, rest?_eq_none h]

/-- What holds of no nodes, and stays so with a node that is in a directory and with one
that is not. -/
theorem contents_induction (place : List Text) {motive : List (List Text × Node) → Prop}
    (nil : motive []) (inside : ∀ names node nodes, motive nodes →
      motive ((place ++ names, node) :: nodes)) (outside : ∀ key node nodes, ¬ place <+:
        key → motive nodes → motive ((key, node) :: nodes))
    (nodes : List (List Text × Node)) : motive nodes := by
  induction nodes with
  | nil => exact nil
  | cons entry rest ih =>
    obtain ⟨key, node⟩ := entry
    by_cases h : place <+: key
    · obtain ⟨names, rfl⟩ := h
      exact inside names node rest ih
    · exact outside key node rest h ih

theorem mem_contents : (names, node) ∈ disk.contents place ↔
    (place ++ names, node) ∈ disk.nodes := by
  rw [contents, List.mem_filterMap]
  constructor
  · rintro ⟨⟨key, found⟩, hmem, heq⟩
    obtain ⟨more, hrest, hpair⟩ := Option.map_eq_some_iff.mp heq
    cases hpair
    rwa [← rest?_eq_some_iff.mp hrest]
  · intro hmem
    exact ⟨_, hmem, by simp⟩

theorem find_contents (nodes : List (List Text × Node)) (place names : List Text) :
    find names (contents ⟨nodes⟩ place) = find (place ++ names) nodes := by
  induction nodes using contents_induction place with
  | nil => rfl
  | inside found node nodes ih =>
    rw [contents_cons, find, find, ih]
    simp
  | outside key node nodes h ih =>
    have hne : key ≠ place ++ names := fun heq => h (heq ▸ List.prefix_append place names)
    rw [contents_cons_outside h, find, ih, if_neg (by simpa using hne)]

theorem node?_append (h : ¬ IsFixed place) (names : List Text) :
    disk.node? (place ++ names) = find names (disk.contents place) := by
  rw [node?_of_not_fixed (not_fixed_append h names), find_contents disk.nodes]

/-- What is put into a directory is put among its contents. -/
theorem contents_put (disk : Disk) (place names : List Text) (node : Node) :
    (disk.put (place ++ names) node).contents place =
      insert names node (disk.contents place) := by
  obtain ⟨nodes⟩ := disk
  rw [put]
  induction nodes using contents_induction place with
  | nil => simp [insert, contents]
  | inside found old nodes ih =>
    by_cases heq : found = names
    · simp [insert, heq]
    · simp [insert, heq, ih]
  | outside key old nodes h ih =>
    have hne : key ≠ place ++ names := fun heq => h (heq ▸ List.prefix_append place names)
    rw [contents_cons_outside h, insert, if_neg (by simpa using hne),
      contents_cons_outside h]
    exact ih

/-- Taking some nodes away takes away what they are in the contents. -/
theorem contents_filter {p q : List Text → Bool}
    (h : ∀ names, p (place ++ names) = q names) (nodes : List (List Text × Node)) :
    contents ⟨nodes.filter fun entry => p entry.1⟩ place =
      (contents ⟨nodes⟩ place).filter fun entry => q entry.1 := by
  induction nodes using contents_induction place with
  | nil => rfl
  | inside names node nodes ih =>
    rw [contents_cons, List.filter_cons, List.filter_cons]
    simp only [h]
    split
    · rw [contents_cons, ih]
    · exact ih
  | outside key node nodes hkey ih =>
    rw [contents_cons_outside hkey, ← ih, List.filter_cons]
    split
    · exact contents_cons_outside hkey node _
    · rfl

theorem contents_drop (disk : Disk) (place names : List Text) :
    (disk.drop (place ++ names)).contents place =
      (disk.contents place).filter fun entry => entry.1 != names := by
  refine contents_filter (p := (· != place ++ names)) (q := (· != names))
    (fun found => ?_) disk.nodes
  rw [Bool.eq_iff_iff, bne_iff_ne, bne_iff_ne, Ne, List.append_cancel_left_eq]

/-- Nodes that are all in a directory are its contents. -/
theorem map_contents (h : ∀ entry ∈ nodes, place <+: entry.1) :
    (contents ⟨nodes⟩ place).map (fun entry => (place ++ entry.1, entry.2)) = nodes := by
  induction nodes with
  | nil => rfl
  | cons entry rest ih =>
    obtain ⟨hkey, hrest⟩ := List.forall_mem_cons.mp h
    obtain ⟨key, node⟩ := entry
    obtain ⟨names, rfl⟩ : place <+: key := hkey
    rw [contents_cons, List.map_cons, ih hrest]

theorem isRightBelow_append (place names key : List Text) :
    isRightBelow (place ++ names) (place ++ key) = isRightBelow names key := by
  induction place with
  | nil => rfl
  | cons name rest ih => simp [isRightBelow, ih]

/-- What is right below a place in a directory can be told from the contents. -/
theorem children_append (disk : Disk) (place names : List Text) :
    disk.children (place ++ names) =
      ((disk.contents place).filter fun entry =>
        isRightBelow names entry.1).map fun entry =>
        (place ++ entry.1, entry.2) := by
  have hinside : ∀ entry ∈ disk.children (place ++ names), place <+: entry.1 := by
    rintro ⟨key, node⟩ hmem
    obtain ⟨⟨name, rfl⟩, -⟩ := mem_children.mp hmem
    exact ⟨names ++ [name], by simp⟩
  rw [← map_contents hinside]
  exact congrArg (List.map _) (contents_filter (p := isRightBelow (place ++ names))
    (q := isRightBelow names) (isRightBelow_append place names) disk.nodes)

/-- How deep a directory goes can be told from its contents. -/
theorem isDeeper_eq {path : Path} {levels : Nat} (h : disk.locate path = .ok place) :
    disk.isDeeper levels path =
      (disk.contents place).any fun entry => entry.2 == .directory && levels <
        entry.1.length := by
  rw [isDeeper, h, Bool.eq_iff_iff, List.any_eq_true, List.any_eq_true]
  constructor
  · rintro ⟨⟨key, node⟩, hm, hdeep⟩
    simp only [Bool.and_eq_true, List.isPrefixOf_iff_prefix, decide_eq_true_eq] at hdeep
    obtain ⟨⟨hnode, names, rfl⟩, hlong⟩ := hdeep
    rw [List.length_append] at hlong
    refine ⟨(names, node), mem_contents.mpr hm, ?_⟩
    simp only [hnode, Bool.true_and, decide_eq_true_eq]
    omega
  · rintro ⟨⟨names, node⟩, hm, hdeep⟩
    simp only [Bool.and_eq_true, decide_eq_true_eq] at hdeep
    refine ⟨(place ++ names, node), mem_contents.mp hm, ?_⟩
    simp only [hdeep.1, Bool.true_and, Bool.and_eq_true, List.isPrefixOf_iff_prefix,
      decide_eq_true_eq, List.length_append]
    exact ⟨List.prefix_append _ _, by omega⟩

/-- A file in a directory, if an entry of its contents is one. -/
def fileIn : List Text × Node → Option (List Text × Bytes)
  | (names, .file content) => if names != [] then some (names, content) else none
  | (_, .directory) => none

/-- The files in a directory can be told from its contents. -/
theorem filesBelow_eq {path : Path} (h : disk.locate path = .ok place) :
    disk.filesBelow path =
      ((disk.contents place).filterMap fileIn).mergeSort fun a b =>
        !Path.namesBefore b.1 a.1 := by
  rw [filesBelow, h, contents, List.filterMap_filterMap]
  dsimp only
  congr 2
  funext entry
  obtain ⟨key, node⟩ := entry
  cases node with
  | directory => cases rest? place key <;> rfl
  | file content =>
    by_cases hkey : place <+: key
    · obtain ⟨names, rfl⟩ := hkey
      simp [fileIn, isPrefixOf_append]
    · have hpre : place.isPrefixOf key = false := by
        rw [← Bool.not_eq_true, List.isPrefixOf_iff_prefix]
        exact hkey
      simp [rest?_eq_none hkey, hpre]

/-- What is put below a place takes the place of what was below it. -/
theorem contents_refill (disk : Disk) (place : List Text)
    (below : List (List Text × Node)) :
    (disk.refill place below).contents place =
      (disk.contents place).filter (fun entry => entry.1 == []) ++
        below.filter fun entry => entry.1 != [] && !entry.1.contains above := by
  have hnew : ∀ new : List (List Text × Node),
      contents ⟨new.map fun entry => (place ++ entry.1, entry.2)⟩ place = new := by
    intro new
    induction new with
    | nil => rfl
    | cons entry rest ih => rw [List.map_cons, contents_cons, ih]
  have hkept : ∀ names, (!isBelow place (place ++ names)) = (names == []) := by
    intro names
    rw [isBelow, isPrefixOf_append, Bool.true_and, Bool.eq_iff_iff, Bool.not_eq_true',
      bne_eq_false_iff_eq, List.append_right_eq_self, beq_iff_eq]
  rw [refill, contents, List.filterMap_append]
  exact congrArg₂ _ (contents_filter (p := fun key => !isBelow place key)
    (q := (· == [])) hkept disk.nodes) (hnew _)

/-! ## What is done in a directory -/

/-- Outside of a place nothing has changed. -/
def Confined (place : List Text) (disk later : Disk) : Prop :=
  (later.nodes.filter fun entry => !place.isPrefixOf entry.1) =
    disk.nodes.filter fun entry => !place.isPrefixOf entry.1

theorem Confined.refl (place : List Text) (disk : Disk) : Confined place disk disk := rfl

theorem confined_put (disk : Disk) (place names : List Text) (node : Node) :
    Confined place disk (disk.put (place ++ names) node) := by
  obtain ⟨nodes⟩ := disk
  rw [Confined, put]
  induction nodes with
  | nil => simp [insert, isPrefixOf_append]
  | cons entry rest ih =>
    obtain ⟨key, old⟩ := entry
    by_cases hkey : key = place ++ names
    · subst hkey
      simp [insert, isPrefixOf_append]
    · simp only [insert, sameNames_iff, hkey, if_false, List.filter_cons]
      rw [ih]

theorem confined_drop (disk : Disk) (place names : List Text) :
    Confined place disk (disk.drop (place ++ names)) := by
  rw [Confined, drop, List.filter_filter]
  refine List.filter_congr fun entry _ => ?_
  by_cases hkey : entry.1 = place ++ names
  · simp [hkey, isPrefixOf_append]
  · simp [hkey]

theorem confined_refill (disk : Disk) (place : List Text)
    (below : List (List Text × Node)) :
    Confined place disk (disk.refill place below) := by
  have hnew : ∀ new : List (List Text × Node),
      ((new.map fun entry => (place ++ entry.1, entry.2)).filter fun entry =>
        !place.isPrefixOf entry.1) = [] := by
    intro new
    refine List.filter_eq_nil_iff.mpr fun entry hmem => ?_
    obtain ⟨old, -, rfl⟩ := List.mem_map.mp hmem
    simp [isPrefixOf_append]
  rw [Confined, refill, List.filter_append]
  refine (congrArg₂ _ ?_ (hnew _)).trans (List.append_nil _)
  rw [List.filter_filter]
  refine List.filter_congr fun entry _ => ?_
  show (!place.isPrefixOf entry.1 && !(place.isPrefixOf entry.1 && entry.1 != place)) =
      !place.isPrefixOf entry.1
  cases place.isPrefixOf entry.1 <;> rfl

/-- What is outside stays as it was. -/
theorem Confined.node? (h : Confined place disk later)
    (hkey : ¬ place <+: key) : later.node? key = disk.node? key := by
  by_cases hfixed : IsFixed key
  · rw [node?_fixed hfixed, node?_fixed hfixed]
  · have hout : (!place.isPrefixOf key) = true := by
      rw [Bool.not_eq_true', ← Bool.not_eq_true, List.isPrefixOf_iff_prefix]
      exact hkey
    have hfind := find_filter (p := fun key => !place.isPrefixOf key) hout
    rw [node?_of_not_fixed hfixed, node?_of_not_fixed hfixed, ← hfind later.nodes, h,
      hfind disk.nodes]

/-- The contents of a directory that is not in the other, nor has the other in it, stay
as they were. -/
theorem Confined.contents (h : Confined place disk later) (hin : ¬ place <+: other)
    (hout : ¬ other <+: place) :
    later.contents other = disk.contents other := by
  have hapart : ∀ names, (!place.isPrefixOf (other ++ names)) = true := by
    intro names
    rw [Bool.not_eq_true', ← Bool.not_eq_true, List.isPrefixOf_iff_prefix]
    intro hpre
    rcases List.prefix_or_prefix_of_prefix hpre (List.prefix_append other names)
      with hpre | hpre
    · exact hin hpre
    · exact hout hpre
  have hfilter (disk : Disk) :
      Disk.contents ⟨disk.nodes.filter fun entry => !place.isPrefixOf entry.1⟩ other =
        disk.contents other :=
    (contents_filter (p := fun key => !place.isPrefixOf key) (q := fun _ => true) hapart
      disk.nodes).trans
      (List.filter_true _)
  rw [← hfilter later, h, hfilter disk]

end Disk

end ExtensionAudit
