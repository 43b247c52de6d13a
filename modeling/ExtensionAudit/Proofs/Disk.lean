import ExtensionAudit.Proofs.Disk.Look

/-!
# Disk — directories and files

What an operation does to a disk, and what is at and below a path. What is extracted to
a directory makes a tree there (`Disk.IsTree`): everything in it can be reached, and
what is above it is a directory.
-/

namespace ExtensionAudit

namespace Disk

/-! ## A directory made and removed -/

theorem makeDirectory_ok {disk later : Disk} {path : Path}
    (h : disk.makeDirectory path = .ok later) :
    disk.locate path = .ok path.place ∧ disk.node? path.place = none ∧
      disk.node? path.place.dropLast = some .directory ∧
      later = disk.put path.place .directory := by
  rw [makeDirectory, about] at h
  cases hl : disk.locate path with
  | error refusal => simp [hl, Bind.bind, Except.bind, Except.mapError] at h
  | ok place =>
    have hp := locate_eq_place hl
    subst hp
    cases hn : disk.node? path.place with
    | some node => simp [hl, hn, Bind.bind, Except.bind, Except.mapError] at h
    | none =>
      simp only [hl, hn, checkParent, Bind.bind, Except.bind] at h
      cases hd : disk.node? path.place.dropLast with
      | none => simp [hd, Except.mapError] at h
      | some above =>
        cases above with
        | file content => simp [hd, Except.mapError] at h
        | directory =>
          simp only [hd, Except.mapError, Except.ok.injEq] at h
          exact ⟨rfl, rfl, rfl, h.symm⟩

theorem status_eq_ok {disk : Disk} {path : Path} {node : Node}
    (h : disk.status path = .ok node) :
    disk.locate path = .ok path.place ∧ disk.node? path.place = some node := by
  rw [status_eq] at h
  cases hl : disk.locate path with
  | error refusal => simp [hl, Bind.bind, Except.bind] at h
  | ok place =>
    have hp := locate_eq_place hl
    subst hp
    simp only [hl, Bind.bind, Except.bind] at h
    split at h
    · rename_i found hn
      cases h
      exact ⟨rfl, hn⟩
    · cases h

theorem write_ok {disk later : Disk} {path : Path} {content : Bytes}
    (h : disk.write path content = .ok later) :
    disk.locate path = .ok path.place ∧ disk.node? path.place ≠ some .directory ∧
      later = disk.put path.place (.file content) := by
  rw [write, about] at h
  cases hl : disk.locate path with
  | error refusal => simp [hl, Bind.bind, Except.bind, Except.mapError] at h
  | ok place =>
    have hp := locate_eq_place hl
    subst hp
    cases hn : disk.node? path.place with
    | some node =>
      cases node with
      | directory => simp [hl, hn, Bind.bind, Except.bind, Except.mapError] at h
      | file old =>
        simp only [hl, hn, Bind.bind, Except.bind, Except.mapError, Except.ok.injEq] at h
        exact ⟨rfl, by simp, h.symm⟩
    | none =>
      simp only [hl, hn, Bind.bind, Except.bind] at h
      cases hc : disk.checkParent path.place with
      | error refusal => simp [hc, Except.mapError] at h
      | ok _ =>
        simp only [hc, Except.mapError, Except.ok.injEq] at h
        exact ⟨rfl, by simp, h.symm⟩

theorem read_eq_ok {disk : Disk} {path : Path} {place : List Text} {content : Bytes}
    (hl : disk.locate path = .ok place) (hn : disk.node? place = some (.file content)) :
    disk.read path = .ok content := by
  simp [read, about, status_eq, hl, hn, Bind.bind, Except.bind, Except.mapError]

/-- What is below a place that is not fixed is not fixed either. -/
theorem not_fixed_append {place : List Text} (h : ¬ IsFixed place) (names : List Text) :
    ¬ IsFixed (place ++ names) := by
  rintro (hu | hr)
  · rw [isUpward, List.all_append, Bool.and_eq_true] at hu
    exact h (.inl hu.1)
  · cases place with
    | nil => exact h (.inl rfl)
    | cons name rest =>
      rw [List.cons_append, root, List.cons.injEq, List.append_eq_nil_iff] at hr
      exact h (.inr (by rw [hr.1, hr.2.1, root]))

/-- A name that leads from a directory to something in it. -/
structure IsPlain (part : Text) : Prop where
  not_empty : part ≠ []
  not_here : part ≠ ("." : Text)
  not_above : part ≠ above
  not_slash : ('/' : CodePoint) ∉ part

theorem above_not_mem {names : List Text} (h : ∀ part ∈ names, IsPlain part) :
    above ∉ names :=
  fun ha => (h _ ha).not_above rfl

/-- Plain names lead away from the places that are always there. -/
theorem not_fixed_of_plain {names : List Text}
    (hne : names ≠ []) (h : ∀ part ∈ names, IsPlain part)
    (place : List Text) : ¬ IsFixed (place ++ names) := by
  obtain ⟨first, last, rfl⟩ := (List.eq_nil_or_concat' names).resolve_left hne
  have hlast : IsPlain last := h last (by simp)
  rintro (hu | hr)
  · rw [isUpward, ← List.append_assoc, List.all_append, Bool.and_eq_true] at hu
    exact hlast.not_above (by simpa using hu.2)
  · rw [← List.append_assoc, root, List.append_eq_singleton_iff] at hr
    rcases hr with ⟨-, hr⟩ | ⟨-, hr⟩
    · cases hr
      exact hlast.not_slash (by decide)
    · cases hr

/-- Where a place is not fixed, nothing is left of it when it is removed. -/
theorem node?_remove {place : List Text} (hfixed : ¬ IsFixed place) (disk : Disk)
    (names : List Text) :
    (disk.remove place).node? (place ++ names) = none := by
  rw [node?_of_not_fixed (not_fixed_append hfixed names), find_eq_none_iff]
  rintro ⟨key, node⟩ hm rfl
  rw [remove, List.mem_filter] at hm
  have hpre : place.isPrefixOf (place ++ names) = true :=
    List.isPrefixOf_iff_prefix.mpr (List.prefix_append _ _)
  simp [hpre] at hm

/-- Looking something up is refused in three ways. -/
theorem walk_eq_error {disk : Disk} {place names : List Text} {refusal : Refusal}
    (h : walk disk place names = .error refusal) :
    refusal = .missing ∨ refusal = .notDirectory ∨ refusal = .nameTooLong := by
  induction names generalizing place with
  | nil => cases h
  | cons name rest ih =>
    rw [walk] at h
    split at h
    · cases h
      exact .inl rfl
    · cases h
      exact .inr (.inl rfl)
    · split at h
      · cases h
        exact .inr (.inr rfl)
      · split at h
        · exact ih h
        · exact ih h

theorem status_eq_error {disk : Disk} {path : Path} {refusal : Refusal}
    (h : disk.status path = .error refusal) :
    refusal = .missing ∨ refusal = .notDirectory ∨ refusal = .nameTooLong := by
  rw [status_eq] at h
  cases hlocate : disk.locate path with
  | error found =>
    rw [hlocate] at h
    cases h
    rw [locate] at hlocate
    split at hlocate
    · cases hlocate
      exact .inr (.inr rfl)
    · exact walk_eq_error hlocate
  | ok place =>
    simp only [hlocate, bind, Except.bind] at h
    split at h
    · cases h
    · cases h
      exact .inl rfl

/-- In a directory, only what has too long a path cannot be asked for. -/
theorem status_child_eq_nameTooLong_iff {disk : Disk} {path : Path}
    {name : Text} (h : disk.status path = .ok .directory)
    (hname : (Utf8.encode name).length ≤ nameLimit) :
    disk.status (path.child name) = .error .nameTooLong ↔
      pathLimit < (Utf8.encode (path.child name).text).length := by
  obtain ⟨hlocated, hnode⟩ := status_eq_ok h
  have hlocate := locate_descend hlocated [name]
  rw [show path.descend [name] = path.child name from rfl] at hlocate
  rw [status_eq, hlocate]
  split
  · exact iff_of_true rfl ‹_›
  · refine iff_of_false (fun hstatus => ?_) ‹_›
    rw [walk, hnode] at hstatus
    simp only [Nat.not_lt.mpr hname, if_false, walk] at hstatus
    split at hstatus <;>
    · simp only [bind, Except.bind] at hstatus
      split at hstatus <;> cases hstatus

theorem isPresent_of_node? {disk : Disk} {path : Path} {place : List Text} {node : Node}
    (hl : disk.locate path = .ok place) (hn : disk.node? place = some node) :
    disk.isPresent path = true := by
  simp only [isPresent, status_eq, hl, hn, bind, Except.bind]

/-! ## What is below a place -/

/-- Is the place strictly below another one? -/
def isBelow (place key : List Text) : Bool := place.isPrefixOf key && key != place

theorem isBelow_iff {place key : List Text} :
    isBelow place key = true ↔ ∃ names, names ≠ [] ∧ key = place ++ names := by
  rw [isBelow, Bool.and_eq_true, List.isPrefixOf_iff_prefix, bne_iff_ne]
  constructor
  · rintro ⟨⟨names, rfl⟩, hne⟩
    refine ⟨names, ?_, rfl⟩
    rintro rfl
    exact hne (List.append_nil place)
  · rintro ⟨names, hne, rfl⟩
    exact ⟨List.prefix_append place names, fun h => hne (List.append_right_eq_self.mp h)⟩

/-- The nodes strictly below a place. -/
def below (place : List Text) (disk : Disk) : List (List Text × Node) :=
  disk.nodes.filter fun entry => isBelow place entry.1

theorem mem_below {place names : List Text} (h : names ≠ []) {disk : Disk} {node : Node} :
    (place ++ names, node) ∈ disk.below place ↔ (place ++ names, node) ∈ disk.nodes := by
  rw [below, List.mem_filter]
  exact and_iff_left (isBelow_iff.mpr ⟨names, h, rfl⟩)

theorem filter_insert {p : List Text → Bool} {names : List Text} (h : p names = true)
    (node : Node) (nodes : List (List Text × Node)) :
    (insert names node nodes).filter (fun entry => p entry.1) =
      insert names node (nodes.filter fun entry => p entry.1) := by
  induction nodes with
  | nil => simp [insert, h]
  | cons entry rest ih =>
    obtain ⟨key, old⟩ := entry
    by_cases hk : key = names
    · subst hk
      simp [insert, h]
    · cases hp : p key <;> simp [insert, hk, hp, ih]

theorem below_put {place names : List Text} (h : names ≠ []) (disk : Disk) (node : Node) :
    (disk.put (place ++ names) node).below place =
      insert (place ++ names) node (disk.below place) :=
  filter_insert (isBelow_iff.mpr ⟨names, h, rfl⟩) node disk.nodes

theorem mem_keys_insert {names key : List Text} {node : Node}
    {nodes : List (List Text × Node)} :
    key ∈ (insert names node nodes).map (·.1) ↔ key = names ∨ key ∈ nodes.map (·.1) := by
  induction nodes with
  | nil => simp [insert]
  | cons entry rest ih =>
    obtain ⟨first, old⟩ := entry
    by_cases hk : first = names
    · subst hk
      simp [insert]
    · have hk' : ¬ sameNames first names = true := by simpa using hk
      rw [insert, if_neg hk', List.map_cons, List.map_cons, List.mem_cons,
        List.mem_cons, ih]
      exact or_left_comm

/-- A key that is there already stays the only one. -/
theorem nodup_insert {names : List Text} {node : Node} {nodes : List (List Text × Node)}
    (h : (nodes.map (·.1)).Nodup) : ((insert names node nodes).map (·.1)).Nodup := by
  induction nodes with
  | nil => simp [insert]
  | cons entry rest ih =>
    obtain ⟨first, old⟩ := entry
    rw [List.map_cons, List.nodup_cons] at h
    by_cases hk : first = names
    · subst hk
      simpa [insert] using h
    · have hk' : ¬ sameNames first names = true := by simpa using hk
      rw [insert, if_neg hk', List.map_cons, List.nodup_cons, mem_keys_insert]
      exact ⟨not_or.mpr ⟨hk, h.1⟩, ih h.2⟩

/-- Where no key comes twice, the nodes are what can be looked up. -/
theorem find_eq_some_iff {names : List Text} {node : Node}
    {nodes : List (List Text × Node)} (h : (nodes.map (·.1)).Nodup) :
    find names nodes = some node ↔ (names, node) ∈ nodes := by
  induction nodes with
  | nil => simp [find]
  | cons entry rest ih =>
    obtain ⟨first, old⟩ := entry
    rw [List.map_cons, List.nodup_cons] at h
    by_cases hk : first = names
    · subst hk
      have hrest : (first, node) ∉ rest := fun hm => h.1 (List.mem_map.mpr ⟨_, hm, rfl⟩)
      rw [find, if_pos (by simp), List.mem_cons, or_iff_left hrest, Option.some.injEq,
        Prod.mk.injEq]
      exact ⟨fun e => ⟨rfl, e.symm⟩, fun e => e.2.symm⟩
    · have hne : (names, node) ≠ (first, old) := fun e => hk (congrArg Prod.fst e).symm
      rw [find, if_neg (by simpa using hk), List.mem_cons, or_iff_right hne, ih h.2]

theorem find_filter {p : List Text → Bool} {names : List Text} (h : p names = true)
    (nodes : List (List Text × Node)) :
    find names (nodes.filter fun entry => p entry.1) = find names nodes := by
  induction nodes with
  | nil => rfl
  | cons entry rest ih =>
    obtain ⟨key, old⟩ := entry
    by_cases hk : key = names
    · subst hk
      simp [find, h]
    · cases hp : p key <;> simp [find, hk, hp, ih]

theorem find_below {place names : List Text} (h : names ≠ []) (disk : Disk) :
    find (place ++ names) (disk.below place) = find (place ++ names) disk.nodes :=
  find_filter (isBelow_iff.mpr ⟨names, h, rfl⟩) disk.nodes

/-- What is in the file at a place, if there is one. -/
def content? (disk : Disk) (place : List Text) : Option Bytes :=
  match disk.node? place with
  | some (.file content) => some content
  | _ => none

theorem content?_eq_some_iff {disk : Disk} {place : List Text} {content : Bytes} :
    disk.content? place = some content ↔ disk.node? place = some (.file content) := by
  rw [content?]
  split <;> simp_all

/-- A path at which there is a directory, and below it a tree: nothing is there twice,
and plain names lead to everything. -/
structure IsTree (disk : Disk) (root : Path) : Prop where
  located : disk.locate root = .ok root.place
  isDirectory : disk.node? root.place = some .directory
  distinct : ((disk.below root.place).map (·.1)).Nodup
  reached : ∀ names node, names ≠ [] → (root.place ++ names, node) ∈ disk.nodes →
    (∀ part ∈ names, IsPlain part) ∧
      disk.locate (root.descend names) = .ok (root.place ++ names)

namespace IsTree

variable {disk : Disk} {root : Path} {names : List Text}

/-- A tree stays one when something is put where plain names lead and no directory is. -/
theorem put (h : disk.IsTree root) (hp : ∀ part ∈ names, IsPlain part)
    (hl : disk.locate (root.descend names) = .ok (root.place ++ names))
    (hn : disk.node? (root.place ++ names) ≠ some .directory) (node : Node) :
    (disk.put (root.place ++ names) node).IsTree root := by
  have hkeeps : disk.Keeps (disk.put (root.place ++ names) node) := .put hn node
  have hne : names ≠ [] := by
    rintro rfl
    exact hn (by rw [List.append_nil, h.isDirectory])
  refine ⟨hkeeps.locate h.located, hkeeps _ h.isDirectory, ?_,
    fun other found ho hm => ?_⟩
  · rw [below_put hne]
    exact nodup_insert h.distinct
  · rcases mem_keys_insert.mp (List.mem_map_of_mem (f := Prod.fst) hm) with he | hk
    · obtain rfl := List.append_cancel_left he
      exact ⟨hp, hkeeps.locate hl⟩
    · obtain ⟨⟨key, old⟩, hm, rfl⟩ := List.mem_map.mp hk
      obtain ⟨hplain, hlocated⟩ := h.reached other old ho hm
      exact ⟨hplain, hkeeps.locate hlocated⟩

/-- What plain names lead to is what is listed. -/
theorem node?_eq_some_iff (h : disk.IsTree root) (hne : names ≠ [])
    (hp : ∀ part ∈ names, IsPlain part) {node : Node} :
    disk.node? (root.place ++ names) = some node ↔
      (root.place ++ names, node) ∈ disk.nodes := by
  rw [node?_of_not_fixed (not_fixed_of_plain hne hp root.place), ← find_below hne,
    find_eq_some_iff h.distinct, mem_below hne]

theorem content?_eq_some_iff (h : disk.IsTree root) (hne : names ≠ []) {content : Bytes} :
    disk.content? (root.place ++ names) = some content ↔
      (root.place ++ names, .file content) ∈ disk.nodes := by
  rw [Disk.content?_eq_some_iff]
  constructor
  · intro hn
    -- Looked up and found, so it is listed, and then its names are plain.
    have hfile : disk.node? (root.place ++ names) ≠ some .directory := by simp [hn]
    rwa [node?_of_not_fixed (not_fixed_of_node? hfile), ← find_below hne,
      find_eq_some_iff h.distinct,
      mem_below hne] at hn
  · intro hm
    exact (h.node?_eq_some_iff hne (h.reached names _ hne hm).1).mpr hm

/-- What is above something in a tree is a directory in it. -/
theorem directory_above {first second : List Text} {node : Node} (h : disk.IsTree root)
    (hf : first ≠ []) (hs : second ≠ [])
    (hm : (root.place ++ (first ++ second), node) ∈ disk.nodes) :
    (root.place ++ first, .directory) ∈ disk.nodes := by
  obtain ⟨hplain, hl⟩ := h.reached _ _ (List.append_ne_nil_of_left_ne_nil hf second) hm
  have hfirst : ∀ part ∈ first, IsPlain part :=
    fun part hp => hplain part (List.mem_append_left _ hp)
  rw [← h.node?_eq_some_iff hf hfirst, ← Path.place_descend (above_not_mem hfirst)]
  rw [locate] at hl
  split at hl
  · cases hl
  · rw [Path.descend, ← List.append_assoc] at hl
    exact node?_of_walk hs hl

end IsTree

/-- A path at which there is a directory with nothing in it. -/
structure IsEmptyDirectory (disk : Disk) (path : Path) : Prop where
  isDirectory : disk.status path = .ok .directory
  isEmpty : disk.below path.place = []

theorem IsEmptyDirectory.node? {disk : Disk} {path : Path}
    (h : disk.IsEmptyDirectory path) :
    disk.node? path.place = some .directory :=
  (status_eq_ok h.isDirectory).2

theorem IsEmptyDirectory.content?_eq_none {disk : Disk} {path : Path}
    (h : disk.IsEmptyDirectory path) (names : List Text) :
    disk.content? (path.place ++ names) = none := by
  rw [content?]
  by_cases hf : IsFixed (path.place ++ names)
  · rw [node?_fixed hf]
  by_cases hn : names = []
  · rw [hn, List.append_nil, h.node?]
  · rw [node?_of_not_fixed hf, ← find_below hn, h.isEmpty, find]

theorem IsEmptyDirectory.isTree {disk : Disk} {path : Path}
    (h : disk.IsEmptyDirectory path) :
    disk.IsTree path where
  located := (status_eq_ok h.isDirectory).1
  isDirectory := h.node?
  distinct := by simp [h.isEmpty]
  reached := by
    intro names node hne hm
    rw [← mem_below hne, h.isEmpty] at hm
    cases hm

/-- How deep it goes below a path is a matter of the directories that are listed. -/
theorem isDeeper_iff {disk : Disk} {path : Path} {place : List Text} {levels : Nat}
    (h : disk.locate path = .ok place) :
    disk.isDeeper levels path = true ↔
      ∃ names, levels < names.length ∧ (place ++ names, .directory) ∈ disk.nodes := by
  simp only [isDeeper, h, List.any_eq_true, Bool.and_eq_true, beq_iff_eq,
    List.isPrefixOf_iff_prefix, decide_eq_true_eq]
  constructor
  · rintro ⟨⟨key, node⟩, hm, ⟨hnode, names, hkey⟩, hlong⟩
    cases hnode
    subst hkey
    simp only [List.length_append] at hlong
    exact ⟨names, by omega, hm⟩
  · rintro ⟨names, hlong, hm⟩
    refine ⟨_, hm, ⟨rfl, List.prefix_append _ _⟩, ?_⟩
    rw [List.length_append]
    omega

/-! ## The files below a directory -/

/-- A file as it is listed: the names from the place on, and what is in it. -/
def listed (place : List Text) : List Text × Node → Option (List Text × Bytes)
  | (key, .file content) => some (key.drop place.length, content)
  | (_, .directory) => none

theorem filesBelow_perm {disk : Disk} {path : Path} {place : List Text}
    (h : disk.locate path = .ok place) :
    (disk.filesBelow path).Perm ((disk.below place).filterMap (listed place)) := by
  rw [filesBelow, h]
  refine (List.mergeSort_perm _ _).trans (List.Perm.of_eq ?_)
  rw [below, List.filterMap_filter]
  congr 1
  funext ⟨key, node⟩
  cases node with
  | directory => simp [listed]
  | file content => rfl

theorem mem_filesBelow {disk : Disk} {path : Path} {place names : List Text}
    {content : Bytes} (h : disk.locate path = .ok place) :
    (names, content) ∈ disk.filesBelow path ↔
      names ≠ [] ∧ (place ++ names, .file content) ∈ disk.nodes := by
  rw [(filesBelow_perm h).mem_iff, List.mem_filterMap]
  constructor
  · rintro ⟨⟨key, node⟩, hm, hl⟩
    rw [below, List.mem_filter] at hm
    obtain ⟨rest, hne, rfl⟩ := isBelow_iff.mp hm.2
    cases node with
    | directory => cases hl
    | file found =>
      simp only [listed, List.drop_left, Option.some.injEq, Prod.mk.injEq] at hl
      obtain ⟨rfl, rfl⟩ := hl
      exact ⟨hne, hm.1⟩
  · rintro ⟨hne, hm⟩
    exact ⟨_, (mem_below hne).mpr hm, by simp [listed]⟩

/-- Where no key comes twice, no file is listed twice. -/
theorem nodup_filesBelow {disk : Disk} {path : Path} {place : List Text}
    (h : disk.locate path = .ok place) (hd : ((disk.below place).map (·.1)).Nodup) :
    ((disk.filesBelow path).map (·.1)).Nodup := by
  rw [((filesBelow_perm h).map _).nodup_iff]
  have hb : ∀ entry ∈ disk.below place, ∃ names, entry.1 = place ++ names := by
    intro entry he
    rw [below, List.mem_filter] at he
    obtain ⟨names, -, hn⟩ := isBelow_iff.mp he.2
    exact ⟨names, hn⟩
  generalize disk.below place = nodes at hd hb
  induction nodes with
  | nil => simp
  | cons entry rest ih =>
    rw [List.map_cons, List.nodup_cons] at hd
    rw [List.forall_mem_cons] at hb
    obtain ⟨key, node⟩ := entry
    cases node with
    | directory => exact ih hd.2 hb.2
    | file content =>
      obtain ⟨names, rfl⟩ := hb.1
      rw [List.filterMap_cons_some (b := (names, content)) (by simp [listed]),
        List.map_cons, List.nodup_cons]
      refine ⟨fun hm => hd.1 ?_, ih hd.2 hb.2⟩
      -- Another file listed by these names has the same key.
      obtain ⟨⟨again, other⟩, hf, rfl⟩ := List.mem_map.mp hm
      obtain ⟨⟨key, node⟩, he, hl⟩ := List.mem_filterMap.mp hf
      obtain ⟨more, hkey⟩ := hb.2 _ he
      cases node with
      | directory => cases hl
      | file found =>
        subst hkey
        simp only [listed, List.drop_left, Option.some.injEq, Prod.mk.injEq] at hl
        exact List.mem_map.mpr ⟨_, he, by rw [hl.1]⟩

/-- Files are listed in the order of their names. -/
theorem pairwise_filesBelow (disk : Disk) (path : Path) :
    (disk.filesBelow path).Pairwise fun a b => Path.values a.1 ≤ Path.values b.1 := by
  rw [filesBelow]
  split
  · exact List.Pairwise.nil
  · exact Path.pairwise_mergeSort _ _

end Disk

end ExtensionAudit
