import ExtensionAudit.Proofs.Archive.Extraction

/-!
# Archive — extraction to a directory that is gone

Where nothing is at a path or below it (`Disk.IsGone`), an action of an extraction
succeeds just if it is about the directory itself, and then something is there
(`Action.rooted_of_run`, `Action.run_of_isRooted`). No action takes anything away.
-/

namespace ExtensionAudit

namespace Disk

/-- Is there nothing at the path, and nothing below it? -/
def IsGone (disk : Disk) (path : Path) : Prop :=
  ∀ names, disk.node? (path.place ++ names) = none

/-- A path for a new directory: nothing is there or below, and a directory can be made. -/
structure IsFresh (disk : Disk) (path : Path) : Prop where
  gone : disk.IsGone path
  made : ∃ opened, disk.makeDirectory path = .ok opened

variable {disk : Disk} {path : Path}

/-- Where nothing is at all, there is room for a new directory. -/
theorem isFresh_empty (hfixed : ¬ IsFixed path.place)
    (hmade : ∃ opened, Disk.empty.makeDirectory path = .ok opened) :
    Disk.empty.IsFresh path :=
  ⟨fun names => node?_of_not_fixed (not_fixed_append hfixed names) .empty, hmade⟩

theorem IsGone.node? (h : disk.IsGone path) :
    disk.node? path.place = none := by simpa using h []

theorem IsGone.not_fixed (h : disk.IsGone path) : ¬ IsFixed path.place := by
  have hplace : disk.node? path.place ≠ some .directory := by simp [h.node?]
  exact not_fixed_of_node? hplace

/-- What is listed can be looked up. -/
theorem node?_ne_none_of_mem {entry : List Text × Node} (hm : entry ∈ disk.nodes) :
    disk.node? entry.1 ≠ none := by
  by_cases hfixed : IsFixed entry.1
  · simp [node?_fixed hfixed]
  · rw [node?_of_not_fixed hfixed]
    exact fun hnone => find_eq_none_iff.mp hnone entry hm rfl

/-- Nothing is listed at or below a path at which nothing can be looked up. -/
theorem IsGone.not_mem (h : disk.IsGone path) {entry : List Text × Node}
    (hm : entry ∈ disk.nodes) :
    ¬ path.place <+: entry.1 := by
  rintro ⟨names, hnames⟩
  exact node?_ne_none_of_mem hm (hnames ▸ h names)

/-- A directory that was made where nothing was is empty. -/
theorem IsGone.isEmptyDirectory {opened : Disk} (h : disk.IsGone path)
    (hmade : disk.makeDirectory path = .ok opened) : opened.IsEmptyDirectory path := by
  obtain ⟨hl, -, -, rfl⟩ := makeDirectory_ok hmade
  have hkeeps : disk.Keeps (disk.put path.place .directory) := .put (by simp [h.node?]) _
  refine ⟨?_, ?_⟩
  · simp only [status_eq, hkeeps.locate hl, node?_put_self h.not_fixed, bind, Except.bind]
  · rw [below, List.filter_eq_nil_iff]
    intro entry hm hbelow
    obtain ⟨names, hne, hkey⟩ := isBelow_iff.mp hbelow
    rcases mem_keys_insert.mp (List.mem_map_of_mem (f := Prod.fst) hm) with hplace | hold
    · rw [hplace] at hkey
      exact hne (List.self_eq_append_right.mp hkey)
    · obtain ⟨old, hold, hsame⟩ := List.mem_map.mp hold
      exact h.not_mem hold (hsame ▸ hkey ▸ List.prefix_append _ _)

/-- No way leads through a directory that is gone. -/
theorem IsGone.locate_descend (h : disk.IsGone path)
    {names : List Text} (hne : names ≠ [])
    (place : List Text) : disk.locate (path.descend names) ≠ .ok place := by
  intro hl
  rw [locate] at hl
  split at hl
  · cases hl
  · have hnode : disk.node? path.place = some .directory := node?_of_walk hne hl
    rw [h.node?] at hnode
    cases hnode

theorem IsGone.isPresent_descend (h : disk.IsGone path) (names : List Text) :
    disk.isPresent (path.descend names) = false := by
  rw [isPresent]
  cases hs : disk.status (path.descend names) with
  | error refusal => rfl
  | ok node =>
    obtain ⟨hl, hn⟩ := status_eq_ok hs
    by_cases hne : names = []
    · subst hne
      rw [Path.descend, List.append_nil, h.node?] at hn
      cases hn
    · exact absurd hl (h.locate_descend hne _)

theorem IsGone.isPresent (h : disk.IsGone path) : disk.isPresent path = false := by
  rw [← Archive.descend_nil path]
  exact h.isPresent_descend []

theorem IsGone.isDirectory_descend (h : disk.IsGone path) (names : List Text) :
    disk.isDirectory (path.descend names) = false := by
  have hpresent := h.isPresent_descend names
  rw [Disk.isPresent] at hpresent
  rw [isDirectory]
  cases hs : disk.status (path.descend names) with
  | error refusal => rfl
  | ok node => simp [hs] at hpresent

theorem IsGone.makeDirectory_descend (h : disk.IsGone path)
    {names : List Text} (hne : names ≠ [])
    (later : Disk) : disk.makeDirectory (path.descend names) ≠ .ok later :=
  fun hmade => h.locate_descend hne _ (makeDirectory_ok hmade).1

theorem IsGone.write_descend (h : disk.IsGone path)
    {names : List Text} (hne : names ≠ []) (content : Bytes)
    (later : Disk) : disk.write (path.descend names) content ≠ .ok later :=
  fun hwritten => h.locate_descend hne _ (write_ok hwritten).1

end Disk

namespace Archive

theorem length_beginnings {α : Type}
    (list : List α) : (beginnings list).length = list.length := by
  rw [beginnings, List.length_map, List.length_range]

/-- Where the directory is gone, everything above a place in it is missing. -/
theorem missing_of_isGone {root : Path} {disk : Disk} (h : disk.IsGone root)
    (place : List Text) :
    missing root disk place = place.length := by
  rw [missing, ← length_beginnings place, List.countP_eq_length]
  intro above _
  rw [h.isPresent_descend, Bool.not_false]

/-- Is the action about the directory that is extracted to, and not about something in
it? -/
def Action.IsRooted : Action → Prop
  | .enter levels place => place.length ≤ levels
  | .ensure place | .makeDirectory place | .write place _ => place = []
  | .stop _ => False

/-- A directory that is gone can be made sure of just if it can be made. -/
theorem ensureDirectory_of_isGone {root : Path}
    {disk later : Disk} (h : disk.IsGone root) {place : List Text}
    (hensured : ensureDirectory disk (root.descend place) = .ok later) :
    place = [] ∧ later = disk.put (root.descend place).place .directory := by
  rw [ensureDirectory_eq, h.isPresent_descend, if_neg Bool.false_ne_true] at hensured
  have hmade := mapError_eq_ok.mp hensured
  refine ⟨?_, (Disk.makeDirectory_ok hmade).2.2.2⟩
  by_contra hne
  exact h.makeDirectory_descend hne _ hmade

/-- An action that succeeds where the directory is gone is about the directory, and
something is there then. -/
theorem Action.rooted_of_run {root : Path} {disk later : Disk} {action : Action}
    (h : disk.IsGone root) (hr : action.run root disk = .ok later) :
    action.IsRooted ∧ later.node? root.place ≠ none := by
  -- Below the directory nothing can be put, as it is not there; so it is put itself.
  have hput {names : List Text} (hnames : names = []) (node : Node) :
      (disk.put (root.descend names).place node).node? root.place ≠ none := by
    subst hnames
    rw [descend_nil, Disk.node?_put_self h.not_fixed]
    exact Option.some_ne_none node
  cases action with
  | enter levels place =>
    obtain ⟨hlevels, hensured⟩ := run_enter.mp hr
    rw [missing_of_isGone h] at hlevels
    rw [← descend_nil root] at hensured
    obtain ⟨-, rfl⟩ := ensureDirectory_of_isGone h hensured
    exact ⟨hlevels, hput rfl _⟩
  | ensure place =>
    obtain ⟨hplace, rfl⟩ := ensureDirectory_of_isGone h hr
    exact ⟨hplace, hput hplace _⟩
  | makeDirectory place =>
    simp only [run, h.isDirectory_descend, Bool.false_eq_true, if_false] at hr
    have hmade := mapError_eq_ok.mp hr
    have hplace : place = [] := by
      by_contra hne
      exact h.makeDirectory_descend hne _ hmade
    obtain ⟨-, -, -, rfl⟩ := Disk.makeDirectory_ok hmade
    exact ⟨hplace, hput hplace _⟩
  | write place octets =>
    have hwritten := mapError_eq_ok.mp hr
    have hplace : place = [] := by
      by_contra hne
      exact h.write_descend hne _ _ hwritten
    obtain ⟨-, -, rfl⟩ := Disk.write_ok hwritten
    exact ⟨hplace, hput hplace _⟩
  | stop fault => cases hr

/-- No action takes anything away. -/
theorem Action.node?_of_run {root : Path} {disk later : Disk} {action : Action}
    {key : List Text} (hr : action.run root disk = .ok later)
    (h : later.node? key = none) : disk.node? key = none := by
  have hput {place : List Text} {node : Node} (hnot : disk.node? place ≠ some .directory)
      (h : (disk.put place node).node? key = none) : disk.node? key = none := by
    by_cases hkey : key = place
    · rw [hkey, Disk.node?_put_self (Disk.not_fixed_of_node? hnot)] at h
      cases h
    · rwa [Disk.node?_put_of_ne hkey] at h
  rcases run_cases hr with ⟨-, rfl⟩ | ⟨-, place, -, -, hn, rfl⟩ |
    ⟨place, octets, -, -, hn, rfl⟩
  · exact h
  · exact hput (by simp [hn]) h
  · exact hput hn h

/-- Where the directory is gone, an action about it succeeds, if the way to it is open. -/
theorem Action.run_of_isRooted {root : Path} {disk : Disk} {action : Action}
    (h : disk.IsGone root) (hl : disk.locate root = .ok root.place)
    (hd : disk.node? root.place.dropLast = some .directory)
    (hrooted : action.IsRooted) :
    ∃ later, action.run root disk = .ok later := by
  have hmade : disk.makeDirectory root = .ok (disk.put root.place .directory) := by
    simp only [Disk.makeDirectory, Disk.about, hl, h.node?, Disk.checkParent, hd, bind,
      Except.bind, Except.mapError]
  have hensured : ensureDirectory disk root = .ok (disk.put root.place .directory) := by
    rw [ensureDirectory_eq, h.isPresent, if_neg Bool.false_ne_true, hmade]
    rfl
  cases action with
  | enter levels place =>
    refine ⟨_, run_enter.mpr ⟨?_, hensured⟩⟩
    rw [missing_of_isGone h]
    exact hrooted
  | ensure place =>
    cases hrooted
    exact ⟨_, (congrArg _ (descend_nil root)).trans hensured⟩
  | makeDirectory place =>
    cases hrooted
    refine ⟨disk.put root.place .directory, ?_⟩
    simp only [run, h.isDirectory_descend, Bool.false_eq_true, if_false]
    rw [descend_nil, hmade]
    rfl
  | write place octets =>
    cases hrooted
    refine ⟨disk.put root.place (.file octets), ?_⟩
    rw [run, descend_nil]
    simp only [Disk.write, Disk.about, hl, h.node?, Disk.checkParent, hd, bind,
      Except.bind, Except.mapError]
  | stop fault => cases hrooted

/-- A tree stays one with what an action puts into it. -/
theorem Action.isTree_run {root : Path} {disk later : Disk}
    {action : Action} (hs : action.IsStraight) (h : disk.IsTree root)
    (hr : action.run root disk = .ok later) :
    later.IsTree root := by
  rcases run_cases hr with
    ⟨-, rfl⟩ | ⟨-, place, hp, hl, hn, rfl⟩ | ⟨place, octets, rfl, hl, hn, rfl⟩
  · exact h
  · have hplain := isPlain_of_made? hp hs
    rw [Path.place_descend (Disk.above_not_mem hplain)] at hl hn ⊢
    exact h.put hplain hl (by simp [hn]) _
  · rw [Path.place_descend (Disk.above_not_mem hs)] at hl hn ⊢
    exact h.put hs hl hn _

theorem planned_isStraight {platform : Platform} {archive : Bytes} {action : Action}
    (h : action ∈ planned platform archive) : action.IsStraight := by
  rw [planned] at h
  split at h
  · cases List.mem_singleton.mp h
    trivial
  · obtain ⟨e, -, hm⟩ := List.mem_flatMap.mp h
    exact memberActions_isStraight hm

end Archive

end ExtensionAudit
