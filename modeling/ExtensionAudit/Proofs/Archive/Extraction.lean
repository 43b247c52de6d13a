import ExtensionAudit.Archive.Extraction
import ExtensionAudit.Proofs.Disk
import ExtensionAudit.Proofs.Outcome
import Mathlib.Data.List.Induction

/-!
# Archive — what extraction leaves on the disk

An action that succeeds leaves the disk as it is, or makes a directory where nothing
was, or writes a file where no directory was (`Action.run_cases`). So below an empty
directory there are just the files written last, and nothing else has changed
(`Extracted`).
-/

namespace ExtensionAudit.Archive

/-! ## One action -/

/-- The file that an action writes. -/
def Action.written? : Action → Option (List Text × Bytes)
  | .write place octets => some (place, octets)
  | _ => none

/-- The directory that an action makes sure of. -/
def Action.made? : Action → Option (List Text)
  | .enter _ _ => some []
  | .ensure place | .makeDirectory place => some place
  | _ => none

/-- Are the names that an action is about plain, so that they lead straight down? -/
def Action.IsStraight : Action → Prop
  | .enter _ place | .ensure place | .makeDirectory place | .write place _ =>
    ∀ part ∈ place, Disk.IsPlain part
  | .stop _ => True

theorem Action.isPlain_of_made? {action : Action} {place : List Text}
    (h : action.made? = some place) (hs : action.IsStraight) :
    ∀ part ∈ place, Disk.IsPlain part := by
  cases action with
  | enter levels below =>
    cases h
    simp
  | ensure place | makeDirectory place =>
    cases h
    exact hs
  | write | stop => cases h

/-- To make sure of a directory is to make it if nothing is there. -/
theorem ensureDirectory_eq (disk : Disk) (path : Path) :
    ensureDirectory disk path =
      if disk.isPresent path then .ok disk
        else (disk.makeDirectory path).mapError .unwritable := by
  rw [ensureDirectory, Disk.look_eq, Disk.isPresent, Disk.status_eq,
    Disk.makeDirectory, Disk.about]
  cases hl : disk.locate path with
  | error refusal => rfl
  | ok place =>
    cases hn : disk.node? place with
    | some node => simp [hn, Except.map, bind, Except.bind]
    | none =>
      simp only [hn, Except.map, bind, Except.bind, Except.mapError, Bool.false_eq_true,
        if_false, Disk.checkParent_of_locate hl, Disk.add_eq_put hn]

/-- A directory that was made sure of was there, or is made where nothing was. -/
theorem ensureDirectory_cases {path : Path} {disk later : Disk}
    (h : ensureDirectory disk path = .ok later) :
    later = disk ∨ disk.locate path = .ok path.place ∧ disk.node? path.place = none ∧
      later = disk.put path.place .directory := by
  rw [ensureDirectory_eq] at h
  split at h
  · cases h
    exact .inl rfl
  · obtain ⟨hl, hn, -, hp⟩ := Disk.makeDirectory_ok (mapError_eq_ok.mp h)
    exact .inr ⟨hl, hn, hp⟩

theorem descend_nil (root : Path) : root.descend [] =
    root := by rw [Path.descend, List.append_nil]

/-- The directory that is extracted to is entered unless too much is missing. -/
theorem Action.run_enter {root : Path} {disk later : Disk} {levels : Nat}
    {place : List Text} :
    (Action.enter levels place).run root disk = .ok later ↔
      missing root disk place ≤ levels ∧ ensureDirectory disk root = .ok later := by
  rw [run]
  split
  · exact iff_of_false nofun fun h => by omega
  · exact (and_iff_right (by omega)).symm

/-- What an action does when it succeeds. -/
theorem Action.run_cases {root : Path} {disk later : Disk} {action : Action}
    (h : action.run root disk = .ok later) :
    (action.written? = none ∧ later = disk) ∨
    (action.written? = none ∧ ∃ place, action.made? = some place ∧
      disk.locate (root.descend place) = .ok (root.descend place).place ∧
      disk.node? (root.descend place).place = none ∧
      later = disk.put (root.descend place).place .directory) ∨
    (∃ place octets, action = .write place octets ∧
      disk.locate (root.descend place) = .ok (root.descend place).place ∧
      disk.node? (root.descend place).place ≠ some .directory ∧
      later = disk.put (root.descend place).place (.file octets)) := by
  cases action with
  | enter levels place =>
    rcases ensureDirectory_cases (run_enter.mp h).2 with rfl | ⟨hl, hn, hp⟩
    · exact .inl ⟨rfl, rfl⟩
    · rw [← descend_nil root] at hl hn hp
      exact .inr (.inl ⟨rfl, [], rfl, hl, hn, hp⟩)
  | ensure place =>
    rcases ensureDirectory_cases h with rfl | ⟨hl, hn, hp⟩
    · exact .inl ⟨rfl, rfl⟩
    · exact .inr (.inl ⟨rfl, place, rfl, hl, hn, hp⟩)
  | makeDirectory place =>
    simp only [run] at h
    split at h
    · cases h
      exact .inl ⟨rfl, rfl⟩
    · obtain ⟨hl, hn, -, hp⟩ := Disk.makeDirectory_ok (mapError_eq_ok.mp h)
      exact .inr (.inl ⟨rfl, place, rfl, hl, hn, hp⟩)
  | write place octets =>
    obtain ⟨hl, hn, hp⟩ := Disk.write_ok (mapError_eq_ok.mp h)
    exact .inr (.inr ⟨place, octets, rfl, hl, hn, hp⟩)
  | stop fault => cases h

/-- No action takes a directory away. -/
theorem Action.keeps {root : Path} {disk later : Disk} {action : Action}
    (h : action.run root disk = .ok later) : disk.Keeps later := by
  rcases run_cases h with ⟨-, rfl⟩ | ⟨-, place, -, -, hn, rfl⟩ |
    ⟨place, octets, -, -, hn, rfl⟩
  · exact .refl later
  · exact .put (by simp [hn]) _
  · exact .put hn _

/-! ## Extraction into an empty directory -/

/-- The octets that were written last under some names. -/
def lastWritten (names : List Text) (written : List (List Text × Bytes)) : Option Bytes :=
  (written.findRev? fun entry => entry.1 == names).map (·.2)

@[simp] theorem lastWritten_append (names : List Text)
    (written : List (List Text × Bytes)) (entry : List Text × Bytes) :
    lastWritten names (written ++ [entry]) =
      if entry.1 = names then some entry.2 else lastWritten names written := by
  simp only [lastWritten, List.findRev?_eq_find?_reverse, List.reverse_append,
    List.reverse_singleton, List.singleton_append, List.find?_cons]
  by_cases h : entry.1 = names
  · simp [h]
  · rw [beq_false_of_ne h, if_neg h]

/-- What is on the disk once files have been written into a directory that was empty
before. -/
structure Extracted (root : Path) (before : Disk) (written : List (List Text × Bytes))
    (disk : Disk) : Prop where
  tree : disk.IsTree root
  files : ∀ names, disk.content? (root.place ++ names) = lastWritten names written
  outside : ∀ key, ¬ root.place <+: key → disk.node? key = before.node? key

theorem extracted_nil {root : Path} {before : Disk} (h : before.IsEmptyDirectory root) :
    Extracted root before [] before where
  tree := h.isTree
  files := h.content?_eq_none
  outside := fun _ _ => rfl

/-- Nothing outside a directory is changed by what is put below it. -/
theorem Extracted.outside_put {root : Path} {before disk : Disk}
    {written : List (List Text × Bytes)} (h : Extracted root before written disk)
    (names : List Text) (node : Node) (key : List Text) (hk : ¬ root.place <+: key) :
    (disk.put (root.place ++ names) node).node? key = before.node? key := by
  rw [← h.outside key hk]
  refine Disk.node?_put_of_ne ?_ disk _
  rintro rfl
  exact hk (List.prefix_append _ _)

theorem Extracted.makeDirectory {root : Path} {before disk : Disk}
    {written : List (List Text × Bytes)} {names : List Text}
    (h : Extracted root before written disk) (hp : ∀ part ∈ names, Disk.IsPlain part)
    (hl : disk.locate (root.descend names) = .ok (root.place ++ names))
    (hn : disk.node? (root.place ++ names) = none) :
    Extracted root before written (disk.put (root.place ++ names) .directory) := by
  have hplace : disk.node? (root.place ++ names) ≠ some .directory := by simp [hn]
  refine ⟨h.tree.put hp hl hplace _, fun other => ?_, h.outside_put names _⟩
  rw [← h.files other]
  by_cases ho : other = names
  · subst ho
    rw [Disk.content?, Disk.content?, hn,
      Disk.node?_put_self (Disk.not_fixed_of_node? hplace)]
  · rw [Disk.content?, Disk.content?,
      Disk.node?_put_of_ne fun e => ho (List.append_cancel_left e)]

theorem Extracted.write {root : Path} {before disk : Disk}
    {written : List (List Text × Bytes)} {names : List Text} {octets : Bytes}
    (h : Extracted root before written disk) (hp : ∀ part ∈ names, Disk.IsPlain part)
    (hl : disk.locate (root.descend names) = .ok (root.place ++ names))
    (hn : disk.node? (root.place ++ names) ≠ some .directory) :
    Extracted root before (written ++ [(names, octets)])
      (disk.put (root.place ++ names) (.file octets)) := by
  refine ⟨h.tree.put hp hl hn _, fun other => ?_, h.outside_put names _⟩
  rw [lastWritten_append, ← h.files other]
  by_cases ho : names = other
  · subst ho
    rw [Disk.content?, Disk.node?_put_self (Disk.not_fixed_of_node? hn), if_pos rfl]
  · rw [Disk.content?, Disk.content?, if_neg ho,
      Disk.node?_put_of_ne fun e => ho (List.append_cancel_left e).symm]

theorem Extracted.run {root : Path} {before disk later : Disk}
    {written : List (List Text × Bytes)} {action : Action}
    (h : Extracted root before written disk) (hs : action.IsStraight)
    (hr : action.run root disk = .ok later) :
    Extracted root before (written ++ action.written?.toList) later := by
  rcases Action.run_cases hr with
    ⟨hw, rfl⟩ | ⟨hw, place, hp, hl, hn, rfl⟩ | ⟨place, octets, rfl, hl, hn, rfl⟩
  · rw [hw, Option.toList_none, List.append_nil]
    exact h
  · have hplain := Action.isPlain_of_made? hp hs
    rw [Path.place_descend (Disk.above_not_mem hplain)] at hl hn ⊢
    rw [hw, Option.toList_none, List.append_nil]
    exact h.makeDirectory hplain hl hn
  · rw [Path.place_descend (Disk.above_not_mem hs)] at hl hn ⊢
    exact h.write hs hl hn

/-- A run of actions, from what one action does. -/
theorem Extracted.runActions {root : Path} {before disk later : Disk}
    {written : List (List Text × Bytes)} {actions : List Action}
    (h : Extracted root before written disk) (hs : ∀ action ∈ actions, action.IsStraight)
    (hr : Archive.runActions root actions disk = (later, .ok ())) :
    Extracted root before (written ++ actions.filterMap Action.written?) later := by
  -- The induction is on the actions; the disk and what has been written change with each.
  induction actions generalizing disk written with
  | nil =>
    cases hr
    simpa using h
  | cons action rest ih =>
    rw [List.forall_mem_cons] at hs
    rw [Archive.runActions] at hr
    cases ha : action.run root disk with
    | error fault => simp [ha] at hr
    | ok next =>
      rw [ha] at hr
      have hnext := ih (h.run hs.1 ha) hs.2 hr
      rw [List.append_assoc] at hnext
      convert hnext using 2
      cases action <;> rfl

/-! ## What an archive has written -/

theorem not_stop_of_runActions {root : Path} {disk later : Disk}
    {actions : List Action} (h : runActions root actions disk = (later, .ok ()))
    (fault : Fault) : .stop fault ∉ actions := by
  induction actions generalizing disk with
  | nil => simp
  | cons action rest ih =>
    rw [runActions] at h
    cases ha : action.run root disk with
    | error fault => simp [ha] at h
    | ok next =>
      rw [ha] at h
      rw [List.mem_cons, not_or]
      refine ⟨?_, ih h⟩
      rintro rfl
      cases ha

theorem Entry.isPlain_of_mem_place {e : Entry} {part : Text}
    (h : part ∈ e.place) : Disk.IsPlain part := by
  rw [place, List.mem_filter] at h
  obtain ⟨hm, hp⟩ := h
  simp only [Bool.and_eq_true, bne_iff_ne] at hp
  exact ⟨hp.1.1, hp.1.2, hp.2, Text.not_mem_of_mem_split hm⟩

theorem Entry.place_congr {e other : Entry} (h : other.name = e.name) :
    other.place = e.place := by
  rw [place, place, h]

theorem Entry.isDirectory_congr {e other : Entry} (h : other.name = e.name) :
    other.isDirectory = e.isDirectory := by
  rw [isDirectory, isDirectory, h]

theorem beginnings_cons {α : Type} (a : α) (list : List α) :
    beginnings (a :: list) = [] :: (beginnings list).map (a :: ·) := by
  rw [beginnings, beginnings, List.length_cons, List.range_succ_eq_map, List.map_cons,
    List.map_map, List.map_map]
  rfl

theorem mem_of_mem_beginnings {α : Type} {first list : List α}
    (h : first ∈ beginnings list) :
    ∀ a ∈ first, a ∈ list := by
  obtain ⟨count, -, rfl⟩ := List.mem_map.mp h
  exact fun a ha => List.mem_of_mem_take ha

theorem aboveActions_isStraight {levels : Nat} {place : List Text}
    {action : Action} (hplace : ∀ part ∈ place, Disk.IsPlain part)
    (h : action ∈ aboveActions levels place) :
    action.IsStraight := by
  rw [aboveActions] at h
  split at h
  · cases h
  · rename_i first rest hbeginnings
    rcases List.mem_cons.mp h with rfl | h
    · exact hplace
    · obtain ⟨above, habove, rfl⟩ := List.mem_map.mp h
      have hmem : above ∈ beginnings place :=
        hbeginnings ▸ List.mem_cons_of_mem first habove
      exact fun part hp => hplace part (mem_of_mem_beginnings hmem part hp)

theorem memberActions_isStraight {platform : Platform} {archive : Bytes}
    {e : Entry} {action : Action} (h : action ∈ memberActions platform archive e) :
    action.IsStraight := by
  have hplace : ∀ part ∈ e.place, Disk.IsPlain part :=
    fun part hp => Entry.isPlain_of_mem_place hp
  rw [memberActions, List.mem_append] at h
  rcases h with h | h
  · exact aboveActions_isStraight hplace h
  rw [ownActions] at h
  split at h
  · rw [List.mem_singleton] at h
    subst h
    trivial
  split at h
  · rw [List.mem_singleton] at h
    subst h
    exact hplace
  rw [fileActions] at h
  split at h
  · rw [List.mem_singleton] at h
    subst h
    trivial
  · rcases List.mem_cons.mp h with rfl | h
    · exact hplace
    · split at h
      · rw [List.mem_singleton] at h
        subst h
        trivial
      · cases h

/-- The octets of a member, if there are any. -/
def octets? (platform : Platform) (archive : Bytes) (e : Entry) : Option Bytes :=
  match e.content platform archive with
  | .ok content => if content.fault.isNone then some content.octets else none
  | .error _ => none

theorem filterMap_written_ensure (places : List (List Text)) :
    (places.map Action.ensure).filterMap Action.written? = [] := by
  induction places with
  | nil => rfl
  | cons place rest ih => exact ih

theorem filterMap_written_above (levels : Nat) (place : List Text) :
    (aboveActions levels place).filterMap Action.written? = [] := by
  rw [aboveActions]
  split
  · rfl
  · exact filterMap_written_ensure _

/-- A member that is extracted without a fault writes its octets, unless it is a
directory. -/
theorem memberActions_written {platform : Platform} {archive : Bytes} {e : Entry}
    (h : ∀ fault, .stop fault ∉ memberActions platform archive e) :
    (e.isDirectory = true ∧
      (memberActions platform archive e).filterMap Action.written? = []) ∨
    (e.isDirectory = false ∧ ∃ octets, octets? platform archive e = some octets ∧
      (memberActions platform archive e).filterMap Action.written? =
        [(e.place, octets)]) := by
  simp only [memberActions, ownActions, List.mem_append, not_or] at h ⊢
  rw [List.filterMap_append, filterMap_written_above, List.nil_append]
  by_cases hname : (platform.refusesNameless && e.name == []) = true
  · rw [if_pos hname] at h
    exact absurd (List.mem_singleton_self _) (h .nameless).2
  rw [if_neg hname] at h ⊢
  by_cases hd : e.isDirectory = true
  · rw [if_pos hd]
    exact .inl ⟨hd, rfl⟩
  rw [if_neg hd, fileActions] at h ⊢
  refine .inr ⟨by simpa using hd, ?_⟩
  cases hc : e.content platform archive with
  | error fault =>
    rw [hc] at h
    exact absurd (List.mem_singleton_self _) (h fault).2
  | ok content =>
    obtain ⟨octets, found⟩ := content
    rw [hc] at h
    cases found with
    | some fault =>
      exact absurd (List.mem_cons_of_mem _ (List.mem_singleton_self _)) (h fault).2
    | none => exact ⟨octets, by simp [octets?, hc], rfl⟩

theorem name_lastNamed (entries : List Entry)
    (e : Entry) : (lastNamed entries e).name = e.name := by
  rw [lastNamed]
  cases hf : entries.findRev? fun other => other.name == e.name with
  | none => rfl
  | some found =>
    rw [List.findRev?_eq_find?_reverse] at hf
    simpa using List.find?_some hf

/-- The last entry that is not a directory and whose file is found by these names. -/
def lastAt (names : List Text) (entries : List Entry) : Option Entry :=
  entries.findRev? fun e => !e.isDirectory && e.place == names

theorem isSome_lastAt {names : List Text} {entries : List Entry} :
    (lastAt names entries).isSome = true ↔
      ∃ e ∈ entries, e.isDirectory = false ∧ e.place = names := by
  simp [lastAt, List.findRev?_eq_find?_reverse, List.find?_isSome]

theorem lastAt_append (names : List Text) (entries : List Entry) (e : Entry) :
    lastAt names (entries ++ [e]) =
      if e.isDirectory = false ∧ e.place = names then some e
        else lastAt names entries := by
  simp only [lastAt, List.findRev?_eq_find?_reverse, List.reverse_append,
    List.reverse_singleton, List.singleton_append, List.find?_cons]
  by_cases h : e.isDirectory = false ∧ e.place = names
  · simp [h]
  · have hb : (!e.isDirectory && e.place == names) = false := by
      rw [← Bool.not_eq_true]
      simpa using h
    rw [hb, if_neg h]

/-- The last entry for some names is also the last with its own name. -/
theorem lastNamed_of_lastAt {names : List Text} {entries : List Entry} {e : Entry}
    (h : lastAt names entries = some e) : lastNamed entries e = e := by
  rw [lastAt, List.findRev?_eq_find?_reverse, List.find?_eq_some_iff_append] at h
  obtain ⟨hp, later, earlier, hsplit, hlater⟩ := h
  have hfind : entries.findRev? (fun other => other.name == e.name) = some e := by
    rw [List.findRev?_eq_find?_reverse, List.find?_eq_some_iff_append]
    refine ⟨by simp, later, earlier, hsplit, fun other ho => ?_⟩
    -- A later entry with the same name would be for the same names, and there is none.
    by_cases hn : other.name = e.name
    · have := hlater other ho
      rw [Entry.isDirectory_congr hn, Entry.place_congr hn, hp] at this
      cases this
    · simpa using hn
  rw [lastNamed, hfind, Option.getD_some]

/-- Of the files that the first of some entries write, the last by some names is that of
the last entry for them. -/
theorem lastWritten_flatMap {platform : Platform} {archive : Bytes}
    {entries firsts : List Entry} {names : List Text} (h : ∀ e ∈ firsts, ∀ fault,
      .stop fault ∉ memberActions platform archive (lastNamed entries e)) :
    lastWritten names
        ((firsts.flatMap fun e =>
          memberActions platform archive (lastNamed entries e)).filterMap
          Action.written?) =
      (lastAt names firsts).bind fun e =>
        octets? platform archive (lastNamed entries e) := by
  -- The induction takes entries off the end, because it is the last that counts.
  induction firsts using List.reverseRecOn with
  | nil => rfl
  | append_singleton first e ih =>
    have hfirst := ih fun other ho => h other (List.mem_append_left _ ho)
    rw [List.flatMap_append, List.flatMap_singleton, List.filterMap_append, lastAt_append]
    have hname := name_lastNamed entries e
    rcases memberActions_written (h e (by simp)) with ⟨hd, hw⟩ | ⟨hd, octets, ho, hw⟩
    · rw [hw, List.append_nil, hfirst, if_neg]
      rw [← Entry.isDirectory_congr hname, hd]
      simp
    · rw [hw, lastWritten_append, hfirst, Entry.place_congr hname]
      rw [Entry.isDirectory_congr hname] at hd
      by_cases hn : e.place = names
      · rw [if_pos hn, if_pos ⟨hd, hn⟩, Option.bind_some, ho]
      · rw [if_neg hn, if_neg fun hc => hn hc.2]

/-- An extraction succeeds when all of its actions do. -/
theorem extract_eq_ok {platform : Platform} {root : Path} {archive : Bytes}
    {before after : Disk} {count : Nat} :
    extract platform root archive before = (after, .ok count) ↔
      runActions root (planned platform archive) before = (after, .ok ()) ∧
      count = countFiles archive := by
  rw [extract]
  obtain ⟨disk, outcome⟩ := runActions root (planned platform archive) before
  cases outcome with
  | ok _ => simp [Except.map, eq_comm]
  | error fault => simp [Except.map]

/-- What an extraction that succeeds leaves in a directory that was empty. -/
theorem extract_ok {platform : Platform} {root : Path} {archive : Bytes}
    {before after : Disk} {count : Nat} (hempty : before.IsEmptyDirectory root)
    (h : extract platform root archive before = (after, .ok count)) :
    ∃ found written, entries archive = .ok found ∧ count = fileCount found ∧
      Extracted root before written after ∧
      (∀ names, lastWritten names written =
        (lastAt names found).bind (octets? platform archive)) ∧
      ∀ names e, lastAt names found = some e →
        (octets? platform archive e).isSome = true := by
  obtain ⟨hr, rfl⟩ := extract_eq_ok.mp h
  -- No action stops the extraction, so the directory was read and every file opened.
  have hstop := not_stop_of_runActions hr
  cases hf : entries archive with
  | error fault =>
    rw [planned, hf] at hstop
    exact absurd (List.mem_singleton_self _) (hstop fault)
  | ok found =>
    rw [planned, hf] at hr hstop
    simp only [actions] at hr hstop
    have hmember : ∀ e ∈ found, ∀ fault, .stop fault ∉
        memberActions platform archive (lastNamed found e) :=
      fun e he fault hm => hstop fault (List.mem_flatMap.mpr ⟨e, he, hm⟩)
    have hstraight : ∀ action ∈ found.flatMap fun e =>
        memberActions platform archive (lastNamed found e),
        action.IsStraight := by
      intro action ha
      obtain ⟨e, -, hm⟩ := List.mem_flatMap.mp ha
      exact memberActions_isStraight hm
    refine ⟨found, _, rfl, by rw [countFiles, hf],
      (extracted_nil hempty).runActions hstraight hr, fun names => ?_,
      fun names e he => ?_⟩
    · rw [List.nil_append, lastWritten_flatMap hmember]
      cases he : lastAt names found with
      | none => rfl
      | some e => rw [Option.bind_some, Option.bind_some, lastNamed_of_lastAt he]
    · have hlast := lastNamed_of_lastAt he
      rw [lastAt, List.findRev?_eq_find?_reverse] at he
      have hd := List.find?_some he
      have hm := hmember e (List.mem_reverse.mp (List.mem_of_find?_eq_some he))
      rw [hlast] at hm
      rcases memberActions_written hm with ⟨hd', -⟩ | ⟨-, octets, ho, -⟩
      · simp [hd'] at hd
      · rw [ho, Option.isSome_some]

/-! ## How deep an archive goes -/

/-- How many directories there are on the way to an entry; one that is a directory
counts itself. -/
def Entry.depth (e : Entry) : Nat :=
  if e.isDirectory then e.place.length else e.place.length - 1

theorem Entry.depth_congr {e other : Entry} (h : other.name = e.name) :
    other.depth = e.depth := by
  rw [depth, depth, isDirectory_congr h, place_congr h]

theorem length_of_mem_beginnings {α : Type} {first list : List α}
    (h : first ∈ beginnings list) :
    first.length < list.length := by
  obtain ⟨count, hcount, rfl⟩ := List.mem_map.mp h
  rw [List.length_take, Nat.min_eq_left (Nat.le_of_lt (List.mem_range.mp hcount))]
  exact List.mem_range.mp hcount

/-- A member makes sure of no directory that is not on the way to it. -/
theorem length_le_depth_of_made? {platform : Platform}
    {archive : Bytes} {e : Entry} {action : Action} {names : List Text}
    (h : action ∈ memberActions platform archive e)
    (hmade : action.made? = some names) : names.length ≤ e.depth := by
  have habove (hlength : names.length < e.place.length) : names.length ≤ e.depth := by
    rw [Entry.depth]
    split <;> omega
  rw [memberActions, List.mem_append] at h
  -- The action is one for the directories above the member, or one of its own.
  rcases h with h | h
  · rw [aboveActions] at h
    split at h
    · cases h
    · rename_i first rest hbeginnings
      rcases List.mem_cons.mp h with rfl | h
      · cases hmade
        exact Nat.zero_le _
      · obtain ⟨above, hm, rfl⟩ := List.mem_map.mp h
        cases hmade
        exact habove
          (length_of_mem_beginnings (hbeginnings ▸ List.mem_cons_of_mem first hm))
  · rw [ownActions] at h
    split at h
    · cases List.mem_singleton.mp h
      cases hmade
    split at h
    · rename_i hdirectory
      cases List.mem_singleton.mp h
      cases hmade
      rw [Entry.depth, if_pos hdirectory]
    · rw [fileActions] at h
      split at h
      · cases List.mem_singleton.mp h
        cases hmade
      · rcases List.mem_cons.mp h with rfl | h
        · cases hmade
        · split at h
          · cases List.mem_singleton.mp h
            cases hmade
          · cases h

/-- A directory that is there after an action was there before, or is one that the
action makes sure of. -/
theorem Action.directory_of_run {root : Path} {disk later : Disk} {action : Action}
    {names : List Text} (hs : action.IsStraight) (hr : action.run root disk = .ok later)
    (h : later.node? (root.place ++ names) = some .directory) :
    disk.node? (root.place ++ names) = some .directory ∨ action.made? = some names := by
  rcases run_cases hr with
    ⟨-, rfl⟩ | ⟨-, place, hmade, -, hn, rfl⟩ | ⟨place, octets, rfl, -, hn, rfl⟩
  · exact .inl h
  · rw [Path.place_descend (Disk.above_not_mem (isPlain_of_made? hmade hs))] at h
    by_cases hnames : names = place
    · rw [hnames]
      exact .inr hmade
    · rw [Disk.node?_put_of_ne fun e => hnames (List.append_cancel_left e)] at h
      exact .inl h
  · rw [Path.place_descend (Disk.above_not_mem hs)] at h hn
    by_cases hnames : names = place
    · rw [hnames, Disk.node?_put_self (Disk.not_fixed_of_node? hn)] at h
      cases h
    · rw [Disk.node?_put_of_ne fun e => hnames (List.append_cancel_left e)] at h
      exact .inl h

theorem directory_of_runActions {root : Path} {disk later : Disk} {actions : List Action}
    {names : List Text} (hs : ∀ action ∈ actions, action.IsStraight)
    (hr : runActions root actions disk = (later, .ok ()))
    (h : later.node? (root.place ++ names) = some .directory) :
    disk.node? (root.place ++ names) = some .directory ∨
      ∃ action ∈ actions, action.made? = some names := by
  induction actions generalizing disk with
  | nil =>
    cases hr
    exact .inl h
  | cons action rest ih =>
    rw [List.forall_mem_cons] at hs
    rw [runActions] at hr
    cases ha : action.run root disk with
    | error fault => simp [ha] at hr
    | ok next =>
      rw [ha] at hr
      rcases ih hs.2 hr with hnext | ⟨other, hother, hmade⟩
      · refine (Action.directory_of_run hs.1 ha hnext).imp_right fun hmade => ?_
        exact ⟨action, List.mem_cons_self, hmade⟩
      · exact .inr ⟨other, List.mem_cons_of_mem _ hother, hmade⟩

theorem Action.directory_of_makeDirectory {root : Path} {disk later : Disk}
    {place : List Text} (h : (Action.makeDirectory place).run root disk = .ok later) :
    later.node? (root.descend place).place = some .directory := by
  simp only [run] at h
  split at h
  · rename_i hdirectory
    cases h
    rw [Disk.isDirectory] at hdirectory
    split at hdirectory
    · exact (Disk.status_eq_ok ‹_›).2
    · cases hdirectory
  · obtain ⟨-, hn, -, rfl⟩ := Disk.makeDirectory_ok (mapError_eq_ok.mp h)
    have hnode : disk.node? (root.descend place).place ≠ some .directory := by simp [hn]
    exact Disk.node?_put_self (Disk.not_fixed_of_node? hnode) disk _

theorem keeps_of_runActions {root : Path} {disk : Disk} (actions : List Action) :
    disk.Keeps (runActions root actions disk).1 := by
  induction actions generalizing disk with
  | nil => exact .refl disk
  | cons action rest ih =>
    rw [runActions]
    cases ha : action.run root disk with
    | error fault => exact .refl disk
    | ok next => exact (Action.keeps ha).trans ih

/-- A directory that is to be made is there when all actions are done. -/
theorem directory_of_mem {root : Path} {disk later : Disk} {actions : List Action}
    {place : List Text} (hr : runActions root actions disk = (later, .ok ()))
    (h : .makeDirectory place ∈ actions) :
    later.node? (root.descend place).place = some .directory := by
  induction actions generalizing disk with
  | nil => cases h
  | cons action rest ih =>
    rw [runActions] at hr
    cases ha : action.run root disk with
    | error fault => simp [ha] at hr
    | ok next =>
      rw [ha] at hr
      have hrest : runActions root rest next = (later, .ok ()) := hr
      rcases List.mem_cons.mp h with rfl | h
      · have hkeeps : next.Keeps (runActions root rest next).1 := keeps_of_runActions rest
        rw [hrest] at hkeeps
        exact hkeeps _ (Action.directory_of_makeDirectory ha)
      · exact ih hrest h

theorem straight_actions {platform : Platform} {archive : Bytes} {found : List Entry}
    {action : Action} (h : action ∈ actions platform archive found) :
    action.IsStraight := by
  obtain ⟨e, -, hm⟩ := List.mem_flatMap.mp h
  exact memberActions_isStraight hm

theorem Entry.name_ne_nil_of_isDirectory {e : Entry}
    (h : e.isDirectory = true) : e.name ≠ [] := by
  rw [isDirectory, Text.endsWith, List.isSuffixOf_iff_suffix] at h
  intro hname
  rw [hname, List.suffix_nil] at h
  cases h

/-- A directory among the entries is there after an extraction. -/
theorem directory_of_extract {platform : Platform} {root : Path} {archive : Bytes}
    {before after : Disk} {count : Nat} {found : List Entry} {e : Entry}
    (h : extract platform root archive before = (after, .ok count))
    (hfound : entries archive = .ok found) (he : e ∈ found)
    (hd : e.isDirectory = true) :
    after.node? (root.place ++ e.place) = some .directory := by
  obtain ⟨hr, -⟩ := extract_eq_ok.mp h
  rw [planned, hfound] at hr
  have hname := name_lastNamed found e
  have hd' : (lastNamed found e).isDirectory = true :=
    (Entry.isDirectory_congr hname).trans hd
  have hown : .makeDirectory e.place ∈
      ownActions platform archive (lastNamed found e) := by
    have hne := Entry.name_ne_nil_of_isDirectory hd'
    rw [ownActions, if_neg (by simp [hne]), if_pos hd', Entry.place_congr hname]
    exact List.mem_singleton_self _
  have hmem : .makeDirectory e.place ∈ actions platform archive found :=
    List.mem_flatMap.mpr ⟨e, he, List.mem_append_right _ hown⟩
  rw [← Path.place_descend (Disk.above_not_mem fun _ => Entry.isPlain_of_mem_place)]
  exact directory_of_mem hr hmem

/-- A file among the entries is there after an extraction into an empty directory. -/
theorem file_of_extract {platform : Platform} {root : Path}
    {archive : Bytes} {before after : Disk} {count : Nat}
    {found : List Entry} {e : Entry} (hempty : before.IsEmptyDirectory root)
    (h : extract platform root archive before = (after, .ok count))
    (hfound : entries archive = .ok found) (he : e ∈ found)
    (hd : e.isDirectory = false) :
    ∃ octets, after.content? (root.place ++ e.place) = some octets := by
  obtain ⟨other, written, hother, -, hex, hlast, hsome⟩ := extract_ok hempty h
  cases hfound.symm.trans hother
  obtain ⟨last, hl⟩ := Option.isSome_iff_exists.mp (isSome_lastAt.mpr ⟨e, he, hd, rfl⟩)
  obtain ⟨octets, ho⟩ := Option.isSome_iff_exists.mp (hsome _ _ hl)
  exact ⟨octets, by rw [hex.files, hlast, hl, Option.bind_some, ho]⟩

/-- An extraction into an empty directory makes a directory more than so many levels
down just if there are more of them on the way to one of the entries. -/
theorem extract_deeper_iff {platform : Platform} {root : Path}
    {archive : Bytes} {before after : Disk} {count : Nat}
    {found : List Entry} (hempty : before.IsEmptyDirectory root)
    (h : extract platform root archive before = (after, .ok count))
    (hfound : entries archive = .ok found) (levels : Nat) :
    after.isDeeper levels root = true ↔ ∃ e ∈ found, levels < e.depth := by
  obtain ⟨_, _, -, -, hex, -, -⟩ := extract_ok hempty h
  obtain ⟨hr, -⟩ := extract_eq_ok.mp h
  rw [planned, hfound] at hr
  rw [Disk.isDeeper_iff hex.tree.located]
  constructor
  · rintro ⟨names, hlong, hm⟩
    have hne : names ≠ [] := List.ne_nil_of_length_pos (Nat.zero_lt_of_lt hlong)
    obtain ⟨hplain, -⟩ := hex.tree.reached names _ hne hm
    have hnode := (hex.tree.node?_eq_some_iff hne hplain).mpr hm
    rcases directory_of_runActions (fun _ => straight_actions) hr hnode with
      hbefore | ⟨action, haction, hmade⟩
    · rw [hempty.isTree.node?_eq_some_iff hne hplain, ← Disk.mem_below hne,
        hempty.isEmpty] at hbefore
      cases hbefore
    · obtain ⟨e, he, haction⟩ := List.mem_flatMap.mp haction
      refine ⟨e, he, hlong.trans_le ?_⟩
      rw [← Entry.depth_congr (name_lastNamed found e)]
      exact length_le_depth_of_made? haction hmade
  · rintro ⟨e, he, hlong⟩
    have hplain : ∀ part ∈ e.place, Disk.IsPlain part :=
      fun _ => Entry.isPlain_of_mem_place
    cases hd : e.isDirectory with
    | true =>
      rw [Entry.depth, if_pos hd] at hlong
      have hne : e.place ≠ [] := List.ne_nil_of_length_pos (Nat.zero_lt_of_lt hlong)
      exact ⟨e.place, hlong,
        (hex.tree.node?_eq_some_iff hne hplain).mp (directory_of_extract h hfound he hd)⟩
    | false =>
      rw [Entry.depth, if_neg (by simp [hd])] at hlong
      have hne : e.place ≠ [] := List.ne_nil_of_length_pos (by omega)
      obtain ⟨octets, hfile⟩ := file_of_extract hempty h hfound he hd
      rw [hex.tree.content?_eq_some_iff hne] at hfile
      -- The file is in the last of the directories on the way to it.
      obtain ⟨above, last, hsplit⟩ := (List.eq_nil_or_concat' e.place).resolve_left hne
      rw [hsplit, List.length_append, List.length_singleton, Nat.add_sub_cancel] at hlong
      rw [hsplit] at hfile
      exact ⟨above, hlong, hex.tree.directory_above
        (List.ne_nil_of_length_pos (Nat.zero_lt_of_lt hlong))
          (List.cons_ne_nil _ _) hfile⟩

end ExtensionAudit.Archive
