import ExtensionAudit.Proofs.Archive.Extraction
import ExtensionAudit.Proofs.Contents

/-!
# Alike — directories with the same contents

Where two directories have the same contents, and names of one length, everything that
is done in them by names that lead down comes to the same: what is found, listed and
read, what is written, extracted and removed. Only where the system refuses something,
what it says has the name of the directory in it, and that is the one difference between
two faults that are alike.
-/

namespace ExtensionAudit

/-! ## Paths -/

namespace Text

theorem join_cons (separator part : Text) {rest : List Text} (h : rest ≠ []) :
    join separator (part :: rest) = part ++ (separator ++ join separator rest) := by
  cases rest with
  | nil => exact absurd rfl h
  | cons next more => rw [join, List.append_assoc]; simp

theorem join_append (separator : Text) {first second : List Text} (hf : first ≠ [])
    (hs : second ≠ []) :
    join separator (first ++ second) =
      join separator first ++ (separator ++ join separator second) := by
  induction first with
  | nil => exact absurd rfl hf
  | cons part rest ih =>
    by_cases hr : rest = []
    · rw [hr, List.singleton_append, join_cons separator part hs]
      rfl
    · rw [List.cons_append,
        join_cons separator part (List.append_ne_nil_of_left_ne_nil hr second), ih hr,
        join_cons separator part hr, List.append_assoc, List.append_assoc]

end Text

theorem Path.text_descend {path : Path} {names : List Text} (hp : path.names ≠ [])
    (hn : names ≠ []) :
    (path.descend names).text = path.text ++ ("/" ++ Text.join "/" names) := by
  have hne : path.names ++ names ≠ [] := List.append_ne_nil_of_left_ne_nil hp names
  rw [text, text, descend, if_neg (by simp [hp]), if_neg (by simp [hp])]
  dsimp only
  rw [Text.join_append "/" hp hn, List.append_assoc]

variable {disk disk' later : Disk} {path path' : Path} {names : List Text}

namespace Disk

/-- A place for a directory: the way to it is open, whether or not it is there. -/
structure Hosts (disk : Disk) (path : Path) : Prop where
  located : disk.locate path = .ok path.place
  parent : disk.node? path.place.dropLast = some .directory
  not_fixed : ¬ IsFixed path.place

theorem Keeps.hosts (h : disk.Keeps later) (hosts : disk.Hosts path) : later.Hosts path :=
  ⟨h.locate hosts.located, h _ hosts.parent, hosts.not_fixed⟩

theorem Hosts.names_ne_nil (h : disk.Hosts path) : path.names ≠ [] := by
  intro hnil
  refine h.not_fixed ?_
  rw [Path.place, hnil, reach]
  split
  · exact .inl rfl
  · exact .inr rfl

/-- The way to something in a directory leads through the directory. -/
theorem Hosts.locate_descend (h : disk.Hosts path) (names : List Text) :
    disk.locate (path.descend names) =
      if pathLimit < (Utf8.encode (path.descend names).text).length
        then .error .nameTooLong
      else walk disk path.place names :=
  Disk.locate_descend h.located names

end Disk

/-! ## Directories that are alike -/

/-- Two faults of the system about one thing in two directories. -/
inductive SystemFault.Alike (path path' : Path) : SystemFault → SystemFault → Prop
  | below (refusal : Refusal) (names : List Text) :
    Alike path path' ⟨refusal, (path.descend names).text⟩ ⟨refusal,
      (path'.descend names).text⟩

theorem SystemFault.Alike.eq {path : Path} {fault fault' : SystemFault}
    (h : fault.Alike path path fault') :
    fault = fault' := by
  cases h
  rfl

namespace Disk

/-- Two directories with the same contents, on one disk or on two, by names of one
length. The names of what is in them lead down. -/
structure Alike (disk : Disk) (path : Path) (disk' : Disk) (path' : Path) : Prop where
  hosts : disk.Hosts path
  hosts' : disk'.Hosts path'
  contents : disk.contents path.place = disk'.contents path'.place
  straight : ∀ entry ∈ disk.contents path.place, above ∉ entry.1
  length : (Utf8.encode path.text).length = (Utf8.encode path'.text).length

/-- The same was done in two directories, and nothing outside of them. -/
structure Tandem (path path' : Path) (disk disk' later later' : Disk) : Prop where
  contents : later.contents path.place = later'.contents path'.place
  straight : ∀ entry ∈ later.contents path.place, above ∉ entry.1
  confined : Confined path.place disk later
  confined' : Confined path'.place disk' later'

namespace Alike

theorem node? (h : disk.Alike path disk' path') (names : List Text) :
    disk.node? (path.place ++ names) = disk'.node? (path'.place ++ names) := by
  rw [node?_append h.hosts.not_fixed, node?_append h.hosts'.not_fixed, h.contents]

theorem length_descend (h : disk.Alike path disk' path') (names : List Text) :
    (Utf8.encode (path.descend names).text).length =
      (Utf8.encode (path'.descend names).text).length := by
  by_cases hn : names = []
  · subst hn
    simpa [Path.descend] using h.length
  · rw [Path.text_descend h.hosts.names_ne_nil hn,
      Path.text_descend h.hosts'.names_ne_nil hn, Utf8.encode_append,
      List.length_append, h.length, ← List.length_append, ← Utf8.encode_append]

theorem walk (h : disk.Alike path disk' path') (hn : above ∉ names) (before : List Text) :
    Corresponds Eq
      (fun found found' => found = path.place ++ (before ++ names) ∧
        found' = path'.place ++ (before ++ names))
      (Disk.walk disk (path.place ++ before) names)
        (Disk.walk disk' (path'.place ++ before) names) := by
  induction names generalizing before with
  | nil => exact .ok (by simp)
  | cons name rest ih =>
    obtain ⟨hname, hrest⟩ := not_or.mp (List.mem_cons.not.mp hn)
    simp only [Disk.walk, h.node? before]
    cases disk'.node? (path'.place ++ before) with
    | none => exact .error rfl
    | some node =>
      cases node with
      | file content => exact .error rfl
      | directory =>
        dsimp only
        split
        · exact .error rfl
        · rw [if_neg (by simpa using Ne.symm hname),
            if_neg (by simpa using Ne.symm hname)]
          simpa using ih hrest (before ++ [name])

theorem locate (h : disk.Alike path disk' path') (hn : above ∉ names) :
    Corresponds Eq (fun found found' => found = path.place ++ names ∧
      found' = path'.place ++ names)
      (disk.locate (path.descend names)) (disk'.locate (path'.descend names)) := by
  rw [h.hosts.locate_descend, h.hosts'.locate_descend, h.length_descend]
  split
  · exact .error rfl
  · simpa using h.walk hn []

theorem status (h : disk.Alike path disk' path') (hn : above ∉ names) :
    disk.status (path.descend names) = disk'.status (path'.descend names) := by
  rw [Disk.status_eq, Disk.status_eq]
  refine Corresponds.eq ((h.locate hn).bind ?_) fun _ _ heq => heq
  rintro found found' ⟨rfl, rfl⟩
  rw [h.node?]
  exact .refl (fun _ => rfl) _

theorem isPresent (h : disk.Alike path disk' path') (hn : above ∉ names) :
    disk.isPresent (path.descend names) = disk'.isPresent (path'.descend names) := by
  rw [Disk.isPresent, Disk.isPresent, h.status hn]

theorem isDirectory (h : disk.Alike path disk' path') (hn : above ∉ names) :
    disk.isDirectory (path.descend names) = disk'.isDirectory (path'.descend names) := by
  rw [Disk.isDirectory, Disk.isDirectory, h.status hn]

theorem about {α β : Type} {values : α → β → Prop} {x : Except Refusal α}
    {y : Except Refusal β} (h : Corresponds Eq values x y) (path path' : Path)
    (names : List Text) :
    Corresponds (SystemFault.Alike path path') values (Disk.about (path.descend names) x)
      (Disk.about (path'.descend names) y) := by
  refine h.mapError fun refusal _ heq => ?_
  subst heq
  exact .below refusal names

theorem read (h : disk.Alike path disk' path') (hn : above ∉ names) :
    Corresponds (SystemFault.Alike path path') Eq (disk.read (path.descend names))
      (disk'.read (path'.descend names)) := by
  refine about ?_ path path' names
  rw [h.status hn]
  exact .refl (fun _ => rfl) _

theorem checkParent (h : disk.Alike path disk' path') (names : List Text) :
    disk.checkParent (path.place ++ names) =
      disk'.checkParent (path'.place ++ names) := by
  rw [Disk.checkParent, Disk.checkParent]
  by_cases hn : names = []
  · rw [hn, List.append_nil, List.append_nil, h.hosts.parent, h.hosts'.parent]
  · rw [List.dropLast_append_of_ne_nil hn, List.dropLast_append_of_ne_nil hn, h.node?]

theorem rest (h : disk.Alike path disk' path') :
    Tandem path path' disk disk' disk disk' :=
  ⟨h.contents, h.straight, .refl _ disk, .refl _ disk'⟩

theorem put (h : disk.Alike path disk' path') (hn : above ∉ names) (node : Node) :
    Tandem path path' disk disk' (disk.put (path.place ++ names) node)
      (disk'.put (path'.place ++ names) node) := by
  refine ⟨?_, fun entry hmem => ?_, confined_put disk path.place names node,
    confined_put disk' path'.place names node⟩
  · rw [contents_put, contents_put, h.contents]
  · rw [contents_put] at hmem
    rcases mem_keys_insert.mp (List.mem_map_of_mem hmem) with heq | hkey
    · rw [heq]
      exact hn
    · obtain ⟨old, hold, heq⟩ := List.mem_map.mp hkey
      exact heq ▸ h.straight old hold

theorem drop (h : disk.Alike path disk' path') (names : List Text) :
    Tandem path path' disk disk' (disk.drop (path.place ++ names))
      (disk'.drop (path'.place ++ names)) := by
  refine ⟨?_, fun entry hmem => ?_, confined_drop disk path.place names,
    confined_drop disk' path'.place names⟩
  · rw [contents_drop, contents_drop, h.contents]
  · rw [contents_drop] at hmem
    exact h.straight entry (List.mem_of_mem_filter hmem)

theorem refill (h : disk.Alike path disk' path') (below : List (List Text × Node)) :
    Tandem path path' disk disk' (disk.refill path.place below)
      (disk'.refill path'.place below) := by
  refine ⟨?_, fun entry hmem => ?_, confined_refill disk path.place below,
    confined_refill disk' path'.place below⟩
  · rw [contents_refill, contents_refill, h.contents]
  · rw [contents_refill] at hmem
    rcases List.mem_append.mp hmem with hmem | hmem
    · exact h.straight entry (List.mem_of_mem_filter hmem)
    · have hnew := (List.mem_filter.mp hmem).2
      simp only [Bool.and_eq_true, Bool.not_eq_true', List.contains_eq_mem,
        decide_eq_false_iff_not] at hnew
      exact hnew.2

theorem makeDirectory (h : disk.Alike path disk' path') (hn : above ∉ names) :
    Corresponds (SystemFault.Alike path path') (Tandem path path' disk disk')
      (disk.makeDirectory (path.descend names))
      (disk'.makeDirectory (path'.descend names)) := by
  refine about ((h.locate hn).bind ?_) path path' names
  rintro found found' ⟨rfl, rfl⟩
  rw [h.node?, h.checkParent]
  cases disk'.node? (path'.place ++ names) with
  | some node => exact .error rfl
  | none =>
    exact (Corresponds.refl (fun _ => rfl) _).bind fun _ _ _ =>
      .ok (h.put hn .directory)

theorem write (h : disk.Alike path disk' path') (hn : above ∉ names) (content : Bytes) :
    Corresponds (SystemFault.Alike path path') (Tandem path path' disk disk')
      (disk.write (path.descend names) content)
      (disk'.write (path'.descend names) content) := by
  refine about ((h.locate hn).bind ?_) path path' names
  rintro found found' ⟨rfl, rfl⟩
  rw [h.node?, h.checkParent]
  cases disk'.node? (path'.place ++ names) with
  | some node =>
    cases node with
    | directory => exact .error rfl
    | file old => exact .ok (h.put hn (.file content))
  | none =>
    exact (Corresponds.refl (fun _ => rfl) _).bind fun _ _ _ =>
      .ok (h.put hn (.file content))

theorem filesBelow (h : disk.Alike path disk' path') :
    disk.filesBelow path = disk'.filesBelow path' := by
  rw [filesBelow_eq h.hosts.located, filesBelow_eq h.hosts'.located, h.contents]

end Alike

end Disk

/-! ## Chores -/

/-- A chore about something in a directory, by the names that lead there. -/
def Chore.under (place : List Text) : Chore → Chore
  | .sweep levels names => .sweep levels (place ++ names)
  | .unlink names => .unlink (place ++ names)
  | .dismiss names => .dismiss (place ++ names)

theorem Chore.removing_under (levels : Nat) (place names : List Text) (node : Node) :
    Chore.removing levels (place ++ names, node) =
      (Chore.removing levels (names, node)).map (Chore.under place) := by
  cases node <;> rfl

/-- What chores in two directories come to: chores about the same things, and the same
contents. -/
def Chore.AreAlike (path path' : Path) (disk disk' : Disk)
    (next next' : List Chore × Disk) : Prop :=
  ∃ more : List Chore, next.1 = more.map (under path.place) ∧
    next'.1 = more.map (under path'.place) ∧
    Disk.Tandem path path' disk disk' next.2 next'.2

namespace Disk.Alike

open Chore

theorem children_eq_nil_iff (h : disk.Alike path disk' path') (names : List Text) :
    disk.children (path.place ++ names) = [] ↔
    disk'.children (path'.place ++ names) = [] := by
  rw [children_append, children_append, List.map_eq_nil_iff,
    List.map_eq_nil_iff, h.contents]

/-- A chore leads to chores about the same things in the two directories, and leaves
them with the same contents, or comes to nothing in both. -/
theorem run (h : disk.Alike path disk' path') (chore : Chore) :
    Option.Rel (AreAlike path path' disk disk') ((chore.under path.place).run disk)
      ((chore.under path'.place).run disk') := by
  cases chore with
  | sweep levels names =>
    cases levels with
    | zero =>
      simp only [under, Chore.run, h.children_eq_nil_iff names]
      split
      · exact .some ⟨[], rfl, rfl, h.rest⟩
      · exact .none
    | succ levels =>
      have hmore (disk : Disk) (place : List Text) :
          (disk.children (place ++ names)).flatMap (removing levels) =
            (((disk.contents place).filter fun entry =>
              isRightBelow names entry.1).flatMap
              (removing levels)).map (under place) := by
        rw [children_append, List.flatMap_map, List.map_flatMap]
        exact List.flatMap_congr fun entry _ =>
          removing_under levels place entry.1 entry.2
      refine .some ⟨_, hmore disk path.place, ?_, h.rest⟩
      rw [h.contents]
      exact hmore disk' path'.place
  | unlink names =>
    simp only [under, Chore.run, h.node?]
    split
    · exact .some ⟨[], rfl, rfl, h.drop names⟩
    · exact .some ⟨[], rfl, rfl, h.rest⟩
  | dismiss names =>
    simp only [under, Chore.run, h.node?, h.children_eq_nil_iff names]
    split
    · exact .some ⟨[], rfl, rfl, h.drop names⟩
    · exact .some ⟨[], rfl, rfl, h.rest⟩

/-- The removal of the two directories begins with the same chores. -/
theorem start (h : disk.Alike path disk' path') (levels : Nat) :
    ∃ chores : List Chore, Chore.start levels disk path = chores.map (under path.place) ∧
      Chore.start levels disk' path' = chores.map (under path'.place) := by
  have hnode : disk.node? path.place = disk'.node? path'.place := by
    simpa using h.node? []
  rw [Chore.start, Chore.start, h.hosts.located, h.hosts'.located]
  dsimp only
  rw [hnode]
  split
  · exact ⟨[.sweep levels [], .dismiss []], by simp [under], by simp [under]⟩
  · exact ⟨[], rfl, rfl⟩

end Disk.Alike

/-! ## What is read back -/

/-- Two faults of scripts by one name in two directories. -/
inductive Script.Fault.Alike (path path' : Path) : Script.Fault → Script.Fault → Prop
  | unreadable (name : Text) {fault fault' : SystemFault}
      (h : fault.Alike path path' fault') :
    Alike path path' (.unreadable name fault) (.unreadable name fault')
  | tooDeep : Alike path path' .tooDeep .tooDeep

/-- Two faults of the manifests in two directories. -/
inductive Manifest.Fault.Alike (path path' : Path) : Manifest.Fault →
    Manifest.Fault → Prop
  | same (fault : Manifest.Fault) : Alike path path' fault fault
  | absent : Alike path path' (.absent path) (.absent path')
  | unreachable {fault fault' : SystemFault} (h : fault.Alike path path' fault') :
    Alike path path' (.unreachable fault) (.unreachable fault')
  | unreadable {fault fault' : SystemFault} (h : fault.Alike path path' fault') :
    Alike path path' (.unreadable fault) (.unreadable fault')

namespace Disk.Alike

theorem listing (h : disk.Alike path disk' path') (suffix : Text) :
    Script.listing suffix disk path = Script.listing suffix disk' path' := by
  rw [Script.listing, Script.listing, h.filesBelow]

theorem isDeeper (h : disk.Alike path disk' path') (levels : Nat) :
    disk.isDeeper levels path = disk'.isDeeper levels path' := by
  rw [Disk.isDeeper_eq h.hosts.located, Disk.isDeeper_eq h.hosts'.located, h.contents]

theorem straight_listing (h : disk.Alike path disk' path') {suffix : Text}
    (hmem : names ∈ Script.listing suffix disk path) : above ∉ names := by
  obtain ⟨⟨found, content⟩, hfile, rfl⟩ := List.mem_map.mp (List.mem_of_mem_filter hmem)
  exact h.straight _ (mem_contents.mpr ((mem_filesBelow h.hosts.located).mp hfile).2)

/-- The same scripts are found, by names that lead down. -/
theorem search (h : disk.Alike path disk' path') (levels : Nat) (suffix : Text) :
    Corresponds (Script.Fault.Alike path path')
      (fun found found' => found = found' ∧ ∀ names ∈ found, above ∉ names)
      (Script.search levels suffix disk path)
        (Script.search levels suffix disk' path') := by
  rw [Script.search, Script.search, h.isDeeper, ← h.listing]
  split
  · exact .error .tooDeep
  · exact .ok ⟨rfl, fun _ => h.straight_listing⟩

theorem readScript (h : disk.Alike path disk' path') (hn : above ∉ names) :
    Corresponds (Script.Fault.Alike path path') Eq (Script.read disk path names)
      (Script.read disk' path' names) := by
  have hread := h.read hn
  rw [Script.read, Script.read]
  revert hread
  generalize disk.read (path.descend names) = x
  generalize disk'.read (path'.descend names) = y
  intro hread
  cases hread with
  | ok heq => exact .ok (congrArg Script.textOf heq)
  | error halike => exact .error (.unreadable _ halike)

theorem readManifest (h : disk.Alike path disk' path') :
    Corresponds (Manifest.Fault.Alike path path') Eq (Manifest.read disk path)
      (Manifest.read disk' path') := by
  have hn : above ∉ [Manifest.fileName] := by decide
  have hread :=
    (h.read hn).mapError fun _ _ halike => Manifest.Fault.Alike.unreadable halike
  simp only [Manifest.read]
  rw [show path.child Manifest.fileName = path.descend [Manifest.fileName] from rfl,
    show path'.child Manifest.fileName = path'.descend [Manifest.fileName] from rfl,
    h.status hn]
  split
  · refine hread.bind fun bytes bytes' heq => ?_
    rw [heq]
    exact .refl .same _
  · split
    · exact .error .absent
    · exact .error (.unreachable (.below _ _))

end Disk.Alike

/-! ## What is extracted -/

/-- Two faults of one archive that is extracted to two directories. -/
inductive Archive.Fault.Alike (path path' : Path) : Archive.Fault → Archive.Fault → Prop
  | same (fault : Archive.Fault) : Alike path path' fault fault
  | unwritable {fault fault' : SystemFault} (h : fault.Alike path path' fault') :
    Alike path path' (.unwritable fault) (.unwritable fault')

namespace Disk.Alike

theorem ensureDirectory (h : disk.Alike path disk' path') (hn : above ∉ names) :
    Corresponds (Archive.Fault.Alike path path') (Tandem path path' disk disk')
      (Archive.ensureDirectory disk (path.descend names))
      (Archive.ensureDirectory disk' (path'.descend names)) := by
  rw [Archive.ensureDirectory_eq, Archive.ensureDirectory_eq, h.isPresent hn]
  split
  · exact .ok h.rest
  · exact (h.makeDirectory hn).mapError fun _ _ => .unwritable

theorem missing (h : disk.Alike path disk' path') (hs : ∀ part ∈ names, IsPlain part) :
    Archive.missing path disk names = Archive.missing path' disk' names := by
  refine List.countP_congr fun first hfirst => ?_
  have hplain : ∀ part ∈ first, IsPlain part :=
    fun part hp => hs part (Archive.mem_of_mem_beginnings hfirst part hp)
  rw [h.isPresent (above_not_mem hplain)]

end Disk.Alike

/-- An action that leads straight down does the same in two directories that are alike. -/
theorem Disk.Alike.runAction (h : disk.Alike path disk' path') {action : Archive.Action}
    (hs : action.IsStraight) :
    Corresponds (Archive.Fault.Alike path path') (Tandem path path' disk disk')
      (action.run path disk)
      (action.run path' disk') := by
  cases action with
  | enter levels place =>
    simp only [Archive.Action.run, h.missing hs]
    split
    · exact .error (.same _)
    · have hroot : above ∉ ([] : List Text) := List.not_mem_nil
      simpa only [Archive.descend_nil] using h.ensureDirectory hroot
  | ensure place => exact h.ensureDirectory (above_not_mem hs)
  | makeDirectory place =>
    have hn : above ∉ place := above_not_mem hs
    simp only [Archive.Action.run, h.isDirectory hn]
    split
    · exact .ok h.rest
    · exact (h.makeDirectory hn).mapError fun _ _ => .unwritable
  | write place octets =>
    exact (h.write (above_not_mem hs) octets).mapError fun _ _ => .unwritable
  | stop fault => exact .error (.same fault)

end ExtensionAudit
