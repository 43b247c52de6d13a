import ExtensionAudit.Disk.Basic
import ExtensionAudit.Proofs.Text

/-!
# Disk — nodes and places

Where a path leads is a matter of its names alone (`Path.place`); the disk only decides
whether the way is open. A way that is open stays open as long as no directory on it
goes (`Disk.Keeps`), and everything above where it leads is a directory
(`Disk.HasAbove.walk`).
-/

namespace ExtensionAudit

theorem Utf8.encode_append (first second : Text) :
    encode (first ++ second) = encode first ++ encode second :=
  List.flatMap_append

namespace Disk

/-! ## Names -/

@[simp] theorem sameName_iff {a b : Text} : sameName a b = true ↔ a = b := beq_iff_eq

@[simp] theorem sameNames_iff {first second : List Text} :
    sameNames first second = true ↔ first = second := by
  induction first generalizing second with
  | nil => cases second <;> simp [sameNames]
  | cons a rest ih => cases second <;> simp [sameNames, ih]

/-! ## Nodes -/

@[simp] theorem find_insert_self (names : List Text) (node : Node)
    (nodes : List (List Text × Node)) : find names (insert names node nodes) =
    some node := by
  induction nodes with
  | nil => simp [insert, find]
  | cons entry rest ih =>
    obtain ⟨key, old⟩ := entry
    by_cases hk : key = names <;> simp [insert, find, hk, ih]

theorem find_insert_of_ne {names other : List Text} (h : other ≠ names) (node : Node)
    (nodes : List (List Text × Node)) :
    find other (insert names node nodes) = find other nodes := by
  induction nodes with
  | nil => simp [insert, find, Ne.symm h]
  | cons entry rest ih =>
    obtain ⟨key, old⟩ := entry
    by_cases hk : key = names
    · subst hk
      simp [insert, find, Ne.symm h]
    · simp only [insert, find, sameNames_iff, hk, if_false, ih]

theorem find_eq_none_iff {names : List Text} {nodes : List (List Text × Node)} :
    find names nodes = none ↔ ∀ entry ∈ nodes, entry.1 ≠ names := by
  induction nodes with
  | nil => simp [find]
  | cons entry rest ih =>
    obtain ⟨key, node⟩ := entry
    by_cases hk : key = names <;> simp [find, hk, ih]

/-- Where nothing is, a node comes last. -/
theorem insert_of_find {names : List Text}
    {nodes : List (List Text × Node)} (h : find names nodes = none)
    (node : Node) : insert names node nodes = nodes ++ [(names, node)] := by
  induction nodes with
  | nil => rfl
  | cons entry rest ih =>
    obtain ⟨key, old⟩ := entry
    rw [find] at h
    split at h
    · cases h
    · rename_i hkey
      rw [insert, if_neg hkey, ih h, List.cons_append]

/-- Is the place the working directory, one further up, or the root? Those are always
there. -/
def IsFixed (place : List Text) : Prop := isUpward place = true ∨ place = root

theorem node?_fixed {place : List Text} (h : IsFixed place) (disk : Disk) :
    disk.node? place = some .directory := by
  have hc : (isUpward place || place == root) = true := by
    rcases h with h | h <;> simp [h]
  rw [node?, if_pos hc]

theorem node?_of_not_fixed {place : List Text} (h : ¬ IsFixed place) (disk : Disk) :
    disk.node? place = find place disk.nodes := by
  have hc : ¬ (isUpward place || place == root) = true := by
    simpa [IsFixed] using h
  rw [node?, if_neg hc]

theorem not_fixed_of_node? {place : List Text} {disk : Disk}
    (h : disk.node? place ≠ some .directory) : ¬ IsFixed place :=
  fun hf => h (node?_fixed hf disk)

theorem node?_put_self {place : List Text} (h : ¬ IsFixed place) (disk : Disk)
    (node : Node) :
    (disk.put place node).node? place = some node := by
  rw [node?_of_not_fixed h, put, find_insert_self]

theorem node?_put_of_ne {place other : List Text} (h : other ≠ place) (disk : Disk)
    (node : Node) :
    (disk.put place node).node? other = disk.node? other := by
  by_cases hf : IsFixed other
  · rw [node?_fixed hf, node?_fixed hf]
  · rw [node?_of_not_fixed hf, node?_of_not_fixed hf, put, find_insert_of_ne h]

theorem add_eq_put {place : List Text} {disk : Disk} (h : disk.node? place = none)
    (node : Node) :
    disk.add place node = disk.put place node := by
  have hdirectory : disk.node? place ≠ some .directory := by simp [h]
  rw [node?_of_not_fixed (not_fixed_of_node? hdirectory)] at h
  rw [add, put, insert_of_find h]

/-! ## Places -/

/-- The place that names lead to from another one, if nothing is in the way. -/
def reach (place : List Text) : List Text → List Text
  | [] => place
  | name :: rest =>
    if name == above then reach (up place) rest else reach (place ++ [name]) rest

theorem reach_append (place first second : List Text) :
    reach place (first ++ second) = reach (reach place first) second := by
  induction first generalizing place with
  | nil => rfl
  | cons name rest ih =>
    simp only [List.cons_append, reach]
    split <;> exact ih _

/-- Without two dots among them, names lead straight down. -/
theorem reach_eq_append {names : List Text} (h : above ∉ names) (place : List Text) :
    reach place names = place ++ names := by
  induction names generalizing place with
  | nil => simp [reach]
  | cons name rest ih =>
    rw [List.mem_cons, not_or] at h
    have hn : (name == above) = false := by simpa using Ne.symm h.1
    rw [reach, hn, if_neg Bool.false_ne_true, ih h.2, List.append_assoc,
      List.singleton_append]

theorem walk_eq_reach {disk : Disk} {place names found : List Text}
    (h : walk disk place names = .ok found) : found = reach place names := by
  induction names generalizing place with
  | nil =>
    rw [walk] at h
    cases h
    rfl
  | cons name rest ih =>
    simp only [walk] at h
    split at h
    · cases h
    · cases h
    · split at h
      · cases h
      · rw [reach]
        split at h
        · rename_i ha
          rw [if_pos ha]
          exact ih h
        · rename_i ha
          rw [if_neg ha]
          exact ih h

/-- A way that goes on from a place leads through a directory there. -/
theorem node?_of_walk {disk : Disk} {place first second found : List Text}
    (hs : second ≠ []) (h : walk disk place (first ++ second) = .ok found) :
    disk.node? (reach place first) = some .directory := by
  induction first generalizing place with
  | nil =>
    cases second with
    | nil => exact absurd rfl hs
    | cons name rest =>
      simp only [List.nil_append, walk] at h
      split at h
      · cases h
      · cases h
      · assumption
  | cons name rest ih =>
    simp only [List.cons_append, walk] at h
    split at h
    · cases h
    · cases h
    · split at h
      · cases h
      · rw [reach]
        split at h
        · rename_i ha
          rw [if_pos ha]
          exact ih h
        · rename_i ha
          rw [if_neg ha]
          exact ih h

/-- Is everything above a place a directory? -/
def HasAbove (disk : Disk) (place : List Text) : Prop :=
  ∀ first, first <+: place → first ≠ place → disk.node? first = some .directory

theorem HasAbove.of_isUpward {place : List Text} (h : isUpward place = true)
    (disk : Disk) :
    disk.HasAbove place := by
  rintro first ⟨rest, rfl⟩ -
  rw [isUpward, List.all_append, Bool.and_eq_true] at h
  exact node?_fixed (.inl h.1) disk

theorem HasAbove.root (disk : Disk) : disk.HasAbove root := by
  intro first hfirst hne
  rcases List.prefix_cons_iff.mp hfirst with rfl | ⟨rest, rfl, hrest⟩
  · exact node?_fixed (.inl rfl) disk
  · exact absurd (by rw [List.prefix_nil.mp hrest]; rfl) hne

theorem HasAbove.up {disk : Disk} {place : List Text} (h : disk.HasAbove place) :
    disk.HasAbove (up place) := by
  rw [Disk.up]
  split
  · rename_i hup
    refine .of_isUpward ?_ disk
    rw [isUpward] at hup ⊢
    simp [hup]
  · split
    · exact .root disk
    · intro first hfirst hne
      refine h first (hfirst.trans (List.dropLast_prefix place)) ?_
      rintro rfl
      exact hne (hfirst.eq_of_length_le (by simp)).symm.symm

theorem HasAbove.append {disk : Disk} {place : List Text}
    (h : disk.HasAbove place) (hplace : disk.node? place = some .directory)
    (name : Text) : disk.HasAbove (place ++ [name]) := by
  intro first hfirst hne
  rcases List.prefix_concat_iff.mp hfirst with rfl | hfirst
  · exact absurd rfl hne
  · by_cases heq : first = place
    · rw [heq, hplace]
    · exact h first hfirst heq

/-- A way leads to where everything above is a directory. -/
theorem HasAbove.walk {disk : Disk} {place names found : List Text}
    (h : disk.HasAbove place) (hw : disk.walk place names = .ok found) :
    disk.HasAbove found := by
  induction names generalizing place with
  | nil =>
    cases hw
    exact h
  | cons name rest ih =>
    simp only [Disk.walk] at hw
    split at hw
    · cases hw
    · cases hw
    · rename_i hplace
      split at hw
      · cases hw
      · split at hw
        · exact ih h.up hw
        · exact ih (h.append hplace name) hw

/-- What is above a place is there to put something into. -/
theorem HasAbove.checkParent {disk : Disk} {place : List Text} (h : disk.HasAbove place) :
    disk.checkParent place = .ok () := by
  have hparent : disk.node? place.dropLast = some .directory := by
    by_cases hplace : place = []
    · subst hplace
      exact node?_fixed (.inl rfl) disk
    · refine h _ (List.dropLast_prefix place) fun heq => ?_
      have hlength := congrArg List.length heq
      have hpos := List.length_pos_iff.mpr hplace
      rw [List.length_dropLast] at hlength
      omega
  rw [Disk.checkParent, hparent]

/-- Every directory of the one disk is one of the other. -/
def Keeps (disk later : Disk) : Prop :=
  ∀ place, disk.node? place = some .directory → later.node? place = some .directory

theorem Keeps.refl (disk : Disk) : Keeps disk disk := fun _ h => h

theorem Keeps.trans {disk later last : Disk} (h : Keeps disk later)
    (h' : Keeps later last) :
    Keeps disk last := fun place hp => h' place (h place hp)

/-- A node put where there is no directory leaves every directory. -/
theorem Keeps.put {disk : Disk} {place : List Text}
    (h : disk.node? place ≠ some .directory)
    (node : Node) : Keeps disk (disk.put place node) := by
  intro other ho
  have hne : other ≠ place := by
    rintro rfl
    exact h ho
  rw [node?_put_of_ne hne, ho]

theorem Keeps.walk {disk later : Disk} (h : Keeps disk later)
    {place names found : List Text} (hw : Disk.walk disk place names = .ok found) :
    Disk.walk later place names = .ok found := by
  induction names generalizing place with
  | nil => exact hw
  | cons name rest ih =>
    simp only [Disk.walk] at hw ⊢
    split at hw
    · cases hw
    · cases hw
    · rename_i hd
      rw [h place hd]
      split at hw
      · cases hw
      · rename_i hl
        simp only [if_neg hl]
        split at hw
        · rename_i ha
          rw [if_pos ha]
          exact ih hw
        · rename_i ha
          rw [if_neg ha]
          exact ih hw

end Disk

/-- The place that a path leads to, if nothing is in the way. -/
def Path.place (path : Path) : List Text :=
  Disk.reach (if path.root == [] then [] else Disk.root) path.names

theorem Path.place_descend {names : List Text} (h : Disk.above ∉ names) (path : Path) :
    (path.descend names).place = path.place ++ names := by
  rw [place, place, descend, Disk.reach_append, Disk.reach_eq_append h]

namespace Disk

theorem locate_eq_place {disk : Disk} {path : Path} {place : List Text}
    (h : disk.locate path = .ok place) : place = path.place := by
  rw [locate] at h
  split at h
  · cases h
  · exact walk_eq_reach h

theorem Keeps.locate {disk later : Disk} (h : Keeps disk later)
    {path : Path} {place : List Text} (hl : disk.locate path = .ok place) :
    later.locate path = .ok place := by
  rw [Disk.locate] at hl ⊢
  split at hl
  · cases hl
  · rename_i hlen
    rw [if_neg hlen]
    exact h.walk hl

theorem walk_append (disk : Disk) (place first second : List Text) :
    walk disk place (first ++ second) = walk disk place first >>= fun found =>
      walk disk found second := by
  induction first generalizing place with
  | nil => rfl
  | cons name rest ih =>
    simp only [List.cons_append, walk]
    cases disk.node? place with
    | none => rfl
    | some node =>
      cases node with
      | file content => rfl
      | directory =>
        dsimp only
        split
        · rfl
        · split <;> exact ih _

/-- Where a path leads, there is a directory to put something into. -/
theorem checkParent_of_locate {disk : Disk} {path : Path} {place : List Text}
    (h : disk.locate path = .ok place) : disk.checkParent place = .ok () := by
  rw [locate] at h
  split at h
  · cases h
  · refine (HasAbove.walk ?_ h).checkParent
    split
    · exact .of_isUpward rfl disk
    · exact .root disk

/-- The way to something below a place leads through the place. -/
theorem locate_descend {disk : Disk} {path : Path} {place : List Text}
    (h : disk.locate path = .ok place) (names : List Text) :
    disk.locate (path.descend names) =
      if pathLimit < (Utf8.encode (path.descend names).text).length
        then .error .nameTooLong
      else walk disk place names := by
  rw [locate] at h
  split at h
  · cases h
  · have hwalk : walk disk (if (path.descend names).root == [] then [] else root)
        (path.descend names).names = walk disk place names := by
      rw [show (path.descend names).names = path.names ++ names from rfl, walk_append]
      exact congrArg
        (fun found : Except Refusal (List Text) => found >>= fun found =>
          walk disk found names) h
    rw [locate, hwalk]

end Disk

end ExtensionAudit
