import ExtensionAudit.Proofs.Disk
import ExtensionAudit.Proofs.Entries
import ExtensionAudit.Script.Search
import Mathlib.Data.List.Infix
import Mathlib.Data.List.Nodup
import Mathlib.Data.List.Perm.Subperm
import Mathlib.Data.List.Sort

/-!
# Script — searching a tree

In a directory tree the search by a pattern that is an asterisk and an ending finds just
the files that are listed for the ending, in the same order (`files_eq_listing`). The
search goes down the directories level by level; it cannot stop too early, because no
way down is longer than there are nodes.
-/

namespace ExtensionAudit

/-! ## Patterns -/

theorem Text.mem_endings {part t : Text} : part ∈ endings t ↔ part <:+ t := by
  induction t with
  | nil => simp [endings]
  | cons c rest ih => rw [endings, List.mem_cons, ih, List.suffix_cons_iff]

theorem Text.mem_of_contains {part t : Text} (h : contains part t = true) {c : CodePoint}
    (hc : c ∈ part) : c ∈ t := by
  induction t with
  | nil =>
    rw [contains, List.isEmpty_iff] at h
    subst h
    exact hc
  | cons d rest ih =>
    rw [contains, Bool.or_eq_true, List.isPrefixOf_iff_prefix] at h
    rcases h with h | h
    · exact h.subset hc
    · exact List.mem_cons_of_mem _ (ih h)

namespace Wildcard

theorem piecesFrom_plain {t : Text} (h : ∀ c ∈ t, isSign c = false) :
    piecesFrom 0 t = t.map .exactly := by
  induction t with
  | nil => rfl
  | cons c rest ih =>
    rw [List.forall_mem_cons] at h
    have hc : (c == '*') = false ∧ (c == '?') = false ∧ (c == '[') = false := by
      simpa [isSign, and_assoc] using h.1
    rw [piecesFrom, hc.1, hc.2.1, hc.2.2, ih h.2]
    rfl

theorem fits_exactly {s t : Text} : fits (s.map .exactly) t = true ↔ s = t := by
  induction s generalizing t with
  | nil => cases t <;> simp [fits]
  | cons c rest ih =>
    cases t with
    | nil => simp [fits]
    | cons d more => simp [fits, Piece.takes, ih]

/-- An asterisk before an ending stands for whatever the ending is left by. -/
theorem fits_ending {suffix t : Text} :
    fits (.anything :: suffix.map .exactly) t = true ↔ Text.endsWith suffix t = true := by
  rw [fits, List.any_eq_true, Text.endsWith, List.isSuffixOf_iff_suffix]
  constructor
  · rintro ⟨part, hp, hf⟩
    rw [← fits_exactly.mp hf] at hp
    exact Text.mem_endings.mp hp
  · intro hs
    exact ⟨suffix, Text.mem_endings.mpr hs, fits_exactly.mpr rfl⟩

end Wildcard

namespace Search

theorem names_star {suffix : Text} (h : ∀ c ∈ suffix, Path.isSlash c = false) :
    (Path.ofText (('*' : CodePoint) :: suffix)).names =
      [('*' : CodePoint) :: suffix] := by
  have hcut : ∀ c ∈ ('*' : CodePoint) :: suffix, Path.isSlash c = false :=
    List.forall_mem_cons.mpr ⟨by decide, h⟩
  have hdot : ('*' : CodePoint) :: suffix ≠ ("." : Text) := fun he =>
    absurd (List.head_eq_of_cons_eq he) (by decide)
  rw [Path.ofText, Text.pieces_of_uncut hcut]
  simp [hdot]

theorem part_star {suffix : Text} (h : ∀ c ∈ suffix, Wildcard.isSign c = false) :
    Part.ofText (('*' : CodePoint) :: suffix) =
      .ok (.like (.anything :: suffix.map .exactly)) := by
  have hstar : ('*' : CodePoint) ∉ suffix := fun hm => absurd (h _ hm) (by decide)
  -- Of two asterisks the second one would be in the ending.
  have hanywhere : ('*' : CodePoint) :: suffix ≠ anywhereSign := by
    intro he
    exact hstar (by rw [List.tail_eq_of_cons_eq he]; decide)
  have hcontains : Text.contains anywhereSign (('*' : CodePoint) :: suffix) = false := by
    rw [← Bool.not_eq_true]
    intro hc
    rw [Text.contains, Bool.or_eq_true, List.isPrefixOf_iff_prefix] at hc
    rcases hc with hc | hc
    · exact hstar ((List.cons_prefix_cons.mp hc).2.subset (by decide))
    · exact hstar (Text.mem_of_contains hc (by decide))
  have hpieces : Wildcard.pieces (('*' : CodePoint) :: suffix) =
      .anything :: suffix.map .exactly := by
    rw [Wildcard.pieces, Wildcard.piecesFrom, Wildcard.piecesFrom_plain h]
    rfl
  rw [Part.ofText, if_neg (by simpa using hanywhere), hcontains, hpieces]
  rfl

/-- The pattern that an ending makes, if it is just that of a name. -/
theorem ofText_ending {suffix : Text} (h : Script.isPlain suffix = true) :
    Course.ofText ("*" ++ suffix) =
      .ok ⟨[.like (.anything :: suffix.map .exactly)], false⟩ := by
  have hplain : ∀ c ∈ suffix, Wildcard.isSign c = false ∧ Path.isSlash c = false := by
    simpa [Script.isPlain] using h
  have hend : Text.endsWith "/" (('*' : CodePoint) :: suffix) = false := by
    rw [Text.endsWith, ← Bool.not_eq_true, List.isSuffixOf_iff_suffix]
    intro hs
    have hslash : ('/' : CodePoint) ∈ ('*' : CodePoint) :: suffix := hs.subset (by decide)
    rcases List.mem_cons.mp hslash with he | hm
    · exact absurd he (by decide)
    · exact absurd (hplain _ hm).2 (by decide)
  have hpattern : ("*" : Text) ++ suffix = ('*' : CodePoint) :: suffix := rfl
  rw [hpattern, Course.ofText, names_star fun c hc => (hplain c hc).2, hend]
  simp [part_star fun c hc => (hplain c hc).1, Bind.bind, Except.bind,
    Pure.pure, Except.pure]

/-! ## The way down -/

variable {disk : Disk} {root : Path}

/-- What is in a directory is what is listed one name further on. -/
theorem mem_children {path : Path} {place : List Text} (hl : disk.locate path = .ok place)
    {name : Text} {node : Node} :
    (name, node) ∈ children disk path ↔ (place ++ [name], node) ∈ disk.nodes := by
  rw [children, hl, List.mem_filterMap]
  constructor
  · rintro ⟨⟨key, found⟩, hm, hc⟩
    cases hk : key.getLast? with
    | none => simp [hk] at hc
    | some last =>
      simp only [hk] at hc
      split at hc
      · rename_i he
        cases hc
        rwa [← eq_of_beq he]
      · cases hc
  · intro hm
    exact ⟨_, hm, by simp⟩

/-- Do the names lead down through directories only? -/
def IsWay (disk : Disk) (root : Path) (names : List Text) : Prop :=
  ∀ front, front ≠ [] → front <+: names → (root.place ++ front, .directory) ∈ disk.nodes

theorem isWay_append_singleton {names : List Text} {name : Text} :
    IsWay disk root (names ++ [name]) ↔
      IsWay disk root names ∧ (root.place ++ (names ++ [name]), .directory) ∈
        disk.nodes := by
  constructor
  · intro h
    exact ⟨fun front hf hp => h front hf (hp.trans (List.prefix_append _ _)),
      h _ (by simp) (List.prefix_refl _)⟩
  · rintro ⟨h, hlast⟩ front hf hp
    rcases List.prefix_concat_iff.mp hp with rfl | hp
    · exact hlast
    · exact h front hf hp

/-- A way down can be located. -/
theorem IsWay.located (h : disk.IsTree root) {names : List Text}
    (hw : IsWay disk root names) :
    disk.locate (root.descend names) = .ok (root.place ++ names) := by
  by_cases hne : names = []
  · subst hne
    simpa [Path.descend] using h.located
  · exact (h.reached names _ hne (hw names hne (List.prefix_refl _))).2

/-- The directories at most `depth` further down are found. -/
theorem mem_directories (h : disk.IsTree root) {depth : Nat} {names found : List Text}
    (hw : IsWay disk root names) :
    found ∈ directories disk root depth names ↔
      ∃ more, found = names ++ more ∧ more.length ≤ depth ∧ IsWay disk root found := by
  induction depth generalizing names with
  | zero =>
    rw [directories, List.mem_singleton]
    constructor
    · rintro rfl
      exact ⟨[], by simp, le_refl 0, hw⟩
    · rintro ⟨more, rfl, hlen, -⟩
      rw [List.length_eq_zero_iff.mp (Nat.le_zero.mp hlen), List.append_nil]
  | succ depth ih =>
    rw [directories, List.mem_cons, List.mem_flatMap]
    constructor
    · rintro (rfl | ⟨⟨name, node⟩, hm, hf⟩)
      · exact ⟨[], by simp, Nat.zero_le _, hw⟩
      · rw [mem_children (hw.located h), List.append_assoc] at hm
        simp only [List.mem_ite_nil_right, beq_iff_eq] at hf
        obtain ⟨rfl, hf⟩ := hf
        obtain ⟨more, rfl, hlen, hway⟩ := (ih (isWay_append_singleton.mpr ⟨hw, hm⟩)).mp hf
        exact ⟨name :: more, by simp, Nat.succ_le_succ hlen, hway⟩
    · rintro ⟨more, rfl, hlen, hway⟩
      cases more with
      | nil => exact .inl (List.append_nil names)
      | cons name more =>
        have hnext : IsWay disk root (names ++ [name]) :=
          fun front hf hp => hway front hf (hp.trans (by simp))
        have hm := (isWay_append_singleton.mp hnext).2
        rw [← List.append_assoc, ← mem_children (hw.located h)] at hm
        refine .inr ⟨(name, .directory), hm, ?_⟩
        simp only [List.mem_ite_nil_right, beq_self_eq_true, true_and, ih hnext]
        exact ⟨more, by simp, Nat.le_of_succ_le_succ hlen, hway⟩

/-- A way down is no longer than there are nodes, for each of its places is one of
them. -/
theorem IsWay.length_le {names : List Text} (hw : IsWay disk root names) :
    names.length ≤ disk.nodes.length := by
  let keys := (List.range names.length).map fun i => root.place ++ names.take (i + 1)
  have hnodup : keys.Nodup := by
    refine List.Nodup.map_on (fun i hi j hj he => ?_) List.nodup_range
    have hlen := congrArg List.length (List.append_cancel_left he)
    rw [List.mem_range] at hi hj
    rw [List.length_take, List.length_take] at hlen
    omega
  have hsub : keys ⊆ disk.nodes.map (·.1) := by
    intro key hk
    obtain ⟨i, hi, rfl⟩ := List.mem_map.mp hk
    rw [List.mem_range] at hi
    have hne : names.take (i + 1) ≠ [] := by
      rw [Ne, List.take_eq_nil_iff]
      rintro (h | rfl)
      · omega
      · simp at hi
    exact List.mem_map.mpr ⟨_, hw _ hne (List.take_prefix _ _), rfl⟩
  have hle := (List.subperm_of_subset hnodup hsub).length_le
  rwa [List.length_map, List.length_map, List.length_range] at hle

/-- Searches that all succeed are put together. -/
theorem collect_ok {α β : Type} {find : α → Except Fault (List β)} {found : α → List β}
    (h : ∀ a, find a = .ok (found a)) (list : List α) :
    collect find list = .ok (list.flatMap found) := by
  induction list with
  | nil => rfl
  | cons a rest ih => simp [collect, h, ih, Bind.bind, Except.bind]

/-- What is in a directory and has a name that the pieces stand for. -/
def fitting (disk : Disk) (root : Path) (pieces : List Wildcard.Piece)
    (names : List Text) :
    List (List Text) :=
  ((children disk (root.descend names)).filter fun entry =>
    Wildcard.fits pieces entry.1).map
    fun entry => names ++ [entry.1]

theorem follow_like (pieces : List Wildcard.Piece) (names : List Text) :
    follow disk root false [.like pieces] names =
      .ok (fitting disk root pieces names) := by
  have hone : ∀ entry : Text × Node,
      follow disk root false [] (names ++ [entry.1]) =
        .ok [names ++ [entry.1]] := fun _ => rfl
  rw [follow, collect_ok hone, fitting, List.map_eq_flatMap]
  rfl

theorem follow_anywhere (pieces : List Wildcard.Piece) :
    follow disk root false [.anywhere, .like pieces] [] =
      .ok ((directories disk root disk.nodes.length []).flatMap
        (fitting disk root pieces)) := by
  rw [follow, collect_ok (follow_like pieces)]

theorem mem_fitting (h : disk.IsTree root) {pieces : List Wildcard.Piece}
    {front names : List Text} (hw : IsWay disk root front) :
    names ∈ fitting disk root pieces front ↔ ∃ name node, names = front ++ [name] ∧
      Wildcard.fits pieces name = true ∧ (root.place ++ names, node) ∈ disk.nodes := by
  rw [fitting, List.mem_map]
  constructor
  · rintro ⟨⟨name, node⟩, hm, rfl⟩
    rw [List.mem_filter, mem_children (hw.located h), List.append_assoc] at hm
    exact ⟨name, node, rfl, hm.2, hm.1⟩
  · rintro ⟨name, node, rfl, hf, hm⟩
    rw [← List.append_assoc, ← mem_children (hw.located h)] at hm
    exact ⟨(name, node), List.mem_filter.mpr ⟨hm, hf⟩, rfl⟩

/-- At any depth, everything is found that has a name that the pieces stand for. -/
theorem mem_found (h : disk.IsTree root) {pieces : List Wildcard.Piece}
    {names : List Text} :
    names ∈
      (directories disk root disk.nodes.length []).flatMap (fitting disk root pieces) ↔
      ∃ front name node, names = front ++ [name] ∧ Wildcard.fits pieces name = true ∧
        (root.place ++ names, node) ∈ disk.nodes := by
  have hstart : IsWay disk root [] := fun front hf hp => absurd (List.prefix_nil.mp hp) hf
  rw [List.mem_flatMap]
  constructor
  · rintro ⟨front, hd, hf⟩
    obtain ⟨-, -, -, hw⟩ := (mem_directories h hstart).mp hd
    exact ⟨front, (mem_fitting h hw).mp hf⟩
  · rintro ⟨front, name, node, rfl, hf, hm⟩
    have hw : IsWay disk root front := by
      rintro start hne ⟨rest, rfl⟩
      rw [List.append_assoc] at hm
      exact h.directory_above hne (by simp) hm
    refine ⟨front, (mem_directories h hstart).mpr ⟨front, rfl, hw.length_le, hw⟩, ?_⟩
    exact (mem_fitting h hw).mpr ⟨name, node, rfl, hf, hm⟩

theorem isFile_iff (h : disk.IsTree root) {names : List Text} {node : Node}
    (hne : names ≠ []) (hm : (root.place ++ names, node) ∈ disk.nodes) :
    isFile disk (root.descend names) = node.isFile := by
  obtain ⟨hplain, hl⟩ := h.reached names node hne hm
  have hn := (h.node?_eq_some_iff hne hplain).mpr hm
  simp [isFile, Disk.status_eq, hl, hn, Bind.bind, Except.bind]

end Search

namespace Script

/-! ## The listing -/

variable {suffix : Text} {disk : Disk} {root : Path} {names : List Text}

theorem ne_nil_of_isNamed (h : isNamed suffix names = true) : names ≠ [] := by
  rintro rfl
  cases h

theorem isNamed_append_singleton (front : List Text) (name : Text) :
    isNamed suffix (front ++ [name]) = Text.endsWith suffix name := by
  simp [isNamed]

theorem mem_listing (h : disk.IsTree root) :
    names ∈ listing suffix disk root ↔
      isNamed suffix names = true ∧ ∃ octets, (root.place ++ names, .file octets) ∈
        disk.nodes := by
  rw [listing, List.mem_filter, List.mem_map, and_comm]
  refine and_congr_right fun hn => ?_
  constructor
  · rintro ⟨⟨found, octets⟩, hm, rfl⟩
    exact ⟨octets, ((Disk.mem_filesBelow h.located).mp hm).2⟩
  · rintro ⟨octets, hm⟩
    exact ⟨_, (Disk.mem_filesBelow h.located).mpr ⟨ne_nil_of_isNamed hn, hm⟩, rfl⟩

/-- What is listed is in order, and nothing twice. -/
theorem pairwise_listing (h : disk.IsTree root) :
    (listing suffix disk root).Pairwise fun a b => Path.namesBefore a b = true := by
  refine List.Pairwise.filter _ ?_
  have hle : ((disk.filesBelow root).map (·.1)).Pairwise
      fun a b => Path.values a ≤ Path.values b :=
    List.pairwise_map.mpr (disk.pairwise_filesBelow root)
  have hne : ((disk.filesBelow root).map (·.1)).Pairwise (· ≠ ·) :=
    Disk.nodup_filesBelow h.located h.distinct
  refine (hle.and hne).imp ?_
  rintro a b ⟨hab, hne⟩
  rw [Path.namesBefore_iff]
  exact lt_of_le_of_ne hab fun he => hne (Path.values_injective he)

/-! ## The search -/

/-- **Searching and listing.** In a tree, the search for an ending comes to what is
listed for it. -/
theorem files_eq_listing (h : disk.IsTree root) (hs : isPlain suffix = true) :
    Search.files ("*" ++ suffix) disk root = .ok (listing suffix disk root) := by
  have hdirectory : disk.isDirectory root = true := by
    simp [Disk.isDirectory, Disk.status_eq, h.located, h.isDirectory,
      Bind.bind, Except.bind]
  rw [Search.files, Search.ofText_ending hs]
  simp only [Bind.bind, Except.bind, hdirectory, Search.follow_anywhere, Bool.not_true,
    Bool.false_eq_true, if_false, Except.ok.injEq]
  -- Both lists are ordered, and no path is in one of them twice. So it is enough that
  -- they hold the same paths.
  refine List.Perm.eq_of_pairwise ?_ (Path.pairwise_mergeSort id _) ?_ ?_
  · intro a b _ _ hab hba
    exact Path.values_injective (le_antisymm hab hba)
  · exact (pairwise_listing h).imp fun hab => (Path.namesBefore_iff.mp hab).le
  refine (List.mergeSort_perm _ _).trans
    ((List.perm_ext_iff_of_nodup ?_ ?_).mpr fun names => ?_)
  · exact List.Nodup.filter _ (nodup_eraseDups _)
  · refine (pairwise_listing h).imp fun hab he => ?_
    subst he
    exact lt_irrefl _ (Path.namesBefore_iff.mp hab)
  rw [List.mem_filter, List.mem_eraseDups, Search.mem_found h, mem_listing h]
  constructor
  · rintro ⟨⟨front, name, node, rfl, hf, hm⟩, hfile⟩
    rw [Search.isFile_iff h (by simp) hm] at hfile
    cases node with
    | directory => cases hfile
    | file octets =>
      rw [isNamed_append_singleton]
      exact ⟨Wildcard.fits_ending.mp hf, octets, hm⟩
  · rintro ⟨hn, octets, hm⟩
    have hne := ne_nil_of_isNamed hn
    refine ⟨?_, Search.isFile_iff h hne hm⟩
    obtain ⟨front, name, rfl⟩ := (List.eq_nil_or_concat' names).resolve_left hne
    rw [isNamed_append_singleton] at hn
    exact ⟨front, name, _, rfl, Wildcard.fits_ending.mpr hn, hm⟩

end Script

end ExtensionAudit
