import ExtensionAudit.Proofs.Disk.Place

/-!
# Disk — looking along a way

A path is looked up by going through the nodes once (`Disk.look`). That comes to the
same as going down the names from place to place (`Disk.look_eq`), because what the
beginnings of the names lead to is found along the way (`Disk.getD_along`).
-/

namespace ExtensionAudit.Disk

/-! ## Beginnings -/

theorem beginning?_append (count : Nat) (key names : List Text) :
    beginning? count key (key ++ names) = some (count + key.length) := by
  induction key generalizing count with
  | nil => rfl
  | cons a rest ih =>
    rw [List.cons_append, beginning?, if_pos (sameName_iff.mpr rfl), ih, List.length_cons]
    congr 1
    omega

theorem beginning?_eq_some {count found : Nat} {key names : List Text}
    (h : beginning? count key names = some found) : key <+: names := by
  induction key generalizing count names with
  | nil => exact List.nil_prefix
  | cons a rest ih =>
    cases names with
    | nil => cases h
    | cons b names =>
      rw [beginning?] at h
      split at h
      · rename_i hsame
        rw [sameName_iff.mp hsame]
        exact (List.prefix_cons_inj b).mpr (ih h)
      · cases h

theorem size_along (names : List Text) (nodes : List (List Text × Node)) :
    (along names nodes).size = names.length + 1 := by
  induction nodes with
  | nil => exact Array.size_replicate
  | cons entry rest ih =>
    rw [along]
    split
    · rw [Array.size_setIfInBounds, ih]
    · exact ih

/-- Of the beginnings of the names, so many names lead to the node that is found along
the way. -/
theorem getD_along {count : Nat} {names : List Text} (hcount : count ≤ names.length)
    (nodes : List (List Text × Node)) :
    (along names nodes).getD count none = find (names.take count) nodes := by
  induction nodes with
  | nil => simp [along, find, Nat.lt_succ_of_le hcount]
  | cons entry rest ih =>
    obtain ⟨key, node⟩ := entry
    rw [along, find]
    cases hbeginning : beginning? 0 key names with
    | none =>
      -- The key is beginning of no length, and so not of this one.
      have hne : ¬ sameNames key (names.take count) = true := by
        rw [sameNames_iff]
        rintro rfl
        have hsome := beginning?_append 0 (names.take count) (names.drop count)
        rw [List.take_append_drop, hbeginning] at hsome
        cases hsome
      rw [if_neg hne]
      exact ih
    | some found =>
      obtain ⟨after, rfl⟩ := beginning?_eq_some hbeginning
      rw [beginning?_append, Option.some.injEq, Nat.zero_add] at hbeginning
      subst hbeginning
      by_cases hlength : key.length = count
      · -- The node is noted last under its length, so it hides those further back.
        subst hlength
        have hsize : key.length < (along (key ++ after) rest).size := by
          rw [size_along]
          exact Nat.lt_succ_of_le hcount
        rw [List.take_left, if_pos (sameNames_iff.mpr rfl)]
        simp [Array.getD_eq_getD_getElem?, hsize]
      · have hne : ¬ sameNames key ((key ++ after).take count) = true := by
          rw [sameNames_iff]
          intro heq
          have := congrArg List.length heq
          rw [List.length_take] at this
          omega
        rw [if_neg hne, ← ih]
        simp [Array.getD_eq_getD_getElem?, Array.getElem?_setIfInBounds_ne hlength]

/-! ## Ways down -/

/-- A name that leads down leads to a place that is not fixed. -/
theorem not_fixed_concat {name : Text} (h : leadsDown name = true) (place : List Text) :
    ¬ IsFixed (place ++ [name]) := by
  simp only [leadsDown, Bool.and_eq_true, bne_iff_ne] at h
  rintro (hup | hroot)
  · rw [isUpward, List.all_append, Bool.and_eq_true, List.all_cons, Bool.and_eq_true,
      beq_iff_eq] at hup
    exact h.1 hup.2.1
  · have hlast := congrArg List.getLast? hroot
    rw [List.getLast?_concat] at hlast
    exact h.2 (Option.some.inj hlast)

variable {disk : Disk} {start names : List Text}

/-- What a beginning of the names leads to is what is found along the way. -/
theorem nodeAlong_eq (hstart : IsFixed start)
    (hdown : ∀ name ∈ names, leadsDown name = true) {count : Nat}
    (hfirst : start.length ≤ count) (hlast : count ≤ (start ++ names).length) :
    nodeAlong start.length (along (start ++ names) disk.nodes) count =
      disk.node? ((start ++ names).take count) := by
  rw [nodeAlong]
  split
  · obtain rfl : count = start.length := Nat.le_antisymm ‹_› hfirst
    rw [List.take_left, node?_fixed hstart]
  · -- Beyond the start the last name leads down.
    rename_i hbeyond
    have htake : (start ++ names).take count =
        start ++ names.take (count - start.length) := by
      rw [List.take_append, List.take_of_length_le hfirst]
    have hplace : ¬ IsFixed ((start ++ names).take count) := by
      rcases List.eq_nil_or_concat (names.take (count - start.length)) with hnil |
        ⟨front, name, hconcat⟩
      · have hlength := congrArg List.length hnil
        rw [List.length_take, List.length_nil] at hlength
        rw [List.length_append] at hlast
        omega
      · rw [List.concat_eq_append] at hconcat
        have hname : name ∈ names.take (count - start.length) := by simp [hconcat]
        rw [htake, hconcat, ← List.append_assoc]
        exact not_fixed_concat (hdown name (List.mem_of_mem_take hname)) _
    rw [node?_of_not_fixed hplace, getD_along hlast]

/-- Going on down the names is going on from place to place. -/
theorem walk_eq_pass {nodeAt : Nat → Option Node} {before rest : List Text}
    (hdown : ∀ name ∈ rest, leadsDown name = true)
    (hnodes : ∀ count, before.length ≤ count → count ≤ (before ++ rest).length →
      nodeAt count = disk.node? ((before ++ rest).take count)) :
    disk.walk before rest = (pass nodeAt before.length rest).map fun _ =>
      before ++ rest := by
  induction rest generalizing before with
  | nil => simp [walk, pass, Except.map]
  | cons name rest ih =>
    obtain ⟨hname, hrest⟩ := List.forall_mem_cons.mp hdown
    simp only [leadsDown, Bool.and_eq_true, bne_iff_ne] at hname
    have hbefore := hnodes before.length (Nat.le_refl _) (by simp)
    rw [List.take_left] at hbefore
    rw [walk, pass, hbefore]
    cases disk.node? before with
    | none => rfl
    | some node =>
      cases node with
      | file content => rfl
      | directory =>
        dsimp only
        split
        · rfl
        · have hon (count : Nat) (hfirst : (before ++ [name]).length ≤ count)
              (hlast : count ≤ (before ++ [name] ++ rest).length) :
              nodeAt count = disk.node? ((before ++ [name] ++ rest).take count) := by
            rw [List.length_append] at hfirst
            rw [← List.append_cons] at hlast ⊢
            exact hnodes count (Nat.le_trans (Nat.le_add_right _ _) hfirst) hlast
          rw [if_neg (by simpa using hname.1), List.append_cons before name rest,
            ih hrest hon, List.length_append, List.length_singleton]

/-- **Looking a path up** is going down its names, and looking at what is there. -/
theorem look_eq (disk : Disk) (path : Path) :
    disk.look path = (disk.locate path).map fun place => (place, disk.node? place) := by
  rw [look, locate]
  split
  · rfl
  · split
    · rename_i hdown
      rw [List.all_eq_true] at hdown
      generalize hroot : (if path.root == [] then ([] : List Text) else root) = start
      have hstart : IsFixed start := by
        rw [← hroot]
        split
        · exact .inl rfl
        · exact .inr rfl
      have hnodes (count : Nat) (hfirst : start.length ≤ count)
          (hlast : count ≤ (start ++ path.names).length) :
          nodeAlong start.length (along (start ++ path.names) disk.nodes) count =
            disk.node? ((start ++ path.names).take count) :=
              nodeAlong_eq hstart hdown hfirst hlast
      dsimp only
      rw [walk_eq_pass hdown hnodes]
      cases pass
        (nodeAlong start.length (along (start ++ path.names) disk.nodes)) start.length
          path.names with
      | error refusal => rfl
      | ok done =>
        rw [hnodes _ (by simp) (Nat.le_refl _), List.take_length]
        rfl
    · rfl

/-- What a path names is what is at the place that it leads to. -/
theorem status_eq (disk : Disk) (path : Path) : disk.status path = (do
    match disk.node? (← disk.locate path) with
    | some node => .ok node
    | none => .error .missing) := by
  rw [status, look_eq]
  cases disk.locate path <;> rfl

end ExtensionAudit.Disk
