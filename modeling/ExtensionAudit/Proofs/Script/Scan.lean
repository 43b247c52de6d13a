import ExtensionAudit.Proofs.Text

/-!
# Script — scans from the left

A scan takes what it finds at the front of the text and goes on behind it; where it
finds nothing it goes on a code point further. So it takes the text apart, into what is
found and the gaps around it (`TakenApart`). A text can be taken apart in one way only
(`TakenApart.unique`), and the scan finds what stands between the gaps
(`TakenApart.found`).
-/

namespace ExtensionAudit.Script

/-- What a scan finds in a text, in order; `skip` counts the code points of the last
find still to be passed. -/
def foundFrom (find? : Text → Option Text) : Nat → Text → List Text
  | _, [] => []
  | skip + 1, _ :: rest => foundFrom find? skip rest
  | 0, c :: rest =>
    match find? (c :: rest) with
    | some part => part :: foundFrom find? (part.length - 1) rest
    | none => foundFrom find? 0 rest

/-- Nothing opens at a position of the gap, in the text that the gap stands in front
of. -/
def IsGap (Opens : Text → Prop) (gap rest : Text) : Prop :=
  ∀ i < gap.length, ¬ Opens ((gap ++ rest).drop i)

/-- A text as gaps with a part behind each, and what is left: each part may stand in
front of what follows it, and at no position of a gap opens a part. -/
inductive TakenApart (Stands : Text → Text → Prop)
    (Opens : Text → Prop) : Text → List (Text × Text) → Text → Prop
  | last {gap : Text} (hgap : IsGap Opens gap []) : TakenApart Stands Opens gap [] gap
  | part {gap part rest last : Text} {pieces : List (Text × Text)}
      (hgap : IsGap Opens gap (part ++ rest))
    (hpart : Stands part rest) (hrest : TakenApart Stands Opens rest pieces last) :
    TakenApart Stands Opens (gap ++ part ++ rest) ((gap, part) :: pieces) last

/-- What is found at the front of a text are the parts that may stand there, of which
there is one at most and none that is empty; and something is found just if a part opens
there. -/
structure Finds (find? : Text → Option Text) (Stands : Text → Text → Prop)
    (Opens : Text → Prop) : Prop where
  eq_some_iff : ∀ t part, find? t = some part ↔ ∃ rest, t = part ++ rest ∧
    Stands part rest
  eq_none_iff : ∀ t, find? t = none ↔ ¬ Opens t
  ne_nil : ∀ part rest, Stands part rest → part ≠ []

variable {find? : Text → Option Text} {Stands : Text → Text → Prop} {Opens : Text → Prop}

theorem Finds.opens (h : Finds find? Stands Opens) {part rest : Text}
    (hpart : Stands part rest) :
    Opens (part ++ rest) := by
  have hfound : find? (part ++ rest) = some part :=
    (h.eq_some_iff _ _).mpr ⟨rest, rfl, hpart⟩
  by_contra hnot
  rw [(h.eq_none_iff _).mpr hnot] at hfound
  cases hfound

/-! ## Gaps -/

theorem isGap_cons {c : CodePoint} {gap rest : Text} :
    IsGap Opens (c :: gap) rest ↔ ¬ Opens (c :: (gap ++ rest)) ∧
    IsGap Opens gap rest := by
  constructor
  · intro h
    refine ⟨h 0 (by simp), fun i hi => ?_⟩
    exact h (i + 1) (by simpa using hi)
  · rintro ⟨hfirst, hgap⟩ i hi
    cases i with
    | zero => exact hfirst
    | succ i => exact hgap i (by simpa using hi)

theorem isGap_nil (rest : Text) : IsGap Opens [] rest := nofun

/-- Of two texts that are one, no gap ends before the other one does, if a part opens
behind it. -/
theorem IsGap.length_le {gap rest other more : Text} (hgap : IsGap Opens gap rest)
    (hopens : Opens more) (h : gap ++ rest = other ++ more) :
    gap.length ≤ other.length := by
  by_contra hlt
  apply hgap other.length (by omega)
  rw [h, List.drop_left]
  exact hopens

/-! ## The scan -/

theorem foundFrom_skip (skip : Nat)
    (t : Text) : foundFrom find? skip t = foundFrom find? 0 (t.drop skip) := by
  induction t generalizing skip with
  | nil => cases skip <;> simp [foundFrom]
  | cons c rest ih =>
    cases skip with
    | zero => rfl
    | succ skip => rw [foundFrom, ih, List.drop_succ_cons]

theorem foundFrom_gap (h : Finds find? Stands Opens) {gap rest : Text}
    (hgap : IsGap Opens gap rest) :
    foundFrom find? 0 (gap ++ rest) = foundFrom find? 0 rest := by
  induction gap with
  | nil => rfl
  | cons c gap ih =>
    obtain ⟨hfirst, hgap⟩ := isGap_cons.mp hgap
    have hnone : find? (c :: (gap ++ rest)) = none := (h.eq_none_iff _).mpr hfirst
    rw [List.cons_append, foundFrom, hnone]
    exact ih hgap

theorem foundFrom_part (h : Finds find? Stands Opens) {part rest : Text}
    (hpart : Stands part rest) :
    foundFrom find? 0 (part ++ rest) = part :: foundFrom find? 0 rest := by
  have hfound : find? (part ++ rest) = some part :=
    (h.eq_some_iff _ _).mpr ⟨rest, rfl, hpart⟩
  cases part with
  | nil => exact absurd rfl (h.ne_nil _ _ hpart)
  | cons c more =>
    rw [List.cons_append] at hfound ⊢
    rw [foundFrom, hfound]
    show _ :: foundFrom find? more.length (more ++ rest) = _
    rw [foundFrom_skip, List.drop_left]

/-! ## Taking a text apart -/

namespace TakenApart

variable {t last : Text} {pieces : List (Text × Text)}

theorem text (h : TakenApart Stands Opens t pieces last) :
    t = (pieces.flatMap fun piece => piece.1 ++ piece.2) ++ last := by
  induction h with
  | last hgap => rfl
  | part _ _ _ ih => rw [List.flatMap_cons, List.append_assoc (_ ++ _), ← ih]

/-- The scan finds the parts. -/
theorem found (hfinds : Finds find? Stands Opens)
    (h : TakenApart Stands Opens t pieces last) :
    foundFrom find? 0 t = pieces.map (·.2) := by
  induction h with
  | last hgap =>
    have hscan := foundFrom_gap hfinds hgap
    rw [List.append_nil] at hscan
    rw [hscan]
    rfl
  | part hgap hpart hrest ih =>
    rw [List.append_assoc, foundFrom_gap hfinds hgap, foundFrom_part hfinds hpart, ih]
    rfl

/-- A code point at which nothing opens makes the first gap longer. -/
theorem cons {c : CodePoint} (h : TakenApart Stands Opens t pieces last)
    (hc : ¬ Opens (c :: t)) :
    ∃ pieces last, TakenApart Stands Opens (c :: t) pieces last := by
  cases h with
  | last hgap =>
    refine ⟨[], _, .last (isGap_cons.mpr ⟨?_, hgap⟩)⟩
    rwa [List.append_nil]
  | @part gap part rest _ pieces hgap hpart hrest =>
    rw [List.append_assoc] at hc
    exact ⟨(c :: gap, part) :: pieces, _, .part (isGap_cons.mpr ⟨hc, hgap⟩) hpart hrest⟩

theorem exists_of_finds (hfinds : Finds find? Stands Opens) (t : Text) :
    ∃ pieces last, TakenApart Stands Opens t pieces last := by
  induction hn : t.length using Nat.strong_induction_on generalizing t with
  | h n ih =>
    cases t with
    | nil => exact ⟨[], [], .last (isGap_nil [])⟩
    | cons c rest =>
      cases hfound : find? (c :: rest) with
      | none =>
        obtain ⟨pieces, last, hrest⟩ := ih rest.length (by simp [← hn]) rest rfl
        exact hrest.cons ((hfinds.eq_none_iff _).mp hfound)
      | some part =>
        obtain ⟨more, ht, hpart⟩ := (hfinds.eq_some_iff _ _).mp hfound
        have hlt : more.length < n := by
          have hpos := List.length_pos_iff.mpr (hfinds.ne_nil _ _ hpart)
          have hlength := congrArg List.length ht
          rw [List.length_append, hn] at hlength
          omega
        obtain ⟨pieces, last, hmore⟩ := ih more.length hlt more rfl
        rw [ht]
        exact ⟨([], part) :: pieces, last, .part (isGap_nil _) hpart hmore⟩

/-- There is one way to take a text apart. -/
theorem unique (hfinds : Finds find? Stands Opens) {t' last' : Text}
    {pieces' : List (Text × Text)} (h : TakenApart Stands Opens t pieces last)
    (h' : TakenApart Stands Opens t' pieces' last') (ht : t = t') :
    pieces = pieces' ∧ last = last' := by
  induction h generalizing t' pieces' last' with
  | @last gap hgap =>
    cases h' with
    | last _ => exact ⟨rfl, ht⟩
    | @part gap' part' rest' _ _ _ hpart' _ =>
      -- A part that opens within the gap is none.
      rw [List.append_assoc, ← List.append_nil gap] at ht
      have hle := hgap.length_le (hfinds.opens hpart') ht
      have hlength := congrArg List.length ht
      have hpos := List.length_pos_iff.mpr (hfinds.ne_nil _ _ hpart')
      simp only [List.length_append, List.length_nil] at hlength
      omega
  | @part gap part rest _ _ hgap hpart hrest ih =>
    rw [List.append_assoc] at ht
    cases h' with
    | @last gap' hgap' =>
      rw [← List.append_nil t'] at ht
      have hle := hgap'.length_le (hfinds.opens hpart) ht.symm
      have hlength := congrArg List.length ht
      have hpos := List.length_pos_iff.mpr (hfinds.ne_nil _ _ hpart)
      simp only [List.length_append, List.length_nil] at hlength
      omega
    | @part gap' part' rest' _ _ hgap' hpart' hrest' =>
      rw [List.append_assoc] at ht
      have hle := hgap.length_le (hfinds.opens hpart') ht
      have hge := hgap'.length_le (hfinds.opens hpart) ht.symm
      obtain ⟨rfl, hsame⟩ := List.append_inj ht (by omega)
      have hfound : find? (part ++ rest) = some part' :=
        (hfinds.eq_some_iff _ _).mpr ⟨rest', hsame, hpart'⟩
      rw [(hfinds.eq_some_iff _ _).mpr ⟨rest, rfl, hpart⟩] at hfound
      obtain rfl := Option.some.inj hfound
      obtain ⟨rfl, rfl⟩ := ih hrest' (List.append_cancel_left hsame)
      exact ⟨rfl, rfl⟩

end TakenApart

end ExtensionAudit.Script
