import ExtensionAudit.Proofs.Entries
import ExtensionAudit.Proofs.Text
import ExtensionAudit.Script.DataHandling
import Mathlib.Algebra.GroupWithZero.Nat
import Mathlib.Data.List.Infix

/-!
# Script — how often a script mentions an interface

The search for the phrases of a category goes on behind the one that it has found. It
misses none all the same, since no phrase begins within another one of its category
(`IsApart`): what is counted are all the places at which a phrase begins
(`occurrences_eq_placesOf`). So of two scripts, one behind the other, at most one phrase
more is counted than of both by themselves, the one across the seam (`placesOf_append`).
-/

namespace ExtensionAudit.Script

/-! ## Places -/

/-- The text begins with a phrase. -/
def OpensPhrase (phrases : List Text) (t : Text) : Prop :=
  ∃ phrase ∈ phrases, phrase <+: t

instance (phrases : List Text) (t : Text) : Decidable (OpensPhrase phrases t) :=
  inferInstanceAs (Decidable (∃ phrase ∈ phrases, phrase <+: t))

/-- At how many places of a text a phrase begins. -/
def placesOf (phrases : List Text) (t : Text) : Nat :=
  (List.range t.length).countP fun i => OpensPhrase phrases (t.drop i)

/-- A phrase begins in the first text and ends in the second. -/
def Straddles (phrases : List Text) (s t : Text) : Prop :=
  ∃ i < s.length, OpensPhrase phrases ((s ++ t).drop i) ∧ ¬ OpensPhrase phrases (s.drop i)

instance (phrases : List Text) (s t : Text) : Decidable (Straddles phrases s t) :=
  inferInstanceAs (Decidable (∃ i < s.length,
    OpensPhrase phrases ((s ++ t).drop i) ∧ ¬ OpensPhrase phrases (s.drop i)))

/-- Where a phrase stands no phrase begins behind its first code point, whatever
follows. -/
def IsApart (phrases : List Text) : Prop :=
  ∀ phrase ∈ phrases, ∀ i < phrase.length, 0 < i → ∀ other ∈ phrases,
    ¬ other <+: phrase.drop i ∧ ¬ phrase.drop i <+: other

variable {phrases : List Text} {s t : Text}

theorem OpensPhrase.append (h : OpensPhrase phrases s)
    (t : Text) : OpensPhrase phrases (s ++ t) := by
  obtain ⟨phrase, hmem, hbegins⟩ := h
  exact ⟨phrase, hmem, hbegins.trans (List.prefix_append s t)⟩

/-- Behind the place at which a phrase begins none begins as long as the phrase lasts. -/
theorem IsApart.not_opensPhrase_drop (h : IsApart phrases) {phrase : Text}
    (hmem : phrase ∈ phrases) (hbegins : phrase <+: t) {i : Nat} (hpos : 0 < i)
    (hi : i < phrase.length) : ¬ OpensPhrase phrases (t.drop i) := by
  rintro ⟨other, hother, hopens⟩
  obtain ⟨hnot, hnot'⟩ := h phrase hmem i hi hpos other hother
  -- Both begin the same text, so one of them begins the other.
  rcases List.prefix_or_prefix_of_prefix hopens (List.IsPrefix.drop hbegins i)
    with hfirst | hsecond
  · exact hnot hfirst
  · exact hnot' hsecond

/-! ## Counting places -/

theorem placesOf_cons (phrases : List Text) (c : CodePoint) (t : Text) :
    placesOf phrases (c :: t) = placesOf phrases t + if OpensPhrase phrases (c :: t)
      then 1 else 0 := by
  rw [placesOf, List.length_cons, List.range_succ_eq_map, List.countP_cons,
    List.countP_map]
  simp only [List.drop_zero, decide_eq_true_eq]
  rfl

/-- What comes before the first place does not count. -/
theorem placesOf_drop {n : Nat} (h : ∀ i < n, ¬ OpensPhrase phrases (t.drop i)) :
    placesOf phrases t = placesOf phrases (t.drop n) := by
  induction n generalizing t with
  | zero => rfl
  | succ n ih =>
    cases t with
    | nil => rfl
    | cons c rest =>
      have hfirst : ¬ OpensPhrase phrases (c :: rest) := h 0 (by omega)
      rw [placesOf_cons, if_neg hfirst, List.drop_succ_cons, Nat.add_zero]
      exact ih fun i hi => h (i + 1) (by omega)

theorem placesOf_eq_zero_iff : placesOf phrases t = 0 ↔
    ∀ i < t.length, ¬ OpensPhrase phrases (t.drop i) := by
  simp [placesOf, List.countP_eq_zero]

/-- The scan misses no place. -/
theorem countFrom_eq (h : IsApart phrases) (skip : Nat) (t : Text) :
    countFrom phrases skip t = placesOf phrases (t.drop skip) := by
  fun_induction countFrom phrases skip t with
  | case1 skip => rw [List.drop_nil]; rfl
  | case2 skip c rest ih => rw [ih, List.drop_succ_cons]
  | case3 c rest phrase hfound ih =>
    have hmem : phrase ∈ phrases := List.mem_of_find?_eq_some hfound
    have hbegins : phrase <+: c :: rest :=
      List.isPrefixOf_iff_prefix.mp
        (List.find?_some (p := (List.isPrefixOf · (c :: rest))) hfound)
    have hquiet : ∀ i < phrase.length - 1, ¬ OpensPhrase phrases (rest.drop i) :=
      fun i hi =>
      h.not_opensPhrase_drop hmem hbegins (Nat.succ_pos i) (by omega)
    rw [ih, List.drop_zero, placesOf_cons, if_pos ⟨phrase, hmem, hbegins⟩,
      placesOf_drop hquiet]
  | case4 c rest hnone ih =>
    have hnot : ¬ OpensPhrase phrases (c :: rest) := by
      rintro ⟨phrase, hmem, hbegins⟩
      exact List.find?_eq_none.mp hnone phrase hmem
        (List.isPrefixOf_iff_prefix.mpr hbegins)
    rw [ih, List.drop_zero, List.drop_zero, placesOf_cons, if_neg hnot, Nat.add_zero]

theorem occurrences_eq_placesOf (h : IsApart phrases)
    (t : Text) : occurrences phrases t = placesOf phrases t :=
  countFrom_eq h 0 t

/-! ## The seam between two texts -/

theorem straddles_cons {c : CodePoint} :
    Straddles phrases (c :: s) t ↔
      (OpensPhrase phrases (c :: (s ++ t)) ∧ ¬ OpensPhrase phrases (c :: s)) ∨
      Straddles phrases s t := by
  constructor
  · rintro ⟨i, hi, hopens⟩
    cases i with
    | zero => exact .inl hopens
    | succ i => exact .inr ⟨i, by simpa using hi, hopens⟩
  · rintro (hopens | ⟨i, hi, hopens⟩)
    · exact ⟨0, by simp, hopens⟩
    · exact ⟨i + 1, by simpa using hi, hopens⟩

/-- A phrase that begins with the first text and ends in the second is the only one that
begins in the first. -/
theorem IsApart.quiet_of_straddle (h : IsApart phrases)
    {c : CodePoint} (hopens : OpensPhrase phrases (c :: (s ++ t)))
    (hnot : ¬ OpensPhrase phrases (c :: s)) :
    ∀ i < s.length, ¬ OpensPhrase phrases ((s ++ t).drop i) := by
  obtain ⟨phrase, hmem, hbegins⟩ := hopens
  have hlong : (c :: s).length < phrase.length := by
    by_contra hshort
    exact hnot ⟨phrase, hmem, List.prefix_of_prefix_length_le hbegins
      (List.prefix_append (c :: s) t) (by omega)⟩
  intro i hi
  rw [List.length_cons] at hlong
  exact h.not_opensPhrase_drop hmem hbegins (Nat.succ_pos i) (by omega)

/-- Of two texts, one behind the other, the places of both count, and one more just if a
phrase lies across the seam. -/
theorem placesOf_append (h : IsApart phrases) (s t : Text) :
    (¬ Straddles phrases s t ∧ placesOf phrases (s ++ t) =
      placesOf phrases s + placesOf phrases t) ∨
      (Straddles phrases s t ∧ placesOf phrases (s ++ t) =
        placesOf phrases s + placesOf phrases t + 1) := by
  induction s with
  | nil => exact .inl ⟨by simp [Straddles], by simp [placesOf]⟩
  | cons c s ih =>
    rw [List.cons_append, placesOf_cons, placesOf_cons, straddles_cons]
    by_cases hfirst : OpensPhrase phrases (c :: s)
    · have hwhole : OpensPhrase phrases (c :: (s ++ t)) := hfirst.append t
      simp only [hfirst, hwhole, not_true_eq_false, and_false, false_or, if_true]
      exact ih.imp (fun ⟨hseam, hsum⟩ => ⟨hseam, by omega⟩) fun ⟨hseam, hsum⟩ =>
        ⟨hseam, by omega⟩
    · by_cases hwhole : OpensPhrase phrases (c :: (s ++ t))
      · have hquiet := h.quiet_of_straddle hwhole hfirst
        have hnone : placesOf phrases s = 0 :=
          placesOf_eq_zero_iff.mpr fun i hi hopens => hquiet i hi <| by
            rw [List.drop_append_of_le_length (Nat.le_of_lt hi)]
            exact hopens.append t
        have hrest : placesOf phrases (s ++ t) = placesOf phrases t := by
          rw [placesOf_drop hquiet, List.drop_left]
        refine .inr ⟨.inl ⟨hwhole, hfirst⟩, ?_⟩
        rw [hnone, hrest, if_pos hwhole, if_neg hfirst, Nat.zero_add]
      · simp only [hfirst, hwhole, false_and, false_or, if_false]
        exact ih.imp (fun ⟨hseam, hsum⟩ => ⟨hseam, by omega⟩) fun ⟨hseam, hsum⟩ =>
          ⟨hseam, by omega⟩

theorem placesOf_flatten (h : IsApart phrases) (scripts : List Text) :
    (scripts.map (placesOf phrases)).sum ≤ placesOf phrases scripts.flatten := by
  induction scripts with
  | nil => exact Nat.zero_le _
  | cons script scripts ih =>
    rw [List.map_cons, List.sum_cons, List.flatten_cons]
    rcases placesOf_append h script scripts.flatten with ⟨-, hsum⟩ | ⟨-, hsum⟩ <;> omega

/-! ## The categories -/

theorem distinct_dataCategories : Entries.Distinct dataCategories := by decide +kernel

/-- No phrase of a category begins within another one of it. -/
theorem isApart_of_mem {category : Text} (h : (category, phrases) ∈ dataCategories) :
    IsApart phrases := by
  have hall : ∀ entry ∈ dataCategories, ∀ phrase ∈ entry.2, ∀ i < phrase.length, 0 < i →
      ∀ other ∈ entry.2,
      ¬ other <+: phrase.drop i ∧ ¬ phrase.drop i <+: other := by decide +kernel
  exact hall _ h

/-- What is reported of a category for a script, if it is not left out. -/
theorem get?_dataHandlingOf {category : Text} (h : (category, phrases) ∈ dataCategories)
    (script : Text) :
    (dataHandlingOf script).get? category =
      if placesOf phrases script = 0 then none else some (placesOf phrases script) := by
  have hget : (dataHandlingOf script).get? category =
      ((Entries.get? category dataCategories).map (occurrences · script)).filter
        (· != 0) :=
    Entries.get?_map_filter (occurrences · script) (· != 0) distinct_dataCategories
  rw [hget, (Entries.get?_eq_some_iff distinct_dataCategories).mpr h, Option.map_some,
    occurrences_eq_placesOf (isApart_of_mem h), Option.filter_some]
  by_cases hzero : placesOf phrases script = 0 <;> simp [hzero]

theorem dataHandlingOf_eq_nil_iff {script : Text} :
    dataHandlingOf script = [] ↔
      ∀ category phrases, (category, phrases) ∈ dataCategories →
      placesOf phrases script = 0 := by
  rw [dataHandlingOf, List.filter_eq_nil_iff, List.forall_mem_map]
  constructor
  · intro h category phrases hmem
    rw [← occurrences_eq_placesOf (isApart_of_mem hmem)]
    simpa using h _ hmem
  · rintro h ⟨category, phrases⟩ hmem
    have hzero : occurrences phrases script = 0 :=
      (occurrences_eq_placesOf (isApart_of_mem hmem) script).trans (h _ _ hmem)
    simp [hzero]

/-- The number that is reported of a category for a script; a category that is left out
counts for nothing. -/
def reportedCount (category script : Text) : Nat :=
  ((dataHandlingOf script).get? category).getD 0

theorem reportedCount_eq {category : Text} (h : (category, phrases) ∈ dataCategories)
    (script : Text) :
    reportedCount category script = placesOf phrases script := by
  rw [reportedCount, get?_dataHandlingOf h]
  split
  · rename_i hzero
    exact hzero.symm
  · rfl

theorem reportedCount_append {category : Text}
    (h : (category, phrases) ∈ dataCategories) (s t : Text) :
    (¬ Straddles phrases s t ∧ reportedCount category (s ++ t) =
      reportedCount category s + reportedCount category t) ∨
      (Straddles phrases s t ∧
        reportedCount category (s ++ t) =
          reportedCount category s + reportedCount category t + 1) := by
  rw [reportedCount_eq h, reportedCount_eq h, reportedCount_eq h]
  exact placesOf_append (isApart_of_mem h) s t

theorem reportedCount_flatten {category : Text}
    (h : (category, phrases) ∈ dataCategories) (scripts : List Text) :
    (scripts.map (reportedCount category)).sum ≤
      reportedCount category scripts.flatten := by
  have hcount : reportedCount category = placesOf phrases := funext (reportedCount_eq h)
  rw [hcount]
  exact placesOf_flatten (isApart_of_mem h) scripts

/-! ## The files of an extension -/

theorem get?_dataHandling {files : Entries Text} (hd : files.Distinct) (file : Text) :
    (dataHandling files).get? file =
      ((files.get? file).map dataHandlingOf).filter (· != []) :=
  Entries.get?_map_filter dataHandlingOf (· != []) hd

/-- **The counts are those of the places.** Of every category is reported, for every
script, at how many places of the script one of its phrases begins, and nothing just if
there is no such place. So scripts one behind the other are reported with what is
reported of them by themselves, and one more for each seam that a phrase lies across. A
file is left out just if every category is, and what is reported of it depends on no
other file. -/
theorem dataHandling_places :
    (∀ category phrases, (category, phrases) ∈ dataCategories →
      (∀ script : Text,
        ((dataHandlingOf script).get? category = none ↔
          ∀ i < script.length, ¬ OpensPhrase phrases (script.drop i)) ∧
        ∀ count, (dataHandlingOf script).get? category = some count →
          count = placesOf phrases script) ∧
      (∀ s t : Text,
        (¬ Straddles phrases s t ∧
          reportedCount category (s ++ t) =
            reportedCount category s + reportedCount category t) ∨
        (Straddles phrases s t ∧
          reportedCount category (s ++ t) =
            reportedCount category s + reportedCount category t + 1)) ∧
      ∀ scripts : List Text, (scripts.map (reportedCount category)).sum ≤
        reportedCount category scripts.flatten) ∧
    ∀ files : Entries Text, files.Distinct → ∀ file,
      (files.get? file = none → (dataHandling files).get? file = none) ∧
      (∀ script, files.get? file = some script →
        ((∃ category phrases, (category, phrases) ∈ dataCategories ∧
          placesOf phrases script ≠ 0) →
          (dataHandling files).get? file = some (dataHandlingOf script)) ∧
        ((∀ category phrases, (category, phrases) ∈ dataCategories →
          placesOf phrases script = 0) →
          (dataHandling files).get? file = none)) ∧
      ∀ others : Entries Text, others.Distinct → others.get? file = files.get? file →
        (dataHandling others).get? file = (dataHandling files).get? file := by
  refine ⟨fun category phrases hmem => ⟨fun script => ?_, reportedCount_append hmem,
    reportedCount_flatten hmem⟩,
    fun files hd file => ⟨fun hfile => ?_, fun script hfile => ⟨?_, ?_⟩,
      fun others hothers hsame => ?_⟩⟩
  · rw [get?_dataHandlingOf hmem, ← placesOf_eq_zero_iff]
    by_cases hzero : placesOf phrases script = 0 <;> simp [hzero]
  · rw [get?_dataHandling hd, hfile]
    rfl
  · rintro ⟨category, phrases, hmem, hplaces⟩
    have hsome : dataHandlingOf script ≠ [] :=
      fun hnil => hplaces (dataHandlingOf_eq_nil_iff.mp hnil _ _ hmem)
    rw [get?_dataHandling hd, hfile, Option.map_some, Option.filter_some,
      if_pos (bne_iff_ne.mpr hsome)]
  · intro hnone
    rw [get?_dataHandling hd, hfile, Option.map_some, dataHandlingOf_eq_nil_iff.mpr hnone]
    rfl
  · rw [get?_dataHandling hothers, get?_dataHandling hd, hsame]

/-- The front of a script that breaks off within a call. -/
def brokenFront : Text := "axios.get(a); fet"

/-- The rest of it. -/
def brokenRest : Text := "ch(fetch(b))"

/-- The script with one that mentions nothing. -/
def mentionFiles : Entries Text :=
  [("a.js", brokenFront ++ brokenRest), ("b.js", "fetch (a)")]

/-- The call across the seam counts once more, and the script that mentions nothing is
left out. -/
theorem dataHandling_places_broken :
    Straddles ["fetch(", "axios.", "XMLHttpRequest"] brokenFront brokenRest ∧
      reportedCount "apiCalls" (brokenFront ++ brokenRest) =
        reportedCount "apiCalls" brokenFront + reportedCount "apiCalls" brokenRest + 1 ∧
      mentionFiles.Distinct ∧ mentionFiles.get? "b.js" = some "fetch (a)" ∧
      (dataHandling mentionFiles).get? "b.js" = none ∧
      (dataHandling mentionFiles).get? "a.js" = some ([("apiCalls", 3)] : Entries Nat) ∧
      (dataHandling (mentionFiles.take 1)).get? "a.js" =
        (dataHandling mentionFiles).get? "a.js" := by
  have hmem : (("apiCalls", ["fetch(", "axios.", "XMLHttpRequest"]) : Text ×
      List Text) ∈ dataCategories := by
    decide +kernel
  have hseam : Straddles ["fetch(", "axios.",
      "XMLHttpRequest"] brokenFront brokenRest := by decide +kernel
  have hd : mentionFiles.Distinct := by decide +kernel
  have hb : mentionFiles.get? "b.js" = some "fetch (a)" := by decide +kernel
  have hnone : ∀ entry ∈ dataCategories, placesOf entry.2 "fetch (a)" =
      0 := by decide +kernel
  obtain ⟨hcategories, hfiles⟩ := dataHandling_places
  obtain ⟨-, happend, -⟩ := hcategories _ _ hmem
  obtain ⟨-, hfile, -⟩ := hfiles mentionFiles hd "b.js"
  obtain ⟨-, -, halone⟩ := hfiles mentionFiles hd "a.js"
  refine ⟨hseam, ?_, hd, hb, (hfile _ hb).2 fun _ _ hentry => hnone _ hentry,
    by decide +kernel,
    halone (mentionFiles.take 1) (by decide +kernel) (by decide +kernel)⟩
  rcases happend brokenFront brokenRest with ⟨hnot, -⟩ | ⟨-, hsum⟩
  · exact absurd hseam hnot
  · exact hsum

end ExtensionAudit.Script
