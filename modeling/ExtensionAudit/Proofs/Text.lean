import ExtensionAudit.Disk.Path
import Mathlib.Data.List.Lex
import Mathlib.Tactic.Common

/-!
# Text — cuts and order

Cutting a text and joining the pieces again, and the orders of texts and of names: both
are the lexicographic order of the values of the code points, so what holds of linear
orders holds of them.
-/

namespace ExtensionAudit

namespace Text

/-! ## Cuts -/

theorem pieces_ne_nil (p : CodePoint → Bool) (t : Text) : pieces p t ≠ [] := by
  cases t with
  | nil => simp [pieces]
  | cons c rest =>
    rw [pieces]
    split
    · simp
    · split <;> simp

/-- No piece has anything in it at which the text is cut. -/
theorem not_cut_of_mem_pieces {p : CodePoint → Bool} {t piece : Text}
    (h : piece ∈ pieces p t) :
    ∀ c ∈ piece, p c = false := by
  induction t generalizing piece with
  | nil =>
    rw [pieces, List.mem_singleton] at h
    subst h
    simp
  | cons c rest ih =>
    rw [pieces] at h
    by_cases hc : p c = true
    · rw [if_pos hc, List.mem_cons] at h
      rcases h with rfl | h
      · simp
      · exact ih h
    · rw [if_neg hc] at h
      cases hr : pieces p rest with
      | nil => exact absurd hr (pieces_ne_nil p rest)
      | cons first more =>
        rw [hr] at h
        -- Only the first piece has grown, and by what is not cut at.
        intro d hd
        rcases List.mem_cons.mp h with rfl | h
        · rcases List.mem_cons.mp hd with rfl | hd
          · simpa using hc
          · exact ih (hr ▸ List.mem_cons_self) d hd
        · exact ih (hr ▸ List.mem_cons_of_mem _ h) d hd

/-- What a piece is made of stands in the text. -/
theorem mem_of_mem_pieces {p : CodePoint → Bool} {t piece : Text}
    (h : piece ∈ pieces p t) : ∀ c ∈ piece, c ∈ t := by
  induction t generalizing piece with
  | nil =>
    rw [pieces, List.mem_singleton] at h
    subst h
    simp
  | cons c rest ih =>
    intro d hd
    rw [pieces] at h
    by_cases hc : p c = true
    · rw [if_pos hc, List.mem_cons] at h
      rcases h with rfl | h
      · cases hd
      · exact .tail _ (ih h d hd)
    · rw [if_neg hc] at h
      cases hr : pieces p rest with
      | nil => exact absurd hr (pieces_ne_nil p rest)
      | cons first more =>
        rw [hr] at h
        rcases List.mem_cons.mp h with rfl | h
        · rcases List.mem_cons.mp hd with rfl | hd
          · exact .head _
          · exact .tail _ (ih (hr ▸ .head _) d hd)
        · exact .tail _ (ih (hr ▸ .tail _ h) d hd)

theorem pieces_of_uncut {p : CodePoint → Bool} {t : Text} (h : ∀ c ∈ t, p c = false) :
    pieces p t = [t] := by
  induction t with
  | nil => rfl
  | cons c rest ih =>
    rw [List.forall_mem_cons] at h
    rw [pieces, if_neg (by simp [h.1]), ih h.2]

/-- What stands before and after a cut is cut by itself. -/
theorem pieces_append {p : CodePoint → Bool} {c : CodePoint} (hc : p c = true)
    (first rest : Text) :
    pieces p (first ++ c :: rest) = pieces p first ++ pieces p rest := by
  induction first with
  | nil => simp [pieces, hc]
  | cons d more ih =>
    by_cases hd : p d = true
    · rw [List.cons_append, pieces, pieces, if_pos hd, if_pos hd, ih]
      rfl
    · rw [List.cons_append, pieces, pieces, if_neg hd, if_neg hd, ih]
      cases hm : pieces p more with
      | nil => exact absurd hm (pieces_ne_nil p more)
      | cons piece others => rfl

/-- Cutting a text where its parts were joined gives the parts back. -/
theorem pieces_join {p : CodePoint → Bool} {separator : CodePoint}
    (hseparator : p separator = true) {parts : List Text} (hne : parts ≠ [])
    (h : ∀ part ∈ parts, ∀ c ∈ part, p c = false) :
    pieces p (join [separator] parts) = parts := by
  induction parts with
  | nil => exact absurd rfl hne
  | cons part more ih =>
    rw [List.forall_mem_cons] at h
    cases more with
    | nil => exact pieces_of_uncut h.1
    | cons second rest =>
      rw [join, List.append_assoc, List.singleton_append, pieces_append hseparator,
        pieces_of_uncut h.1, ih (by simp) h.2]
      · rfl
      · simp

theorem split_join {separator : CodePoint} {parts : List Text}
    (hne : parts ≠ []) (h : ∀ part ∈ parts, separator ∉ part) :
    split separator (join [separator] parts) = parts := by
  refine pieces_join ?_ hne fun part hpart c hc => ?_
  · exact beq_self_eq_true separator
  · rw [beq_eq_false_iff_ne]
    intro heq
    exact h part hpart (heq ▸ hc)

theorem not_mem_of_mem_split {separator : CodePoint} {t part : Text}
    (h : part ∈ split separator t) :
    separator ∉ part := by
  intro hm
  simpa using not_cut_of_mem_pieces h separator hm

theorem split_append (separator : CodePoint) (first rest : Text) :
    split separator (first ++ separator :: rest) =
      split separator first ++ split separator rest := by
  refine pieces_append ?_ first rest
  exact beq_self_eq_true separator

/-- What a joined text is made of stands in its parts, or between them. -/
theorem mem_or_of_mem_join {separator : Text} {parts : List Text} {c : CodePoint}
    (h : c ∈ join separator parts) :
    c ∈ separator ∨ ∃ part ∈ parts, c ∈ part := by
  induction parts with
  | nil => cases h
  | cons part more ih =>
    cases more with
    | nil => exact .inr ⟨part, .head _, h⟩
    | cons second rest =>
      rw [join, List.append_assoc, List.mem_append, List.mem_append] at h
      rcases h with h | h | h
      · exact .inr ⟨part, .head _, h⟩
      · exact .inl h
      · rcases ih h with h | ⟨other, hother, h⟩
        · exact .inl h
        · exact .inr ⟨other, .tail _ hother, h⟩
      · simp

/-! ## Beginnings -/

theorem dropStart?_eq_some {start t rest : Text} :
    dropStart? start t = some rest ↔ t = start ++ rest := by
  rw [dropStart?]
  constructor
  · intro h
    split at h
    · rename_i hp
      obtain ⟨more, rfl⟩ := List.isPrefixOf_iff_prefix.mp hp
      cases h
      rw [List.drop_left]
    · cases h
  · rintro rfl
    rw [if_pos (List.isPrefixOf_iff_prefix.mpr (List.prefix_append _ _)), List.drop_left]

/-- A run ends where what follows does not go on with it. -/
theorem span_run {p : CodePoint → Bool} {run rest : Text} (hrun : ∀ c ∈ run, p c = true)
    (hrest : ∀ c ∈ rest.head?, p c = false) :
    (run ++ rest).takeWhile p = run ∧ (run ++ rest).dropWhile p = rest := by
  have hstop : rest.takeWhile p = [] ∧ rest.dropWhile p = rest := by
    cases rest with
    | nil => exact ⟨rfl, rfl⟩
    | cons c more =>
      have hc : ¬ p c = true := by simp [hrest c rfl]
      exact ⟨List.takeWhile_cons_of_neg hc, List.dropWhile_cons_of_neg hc⟩
  rw [List.takeWhile_append_of_pos hrun, List.dropWhile_append_of_pos hrun, hstop.1,
    hstop.2, List.append_nil]
  exact ⟨rfl, rfl⟩

/-- What follows the longest run does not go on with it. -/
theorem eq_false_of_mem_head?_dropWhile {p : CodePoint → Bool} {t : Text} :
    ∀ c ∈ (t.dropWhile p).head?, p c = false := by
  intro c hc
  have hnot := List.head?_dropWhile_not p t
  rw [hc] at hnot
  exact hnot

/-- A text can be cut at the first separator in one way. -/
theorem eq_of_append_cons {separator : CodePoint} {first second rest more : Text}
    (hfirst : separator ∉ first) (hsecond : separator ∉ second)
    (h : first ++ separator :: rest = second ++ separator :: more) :
    first = second ∧ rest = more := by
  have hcut (run rest : Text) (hrun : separator ∉ run) :
      (run ++ separator :: rest).takeWhile (· != separator) = run := by
    refine (span_run (fun c hc => ?_) (fun c hc => ?_)).1
    · rw [bne_iff_ne]
      intro heq
      exact hrun (heq ▸ hc)
    · cases hc
      simp
  have hsame : first = second := by
    rw [← hcut first rest hfirst, h, hcut second more hsecond]
  rw [hsame] at h
  exact ⟨hsame, (List.cons.inj (List.append_cancel_left h)).2⟩

/-! ## Numbers -/

theorem ofChar_injective : Function.Injective CodePoint.ofChar := by
  intro a b h
  exact Char.ext (UInt32.toNat_inj.mp (congrArg CodePoint.val h))

theorem ofString_injective : Function.Injective ofString := by
  intro s t h
  exact String.toList_inj.mp (List.map_injective_iff.mpr ofChar_injective h)

/-- A number can be told from its digits. -/
theorem ofNat_injective : Function.Injective ofNat := by
  intro m n h
  have hdigits : Nat.toDigits 10 m = Nat.toDigits 10 n :=
    List.map_injective_iff.mpr ofChar_injective h
  rw [← Nat.ofDigitChars_ten_toDigits (n := m), hdigits, Nat.ofDigitChars_ten_toDigits]

theorem not_mem_ofNat {c : Char} (hc : c.isDigit = false)
    (n : Nat) : CodePoint.ofChar c ∉ ofNat n := by
  intro h
  obtain ⟨digit, hdigit, heq⟩ := List.mem_map.mp h
  rw [← ofChar_injective heq, Nat.isDigit_of_mem_toDigits (by decide) le_rfl hdigit] at hc
  cases hc

/-! ## Order -/

/-- The values of the code points. -/
def values (t : Text) : List Nat := t.map (·.val)

theorem values_injective : Function.Injective values := by
  apply List.map_injective_iff.mpr
  intro a b h
  cases a
  cases b
  cases h
  rfl

theorem atMost_iff {a b : Text} : atMost a b = true ↔ values a ≤ values b := by
  induction a generalizing b with
  | nil => exact iff_of_true rfl (not_lt.mp (List.not_lt_nil (values b)))
  | cons c rest ih =>
    cases b with
    | nil => simp [atMost, values]
    | cons d more =>
      rw [atMost, values, values, List.map_cons, List.map_cons, ← not_lt,
        List.cons_lt_cons_iff]
      simp only [Bool.or_eq_true, Bool.and_eq_true, decide_eq_true_eq, beq_iff_eq, ih]
      rw [values, values, ← not_lt]
      rcases lt_trichotomy c.val d.val with h | h | h
      · simp [h, h.ne', h.not_gt]
      · simp [h]
      · simp [h, h.ne', h.not_gt]

end Text

namespace Path

/-- The values of the code points, name by name. -/
def values (names : List Text) : List (List Nat) := names.map Text.values

theorem values_injective : Function.Injective values :=
  List.map_injective_iff.mpr Text.values_injective

theorem namesBefore_iff {a b : List Text} : namesBefore a b = true ↔
    values a < values b := by
  induction a generalizing b with
  | nil => cases b <;> simp [namesBefore, values]
  | cons name rest ih =>
    cases b with
    | nil => simp [namesBefore, values]
    | cons other more =>
      rw [namesBefore, values, values, List.map_cons, List.map_cons,
        List.cons_lt_cons_iff]
      by_cases h : name = other
      · subst h
        rw [if_pos (by simp), ih, values, values]
        simp
      · have hv : Text.values name ≠ Text.values other :=
          fun hv => h (Text.values_injective hv)
        rw [if_neg (by simpa using h), Text.atMost_iff, le_iff_lt_or_eq]
        simp [hv]

/-- What is sorted by names is in the order of the names. -/
theorem pairwise_mergeSort {α : Type} (names : α → List Text) (list : List α) :
    (list.mergeSort fun a b => !namesBefore (names b) (names a)).Pairwise
      fun a b => values (names a) ≤ values (names b) := by
  have hle : ∀ a b : α,
      (!namesBefore (names b) (names a)) = true ↔
      values (names a) ≤ values (names b) := by
    intro a b
    rw [Bool.not_eq_true', ← Bool.not_eq_true, namesBefore_iff, not_lt]
  refine (List.pairwise_mergeSort ?_ ?_ _).imp fun h => (hle _ _).mp h
  · intro a b c hab hbc
    rw [hle] at hab hbc ⊢
    exact hab.trans hbc
  · intro a b
    rw [Bool.or_eq_true, hle, hle]
    exact le_total _ _

end Path

end ExtensionAudit
