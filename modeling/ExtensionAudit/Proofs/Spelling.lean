import ExtensionAudit.Auditor
import Mathlib

/-!
# Spelling — what the system can be given

A text can be spelt for the system just if nothing in it is a null character, or a
surrogate that stands for no octet (`Path.misspellingOf?_eq_none_iff`). Filling the
blanks of a command adds and takes away nothing that cannot be spelt, if what it is
filled with can be: so whether a command can be spelt does not depend on the directory
it is filled with (`Auditor.spellsAlike`).
-/

namespace ExtensionAudit

namespace Path

theorem unspellable?_eq_none_iff {position : Nat} {t : Text} :
    unspellable? position t = none ↔ ∀ c ∈ t, c.isSurrogate = true →
    c.isOctetMark = true := by
  induction t generalizing position with
  | nil => simp [unspellable?]
  | cons c rest ih =>
    rw [unspellable?, List.forall_mem_cons]
    split
    · next h =>
      simp only [Bool.and_eq_true, Bool.not_eq_true'] at h
      simp [h]
    · next h =>
      simp only [Bool.and_eq_true, Bool.not_eq_true', not_and, Bool.not_eq_false] at h
      rw [ih, and_iff_right h]

/-- A text can be spelt just if nothing in it is a null character, or a surrogate that
stands for no octet. -/
theorem misspellingOf?_eq_none_iff {t : Text} :
    misspellingOf? t = none ↔ ∀ c ∈ t, c.val ≠ 0 ∧
    (c.isSurrogate = true → c.isOctetMark = true) := by
  have hsurrogates := @unspellable?_eq_none_iff 0 t
  rw [misspellingOf?]
  cases h : unspellable? 0 t with
  | some fault =>
    refine iff_of_false nofun fun hall => ?_
    cases h.symm.trans (hsurrogates.mpr fun c hc => (hall c hc).2)
  | none =>
    have hmarks := hsurrogates.mp h
    cases hnull : t.any fun c => c.val == 0 with
    | true =>
      obtain ⟨c, hc, hzero⟩ := List.any_eq_true.mp hnull
      exact iff_of_false nofun fun hall => (hall c hc).1 (by simpa using hzero)
    | false =>
      refine iff_of_true rfl fun c hc => ⟨fun hzero => ?_, hmarks c hc⟩
      have hfound := List.any_eq_false.mp hnull c hc
      simp [hzero] at hfound

end Path

/-! ## Blanks -/

/-- In which texts something is found that a blank and what it is filled with do not
have does not depend on whether the blank is filled. -/
theorem Text.any_replaceFrom {p : CodePoint → Bool} {old new : Text}
    (hold : old.any p = false) (hnew : new.any p = false) (hne : old ≠ [])
    (skip : Nat) (t : Text) :
    (replaceFrom old new skip t).any p = (t.drop skip).any p := by
  induction t generalizing skip with
  | nil => simp [replaceFrom]
  | cons c rest ih =>
    cases skip with
    | succ skip => exact ih skip
    | zero =>
      rw [replaceFrom, List.drop_zero]
      split
      · next h =>
        obtain ⟨more, hmore⟩ := List.isPrefixOf_iff_prefix.mp h
        obtain ⟨first, others, rfl⟩ := List.exists_cons_of_ne_nil hne
        have hrest : rest.drop others.length = more := by
          rw [← (List.cons.inj hmore).2]
          exact List.drop_left
        rw [List.any_append, ih, hnew, Bool.false_or, List.length_cons,
          Nat.add_sub_cancel, hrest, ← hmore, List.any_append, hold, Bool.false_or]
      · rw [List.any_cons, List.any_cons, ih, List.drop_zero]

/-- Is the code point one that keeps a text from being spelt? -/
def CodePoint.isUnspellable (c : CodePoint) : Bool :=
  c.val == 0 || (c.isSurrogate && !c.isOctetMark)

theorem Path.isSome_misspellingOf?
    (t : Text) : (misspellingOf? t).isSome = t.any CodePoint.isUnspellable := by
  have hnone : misspellingOf? t = none ↔ t.any CodePoint.isUnspellable = false := by
    rw [misspellingOf?_eq_none_iff, List.any_eq_false]
    refine forall₂_congr fun c _ => ?_
    rw [CodePoint.isUnspellable]
    cases c.isSurrogate <;> cases c.isOctetMark <;> simp
  cases hany : t.any CodePoint.isUnspellable with
  | false => rw [hnone.mpr hany, Option.isSome_none]
  | true =>
    exact Option.isSome_iff_ne_none.mpr fun h => by cases hany.symm.trans (hnone.mp h)

namespace Tool

/-- A command can be given to a process just if each of its words can be spelt. -/
theorem Terms.misspelling?_eq_none_iff {terms : Terms} :
    terms.misspelling? = none ↔
      ∀ word ∈ terms.command, ∀ c ∈ word, c.val ≠ 0 ∧
      (c.isSurrogate = true → c.isOctetMark = true) := by
  rw [misspelling?, List.findSome?_eq_none_iff]
  exact forall₂_congr fun word _ => Path.misspellingOf?_eq_none_iff

/-- A word is no less spelt when its blanks are filled with what can be spelt. -/
theorem isSome_misspellingOf?_fill {directory : Path}
    {rules : Text} (hdirectory : directory.misspelling? = none)
    (hrules : Path.misspellingOf? rules = none) (template : List Text) :
    ((fill template directory rules).findSome? Path.misspellingOf?).isSome =
      template.any fun part => part.any CodePoint.isUnspellable := by
  have hspelt {t : Text} (h : Path.misspellingOf? t = none) :
      t.any CodePoint.isUnspellable = false := by
    rw [← Path.isSome_misspellingOf?, h]
    rfl
  rw [List.isSome_findSome?, fill, List.any_map]
  congr 1
  funext part
  rw [Function.comp_apply, Path.isSome_misspellingOf?, Text.replace,
    Text.any_replaceFrom (by decide) (hspelt hrules) (by decide), List.drop_zero,
    Text.replace, Text.any_replaceFrom (by decide) (hspelt hdirectory) (by decide),
    List.drop_zero]

end Tool

/-- Can the commands of an auditor be spelt for either of two directories, or for
neither? -/
def Auditor.SpellsAlike (auditor : Auditor) (path path' : Path) : Prop :=
  ∀ tool, (auditor.terms path tool).misspelling?.isSome =
    (auditor.terms path' tool).misspelling?.isSome

/-- They can, if both directories and the lint rules have names that can be spelt. -/
theorem Auditor.spellsAlike {auditor : Auditor} {path path' : Path}
    (h : path.misspelling? = none) (h' : path'.misspelling? = none)
    (hrules : Path.misspellingOf? auditor.rules = none) :
    auditor.SpellsAlike path path' := by
  intro tool
  have hfilled {directory : Path} (hdirectory : directory.misspelling? = none) :
      (auditor.terms directory tool).misspelling?.isSome =
        (auditor.commands tool).any fun part => part.any CodePoint.isUnspellable := by
    rw [← Tool.isSome_misspellingOf?_fill hdirectory hrules]
    cases tool <;> rfl
  rw [hfilled h, hfilled h']

end ExtensionAudit
