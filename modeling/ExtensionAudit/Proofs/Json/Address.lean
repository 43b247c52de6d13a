import ExtensionAudit.Json.Basic
import Mathlib.Data.List.Lex
import Mathlib.Tactic.Common

/-!
# Json — addresses

An address says at every level of a document which element of an array, or which member
of an object, the way goes through. A document is read in the order of the addresses: a
value comes before its parts, and what is in an earlier element or member comes before
what is in a later one. `IsFirst` says which address comes first among those at which
something is found, and `Finds` what a search in this order comes to.
-/

namespace ExtensionAudit.Json

/-! ## Ways down -/

/-- The elements of an array, or the values of the members of an object. -/
def children : Json → List Json
  | .array elements => elements
  | .object members => members.map (·.2)
  | _ => []

/-- The part of a document at an address. -/
def part? (value : Json) : List Nat → Option Json
  | [] => some value
  | index :: rest => value.children[index]?.bind fun child => child.part? rest

/-- At the address there is an object, and this is its member at the index. -/
def HasMember (value : Json) (above : List Nat) (index : Nat)
    (entry : Text × Json) : Prop :=
  ∃ members, value.part? above = some (.object members) ∧ members[index]? = some entry

variable {value : Json} {index : Nat} {entry : Text × Json}

theorem hasMember_nil_iff :
    value.HasMember [] index entry ↔ ∃ members, value = .object members ∧
    members[index]? = some entry := by
  simp only [HasMember, part?, Option.some.injEq]

theorem hasMember_cons_iff {first : Nat} {above : List Nat} :
    value.HasMember (first :: above) index entry ↔
      ∃ child, value.children[first]? = some child ∧
      child.HasMember above index entry := by
  simp only [HasMember, part?, Option.bind_eq_some_iff]
  constructor
  · rintro ⟨members, ⟨child, hchild, hpart⟩, hentry⟩
    exact ⟨child, hchild, members, hpart, hentry⟩
  · rintro ⟨child, hchild, members, hpart, hentry⟩
    exact ⟨members, ⟨child, hchild, hpart⟩, hentry⟩

/-! ## What comes first -/

/-- Of the addresses at which a text is found, this one comes first. -/
structure IsFirst (found : List Nat → Text → Prop) (address : List Nat)
    (t : Text) : Prop where
  isFound : found address t
  isLeast : ∀ other u, found other u → other = address ∨ address < other

/-- What a search for a text that is not empty comes to: the text that is found first,
or nothing, or an empty text. -/
inductive Finds (found : List Nat → Text → Prop) : Option Text → Prop
  | first {address : List Nat} {t : Text} (h : IsFirst found address t)
      (hne : t ≠ []) : Finds found (some t)
  | nothing (h : ∀ address t, ¬ found address t) : Finds found none
  | empty (h : ∀ address t, ¬ found address t) : Finds found (some [])

/-- What is found in a value with parts is found in the first part, or in the others,
whose addresses are counted from the second part on. -/
structure Splits (found inFirst inOthers : List Nat → Text → Prop) : Prop where
  nil : ∀ t, ¬ found [] t
  zero : ∀ address t, found (0 :: address) t ↔ inFirst address t
  succ : ∀ index address t, found ((index + 1) :: address) t ↔
    inOthers (index :: address) t

variable {found inFirst inOthers : List Nat → Text → Prop} {t : Text}
    {result : Option Text}

namespace Splits

theorem congr (h : Splits found inFirst inOthers)
    {inFirst' inOthers' : List Nat → Text → Prop}
    (hfirst : ∀ address t, inFirst address t ↔ inFirst' address t)
    (hothers : ∀ address t, inOthers address t ↔ inOthers' address t) :
    Splits found inFirst' inOthers' where
  nil := h.nil
  zero address t := (h.zero address t).trans (hfirst address t)
  succ index address t := (h.succ index address t).trans (hothers _ t)

theorem not_found (h : Splits found inFirst inOthers)
    (hfirst : ∀ address t, ¬ inFirst address t)
    (hothers : ∀ address t, ¬ inOthers address t) (address : List Nat)
    (t : Text) : ¬ found address t := by
  intro ht
  cases address with
  | nil => exact h.nil t ht
  | cons index rest =>
    cases index with
    | zero => exact hfirst rest t ((h.zero rest t).mp ht)
    | succ index => exact hothers _ t ((h.succ index rest t).mp ht)

/-- What comes first in the first part comes first. -/
theorem isFirst_zero (h : Splits found inFirst inOthers) {address : List Nat}
    (hfirst : IsFirst inFirst address t) : IsFirst found (0 :: address) t := by
  refine ⟨(h.zero address t).mpr hfirst.isFound, ?_⟩
  intro other u hother
  cases other with
  | nil => exact absurd hother (h.nil u)
  | cons index rest =>
    cases index with
    | succ index => exact .inr (List.cons_lt_cons_iff.mpr (.inl (Nat.succ_pos index)))
    | zero =>
      rcases hfirst.isLeast rest u ((h.zero rest u).mp hother) with heq | hlt
      · exact .inl (congrArg _ heq)
      · exact .inr (List.cons_lt_cons_iff.mpr (.inr ⟨rfl, hlt⟩))

/-- What comes first in the others comes first if nothing is found in the first part. -/
theorem isFirst_succ (h : Splits found inFirst inOthers)
    (hnone : ∀ address t, ¬ inFirst address t) {index : Nat} {rest : List Nat}
    (hfirst : IsFirst inOthers (index :: rest) t) :
    IsFirst found ((index + 1) :: rest) t := by
  refine ⟨(h.succ index rest t).mpr hfirst.isFound, ?_⟩
  intro other u hother
  cases other with
  | nil => exact absurd hother (h.nil u)
  | cons place more =>
    cases place with
    | zero => exact absurd ((h.zero more u).mp hother) (hnone more u)
    | succ place =>
      rcases hfirst.isLeast _ u ((h.succ place more u).mp hother) with heq | hlt
      · obtain ⟨rfl, rfl⟩ := List.cons.inj heq
        exact .inl rfl
      · rcases List.cons_lt_cons_iff.mp hlt with hindex | ⟨rfl, hrest⟩
        · exact .inr (List.cons_lt_cons_iff.mpr (.inl (by omega)))
        · exact .inr (List.cons_lt_cons_iff.mpr (.inr ⟨rfl, hrest⟩))

end Splits

namespace Finds

theorem not_found (h : Finds found result) (hresult : ∀ t, t ≠ [] → result ≠ some t)
    (address : List Nat) (t : Text) : ¬ found address t := by
  cases h with
  | first h hne => exact absurd rfl (hresult _ hne)
  | nothing h => exact h address t
  | empty h => exact h address t

/-- What is found in the first part ends the search. -/
theorem ofFirst (hsplit : Splits found inFirst inOthers) (h : Finds inFirst (some t))
    (hne : t ≠ []) :
    Finds found (some t) := by
  cases h with
  | first h _ => exact .first (hsplit.isFirst_zero h) hne
  | empty h => exact absurd rfl hne

/-- Where nothing is found in the first part, the search comes to what it comes to in
the others. -/
theorem ofOthers (hsplit : Splits found inFirst inOthers)
    (hfirst : ∀ address t, ¬ inFirst address t) (hnil : ∀ t, ¬ inOthers [] t)
    (h : Finds inOthers result) : Finds found result := by
  cases h with
  | nothing h => exact .nothing (hsplit.not_found hfirst h)
  | empty h => exact .empty (hsplit.not_found hfirst h)
  | @first address t h hne =>
    cases address with
    | nil => exact absurd h.isFound (hnil t)
    | cons index rest => exact .first (hsplit.isFirst_succ hfirst h) hne

/-- Where nothing can be found in the others, the search comes to what it comes to in
the first part. -/
theorem alone (hsplit : Splits found inFirst fun _ _ => False)
    (h : Finds inFirst result) :
    Finds found result := by
  cases h with
  | first h hne => exact .first (hsplit.isFirst_zero h) hne
  | nothing h => exact .nothing (hsplit.not_found h fun _ _ => id)
  | empty h => exact .empty (hsplit.not_found h fun _ _ => id)

end Finds

end ExtensionAudit.Json
