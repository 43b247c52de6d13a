import ExtensionAudit.Json.Basic
import Mathlib.Tactic.Common

/-!
# Json — the parts of a document

What stands anywhere in a document (`Json.Occurs`), the induction by which a property of
the elements of arrays and of the values of members is carried to every document
(`Json.induction`), and the values that are truthy without having any parts
(`Json.IsTruthyNumber`).
-/

namespace ExtensionAudit.Json

/-- Induction over documents: an array has its elements, an object the values of its
members. -/
@[elab_as_elim]
theorem induction {motive : Json → Prop}
    (leaf : ∀ value : Json, value.isContainer = false → motive value)
    (array : ∀ elements : List Json, (∀ element ∈ elements, motive element) →
      motive (.array elements)) (object : ∀ members : Entries Json,
        (∀ entry ∈ members, motive entry.2) → motive (.object members)) :
    ∀ value, motive value
  | .array elements => array elements fun element _ => induction leaf array object element
  | .object members => object members fun entry _ => induction leaf array object entry.2
  | .null => leaf .null rfl
  | .bool b => leaf (.bool b) rfl
  | .int n => leaf (.int n) rfl
  | .float x => leaf (.float x) rfl
  | .text t => leaf (.text t) rfl
termination_by value => sizeOf value
decreasing_by
  · rename_i hmem
    have := List.sizeOf_lt_of_mem hmem
    simp only [Json.array.sizeOf_spec]
    omega
  · rename_i hmem
    have := List.sizeOf_lt_of_mem hmem
    obtain ⟨name, value⟩ := entry
    simp only [Prod.mk.sizeOf_spec, Json.object.sizeOf_spec] at this ⊢
    omega

/-- A part that stands somewhere in a document: the document itself, or a part of an
element or of the value of a member. -/
inductive Occurs (part : Json) : Json → Prop
  | here : Occurs part part
  | element {element : Json} {elements : List Json} (hmem : element ∈ elements)
    (inside : Occurs part element) : Occurs part (.array elements)
  | member {entry : Text × Json} {members : List (Text × Json)} (hmem : entry ∈ members)
    (inside : Occurs part entry.2) : Occurs part (.object members)

variable {part value : Json}

theorem Occurs.eq_of_leaf (h : Occurs part value) (hleaf : value.isContainer = false) :
    part = value := by
  cases h with
  | here => rfl
  | element hmem inside => cases hleaf
  | member hmem inside => cases hleaf

/-- True, or a number other than zero. -/
inductive IsTruthyNumber : Json → Prop
  | flag : IsTruthyNumber (.bool true)
  | integer {n : Int} (h : n ≠ 0) : IsTruthyNumber (.int n)
  | double {x : Binary64} (h : x.isZero = false) : IsTruthyNumber (.float x)

theorem IsTruthyNumber.isTruthy (h : IsTruthyNumber value) : value.isTruthy = true := by
  cases h with
  | flag => rfl
  | integer h => simp [Json.isTruthy, h]
  | double h => simp [Json.isTruthy, h]

/-- A value is falsy, or a number in that sense, or a text, an array or an object. -/
theorem falsy_or_number_or_items (value : Json) :
    value.isTruthy = false ∨ IsTruthyNumber value ∨
      (∃ t, value = .text t) ∨ (∃ elements, value = .array elements) ∨
      ∃ members, value = .object members := by
  cases value with
  | null => exact .inl rfl
  | bool b =>
    cases b with
    | false => exact .inl rfl
    | true => exact .inr (.inl .flag)
  | int n =>
    by_cases h : n = 0
    · exact .inl (by simp [Json.isTruthy, h])
    · exact .inr (.inl (.integer h))
  | float x =>
    cases h : x.isZero with
    | true => exact .inl (by simp [Json.isTruthy, h])
    | false => exact .inr (.inl (.double h))
  | text t => exact .inr (.inr (.inl ⟨t, rfl⟩))
  | array elements => exact .inr (.inr (.inr (.inl ⟨elements, rfl⟩)))
  | object members => exact .inr (.inr (.inr (.inr ⟨members, rfl⟩)))

end ExtensionAudit.Json
