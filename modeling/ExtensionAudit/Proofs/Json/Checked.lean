import ExtensionAudit.Json.Arithmetic
import ExtensionAudit.Proofs.Entries
import ExtensionAudit.Text.Casing
import Mathlib

/-!
# Json — operations that check what they are given

What can be done with a value of which nothing is known, one operation at a time: each
is for values of some kind and fails with every other one, and a key of an object has to
be a text. An analysis that is put together of these operations fails wherever it relies
on a kind that a value need not have. With values of the kind that it is for, each
operation succeeds.
-/

namespace ExtensionAudit

namespace Checked

/-- What can go wrong with a value: it is misused, or it is to be a key and is no text. -/
inductive Fault
  | misuse (problem : Json.Misuse)
  | notKey (kind : Json.Kind)
deriving DecidableEq

/-- An operation or what it comes to. -/
abbrev Result (α : Type) := Except Fault α

/-- What comes of an operation that can only be a misuse. -/
def ofMisuse {α : Type} (result : Except Json.Misuse α) : Result α :=
  result.mapError .misuse

/-! ## The operations -/

/-- The elements of an array on which a method is called. -/
def elementsFor (method : Text) : Json → Result (List Json)
  | .array elements => .ok elements
  | value => .error (.misuse (.noAttribute value.kind method))

/-- The text on which a method is called. -/
def textFor (method : Text) : Json → Result Text
  | .text t => .ok t
  | value => .error (.misuse (.noAttribute value.kind method))

/-- The text that a key is. -/
def keyOf : Json → Result Text
  | .text t => .ok t
  | value => .error (.notKey value.kind)

/-- The member of an object, null if it is absent. -/
def get (key : Text) (value : Json) : Result Json := do
  .ok (Json.member key (← ofMisuse value.members))

/-- The member that an object must have. -/
def require (key : Text) (value : Json) : Result Json := ofMisuse (value.require key)

/-- What an iteration passes. -/
def items (value : Json) : Result (List Json) := ofMisuse value.items

/-- The keys of an object with their values. -/
def pairs : Json → Result (List (Json × Json))
  | .object members => .ok (members.map fun (key, value) => (.text key, value))
  | value => .error (.misuse (.noAttribute value.kind "items"))

/-- What an iteration passes, each with its position as a key. -/
def numbered (value : Json) : Result (List (Json × Json)) := do
  .ok ((← items value).zipIdx.map fun (element, index) =>
    (.text (Text.ofNat index), element))

/-- The sum of two values. -/
def add (left right : Json) : Result Json := ofMisuse (left.add right)

/-- Puts an element at the end of an array. -/
def append (value element : Json) : Result Json := do
  .ok (.array ((← elementsFor "append" value) ++ [element]))

/-- Puts what an iteration passes at the end of an array. -/
def extend (value more : Json) : Result Json := do
  .ok (.array ((← elementsFor "extend" value) ++ (← items more)))

/-- Gives a key of an object a value. -/
def put (key content : Json) : Json → Result Json
  | .object members => do .ok (.object (Entries.put (← keyOf key) content members))
  | value => .error (.misuse (.notSubscriptable value.kind))

/-- The small letters of a text. -/
def lower (value : Json) : Result Text := do
  .ok (Text.lower (← textFor "lower" value))

/-- The pieces of a text between marks. -/
def split (mark : CodePoint) (value : Json) : Result (List Text) := do
  .ok (Text.split mark (← textFor "split" value))

/-- The value as an array: null is an empty one, and what is no array stands in one
alone. -/
def asList (value : Json) : Json :=
  if value.kind = .null then .array []
  else if value.kind = .array then value
  else .array [value]

/-! ## With what they are for -/

variable {α σ τ : Type} {key : Text} {value : Json} {members : Entries Json}

@[simp] theorem bind_ok {β : Type} (a : α)
    (f : α → Result β) : (Except.ok a >>= f) = f a := rfl

theorem get_object (key : Text) (members : Entries Json) :
    get key (.object members) = .ok (Json.member key members) := rfl

example : get "scripts" (.array []) = .error (.misuse (.noAttribute .array "get")) := rfl

/-- A member that is truthy is there. -/
theorem require_object (h : (Json.member key members).isTruthy = true) :
    require key (.object members) = .ok (Json.member key members) := by
  rw [Json.member] at h ⊢
  cases hget : members.get? key with
  | none =>
    rw [hget] at h
    cases h
  | some value => simp only [require, ofMisuse, Json.require, hget, Option.getD_some]; rfl

theorem asList_eq (value : Json) : asList value = .array value.listed := by
  cases value <;> rfl

theorem items_asList (value : Json) : items (asList value) = .ok value.listed := by
  rw [asList_eq]
  rfl

theorem add_asList (left right : Json) :
    add (asList left) (asList right) = .ok (.array (left.listed ++ right.listed)) := by
  rw [asList_eq, asList_eq]
  rfl

theorem append_array (elements : List Json) (element : Json) :
    append (.array elements) element = .ok (.array (elements ++ [element])) := rfl

theorem extend_asList (elements : List Json) (more : Json) :
    extend (.array elements) (asList more) = .ok (.array (elements ++ more.listed)) := by
  rw [extend, items_asList]
  rfl

theorem put_text (key : Text) (content : Json) (members : Entries Json) :
    put (.text key) content (.object members) =
      .ok (.object (Entries.put key content members)) := rfl

theorem lower_text (t : Text) : lower (.text t) = .ok (Text.lower t) := rfl

theorem if_object (members : Entries Json)
    (a b : α) : (if (Json.object members).kind = .object then a else b) = a :=
  if_pos rfl

/-! ## Loops -/

/-- A loop of which no step fails, on what a state is shown as, ends in what the steps
make of the state. -/
theorem foldlM_shown {ε : Type} {step : τ → α → Except ε τ} {effect : σ → α → σ}
    (shown : σ → τ) (h : ∀ state a, step (shown state) a = .ok (shown (effect state a)))
    (list : List α) (state : σ) :
    list.foldlM step (shown state) = .ok (shown (list.foldl effect state)) := by
  induction list generalizing state with
  | nil => rfl
  | cons a rest ih =>
    rw [List.foldlM_cons, h]
    exact ih (effect state a)

end Checked

namespace Entries

variable {α β : Type} {key : Text}

/-- To change a value and to show all values is the same in either order. -/
theorem alter_map (shown : α → β) {change : Option α → α} {changeShown : Option β → β}
    (h : ∀ old, changeShown (old.map shown) = shown (change old)) (entries : Entries α) :
    alter key changeShown (entries.map fun (key, value) => (key, shown value)) =
      (alter key change entries).map fun (key, value) => (key, shown value) := by
  induction entries with
  | nil => simp only [alter, List.map_nil, List.map_cons, ← h, Option.map_none]
  | cons entry rest ih =>
    obtain ⟨k, v⟩ := entry
    have hchanged : changeShown (some (shown v)) = shown (change (some v)) := h (some v)
    rw [List.map_cons, alter, alter]
    split
    · rw [List.map_cons, hchanged]
    · rw [List.map_cons, ih]

/-- To change a value is to write what it is changed to. -/
theorem put_get? (change : Option α → α) (entries : Entries α) :
    put key (change (entries.get? key)) entries = alter key change entries := by
  induction entries with
  | nil => rfl
  | cons entry rest ih =>
    obtain ⟨k, v⟩ := entry
    rw [put, alter, alter, get?]
    split
    · rfl
    · exact congrArg (List.cons (k, v)) ih

theorem put_map (shown : α → β) (value : α) (entries : Entries α) :
    put key (shown value) (entries.map fun (key, value) => (key, shown value)) =
      (put key value entries).map fun (key, value) => (key, shown value) :=
  alter_map shown (fun _ => rfl) entries

end Entries

end ExtensionAudit
