import ExtensionAudit.Text.Basic

/-!
Maps that keep the order in which their keys first came: lists of key and value. Writing
to a key that is present changes its value where it stands; a new key goes to the end.
-/

namespace ExtensionAudit

/-- Keys with their values, in the order in which the keys first came. -/
abbrev Entries (α : Type) := List (Text × α)

namespace Entries

variable {α : Type}

/-- The value of a key. -/
def get? (key : Text) : Entries α → Option α
  | [] => none
  | (k, v) :: rest => if k == key then some v else get? key rest

/-- Is the key present? -/
def has (key : Text) (entries : Entries α) : Bool := (get? key entries).isSome

/-- Gives the key the value that `f` makes of its present one. -/
def alter (key : Text) (f : Option α → α) : Entries α → Entries α
  | [] => [(key, f none)]
  | (k, v) :: rest =>
    if k == key then (k, f (some v)) :: rest else (k, v) :: alter key f rest

/-- Gives the key a value. -/
def put (key : Text) (value : α) (entries : Entries α) : Entries α :=
  alter key (fun _ => value) entries

/-- Adds one to the count of a key. -/
def bump (key : Text) (counts : Entries Nat) : Entries Nat :=
  alter key (fun count => count.getD 0 + 1) counts

/-- The map that writing the pairs one after another gives. -/
def ofPairs (pairs : List (Text × α)) : Entries α :=
  pairs.foldl (fun entries (key, value) => put key value entries) []

/-- The keys, in order. -/
def keys (entries : Entries α) : List Text := entries.map (·.1)

theorem get?_alter_self (key : Text) (f : Option α → α) (entries : Entries α) :
    get? key (alter key f entries) = some (f (get? key entries)) := by
  induction entries with
  | nil => simp [alter, get?]
  | cons entry rest ih =>
    obtain ⟨k, v⟩ := entry
    by_cases h : k = key <;> simp [alter, get?, h, ih]

theorem get?_alter_of_ne {key other : Text} (h : other ≠ key) (f : Option α → α)
    (entries : Entries α) : get? other (alter key f entries) = get? other entries := by
  induction entries with
  | nil => simp [alter, get?, Ne.symm h]
  | cons entry rest ih =>
    obtain ⟨k, v⟩ := entry
    by_cases hk : k = key
    · subst hk; simp [alter, get?, Ne.symm h]
    · by_cases ho : k = other
      · subst ho; simp [alter, get?, hk]
      · simp [alter, get?, hk, ho, ih]

theorem keys_alter (key : Text) (f : Option α → α) (entries : Entries α) :
    keys (alter key f entries) =
      if key ∈ keys entries then keys entries else keys entries ++ [key] := by
  induction entries with
  | nil => simp [alter, keys]
  | cons entry rest ih =>
    obtain ⟨k, v⟩ := entry
    by_cases hk : k = key
    · subst hk; simp [alter, keys]
    · have hk' : key ≠ k := fun h => hk h.symm
      by_cases hm : key ∈ keys rest
      · simp_all [alter, keys]
      · simp_all [alter, keys]

end Entries

end ExtensionAudit
