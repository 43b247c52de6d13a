import ExtensionAudit.Entries
import Mathlib.Data.List.Induction
import Mathlib.Data.List.Nodup
import Mathlib.Tactic.Common

/-!
# Entries — maps that keep the order of their keys

No key of such a map comes twice, and what stands under a key is what a lookup finds. A
loop that changes the value of one key after another (`gather`) leaves the keys in the
order in which they first came, and under each key what the loop makes of the values for
that key alone. So a loop over two lists gives what the first gives with what the second
gives written over it (`gather_append`).
-/

namespace ExtensionAudit

/-! ## First occurrences -/

section FirstOccurrences

variable {α : Type} [BEq α] [LawfulBEq α] {list : List α} {a : α}

theorem eraseDups_concat_of_mem (h : a ∈ list) :
    (list ++ [a]).eraseDups = list.eraseDups := by
  simp [List.eraseDups_append, List.removeAll, h]

theorem eraseDups_concat_of_not_mem
    (h : a ∉ list) : (list ++ [a]).eraseDups = list.eraseDups ++ [a] := by
  simp [List.eraseDups_append, List.removeAll, List.eraseDups_cons, h]

theorem nodup_eraseDups (list : List α) : list.eraseDups.Nodup := by
  induction list using List.reverseRecOn with
  | nil => exact List.nodup_nil
  | append_singleton list a ih =>
    by_cases h : a ∈ list
    · rwa [eraseDups_concat_of_mem h]
    · rw [eraseDups_concat_of_not_mem h, ← List.concat_eq_append]
      exact ih.concat (List.mem_eraseDups.not.mpr h)

theorem eraseDups_filter (p : α → Bool)
    (list : List α) : (list.filter p).eraseDups = list.eraseDups.filter p := by
  induction list using List.reverseRecOn with
  | nil => rfl
  | append_singleton list a ih =>
    by_cases hp : p a = true
    · have hkept : ∀ front : List α, (front ++ [a]).filter p = front.filter p ++ [a] :=
        fun front => by simp [hp]
      by_cases h : a ∈ list
      · rw [hkept, eraseDups_concat_of_mem h,
          eraseDups_concat_of_mem (List.mem_filter.mpr ⟨h, hp⟩), ih]
      · rw [hkept, eraseDups_concat_of_not_mem h, hkept,
          eraseDups_concat_of_not_mem fun hmem => h (List.mem_filter.mp hmem).1, ih]
    · have hgone : ∀ front : List α, (front ++ [a]).filter p = front.filter p :=
        fun front => by simp [hp]
      by_cases h : a ∈ list
      · rw [hgone, eraseDups_concat_of_mem h, ih]
      · rw [hgone, eraseDups_concat_of_not_mem h, hgone, ih]

end FirstOccurrences

namespace Entries

variable {α β : Type} {key : Text}

/-! ## Keys and lookups -/

/-- No key comes twice. -/
def Distinct (entries : Entries α) : Prop := entries.keys.Nodup

instance (entries : Entries α) : Decidable entries.Distinct :=
  inferInstanceAs (Decidable (List.Nodup _))

theorem distinct_nil : Distinct ([] : Entries α) := List.nodup_nil

theorem distinct_put {entries : Entries α} (value : α) (h : entries.Distinct) :
    (entries.put key value).Distinct := by
  rw [Distinct, put, keys_alter]
  by_cases hkey : key ∈ keys entries
  · rw [if_pos hkey]
    exact h
  · rw [if_neg hkey, List.nodup_append]
    refine ⟨h, List.pairwise_singleton _ key, ?_⟩
    intro k hk other hother heq
    rw [List.mem_singleton] at hother
    exact hkey (hother ▸ heq ▸ hk)

theorem mem_put {entries : Entries α} {value : α} {entry : Text × α}
    (h : entry ∈ entries.put key value) : entry ∈ entries ∨ entry = (key, value) := by
  induction entries with
  | nil => exact .inr (List.mem_singleton.mp h)
  | cons first rest ih =>
    obtain ⟨k, v⟩ := first
    by_cases hk : k = key
    · subst hk
      simp only [put, alter, beq_self_eq_true, if_true, List.mem_cons] at h
      rcases h with h | h
      · exact .inr h
      · exact .inl (.tail _ h)
    · simp only [put, alter, beq_eq_false_iff_ne.mpr hk, Bool.false_eq_true, if_false,
        List.mem_cons] at h
      rcases h with h | h
      · exact .inl (h ▸ .head _)
      · rcases ih h with h | h
        · exact .inl (.tail _ h)
        · exact .inr h

/-- Where no key comes twice, looking a key up finds what stands there. -/
theorem get?_eq_some_iff {entries : Entries α} {value : α} (h : entries.Distinct) :
    entries.get? key = some value ↔ (key, value) ∈ entries := by
  induction entries with
  | nil => simp [get?]
  | cons first rest ih =>
    obtain ⟨k, v⟩ := first
    obtain ⟨hk, hrest⟩ := List.nodup_cons.mp h
    by_cases heq : k = key
    · subst heq
      have hnot : (k, value) ∉ rest :=
        fun hmem => hk (List.mem_map_of_mem (f := (·.1)) hmem)
      simp [get?, hnot, eq_comm]
    · have hne : (key, value) ≠ (k, v) := fun hpair => heq (congrArg Prod.fst hpair).symm
      simp [get?, heq, hne, ih hrest]

/-- The order of the entries does not matter to a lookup. -/
theorem get?_perm {entries others : Entries α} (h : entries.Perm others)
    (hd : entries.Distinct) :
    entries.get? key = others.get? key := by
  have hd' : others.Distinct := (h.map _).nodup_iff.mp hd
  ext value
  rw [get?_eq_some_iff hd, get?_eq_some_iff hd', h.mem_iff]

theorem get?_append (entries others : Entries α) :
    get? key (entries ++ others) = (entries.get? key).or (others.get? key) := by
  induction entries with
  | nil => rfl
  | cons first rest ih =>
    obtain ⟨k, v⟩ := first
    by_cases hk : k = key
    · simp [get?, hk]
    · simp [get?, hk, ih]

theorem get?_eq_none_iff {entries : Entries α} : entries.get? key = none ↔
    key ∉ entries.keys := by
  induction entries with
  | nil => simp [get?, keys]
  | cons first rest ih =>
    obtain ⟨k, v⟩ := first
    by_cases hk : k = key
    · simp [get?, keys, hk]
    · have hk' : key ≠ k := fun h => hk h.symm
      rw [keys] at ih
      simp [get?, keys, hk, hk', ih]

theorem has_eq_true_iff {entries : Entries α} : entries.has key = true ↔
    key ∈ entries.keys := by
  rw [has, Option.isSome_iff_ne_none, Ne, get?_eq_none_iff, not_not]

/-- Two maps with the same keys in the same order and the same values are the same. -/
theorem ext_of_get? {entries others : Entries α}
    (hd : entries.Distinct) (hkeys : entries.keys = others.keys)
    (h : ∀ key, entries.get? key = others.get? key) : entries = others := by
  induction entries generalizing others with
  | nil =>
    cases others with
    | nil => rfl
    | cons other more => cases hkeys
  | cons first rest ih =>
    cases others with
    | nil => cases hkeys
    | cons other more =>
      obtain ⟨k, v⟩ := first
      obtain ⟨k', v'⟩ := other
      obtain ⟨rfl, hrest⟩ : k = k' ∧ keys rest = keys more := List.cons_eq_cons.mp hkeys
      obtain ⟨hk, hdrest⟩ := List.nodup_cons.mp hd
      have hv : v = v' := by simpa [get?] using h k
      subst hv
      refine congrArg _ (ih hdrest hrest fun key => ?_)
      by_cases hkey : k = key
      · subst hkey
        rw [get?_eq_none_iff.mpr hk, get?_eq_none_iff.mpr (hrest ▸ hk)]
      · simpa [get?, hkey] using h key

/-! ## One map written over another -/

/-- The first map with the second written over it: what stands under a key of both is
combined, and the other keys of the second follow. -/
def merge (combine : α → α → α) (first second : Entries α) : Entries α :=
  first.map (fun (key, value) =>
    (key, ((second.get? key).map (combine value)).getD value)) ++
    second.filter fun entry => !first.has entry.1

variable {combine : α → α → α} {first second : Entries α}

theorem keys_merge :
    (merge combine first second).keys = first.keys ++ second.keys.filter fun key =>
      !first.has key := by
  rw [merge, keys, List.map_append, List.map_map, keys, keys, List.filter_map]
  rfl

theorem get?_map (f : Text → α → β) (entries : Entries α) :
    get? key (entries.map fun (key, value) => (key, f key value)) =
      (entries.get? key).map (f key) := by
  induction entries with
  | nil => rfl
  | cons entry rest ih =>
    obtain ⟨k, v⟩ := entry
    by_cases hk : k = key
    · simp [get?, hk]
    · simp [get?, hk, ih]

theorem get?_filter (p : Text → Bool) (entries : Entries α) :
    get? key (entries.filter fun entry => p entry.1) = if p key then entries.get? key
      else none := by
  induction entries with
  | nil => simp [get?]
  | cons entry rest ih =>
    obtain ⟨k, v⟩ := entry
    by_cases hp : p k = true
    · by_cases hk : k = key
      · subst hk
        simp [get?, hp]
      · simp [get?, hp, hk, ih]
    · by_cases hk : k = key
      · subst hk
        simp [hp, ih]
      · simp [get?, hp, hk, ih]

/-- What is made of each value, without what is of no interest: where no key comes
twice, it is there just if it is of interest. -/
theorem get?_map_filter (f : α → β) (p : β → Bool) {entries : Entries α}
    (hd : entries.Distinct) :
    get? key
      ((entries.map fun (key, value) => (key, f value)).filter fun entry => p entry.2) =
      ((entries.get? key).map f).filter p := by
  induction entries with
  | nil => rfl
  | cons entry rest ih =>
    obtain ⟨k, v⟩ := entry
    obtain ⟨hk, hrest⟩ := List.nodup_cons.mp hd
    by_cases hkey : k = key
    · subst hkey
      have hnone : get? k rest = none := get?_eq_none_iff.mpr hk
      have ih := ih hrest
      rw [hnone] at ih
      cases hp : p (f v) with
      | true => simp [get?, hp, Option.filter_some]
      | false => simpa [get?, hp, Option.filter_some] using ih
    · have ih := ih hrest
      cases hp : p (f v) with
      | true => simpa [get?, hp, hkey] using ih
      | false => simpa [get?, hp, hkey] using ih

theorem get?_merge :
    (merge combine first second).get? key =
      match first.get? key with
      | none => second.get? key
      | some value => some (((second.get? key).map (combine value)).getD value) := by
  rw [merge, get?_append,
    get?_map fun key value => ((second.get? key).map (combine value)).getD value,
    get?_filter fun key => !first.has key, has]
  cases get? key first <;> simp

theorem merge_singleton {value : α} (h : key ∉ second.keys) :
    merge combine [(key, value)] second = (key, value) :: second := by
  have hkeep : second.filter (fun entry => !has entry.1 [(key, value)]) = second := by
    refine List.filter_eq_self.mpr fun entry hentry => ?_
    have hne : key ≠ entry.1 := fun heq => h (heq ▸ List.mem_map_of_mem hentry)
    simp [has, get?, hne]
  rw [merge, hkeep]
  simp only [List.map_singleton, get?_eq_none_iff.mpr h]
  rfl

/-! ## Loops -/

section Gather

variable {α β : Type} (step : Option β → α → β)

/-- What a loop leaves that takes a key and a value at a time and changes what stands
under the key. -/
def gather (pairs : List (Text × α)) : Entries β :=
  pairs.foldl (fun entries pair => entries.alter pair.1 fun old => step old pair.2) []

/-- The values that come for a key. -/
def valuesFor (key : Text) (pairs : List (Text × α)) : List α :=
  (pairs.filter (·.1 == key)).map (·.2)

/-- What the loop makes of the values for one key, beyond what stands there. -/
def gatherValues (old : Option β) (values : List α) : Option β :=
  values.foldl (fun old value => some (step old value)) old

theorem valuesFor_append (key : Text) (pairs more : List (Text × α)) :
    valuesFor key (pairs ++ more) = valuesFor key pairs ++ valuesFor key more := by
  rw [valuesFor, List.filter_append, List.map_append]
  rfl

theorem gatherValues_concat (old : Option β) (values : List α) (value : α) :
    gatherValues step old (values ++ [value]) =
      some (step (gatherValues step old values) value) := by
  rw [gatherValues, List.foldl_append]
  rfl

theorem gather_concat (pairs : List (Text × α)) (key : Text) (value : α) :
    gather step (pairs ++ [(key, value)]) = (gather step pairs).alter key fun old =>
      step old value := by
  rw [gather, List.foldl_append]
  rfl

/-- The keys stand in the order in which they first came. -/
theorem keys_gather (pairs : List (Text × α)) :
    (gather step pairs).keys = (pairs.map (·.1)).eraseDups := by
  induction pairs using List.reverseRecOn with
  | nil => rfl
  | append_singleton pairs pair ih =>
    obtain ⟨key, value⟩ := pair
    rw [gather_concat, keys_alter, ih, List.map_append]
    by_cases h : key ∈ pairs.map (·.1)
    · rw [if_pos (List.mem_eraseDups.mpr h)]
      exact (eraseDups_concat_of_mem h).symm
    · rw [if_neg (List.mem_eraseDups.not.mpr h)]
      exact (eraseDups_concat_of_not_mem h).symm

theorem distinct_gather (pairs : List (Text × α)) : (gather step pairs).Distinct := by
  rw [Distinct, keys_gather]
  exact nodup_eraseDups _

/-- Under a key stands what the loop makes of the values for it. -/
theorem get?_gather (pairs : List (Text × α)) (key : Text) :
    (gather step pairs).get? key = gatherValues step none (valuesFor key pairs) := by
  induction pairs using List.reverseRecOn with
  | nil => rfl
  | append_singleton pairs pair ih =>
    obtain ⟨other, value⟩ := pair
    rw [gather_concat]
    by_cases h : other = key
    · subst h
      rw [get?_alter_self, ih]
      simp [valuesFor, gatherValues]
    · rw [get?_alter_of_ne (Ne.symm h), ih]
      simp [valuesFor, h]

variable {step} {combine : β → β → β}

theorem gatherValues_some
    (hnone : ∀ old value, step (some old) value = combine old (step none value))
    (hsome : ∀ old new value, step (some (combine old new)) value =
      combine old (step (some new) value)) (old : β) (values : List α) :
    gatherValues step (some old) values =
      some (((gatherValues step none values).map (combine old)).getD old) := by
  induction values using List.reverseRecOn with
  | nil => rfl
  | append_singleton values value ih =>
    rw [gatherValues_concat, gatherValues_concat, ih]
    cases gatherValues step none values with
    | none => exact congrArg some (hnone old value)
    | some new => exact congrArg some (hsome old new value)

/-- A loop over two lists leaves what the first leaves with what the second leaves
written over it. -/
theorem gather_append
    (hnone : ∀ old value, step (some old) value = combine old (step none value))
    (hsome : ∀ old new value, step (some (combine old new)) value =
      combine old (step (some new) value)) (pairs more : List (Text × α)) :
    gather step (pairs ++ more) =
      merge combine (gather step pairs) (gather step more) := by
  refine ext_of_get? (distinct_gather step _) ?_ fun key => ?_
  · rw [keys_merge, keys_gather, keys_gather, keys_gather, List.map_append,
      List.eraseDups_append, ← eraseDups_filter]
    congr 2
    refine List.filter_congr fun key _ => ?_
    rw [Bool.eq_iff_iff, Bool.not_eq_true', Bool.not_eq_true', ← Bool.not_eq_true,
      ← Bool.not_eq_true, has_eq_true_iff, keys_gather, List.mem_eraseDups,
      List.elem_eq_mem, decide_eq_true_eq]
  · rw [get?_merge, get?_gather, get?_gather, get?_gather]
    rw [valuesFor_append, gatherValues, List.foldl_append, ← gatherValues, ← gatherValues]
    cases gatherValues step none (valuesFor key pairs) with
    | none => rfl
    | some old => exact gatherValues_some hnone hsome old _

end Gather

end Entries

end ExtensionAudit
