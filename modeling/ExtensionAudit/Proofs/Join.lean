import ExtensionAudit.Join
import Mathlib.Tactic.Common

/-!
# Join — what settling does

One lemma says what a settlement can do to a join (`settles`). From it comes the
invariant that carries whatever holds of the values of the tasks on to the outcome
(`Sound`).
-/

namespace ExtensionAudit.Join

variable {α ε : Type} {P Q : Nat → α → Prop} {count : Nat} {join : Join α ε}

/-! ## One settlement -/

/-- What a settlement of a task makes of a join. It is ignored, or the task was still
going on; then a failure is noted unless there was one before, and there was one if the
task is cancelled. -/
inductive Settles (join : Join α ε) (index : Nat) : Settlement α ε → Join α ε → Prop
  | ignored (settlement : Settlement α ε) : Settles join index settlement join
  | finished (value : α) (unsettled : join.tasks[index]? = some none) :
      Settles join index (.finished value)
        ⟨join.tasks.set index (some (.finished value)), join.failure⟩
  | failed (error : ε) (unsettled : join.tasks[index]? = some none) :
      Settles join index (.failed error)
        ⟨join.tasks.set index (some (.failed error)), some (join.failure.getD error)⟩
  | cancelled (complaint : Option ε) (unsettled : join.tasks[index]? = some none)
      (broken : join.failure.isSome = true) :
      Settles join index (.cancelled complaint)
        ⟨join.tasks.set index (some (.cancelled complaint)), join.failure⟩

theorem settles (join : Join α ε) (index : Nat) (settlement : Settlement α ε) :
    Settles join index settlement (join.settle index settlement) := by
  unfold settle
  split
  · rename_i hi
    cases settlement with
    | finished value => exact .finished value hi
    | failed error => exact .failed error hi
    | cancelled complaint =>
      by_cases hf : join.failure.isSome = true
      · simpa only [if_pos hf] using .cancelled complaint hi hf
      · simpa only [if_neg hf] using .ignored _
  · exact .ignored settlement

/-- A task that is settled stays as it is. -/
theorem settled_settle {other : Nat} {found : Settlement α ε}
    (h : join.tasks[other]? = some (some found)) (index : Nat)
    (settlement : Settlement α ε) :
    (join.settle index settlement).tasks[other]? = some (some found) := by
  have hne (unsettled : join.tasks[index]? = some none) : index ≠ other := by
    rintro rfl
    cases h.symm.trans unsettled
  have hsettles := settles join index settlement
  generalize join.settle index settlement = later at hsettles ⊢
  cases hsettles with
  | ignored => exact h
  | finished value unsettled => exact (List.getElem?_set_ne (hne unsettled)).trans h
  | failed error unsettled => exact (List.getElem?_set_ne (hne unsettled)).trans h
  | cancelled complaint unsettled broken =>
    exact (List.getElem?_set_ne (hne unsettled)).trans h

theorem failure_settle_of_some {reason : ε} (h : join.failure = some reason)
    (index : Nat) (settlement : Settlement α ε) :
    (join.settle index settlement).failure = some reason := by
  have hsettles := settles join index settlement
  generalize join.settle index settlement = later at hsettles ⊢
  cases hsettles with
  | failed error unsettled => simp [h]
  | ignored => exact h
  | finished value unsettled => exact h
  | cancelled complaint unsettled broken => exact h

theorem settled_settleAll {other : Nat} {found : Settlement α ε}
    (h : join.tasks[other]? = some (some found))
    (settlements : List (Nat × Settlement α ε)) :
    (join.settleAll settlements).tasks[other]? = some (some found) := by
  induction settlements generalizing join with
  | nil => exact h
  | cons entry rest ih => exact ih (settled_settle h entry.1 entry.2)

theorem failure_settleAll_of_some {reason : ε} (h : join.failure = some reason)
    (settlements : List (Nat × Settlement α ε)) :
    (join.settleAll settlements).failure = some reason := by
  induction settlements generalizing join with
  | nil => exact h
  | cons entry rest ih => exact ih (failure_settle_of_some h entry.1 entry.2)

/-- The first failure is that of a task that fails. -/
theorem failed_of_failure_settle {index : Nat} {settlement : Settlement α ε}
    {reason : ε} (hnone : join.failure = none)
    (h : (join.settle index settlement).failure = some reason) :
    (join.settle index settlement).tasks[index]? = some (some (.failed reason)) := by
  have hsettles := settles join index settlement
  generalize join.settle index settlement = later at hsettles h ⊢
  cases hsettles with
  | failed error unsettled =>
    simp only [hnone, Option.getD_none, Option.some.injEq] at h
    rw [← h]
    exact List.getElem?_set_self (List.getElem?_eq_some_iff.mp unsettled).1
  | ignored => cases hnone.symm.trans h
  | finished value unsettled => cases hnone.symm.trans h
  | cancelled complaint unsettled broken => cases hnone.symm.trans h

theorem settle_of_ne_none {index : Nat} (h : join.tasks[index]? ≠ some none)
    (settlement : Settlement α ε) : join.settle index settlement = join := by
  rw [settle.eq_def]
  split
  · rename_i unsettled
    exact absurd unsettled h
  · rfl

/-- Nothing is cancelled before a failure. -/
theorem settle_cancelled_of_unfailed (h : join.failure = none) (index : Nat)
    (complaint : Option ε) : join.settle index (.cancelled complaint) = join := by
  rw [settle.eq_def]
  split
  · simp [h]
  · rfl

/-! ## The values of the tasks -/

/-- The values of a join's tasks are as they should be, and without a failure every task
that is settled has one. -/
structure Sound (P : Nat → α → Prop) (count : Nat) (join : Join α ε) : Prop where
  length : join.tasks.length = count
  values : ∀ index value, join.tasks[index]? =
    some (some (.finished value)) → P index value
  unfailed : join.failure = none → ∀ (index : Nat) (settlement : Settlement α ε),
    join.tasks[index]? = some (some settlement) → ∃ value, settlement = .finished value

theorem sound_start (P : Nat → α → Prop)
    (count : Nat) : Sound P count (start count : Join α ε) := by
  have hnone : ∀ (index : Nat) (settlement : Settlement α ε),
      (start count : Join α ε).tasks[index]? ≠ some (some settlement) := by
    intro index settlement h
    rw [start, List.getElem?_replicate] at h
    split at h <;> cases h
  exact ⟨List.length_replicate, fun index value h => absurd h (hnone index _),
    fun _ index settlement h => absurd h (hnone index settlement)⟩

theorem Sound.mono (h : Sound P count join)
    (hpq : ∀ index value, P index value → Q index value) :
    Sound Q count join :=
  ⟨h.length, fun index value hv => hpq index value (h.values index value hv), h.unfailed⟩

/-- The settlement of a task after one of them was settled: the new one, or one that was
there. -/
theorem getElem?_set_settled {tasks : List (Option (Settlement α ε))} {index other : Nat}
    {settlement found : Settlement α ε}
    (h : (tasks.set index (some settlement))[other]? = some (some found)) :
    (other = index ∧ found = settlement) ∨ tasks[other]? = some (some found) := by
  rw [List.getElem?_set] at h
  split at h
  · rename_i hi
    split at h
    · cases h
      exact .inl ⟨hi.symm, rfl⟩
    · cases h
  · exact .inr h

theorem settled_of_settle {index other : Nat} {settlement found : Settlement α ε}
    (h : (join.settle index settlement).tasks[other]? = some (some found)) :
    (other = index ∧ found = settlement) ∨ join.tasks[other]? = some (some found) := by
  have hsettles := settles join index settlement
  generalize join.settle index settlement = later at hsettles h
  cases hsettles with
  | ignored => exact .inr h
  | finished value unsettled => exact getElem?_set_settled h
  | failed error unsettled => exact getElem?_set_settled h
  | cancelled complaint unsettled broken => exact getElem?_set_settled h

theorem Sound.settle (h : Sound P count join) {index : Nat} {settlement : Settlement α ε}
    (hs : ∀ value, settlement = .finished value → P index value) :
    Sound P count (join.settle index settlement) := by
  have hsettles := settles join index settlement
  generalize join.settle index settlement = later at hsettles ⊢
  cases hsettles with
  | ignored => exact h
  | finished value unsettled =>
    refine ⟨by rw [List.length_set, h.length], fun other found hf => ?_,
      fun hn other found hf => ?_⟩
    · rcases getElem?_set_settled hf with ⟨rfl, hv⟩ | hf
      · cases hv
        exact hs value rfl
      · exact h.values other found hf
    · rcases getElem?_set_settled hf with ⟨-, rfl⟩ | hf
      · exact ⟨value, rfl⟩
      · exact h.unfailed hn other found hf
  | failed error unsettled =>
    refine ⟨by rw [List.length_set, h.length], fun other found hf => ?_,
      fun hn => by cases hn⟩
    rcases getElem?_set_settled hf with ⟨-, hv⟩ | hf
    · cases hv
    · exact h.values other found hf
  | cancelled complaint unsettled broken =>
    refine ⟨by rw [List.length_set, h.length], fun other found hf => ?_, fun hn => ?_⟩
    · rcases getElem?_set_settled hf with ⟨-, hv⟩ | hf
      · cases hv
      · exact h.values other found hf
    · rw [show join.failure = none from hn] at broken
      cases broken

/-- When a join succeeds, its tasks have come to just these values. -/
theorem tasks_of_outcome (h : Sound P count join) {values : List α}
    (ho : join.outcome? = some (.ok values)) :
    join.tasks = values.map fun value => some (.finished value) := by
  rw [outcome?] at ho
  split at ho
  · rename_i hsettled
    cases hf : join.failure with
    | some error =>
      rw [hf] at ho
      cases ho
    | none =>
      rw [hf] at ho
      cases ho
      have hall : ∀ task ∈ join.tasks, ∃ value, task = some (.finished value) := by
        intro task ht
        obtain ⟨index, hi⟩ := List.getElem?_of_mem ht
        have hs : task.isSome = true := List.all_eq_true.mp hsettled task ht
        obtain ⟨settlement, rfl⟩ := Option.isSome_iff_exists.mp hs
        obtain ⟨value, rfl⟩ := h.unfailed hf index settlement hi
        exact ⟨value, rfl⟩
      -- Nothing but the list of the tasks matters from here on.
      generalize join.tasks = tasks at hall
      induction tasks with
      | nil => rfl
      | cons task rest ih =>
        rw [List.forall_mem_cons] at hall
        obtain ⟨value, rfl⟩ := hall.1
        rw [List.filterMap_cons_some (by rfl), List.map_cons, ← ih hall.2]
  · cases ho

/-- The values of a join that succeeds are as they should be, in the order of the
tasks. -/
theorem Sound.outcome (h : Sound P count join) {values : List α}
    (ho : join.outcome? = some (.ok values)) :
    values.length = count ∧ ∀ index value, values[index]? = some value →
      P index value := by
  have ht := tasks_of_outcome h ho
  refine ⟨?_, fun index value hv => h.values index value ?_⟩
  · rw [← h.length, ht, List.length_map]
  · rw [ht, List.getElem?_map, hv, Option.map_some]

end ExtensionAudit.Join
