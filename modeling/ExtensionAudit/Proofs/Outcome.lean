import Mathlib.Tactic.Common

/-!
# Outcome — steps that may fail

What it takes for a chain of steps to succeed: every one of them does. Where it is known
beforehand what is objected to each step, the first objection decides. Where it is known
of each step when it fails and with what faults, the same is known of the chain
(`FailsJustIf`).
-/

namespace ExtensionAudit

variable {α β ε δ σ : Type}

theorem bind_eq_ok {x : Except ε α} {f : α → Except ε β} {b : β} :
    (x >>= f) = .ok b ↔ ∃ a, x = .ok a ∧ f a = .ok b := by
  cases x with
  | ok a =>
    constructor
    · intro h
      exact ⟨a, rfl, h⟩
    · rintro ⟨found, hf, h⟩
      cases hf
      exact h
  | error e =>
    constructor
    · intro h
      cases h
    · rintro ⟨_, h, -⟩
      cases h

theorem mapError_eq_ok {x : Except ε α} {f : ε → δ}
    {a : α} : x.mapError f = .ok a ↔ x = .ok a := by
  cases x with
  | ok b => simp [Except.mapError]
  | error e => simp [Except.mapError]

theorem mapError_eq_error {x : Except ε α} {f : ε → δ} {fault : δ} :
    x.mapError f = .error fault ↔ ∃ e, x = .error e ∧ f e = fault := by
  cases x with
  | ok a => simp [Except.mapError]
  | error e => simp [Except.mapError]

theorem toOption_eq_some {x : Except ε α} {a : α} : x.toOption = some a ↔ x = .ok a := by
  cases x with
  | ok b => simp [Except.toOption]
  | error e => simp [Except.toOption]

/-- A value that stands unless something is objected to it. -/
def unlessObjected : Option ε → α → Except ε α
  | some fault, _ => .error fault
  | none, a => .ok a

theorem unlessObjected_eq_ok {objection : Option ε} {a b : α} :
    unlessObjected objection a = .ok b ↔ objection = none ∧ a = b := by
  cases objection with
  | none => simp [unlessObjected]
  | some fault => simp [unlessObjected]

theorem unlessObjected_eq_error {objection : Option ε} {a : α} {fault : ε} :
    unlessObjected objection a = .error fault ↔ objection = some fault := by
  cases objection with
  | none => simp [unlessObjected]
  | some found => simp [unlessObjected]

theorem unlessObjected_bind (first second : Option ε) (a : α) (f : α → β) :
    (unlessObjected first a >>= fun a => unlessObjected second (f a)) =
      unlessObjected (first.or second) (f a) := by
  cases first with
  | none => rfl
  | some fault => rfl

/-- Steps of which each stands unless something is objected to it, whatever the state. -/
theorem foldlM_eq_unlessObjected {step : σ → α → Except ε σ} {objection? : α → Option ε}
    {effect : σ → α → σ} {list : List α} (h : ∀ a ∈ list, ∀ state, step state a =
      unlessObjected (objection? a) (effect state a)) (state : σ) :
    list.foldlM step state =
      unlessObjected (list.findSome? objection?) (list.foldl effect state) := by
  induction list generalizing state with
  | nil => rfl
  | cons a rest ih =>
    obtain ⟨ha, hrest⟩ := List.forall_mem_cons.mp h
    rw [List.foldlM_cons, ha, List.findSome?_cons]
    cases objection? a with
    | none => exact ih hrest (effect state a)
    | some fault => rfl

/-- A result that is a failure just if something is the case, and then with such a
fault. -/
inductive FailsJustIf (bad : Prop) (fault : ε → Prop) : Except ε α → Prop
  | ok (a : α) (h : ¬ bad) : FailsJustIf bad fault (.ok a)
  | error (e : ε) (h : bad) (he : fault e) : FailsJustIf bad fault (.error e)

namespace FailsJustIf

variable {bad worse : Prop} {fault : ε → Prop} {x : Except ε α}

theorem congr (h : FailsJustIf bad fault x)
    (hiff : bad ↔ worse) : FailsJustIf worse fault x := by
  cases h with
  | ok a h => exact .ok a fun hworse => h (hiff.mpr hworse)
  | error e h he => exact .error e (hiff.mp h) he

theorem bind {f : α → Except ε β} (h : FailsJustIf bad fault x)
    (hf : ∀ a, x = .ok a → FailsJustIf worse fault (f a)) :
    FailsJustIf (bad ∨ worse) fault (x >>= f) := by
  cases h with
  | ok a h => exact (hf a rfl).congr (by simp [h])
  | error e h he => exact .error e (.inl h) he

theorem foldlM {step : σ → α → Except ε σ} {bad : α → Prop}
    (h : ∀ state a, FailsJustIf (bad a) fault (step state a))
    (list : List α) (state : σ) :
    FailsJustIf (∃ a ∈ list, bad a) fault (list.foldlM step state) := by
  induction list generalizing state with
  | nil => exact .ok state (by simp)
  | cons a rest ih =>
    rw [List.foldlM_cons]
    exact ((h state a).bind fun next _ => ih next).congr (by simp)

end FailsJustIf

/-- Two results that came about in the same way: both are there, and are related, or
both failed, with faults that are. -/
inductive Corresponds (faults : ε → δ → Prop) (values : α → β → Prop) : Except ε α →
    Except δ β → Prop
  | ok {a : α} {b : β} (h : values a b) : Corresponds faults values (.ok a) (.ok b)
  | error {e : ε} {d : δ} (h : faults e d) :
      Corresponds faults values (.error e) (.error d)

namespace Corresponds

variable {γ ζ : Type} {faults : ε → δ → Prop} {values : α → β → Prop} {x : Except ε α}
    {y : Except δ β}

theorem refl {faults : ε → ε → Prop} (h : ∀ e, faults e e)
    (x : Except ε α) : Corresponds faults Eq x x := by
  cases x with
  | ok a => exact .ok rfl
  | error e => exact .error (h e)

theorem eq {faults : ε → ε → Prop} {x y : Except ε α} (h : Corresponds faults Eq x y)
    (hfaults : ∀ e d, faults e d → e = d) : x = y := by
  cases h with
  | ok h => rw [h]
  | error h => rw [hfaults _ _ h]

theorem mono {worse : ε → δ → Prop} {weaker : α → β → Prop}
    (h : Corresponds faults values x y) (hfaults : ∀ e d, faults e d → worse e d)
    (hvalues : ∀ a b, values a b → weaker a b) :
    Corresponds worse weaker x y := by
  cases h with
  | ok h => exact .ok (hvalues _ _ h)
  | error h => exact .error (hfaults _ _ h)

theorem mapError {others : γ → ζ → Prop} {f : ε → γ}
    {g : δ → ζ} (h : Corresponds faults values x y)
    (hfaults : ∀ e d, faults e d → others (f e) (g d)) :
    Corresponds others values (x.mapError f) (y.mapError g) := by
  cases h with
  | ok h => exact .ok h
  | error h => exact .error (hfaults _ _ h)

theorem bind {later : γ → ζ → Prop} {f : α → Except ε γ}
    {g : β → Except δ ζ} (h : Corresponds faults values x y)
    (hlater : ∀ a b, values a b → Corresponds faults later (f a) (g b)) :
    Corresponds faults later (x >>= f) (y >>= g) := by
  cases h with
  | ok h => exact hlater _ _ h
  | error h => exact .error h

end Corresponds

end ExtensionAudit
