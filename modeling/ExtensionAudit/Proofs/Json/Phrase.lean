import ExtensionAudit.Proofs.Json.Grammar
import ExtensionAudit.Proofs.Outcome

/-!
# Json — the machine and the phrases

The machine takes a list of tokens to its end just if they are the phrase of a value,
and then it holds that value (`Json.assemble_eq_ok_iff`). That it takes every phrase is
an induction on the phrase, whatever is open around it. That it takes nothing else is an
invariant: the tokens that have been taken are those of what is open, and of what is at
hand (`Json.Taken`).
-/

namespace ExtensionAudit.Json

/-! ## Runs -/

/-- What the machine waits for, and what is open. -/
abbrev State := Waiting × List Frame

/-- The state after a token. -/
def step? (state : State) (token : Token) : Option State :=
  (take state.1 state.2 0 token).toOption

/-- The state after some tokens. -/
def run? (state : State) (tokens : List Token) : Option State := tokens.foldlM step? state

@[simp] theorem run?_nil (state : State) : run? state [] = some state := rfl

@[simp] theorem run?_cons (state : State) (token : Token) (tokens : List Token) :
    run? state (token :: tokens) = (step? state token).bind fun state =>
      run? state tokens := List.foldlM_cons

theorem run?_append (state : State) (tokens more : List Token) :
    run? state (tokens ++ more) = (run? state tokens).bind fun state =>
      run? state more := List.foldlM_append

theorem toOption_takeValue (stack : List Frame) (offset place : Nat) (token : Token) :
    (takeValue stack offset token).toOption = (takeValue stack place token).toOption := by
  cases token <;> rfl

/-- Where a token stands matters only to what is said of it. -/
theorem toOption_take (waiting : Waiting) (stack : List Frame) (offset : Nat)
    (token : Token) :
    (take waiting stack offset token).toOption = step? (waiting, stack) token := by
  cases waiting with
  | value => exact toOption_takeValue stack offset 0 token
  | firstElement =>
    rcases stack with _ | ⟨_ | _, outer⟩ <;> cases token <;> rfl
  | name done first => cases token <;> first | rfl | (cases first <;> rfl)
  | colon done name => cases token <;> rfl
  | delimiter last => rcases stack with _ | ⟨_ | _, outer⟩ <;> cases token <;> rfl

theorem finish_eq_ok_iff {waiting : Waiting} {stack : List Frame} {document : Json} :
    finish waiting stack = .ok document ↔
    (waiting, stack) = (.delimiter document, []) := by
  cases waiting with
  | delimiter last => cases stack <;> simp [finish]
  | _ => simp [finish]

theorem assemble_eq_ok_iff_run? {size : Nat} {waiting : Waiting} {stack : List Frame}
    {entries : List (Nat × Token)} {document : Json} :
    assemble size waiting stack entries = .ok document ↔
      run? (waiting, stack) (entries.map (·.2)) = some (.delimiter document, []) := by
  induction entries generalizing waiting stack with
  | nil =>
    rw [assemble, mapError_eq_ok, finish_eq_ok_iff]
    simp
  | cons entry rest ih =>
    obtain ⟨offset, token⟩ := entry
    rw [assemble, List.map_cons, run?_cons, ← toOption_take waiting stack offset token]
    cases take waiting stack offset token with
    | error fault => simp [Except.toOption]
    | ok next => simp [Except.toOption, ih]

/-! ## Every phrase is taken -/

theorem run?_firstElement_of_phrase {tokens : List Token} {meaning : Meaning}
    (h : Phrase tokens meaning) {value : Json} (hvalue : meaning = .value value)
    (stack : List Frame) :
    run? (.firstElement, .array [] :: stack) tokens =
      run? (.value, .array [] :: stack) tokens := by
  cases h <;> first | rfl | cases hvalue

theorem ofPairs_concat (pairs : List (Text × Json)) (name : Text) (value : Json) :
    Entries.ofPairs (pairs ++ [(name, value)]) =
      (Entries.ofPairs pairs).put name value := by
  simp [Entries.ofPairs]

/-- How the machine takes what has a meaning: a value wherever it waits for one,
elements and members after the bracket, with the last of them at hand. -/
def IsTaken (tokens : List Token) : Meaning → Prop
  | .value value => ∀ stack, run? (.value, stack) tokens = some (.delimiter value, stack)
  | .elements elements => ∃ front last, elements = front ++ [last] ∧ ∀ stack,
    run? (.firstElement, .array [] :: stack) tokens =
      some (.delimiter last, .array front.reverse :: stack)
  | .members members => ∃ front name last, members = front ++ [(name, last)] ∧ ∀ stack,
    run? (.name [] true, stack) tokens =
      some (.delimiter last, .object (Entries.ofPairs front) name :: stack)

theorem isTaken_of_phrase {tokens : List Token} {meaning : Meaning}
    (h : Phrase tokens meaning) :
    IsTaken tokens meaning := by
  -- The last element or member is still at hand when the bracket closes, so a phrase
  -- of elements is split before its last one.
  induction h with
  | text t => exact fun stack => rfl
  | scalar value => exact fun stack => rfl
  | emptyArray => exact fun stack => rfl
  | array inside ih =>
    obtain ⟨front, last, rfl, hrun⟩ := ih
    intro stack
    have hopen : step? (.value, stack) .openArray =
        some (.firstElement, .array [] :: stack) := rfl
    have hclose : step? (.delimiter last, .array front.reverse :: stack) .closeArray =
        some (.delimiter (.array (last :: front.reverse).reverse), stack) := rfl
    rw [run?_cons, hopen, Option.bind_some, run?_append, hrun, Option.bind_some,
      run?_cons, hclose]
    simp
  | emptyObject => exact fun stack => rfl
  | object inside ih =>
    obtain ⟨front, name, last, rfl, hrun⟩ := ih
    intro stack
    have hopen : step? (.value, stack) .openObject = some (.name [] true, stack) := rfl
    have hclose : step? (.delimiter last, .object (Entries.ofPairs front) name :: stack)
        .closeObject =
        some (.delimiter (.object ((Entries.ofPairs front).put name last)), stack) := rfl
    rw [run?_cons, hopen, Option.bind_some, run?_append, hrun, Option.bind_some,
      run?_cons, hclose, ofPairs_concat]
    rfl
  | @element tokens value h ih =>
    refine ⟨[], value, rfl, fun stack => ?_⟩
    rw [run?_firstElement_of_phrase h rfl, ih]
    rfl
  | @elements tokens more elements value before h ihbefore ih =>
    obtain ⟨front, last, rfl, hrun⟩ := ihbefore
    refine ⟨front ++ [last], value, rfl, fun stack => ?_⟩
    have hcomma : step? (.delimiter last, .array front.reverse :: stack) .comma =
        some (.value, .array (last :: front.reverse) :: stack) := rfl
    rw [run?_append, hrun, Option.bind_some, run?_cons, hcomma, Option.bind_some, ih]
    simp
  | @member tokens name value h ih =>
    refine ⟨[], name, value, rfl, fun stack => ?_⟩
    have hname : step? (.name [] true, stack) (.string name) =
        some (.colon [] name, stack) := rfl
    have hcolon : step? (.colon [] name, stack) .colon =
        some (.value, .object [] name :: stack) := rfl
    rw [run?_cons, hname, Option.bind_some, run?_cons, hcolon, Option.bind_some, ih]
    rfl
  | @members tokens more members name value before h ihbefore ih =>
    obtain ⟨front, first, last, rfl, hrun⟩ := ihbefore
    refine ⟨front ++ [(first, last)], name, value, rfl, fun stack => ?_⟩
    have hcomma :
        step? (.delimiter last, .object (Entries.ofPairs front) first :: stack) .comma =
        some (.name ((Entries.ofPairs front).put first last) false, stack) := rfl
    have hname (done : Entries Json) : step? (.name done false, stack) (.string name) =
        some (.colon done name, stack) := rfl
    have hcolon (done : Entries Json) : step? (.colon done name, stack) .colon =
        some (.value, .object done name :: stack) := rfl
    rw [run?_append, hrun, Option.bind_some, run?_cons, hcomma, Option.bind_some,
      run?_cons, hname, Option.bind_some, run?_cons, hcolon, Option.bind_some, ih,
      ofPairs_concat]

/-! ## Nothing else is taken -/

/-- The elements that have been read of an open array, and their tokens. -/
inductive ElementsBefore : List Json → List Token → Prop
  | none : ElementsBefore [] []
  | some {elements : List Json} {tokens : List Token}
      (h : Phrase tokens (.elements elements)) :
    ElementsBefore elements (tokens ++ [.comma])

/-- The members that have been read of an open object, and their tokens. -/
inductive MembersBefore : Entries Json → List Token → Prop
  | none : MembersBefore [] []
  | some {members : List (Text × Json)} {tokens : List Token}
      (h : Phrase tokens (.members members)) :
    MembersBefore (Entries.ofPairs members) (tokens ++ [.comma])

theorem ElementsBefore.concat {done : List Json} {tokens more : List Token} {value : Json}
    (before : ElementsBefore done tokens) (h : Phrase more (.value value)) :
    Phrase (tokens ++ more) (.elements (done ++ [value])) := by
  cases before with
  | none => exact .element h
  | some before =>
    rw [List.append_assoc]
    exact .elements before h

theorem MembersBefore.concat {done : Entries Json} {tokens more : List Token}
    {value : Json} (before : MembersBefore done tokens) (name : Text)
    (h : Phrase more (.value value)) :
    ∃ members, Phrase (tokens ++ .string name :: .colon :: more) (.members members) ∧
      Entries.ofPairs members = done.put name value := by
  cases before with
  | none => exact ⟨[(name, value)], .member name h, rfl⟩
  | @some members tokens before =>
    refine ⟨members ++ [(name, value)], ?_, ofPairs_concat members name value⟩
    rw [List.append_assoc]
    exact .members name before h

/-- The tokens up to where the next value is to come, with what is open there. -/
inductive Opened : List Frame → List Token → Prop
  | nil : Opened [] []
  | array {stack : List Frame} {outer tokens : List Token} {done : List Json}
      (around : Opened stack outer)
    (before : ElementsBefore done tokens) :
    Opened (.array done.reverse :: stack) (outer ++ .openArray :: tokens)
  | object {stack : List Frame} {outer tokens : List Token}
      {done : Entries Json} (name : Text)
    (around : Opened stack outer) (before : MembersBefore done tokens) :
    Opened (.object done name :: stack)
      (outer ++ .openObject :: (tokens ++ [.string name, .colon]))

/-- The tokens that lead to a state. -/
inductive Taken : State → List Token → Prop
  | value {stack : List Frame} {outer : List Token}
      (around : Opened stack outer) : Taken (.value, stack) outer
  | firstElement {stack : List Frame} {outer : List Token} (around : Opened stack outer) :
    Taken (.firstElement, .array [] :: stack) (outer ++ [.openArray])
  | firstName {stack : List Frame} {outer : List Token} (around : Opened stack outer) :
    Taken (.name [] true, stack) (outer ++ [.openObject])
  | name {stack : List Frame} {outer tokens : List Token} {done : Entries Json}
      (around : Opened stack outer)
    (before : MembersBefore done tokens) :
      Taken (.name done false, stack) (outer ++ .openObject :: tokens)
  | colon {stack : List Frame} {outer tokens : List Token}
      {done : Entries Json} (name : Text)
    (around : Opened stack outer) (before : MembersBefore done tokens) :
    Taken (.colon done name, stack) (outer ++ .openObject :: (tokens ++ [.string name]))
  | delimiter {stack : List Frame} {outer tokens : List Token} {last : Json}
      (around : Opened stack outer)
    (h : Phrase tokens (.value last)) : Taken (.delimiter last, stack) (outer ++ tokens)

theorem taken_takeValue {stack : List Frame} {outer : List Token}
    (offset : Nat) {token : Token} {next : State} (around : Opened stack outer)
    (h : takeValue stack offset token = .ok next) : Taken next (outer ++ [token]) := by
  cases token with
  | openArray =>
    cases h
    exact .firstElement around
  | openObject =>
    cases h
    exact .firstName around
  | string t =>
    cases h
    exact .delimiter around (.text t)
  | scalar value =>
    cases h
    exact .delimiter around (.scalar value)
  | _ => cases h

/-- A token that is taken leads on. -/
theorem Taken.take {waiting : Waiting} {stack : List Frame}
    {tokens : List Token} {offset : Nat} {token : Token}
    {next : State} (htaken : Taken (waiting, stack) tokens)
    (h : Json.take waiting stack offset token = .ok next) :
    Taken next (tokens ++ [token]) := by
  -- One case for each thing that is waited for; the tokens that are refused there are
  -- left to the last alternative.
  cases htaken with
  | value around => exact taken_takeValue offset around h
  | firstElement around =>
    have hopened := Opened.array around .none
    cases token with
    | closeArray =>
      cases h
      rw [List.append_assoc]
      exact .delimiter around .emptyArray
    | _ => exact taken_takeValue offset hopened h
  | firstName around =>
    cases token with
    | string name =>
      cases h
      rw [List.append_assoc]
      exact .colon name around .none
    | closeObject =>
      cases h
      rw [List.append_assoc]
      exact .delimiter around .emptyObject
    | _ => cases h
  | name around before =>
    cases token with
    | string name =>
      cases h
      rw [List.append_assoc]
      exact .colon name around before
    | _ => cases h
  | colon name around before =>
    cases token with
    | colon =>
      cases h
      have hopened := Opened.object name around before
      rw [List.append_assoc, List.cons_append, List.append_assoc]
      exact .value hopened
    | _ => cases h
  | delimiter around hlast =>
    -- With a value at hand the next token goes on with what is open around it, or
    -- closes that, and then the value becomes the last thing inside.
    cases around with
    | nil => cases token <;> cases h
    | array around before =>
      have hinside := before.concat hlast
      cases token with
      | comma =>
        cases h
        have hopened := Opened.array around (.some hinside)
        simp only [List.reverse_append, List.reverse_cons, List.reverse_nil,
          List.nil_append, List.cons_append] at hopened
        simp only [List.append_assoc, List.cons_append] at hopened ⊢
        exact .value hopened
      | closeArray =>
        cases h
        have hvalue := Taken.delimiter around (.array hinside)
        simp only [List.append_assoc, List.cons_append] at hvalue ⊢
        simp only [List.reverse_cons, List.reverse_reverse]
        exact hvalue
      | _ => cases h
    | object name around before =>
      obtain ⟨members, hinside, hmembers⟩ := before.concat name hlast
      cases token with
      | comma =>
        cases h
        have hname := Taken.name around (.some hinside)
        rw [hmembers] at hname
        simp only [List.append_assoc, List.cons_append, List.nil_append] at hname ⊢
        exact hname
      | closeObject =>
        cases h
        have hvalue := Taken.delimiter around (.object hinside)
        rw [hmembers] at hvalue
        simp only [List.append_assoc, List.cons_append, List.nil_append] at hvalue ⊢
        exact hvalue
      | _ => cases h

theorem Taken.run? {state next : State} {tokens more : List Token}
    (htaken : Taken state tokens) (h : Json.run? state more = some next) :
    Taken next (tokens ++ more) := by
  induction more generalizing state tokens with
  | nil =>
    cases h
    rw [List.append_nil]
    exact htaken
  | cons token rest ih =>
    rw [run?_cons, Option.bind_eq_some_iff] at h
    obtain ⟨after, hstep, hrest⟩ := h
    have hafter := ih (htaken.take (toOption_eq_some.mp hstep)) hrest
    rwa [List.append_assoc] at hafter

/-- With a value at hand and nothing open, all tokens are its phrase. -/
theorem Taken.phrase {tokens : List Token} {document : Json}
    (h : Taken (.delimiter document, []) tokens) :
    Phrase tokens (.value document) := by
  cases h with
  | delimiter around hphrase =>
    cases around with
    | nil => exact hphrase

/-- The machine takes the phrases of values, and holds their values in the end. -/
theorem assemble_eq_ok_iff {size : Nat} {entries : List (Nat × Token)} {document : Json} :
    assemble size .value [] entries = .ok document ↔
    Phrase (entries.map (·.2)) (.value document) := by
  rw [assemble_eq_ok_iff_run?]
  constructor
  · intro h
    exact ((Taken.value .nil).run? h).phrase
  · intro h
    exact isTaken_of_phrase h []

end ExtensionAudit.Json
