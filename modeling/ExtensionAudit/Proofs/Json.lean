import ExtensionAudit.Json.Reader
import ExtensionAudit.Proofs.Entries
import ExtensionAudit.Proofs.Outcome

/-!
# Json — what is read from a text

An object that was read has no two members of one name, however often the text gives
them. The reader is a machine that takes one token after another, so this is an
invariant of what it holds between two tokens: one lemma says that a token preserves it,
and an induction on the tokens carries it to the document.
-/

namespace ExtensionAudit

namespace Json

/-- No object in the document has two members of one name. -/
inductive Keyed : Json → Prop
  | leaf {value : Json} (h : value.isContainer = false) : Keyed value
  | array {elements : List Json} (h : ∀ element ∈ elements, Keyed element) :
      Keyed (.array elements)
  | object {members : Entries Json} (hd : members.Distinct)
      (h : ∀ entry ∈ members, Keyed entry.2) :
    Keyed (.object members)

/-- What a part of an object that is being read has to be like. -/
def KeyedMembers (members : Entries Json) : Prop :=
  members.Distinct ∧ ∀ entry ∈ members, Keyed entry.2

theorem KeyedMembers.nil : KeyedMembers [] := ⟨Entries.distinct_nil, by simp⟩

theorem KeyedMembers.put {members : Entries Json}
    {value : Json} (h : KeyedMembers members) (hv : Keyed value)
    (name : Text) : KeyedMembers (members.put name value) := by
  refine ⟨Entries.distinct_put value h.1, fun entry hentry => ?_⟩
  rcases Entries.mem_put hentry with hmem | rfl
  · exact h.2 entry hmem
  · exact hv

theorem KeyedMembers.object {members : Entries Json} (h : KeyedMembers members) :
    Keyed (.object members) :=
  .object h.1 h.2

/-! ### Tokens -/

/-- A value that is a token of its own holds no members. -/
def Token.IsPlain : Token → Prop
  | .scalar value => value.isContainer = false
  | _ => True

theorem isPlain_takeNumber (negative : Bool) (whole : List Nat) (rest : Text) :
    (takeNumber negative whole rest).1.IsPlain := by
  simp only [takeNumber]
  split
  · split
    · trivial
    · rfl
  · rfl

theorem isPlain_takeUnsigned (negative : Bool) (c : CodePoint) (rest : Text) :
    (takeUnsigned negative c rest).1.IsPlain := by
  simp only [takeUnsigned]
  split
  · exact isPlain_takeNumber ..
  · exact isPlain_takeNumber ..

theorem isPlain_literals : ∀ literal ∈ literals, literal.2.isContainer =
    false := by decide

theorem isPlain_next (offset : Nat) (c : CodePoint) (rest : Text) :
    (Token.next offset c rest).1.IsPlain := by
  unfold Token.next
  -- the marks
  iterate 6
    refine iteInduction (motive := fun next : Token × Text => next.1.IsPlain)
      (fun _ => trivial) fun _ => ?_
  split
  · split <;> trivial
  · split
    · exact isPlain_takeUnsigned ..
    · split
      · exact isPlain_literals _ (List.mem_of_find?_eq_some ‹_›)
      · split
        · split
          · exact isPlain_takeUnsigned ..
          · trivial
        · trivial

theorem isPlain_tokens (offset : Nat)
    (t : Text) : ∀ entry ∈ tokens offset t, entry.2.IsPlain := by
  fun_induction tokens offset t with
  | case1 offset => simp
  | case2 offset c rest hspace ih => exact ih
  | case3 offset c rest hspace after ih =>
    intro entry hentry
    rcases List.mem_cons.mp hentry with rfl | hlater
    · exact isPlain_next offset c rest
    · exact ih entry hlater

/-! ### The machine -/

/-- What is open is keyed. -/
def Frame.IsKeyed : Frame → Prop
  | .array done => ∀ element ∈ done, Keyed element
  | .object done _ => KeyedMembers done

theorem Frame.IsKeyed.cons {done : List Json} {last : Json}
    (h : (Frame.array done).IsKeyed) (hlast : Keyed last) :
    (Frame.array (last :: done)).IsKeyed :=
  List.forall_mem_cons.mpr ⟨hlast, h⟩

/-- What is at hand is keyed. -/
def Waiting.IsKeyed : Waiting → Prop
  | .name done _ => KeyedMembers done
  | .colon done _ => KeyedMembers done
  | .delimiter last => Keyed last
  | _ => True

/-- The invariant of the machine: what is at hand and all that is open. -/
def IsKeyed (state : Waiting × List Frame) : Prop :=
  state.1.IsKeyed ∧ ∀ frame ∈ state.2, frame.IsKeyed

theorem isKeyed_takeValue {stack : List Frame} {offset : Nat} {token : Token}
    {next : Waiting × List Frame} (hstack : ∀ frame ∈ stack, frame.IsKeyed)
    (htoken : token.IsPlain) (h : takeValue stack offset token = .ok next) :
    IsKeyed next := by
  cases token with
  | openArray =>
    cases h
    exact ⟨trivial, List.forall_mem_cons.mpr ⟨by simp [Frame.IsKeyed], hstack⟩⟩
  | openObject =>
    cases h
    exact ⟨KeyedMembers.nil, hstack⟩
  | string t =>
    cases h
    exact ⟨.leaf rfl, hstack⟩
  | scalar value =>
    cases h
    exact ⟨.leaf htoken, hstack⟩
  | closeArray => cases h
  | closeObject => cases h
  | colon => cases h
  | comma => cases h
  | longNumber digits => cases h
  | brokenString problem place => cases h
  | junk => cases h

/-- A token keeps the invariant. -/
theorem isKeyed_take {waiting : Waiting} {stack : List Frame} {offset : Nat}
    {token : Token} {next : Waiting × List Frame} (hk : IsKeyed (waiting, stack))
    (htoken : token.IsPlain) (h : take waiting stack offset token = .ok next) :
    IsKeyed next := by
  obtain ⟨hwaiting, hstack⟩ := hk
  simp only [take] at h
  split at h
  · exact isKeyed_takeValue hstack htoken h
  · cases h
    exact ⟨.array (by simp), (List.forall_mem_cons.mp hstack).2⟩
  · exact isKeyed_takeValue hstack htoken h
  · split at h
    · cases h
      exact ⟨hwaiting, hstack⟩
    · cases h
    · split at h
      · cases h
        exact ⟨KeyedMembers.object hwaiting, hstack⟩
      · cases h
    · cases h
  · cases h
    exact ⟨trivial, List.forall_mem_cons.mpr ⟨hwaiting, hstack⟩⟩
  · cases h
  · cases h
  -- a value has ended, inside of an array or of an object
  · cases h
    obtain ⟨hdone, houter⟩ := List.forall_mem_cons.mp hstack
    exact ⟨trivial, List.forall_mem_cons.mpr ⟨hdone.cons hwaiting, houter⟩⟩
  · cases h
    obtain ⟨hdone, houter⟩ := List.forall_mem_cons.mp hstack
    refine ⟨.array fun element helement => ?_, houter⟩
    exact hdone.cons hwaiting element (List.mem_reverse.mp helement)
  · cases h
    obtain ⟨hdone, houter⟩ := List.forall_mem_cons.mp hstack
    exact ⟨hdone.put hwaiting _, houter⟩
  · cases h
    obtain ⟨hdone, houter⟩ := List.forall_mem_cons.mp hstack
    exact ⟨(hdone.put hwaiting _).object, houter⟩
  · cases h

/-- All tokens keep it, so the document that is read has it. -/
theorem keyed_assemble {size : Nat} {entries : List (Nat × Token)} {waiting : Waiting}
    {stack : List Frame} {document : Json} (hk : IsKeyed (waiting, stack))
    (hentries : ∀ entry ∈ entries, entry.2.IsPlain)
    (h : assemble size waiting stack entries = .ok document) : Keyed document := by
  induction entries generalizing waiting stack with
  | nil =>
    rw [assemble, mapError_eq_ok] at h
    cases waiting with
    | delimiter last =>
      cases stack with
      | nil =>
        cases h
        exact hk.1
      | cons frame outer => cases h
    | _ => cases h
  | cons entry rest ih =>
    obtain ⟨offset, token⟩ := entry
    rw [assemble] at h
    split at h
    · cases h
    · rename_i next stack' htake
      exact ih (isKeyed_take hk (hentries _ (.head _)) htake)
        (fun entry hentry => hentries entry (.tail _ hentry)) h

/-- No object of a document that was read has two members of one name. -/
theorem keyed_of_read {t : Text} {document : Json}
    (h : read t = .ok document) : Keyed document := by
  rw [read] at h
  split at h
  · cases h
  · split at h
    · rename_i value hvalue
      cases h
      have hstart : IsKeyed (.value, []) := ⟨trivial, by simp⟩
      exact keyed_assemble hstart (isPlain_tokens 0 t) hvalue
    · cases h
    · cases h

end Json

end ExtensionAudit
