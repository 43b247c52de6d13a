import ExtensionAudit.Lint
import ExtensionAudit.Proofs.Json.Parts
import ExtensionAudit.Proofs.Outcome

/-!
# Lint — reports that cannot be summed up

A report lists files, and a file lists its messages. What is no object among the files
is passed over, but not what is no object among the messages, and neither what cannot be
listed in their place. The first such file decides with which fault there is no summary;
where there is none, the summary is that of all messages (`summarize_eq`).
-/

namespace ExtensionAudit.Lint

/-! ## What stands in the wrong place -/

/-- What an iteration over the messages of a file comes to that cannot be counted: a
number cannot be listed, a text lists characters, an object names, and of an array the
first element decides that is no object. -/
inductive MessagesFault : Json → Json.Misuse → Prop
  | number {value : Json} (h : Json.IsTruthyNumber value) :
      MessagesFault value (.notIterable value.kind)
  | text {t : Text} (h : t ≠ []) : MessagesFault (.text t) (.noAttribute .text "get")
  | names {members : Entries Json} (h : members ≠ []) :
      MessagesFault (.object members) (.noAttribute .text "get")
  | message {before after : List Json} {message : Json}
      (hbefore : ∀ other ∈ before, other.kind = .object)
    (h : message.kind ≠ .object) :
    MessagesFault (.array (before ++ message :: after)) (.noAttribute message.kind "get")

/-- A file whose messages cannot be counted. -/
inductive FileFault : Json → Json.Misuse → Prop
  | intro {file : Entries Json} {problem : Json.Misuse}
      (h : MessagesFault (Json.member "messages" file) problem) :
    FileFault (.object file) problem

/-- What is objected to a message. -/
def messageFault? (message : Json) : Option Json.Misuse :=
  if message.kind = .object then none else some (.noAttribute message.kind "get")

/-- What is objected to the messages of a file. -/
def messagesFault? (messages : Json) : Option Json.Misuse :=
  if messages.isTruthy then
    match messages.items with
    | .ok items => items.findSome? messageFault?
    | .error problem => some problem
  else none

/-- What is objected to a file. -/
def fileFault? : Json → Option Json.Misuse
  | .object file => messagesFault? (Json.member "messages" file)
  | _ => none

variable {value file : Json} {problem : Json.Misuse}

theorem messageFault?_eq_some_iff :
    messageFault? value = some problem ↔ value.kind ≠ .object ∧
    problem = .noAttribute value.kind "get" := by
  rw [messageFault?]
  by_cases h : value.kind = .object
  · simp [h]
  · simp [h, eq_comm]

theorem messageFault?_eq_none_iff : messageFault? value = none ↔
    value.kind = .object := by
  simp [messageFault?]

/-- The first text in a list of texts is objected to. -/
theorem findSome?_messageFault?_texts {items : List Json}
    (h : ∀ item ∈ items, item.kind = .text) (hne : items ≠ []) :
    items.findSome? messageFault? = some (.noAttribute .text "get") := by
  cases items with
  | nil => exact absurd rfl hne
  | cons item rest =>
    have hitem : item.kind = .text := h item (.head _)
    have hfault : messageFault? item = some (.noAttribute .text "get") :=
      messageFault?_eq_some_iff.mpr (by simp [hitem])
    rw [List.findSome?_cons, hfault]

theorem MessagesFault.isTruthy (h : MessagesFault value problem) :
    value.isTruthy = true := by
  cases h with
  | number h => exact h.isTruthy
  | text h => simpa [Json.isTruthy] using h
  | names h => simpa [Json.isTruthy] using h
  | message hbefore h => simp [Json.isTruthy]

theorem MessagesFault.eq_some (h : MessagesFault value problem) :
    messagesFault? value = some problem := by
  rw [messagesFault?, if_pos h.isTruthy]
  cases h with
  | number h => cases h <;> rfl
  | text h => exact findSome?_messageFault?_texts (by simp [Json.kind]) (by simpa using h)
  | names h =>
    refine findSome?_messageFault?_texts (List.forall_mem_map.mpr fun _ _ => rfl)
      (by simpa using h)
  | @message before after message hbefore h =>
    refine List.findSome?_eq_some_iff.mpr ⟨before, message, after, rfl,
      messageFault?_eq_some_iff.mpr ⟨h, rfl⟩, ?_⟩
    exact fun other hother => messageFault?_eq_none_iff.mpr (hbefore other hother)

/-- Whatever is objected to has a fault. -/
theorem exists_messagesFault (h : messagesFault? value = some problem) :
    ∃ fault, MessagesFault value fault := by
  rw [messagesFault?] at h
  split at h
  · next htruthy =>
    rcases value.falsy_or_number_or_items with hfalsy | hnumber | ⟨t, rfl⟩ |
      ⟨elements, rfl⟩ | ⟨members, rfl⟩
    · rw [hfalsy] at htruthy
      cases htruthy
    · exact ⟨_, .number hnumber⟩
    · exact ⟨_, .text (by simpa [Json.isTruthy] using htruthy)⟩
    · obtain ⟨before, message, after, rfl, hmessage, hbefore⟩ :=
        List.findSome?_eq_some_iff.mp h
      exact ⟨_, .message (fun other hother =>
        messageFault?_eq_none_iff.mp (hbefore other hother))
        (messageFault?_eq_some_iff.mp hmessage).1⟩
    · exact ⟨_, .names (by simpa [Json.isTruthy] using htruthy)⟩
  · cases h

theorem messagesFault?_eq_some_iff : messagesFault? value = some problem ↔
    MessagesFault value problem := by
  constructor
  · intro h
    obtain ⟨fault, hfault⟩ := exists_messagesFault h
    obtain rfl := Option.some.inj (hfault.eq_some.symm.trans h)
    exact hfault
  · exact MessagesFault.eq_some

theorem fileFault?_eq_some_iff : fileFault? file = some problem ↔
    FileFault file problem := by
  constructor
  · intro h
    cases file with
    | object file => exact .intro (messagesFault?_eq_some_iff.mp h)
    | _ => cases h
  · rintro ⟨h⟩
    exact messagesFault?_eq_some_iff.mpr h

theorem fileFault?_eq_none_iff : fileFault? file = none ↔
    ∀ problem, ¬ FileFault file problem := by
  simp only [← fileFault?_eq_some_iff, Option.eq_none_iff_forall_ne_some, Ne]

/-! ## The summary -/

/-- What an iteration over the messages of a file passes, if they can be listed. -/
def messagesOf : Json → List Json
  | .object file => (Json.member "messages" file).items.toOption.getD []
  | _ => []

/-- The summary with a message. What is no object does not count. -/
def withMessage (summary : Summary) : Json → Summary
  | .object message => addMessageOf summary message
  | _ => summary

/-- The summary of all messages of the files. -/
def summaryOf (files : List Json) : Summary :=
  (files.flatMap messagesOf).foldl withMessage .empty

theorem addMessage_eq (summary : Summary) (message : Json) :
    addMessage summary message =
      unlessObjected (messageFault? message) (withMessage summary message) := by
  cases message <;> rfl

theorem addFile_eq (summary : Summary) (file : Json) :
    addFile summary file = unlessObjected (fileFault? file)
      ((messagesOf file).foldl withMessage summary) := by
  cases file with
  | object file =>
    rw [addFile, fileFault?, messagesOf, messagesFault?]
    generalize Json.member "messages" file = messages
    cases htruthy : messages.isTruthy with
    | false =>
      -- Nothing falsy lists anything.
      have hnone : messages.items.toOption.getD [] = [] := by
        cases messages <;> simp_all [Json.items, Json.isTruthy, Except.toOption]
      rw [hnone]
      rfl
    | true =>
      rw [if_pos rfl, if_pos rfl]
      cases hitems : messages.items with
      | error problem => rfl
      | ok items =>
        exact foldlM_eq_unlessObjected (fun message _ summary =>
          addMessage_eq summary message) summary
  | _ => rfl

/-- A report is summed up unless something is objected to one of its files. -/
theorem summarize_eq (files : List Json) :
    summarize (.array files) =
      unlessObjected (files.findSome? fileFault?) (summaryOf files) := by
  rw [summaryOf, List.foldl_flatMap]
  exact foldlM_eq_unlessObjected (fun file _ summary => addFile_eq summary file) .empty

end ExtensionAudit.Lint
