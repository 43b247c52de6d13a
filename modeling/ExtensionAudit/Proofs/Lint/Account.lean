import ExtensionAudit.Proofs.Entries
import ExtensionAudit.Proofs.Lint
import Mathlib

/-!
# Lint — what a summary accounts for

A report that is summed up lists messages that are objects, and nothing is lost of them:
each counts once as an error or as a warning, and once for its rule
(`Summary.Accounts`). So the summary of two reports in one is that of the first with
that of the second added to it (`summarize_append`), and the order of the files and of
the messages in a file makes no difference to what is counted (`summarize_rearranged`).
-/

namespace ExtensionAudit

namespace Lint

/-! ## What is counted -/

/-- Is the message an error? Its severity is the number 2, exact or a double. -/
def isError (message : Entries Json) : Bool :=
  (Json.member "severity" message).equalsInt 2

/-- The rule that a message counts for. -/
def ruleOf (message : Entries Json) : Text := ruleName (Json.member "ruleId" message)

/-- How often a rule was broken. -/
def Summary.count (summary : Summary) (rule : Text) : Nat :=
  (summary.byRule.get? rule).getD 0

/-- A count that has gone up by one. -/
def oneMore (count : Option Nat) (_ : Unit) : Nat := count.getD 0 + 1

/-- The summary of messages, counted from all of them at once. -/
def tally (messages : List (Entries Json)) : Summary where
  total := messages.length
  errors := messages.countP isError
  warnings := messages.countP fun message => !isError message
  byRule := Entries.gather oneMore (messages.map fun message => (ruleOf message, ()))

/-- A summary accounts for messages: it has the number of them, of those that are errors
and of those that are not, and for each rule of one of them, in the order in which the
rules first come, the number of those that count for it. -/
structure Summary.Accounts (summary : Summary)
    (messages : List (Entries Json)) : Prop where
  total : summary.total = messages.length
  errors : summary.errors = messages.countP isError
  warnings : summary.warnings = messages.countP fun message => !isError message
  rules : summary.byRule.keys = (messages.map ruleOf).eraseDups
  count : ∀ rule, summary.count rule = (messages.map ruleOf).count rule

variable {summary other : Summary} {messages others : List (Entries Json)} {rule : Text}

/-! ## The account -/

theorem addMessageOf_tally (messages : List (Entries Json)) (message : Entries Json) :
    addMessageOf (tally messages) message = tally (messages ++ [message]) := by
  have hbyRule := Entries.gather_concat oneMore
    (messages.map fun message => (ruleOf message, ())) (ruleOf message) ()
  have hconcat : tally (messages ++ [message]) =
      { total := messages.length + 1
        errors := messages.countP isError + if isError message then 1 else 0
        warnings := (messages.countP fun message => !isError message) +
          if isError message then 0 else 1
        byRule := (tally messages).byRule.bump (ruleOf message) } := by
    rw [tally, List.map_append, List.map_singleton, hbyRule, List.length_append,
      List.countP_append, List.countP_append, List.countP_singleton,
      List.countP_singleton]
    cases isError message <;> rfl
  rw [hconcat]
  rfl

/-- Adding one message after another comes to the summary of all of them. -/
theorem foldl_addMessageOf (messages : List (Entries Json)) :
    messages.foldl addMessageOf .empty = tally messages := by
  induction messages using List.reverseRecOn with
  | nil => rfl
  | append_singleton messages message ih =>
    rw [List.foldl_append, ih]
    exact addMessageOf_tally messages message

/-- What counting makes of so many messages for one rule. -/
theorem gatherValues_count (values : List Unit) :
    (Entries.gatherValues oneMore none values).getD 0 = values.length := by
  induction values using List.reverseRecOn with
  | nil => rfl
  | append_singleton values value ih =>
    rw [Entries.gatherValues_concat, Option.getD_some, oneMore, ih, List.length_append]
    rfl

theorem length_valuesFor (messages : List (Entries Json)) (rule : Text) :
    (Entries.valuesFor rule (messages.map fun message => (ruleOf message, ()))).length =
      (messages.map ruleOf).count rule := by
  rw [Entries.valuesFor, List.length_map, ← List.countP_eq_length_filter,
    List.countP_map, List.count, List.countP_map]
  rfl

theorem accounts_tally (messages : List (Entries Json)) :
    (tally messages).Accounts messages where
  total := rfl
  errors := rfl
  warnings := rfl
  rules := by
    rw [tally, Entries.keys_gather, List.map_map]
    rfl
  count rule := by
    rw [Summary.count, tally, Entries.get?_gather, gatherValues_count, length_valuesFor]

/-- Every message is an error or a warning. -/
theorem Summary.Accounts.split (h : summary.Accounts messages) :
    summary.total = summary.errors + summary.warnings := by
  rw [h.total, h.errors, h.warnings, List.length_eq_countP_add_countP isError]
  simp only [Bool.decide_eq_false, Bool.not_eq_true]

theorem Summary.Accounts.distinct (h : summary.Accounts messages) :
    summary.byRule.Distinct := by
  rw [Entries.Distinct, h.rules]
  exact nodup_eraseDups _

theorem Summary.Accounts.count_of_mem (h : summary.Accounts messages)
    {entry : Text × Nat} (hentry : entry ∈ summary.byRule) :
    entry.2 = (messages.map ruleOf).count entry.1 := by
  rw [← h.count, Summary.count, (Entries.get?_eq_some_iff h.distinct).mpr hentry,
    Option.getD_some]

/-- No rule is listed that was not broken. -/
theorem Summary.Accounts.pos_of_mem (h : summary.Accounts messages) {entry : Text × Nat}
    (hentry : entry ∈ summary.byRule) : 1 ≤ entry.2 := by
  have hkey : entry.1 ∈ summary.byRule.keys := List.mem_map_of_mem hentry
  rw [h.rules, List.mem_eraseDups] at hkey
  rw [h.count_of_mem hentry]
  exact List.count_pos_iff.mpr hkey

/-- A rule is listed with the number of its messages if there are any. -/
theorem Summary.Accounts.get? (h : summary.Accounts messages) (rule : Text) :
    summary.byRule.get? rule =
      if (messages.map ruleOf).count rule = 0 then none
        else some ((messages.map ruleOf).count rule) := by
  cases hget : summary.byRule.get? rule with
  | none =>
    have hcount := h.count rule
    rw [Summary.count, hget, Option.getD_none] at hcount
    rw [if_pos hcount.symm]
  | some found =>
    have hmem : (rule, found) ∈ summary.byRule :=
      (Entries.get?_eq_some_iff h.distinct).mp hget
    have hfound : found = (messages.map ruleOf).count rule := h.count_of_mem hmem
    have hpos : 1 ≤ found := h.pos_of_mem hmem
    rw [← hfound, if_neg (by omega)]

/-- The counts of the rules come to the number of messages. -/
theorem Summary.Accounts.sum (h : summary.Accounts messages) :
    (summary.byRule.map (·.2)).sum = summary.total := by
  have hcounts : summary.byRule.map (·.2) = summary.byRule.keys.map fun rule =>
      (messages.map ruleOf).count rule := by
    rw [Entries.keys, List.map_map]
    exact List.map_congr_left fun entry hentry => h.count_of_mem hentry
  have hrules : ((messages.map ruleOf).eraseDups).Perm (messages.map ruleOf).dedup := by
    refine (List.perm_ext_iff_of_nodup (nodup_eraseDups _) (List.nodup_dedup _)).mpr
      fun rule => ?_
    rw [List.mem_eraseDups, List.mem_dedup]
  rw [hcounts, h.rules, (hrules.map _).sum_eq, h.total, ← List.length_map ruleOf,
    ← List.sum_map_count_dedup_eq_length (messages.map ruleOf)]
  congr!

/-! ## Reports -/

/-- The members of a message. -/
def members? : Json → Option (Entries Json)
  | .object message => some message
  | _ => none

/-- The messages of the files of a report. -/
def messagesIn (files : List Json) : List (Entries Json) :=
  (files.flatMap messagesOf).filterMap members?

variable {files : List Json} {file : Json}

theorem messagesIn_append (files more : List Json) :
    messagesIn (files ++ more) = messagesIn files ++ messagesIn more := by
  rw [messagesIn, List.flatMap_append, List.filterMap_append]
  rfl

/-- The summary of files counts their messages. -/
theorem summaryOf_eq (files : List Json) :
    summaryOf files = tally (messagesIn files) := by
  rw [← foldl_addMessageOf, summaryOf, messagesIn, List.foldl_filterMap]
  congr 1
  funext summary message
  cases message <;> rfl

/-- A report is summed up just if the messages of every file can be counted. -/
theorem summarize_eq_ok_iff :
    summarize (.array files) = .ok summary ↔
      (∀ file ∈ files, fileFault? file = none) ∧ tally (messagesIn files) = summary := by
  rw [summarize_eq, unlessObjected_eq_ok, List.findSome?_eq_none_iff, summaryOf_eq]

/-- What is counted of an array is objects. -/
theorem messagesFault?_array {elements : List Json} :
    messagesFault? (.array elements) = none ↔
    ∀ element ∈ elements, element.kind = .object := by
  cases elements with
  | nil => exact ⟨nofun, fun _ => rfl⟩
  | cons element rest =>
    change (element :: rest).findSome? messageFault? = none ↔ _
    simp only [List.findSome?_eq_none_iff, messageFault?_eq_none_iff]

/-- Where nothing is objected to a file, all that is counted of it is objects. -/
theorem kind_of_mem_messagesOf (h : fileFault? file = none) {message : Json}
    (hmem : message ∈ messagesOf file) :
    message.kind = .object := by
  cases file with
  | object file =>
    rw [fileFault?] at h
    rw [messagesOf] at hmem
    generalize Json.member "messages" file = messages at h hmem
    cases htruthy : messages.isTruthy with
    | false => cases messages <;> simp_all [Json.items, Json.isTruthy, Except.toOption]
    | true =>
      rw [messagesFault?, if_pos htruthy] at h
      cases hitems : messages.items with
      | error problem => simp [hitems, Except.toOption] at hmem
      | ok items =>
        rw [hitems] at h hmem
        exact messageFault?_eq_none_iff.mp (List.findSome?_eq_none_iff.mp h message hmem)
  | _ => cases hmem

/-- All messages of a report that is summed up are objects. -/
theorem flatMap_messagesOf (h : ∀ file ∈ files, fileFault? file = none) :
    files.flatMap messagesOf = (messagesIn files).map .object := by
  have hobjects (message : Json) (hmem : message ∈ files.flatMap messagesOf) :
      (members? message).map .object = some message := by
    obtain ⟨file, hfile, hmessage⟩ := List.mem_flatMap.mp hmem
    have hkind := kind_of_mem_messagesOf (h file hfile) hmessage
    cases message with
    | object message => rfl
    | _ => cases hkind
  rw [messagesIn, List.map_filterMap, List.filterMap_congr hobjects, List.filterMap_some]

/-! ## Two reports in one -/

/-- The first summary with the second added to it. -/
def Summary.merge (first second : Summary) : Summary where
  total := first.total + second.total
  errors := first.errors + second.errors
  warnings := first.warnings + second.warnings
  byRule := Entries.merge (· + ·) first.byRule second.byRule

theorem Summary.count_merge (first second : Summary) (rule : Text) :
    (first.merge second).count rule = first.count rule + second.count rule := by
  rw [count, merge, Entries.get?_merge, count, count]
  cases first.byRule.get? rule with
  | none => exact (Nat.zero_add _).symm
  | some value => cases second.byRule.get? rule <;> rfl

theorem tally_append (messages more : List (Entries Json)) :
    tally (messages ++ more) = (tally messages).merge (tally more) := by
  have hnone (old : Nat) (value : Unit) : oneMore (some old) value =
      old + oneMore none value := rfl
  have hassoc (old new : Nat) (value : Unit) : oneMore (some (old + new)) value =
      old + oneMore (some new) value :=
    Nat.add_assoc old new 1
  have hbyRule := Entries.gather_append hnone hassoc (messages.map fun message =>
      (ruleOf message, ()))
    (more.map fun message => (ruleOf message, ()))
  rw [tally, List.map_append, hbyRule, List.length_append, List.countP_append,
    List.countP_append]
  rfl

/-- Summing up two reports in one is summing up the one and the other. -/
theorem summarize_append (files more : List Json) :
    summarize (.array (files ++ more)) = (do
      let first ← summarize (.array files)
      let second ← summarize (.array more)
      .ok (first.merge second)) := by
  rw [summarize_eq, summarize_eq, summarize_eq, List.findSome?_append, summaryOf_eq,
    summaryOf_eq, summaryOf_eq, messagesIn_append, tally_append]
  cases files.findSome? fileFault? with
  | some problem => rfl
  | none => cases more.findSome? fileFault? <;> rfl

/-! ## Orders -/

/-- The same file, or one that lists the same messages in another order. -/
inductive SameMessages : Json → Json → Prop
  | refl (file : Json) : SameMessages file file
  | shuffled {file other : Entries Json} {messages others : List Json}
    (hfile : Json.member "messages" file = .array messages)
    (hother : Json.member "messages" other = .array others)
    (hperm : messages.Perm others) : SameMessages (.object file) (.object other)

/-- A report in which the files stand in another order, and in each file the messages. -/
def Rearranged (files others : List Json) : Prop :=
  ∃ between, files.Perm between ∧ List.Forall₂ SameMessages between others

variable {between : List Json} {otherFile : Json}

theorem SameMessages.fileFault? (h : SameMessages file otherFile)
    (hgood : Lint.fileFault? file = none) :
    Lint.fileFault? otherFile = none := by
  cases h with
  | refl => exact hgood
  | shuffled hfile hother hperm =>
    rw [Lint.fileFault?, hfile, messagesFault?_array] at hgood
    rw [Lint.fileFault?, hother, messagesFault?_array]
    exact fun message hmem => hgood message (hperm.mem_iff.mpr hmem)

theorem SameMessages.perm (h : SameMessages file otherFile) :
    (messagesOf file).Perm (messagesOf otherFile) := by
  cases h with
  | refl => exact .refl _
  | shuffled hfile hother hperm =>
    rw [messagesOf, messagesOf, hfile, hother]
    exact hperm

theorem flatMap_perm_of_sameMessages {others : List Json}
    (h : List.Forall₂ SameMessages files others) :
    (files.flatMap messagesOf).Perm (others.flatMap messagesOf) := by
  induction h with
  | nil => exact .refl _
  | cons hfile hrest ih =>
    rw [List.flatMap_cons, List.flatMap_cons]
    exact hfile.perm.append ih

theorem fileFault?_of_sameMessages {others : List Json}
    (h : List.Forall₂ SameMessages files others)
    (hgood : ∀ file ∈ files, Lint.fileFault? file = none) :
    ∀ file ∈ others, Lint.fileFault? file = none := by
  induction h with
  | nil => exact hgood
  | cons hfile hrest ih =>
    obtain ⟨hfirst, hgood⟩ := List.forall_mem_cons.mp hgood
    exact List.forall_mem_cons.mpr ⟨hfile.fileFault? hfirst, ih hgood⟩

theorem Rearranged.fileFault? {others : List Json} (h : Rearranged files others)
    (hgood : ∀ file ∈ files, Lint.fileFault? file = none) :
    ∀ file ∈ others, Lint.fileFault? file = none := by
  obtain ⟨between, hperm, hsame⟩ := h
  exact fileFault?_of_sameMessages hsame fun file hfile =>
    hgood file (hperm.mem_iff.mpr hfile)

theorem Rearranged.perm {others : List Json} (h : Rearranged files others) :
    (messagesIn files).Perm (messagesIn others) := by
  obtain ⟨between, hperm, hsame⟩ := h
  exact ((hperm.flatMap_right messagesOf).trans
    (flatMap_perm_of_sameMessages hsame)).filterMap members?

/-- Two summaries that count the same, though the rules may stand in another order. -/
structure Summary.Agrees (first second : Summary) : Prop where
  total : first.total = second.total
  errors : first.errors = second.errors
  warnings : first.warnings = second.warnings
  byRule : ∀ rule, first.byRule.get? rule = second.byRule.get? rule

theorem agrees_tally (h : messages.Perm others) :
    (tally messages).Agrees (tally others) where
  total := h.length_eq
  errors := h.countP_eq isError
  warnings := h.countP_eq _
  byRule rule := by
    rw [(accounts_tally messages).get?, (accounts_tally others).get?,
      (h.map ruleOf).count_eq rule]

/-- A report is summed up to the same counts in whatever order its files and their
messages stand. -/
theorem summarize_rearranged {others : List Json} (h : Rearranged files others)
    (hsummary : summarize (.array files) = .ok summary) :
    ∃ other, summarize (.array others) = .ok other ∧ summary.Agrees other := by
  obtain ⟨hgood, rfl⟩ := summarize_eq_ok_iff.mp hsummary
  exact ⟨_, summarize_eq_ok_iff.mpr ⟨h.fileFault? hgood, rfl⟩, agrees_tally h.perm⟩

end Lint

end ExtensionAudit
