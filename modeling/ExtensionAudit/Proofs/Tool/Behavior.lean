import ExtensionAudit.Proofs.Tool.Run
import ExtensionAudit.Request.Fault
import ExtensionAudit.Tool.Behavior

/-!
# Tool — a process that is left to itself

The run of a process that nothing cancels always ends (`Behavior.outcome?_run`). The
process has written an output just if it was started, ended in time with an accepted
exit code, and has not complained (`Behavior.Writes`); otherwise there was no program to
start, or its command could not be spelt, or the fault is one of an external tool
(`Behavior.writes_cases`).
-/

namespace ExtensionAudit.Tool

/-! ## How a run ends -/

/-- How the run of a process ends that nothing cancels. -/
def Behavior.outcome (p : Behavior) (terms : Terms) : Outcome :=
  match terms.command, terms.misspelling?, p.refusal with
  | [], _, _ => .fault .noProgram
  | _ :: _, some misspelling, _ => .fault (.misspelt misspelling)
  | program :: _, none, some refusal => .fault (.notStarted terms.name ⟨refusal, program⟩)
  | _ :: _, none, none =>
    if !hasNoTime terms.limit && p.pace == .prompt then terms.verdict p.exit
    else .fault (.overdue terms.name terms.limit)

/-- There is a word in a command that cannot be spelt. -/
theorem Terms.command_ne_nil {terms : Terms} {misspelling : Path.Misspelling}
    (h : terms.misspelling? = some misspelling) : terms.command ≠ [] := by
  intro hnil
  rw [misspelling?, hnil] at h
  cases h

theorem Run.steps_of_outcome {run : Run} {terms : Terms}
    {outcome : Outcome} (h : run.outcome? = some outcome)
    (events : List Event) : run.steps terms events = run := by
  induction events with
  | nil => rfl
  | cons event rest ih =>
    rw [Run.steps, List.foldl_cons, Run.step_of_outcome h]
    exact ih

theorem Run.steps_append (run : Run) (terms : Terms) (first second : List Event) :
    run.steps terms (first ++ second) = (run.steps terms first).steps terms second :=
  List.foldl_append

/-- A run that waits is over when its time is. -/
theorem Run.outcome?_expiry (p : Behavior) (terms : Terms) :
    (Run.steps terms ⟨.waiting, .running, [.start]⟩ p.expiry).outcome? =
      some (.fault (.overdue terms.name terms.limit)) := by
  rw [Behavior.expiry]
  change (((giveUp terms _ .expiry p.remains).step terms .reaped).outcome?) = _
  cases h : p.remains.isCodeKnown with
  | true =>
    rw [giveUp_of_known h]
    rfl
  | false =>
    rw [giveUp_of_unknown h]
    rfl

/-- A run that waits ends by itself, in time, or because its time is up. -/
theorem Run.outcome?_course (p : Behavior) (terms : Terms) :
    (Run.steps terms ⟨.waiting, .running,
      [.start]⟩ (p.course terms.limit ++ p.expiry)).outcome? =
      some (if !hasNoTime terms.limit && p.pace == .prompt then terms.verdict p.exit
        else .fault (.overdue terms.name terms.limit)) := by
  have hexpiry := Run.outcome?_expiry p terms
  rw [Run.steps_append, Behavior.course]
  cases htime : hasNoTime terms.limit with
  | true =>
    rw [if_pos rfl, Run.steps_of_outcome hexpiry, hexpiry]
    rfl
  | false =>
    rw [if_neg Bool.false_ne_true]
    cases p.pace with
    | prompt =>
      have hexit :
          (Run.steps terms ⟨.waiting, .running, [.start]⟩ [.exited p.exit]).outcome? =
          some (terms.verdict p.exit) := rfl
      dsimp only
      rw [Run.steps_of_outcome hexit, hexit]
      rfl
    | overdue =>
      dsimp only
      rw [Run.steps_of_outcome hexpiry, hexpiry]
      rfl
    | endless => exact hexpiry

theorem Behavior.outcome?_run (p : Behavior) (terms : Terms) :
    (p.run terms).outcome? = some (p.outcome terms) := by
  have hcourse := Run.outcome?_course p terms
  have hlaunch : Run.ready.steps terms [p.launch] = Run.ready.start terms p.refusal := by
    rw [launch]
    cases p.refusal <;> rfl
  rw [run, List.append_assoc, Run.steps_append, hlaunch, Run.start.eq_def, outcome.eq_def]
  cases terms.command with
  | nil =>
    dsimp only
    rw [Run.steps_of_outcome rfl]
    rfl
  | cons program rest =>
    cases terms.misspelling? with
    | some misspelling =>
      dsimp only
      rw [Run.steps_of_outcome rfl]
      rfl
    | none =>
      cases p.refusal with
      | some refusal =>
        dsimp only
        rw [Run.steps_of_outcome rfl]
        rfl
      | none => exact hcourse

/-- No process is started by a command that cannot be spelt. -/
theorem Behavior.outcome_of_misspelt {terms : Terms} {misspelling : Path.Misspelling}
    (h : terms.misspelling? = some misspelling) (p : Behavior) :
    p.outcome terms = .fault (.misspelt misspelling) := by
  obtain ⟨program, rest, hcommand⟩ := List.exists_cons_of_ne_nil (Terms.command_ne_nil h)
  rw [outcome.eq_def, hcommand, h]

/-! ## What a process writes -/

/-- The process is started, ends in time with an exit code that is accepted and nothing
to complain of, and writes this. -/
structure Behavior.Writes (p : Behavior) (terms : Terms) (output : Text) : Prop where
  program : terms.command ≠ []
  spelt : terms.misspelling? = none
  started : p.refusal = none
  inTime : hasNoTime terms.limit = false
  prompt : p.pace = .prompt
  accepted : p.exit.code ∈ terms.accepted
  silent : Text.trim (Utf8.decodeLossy p.exit.diagnostics) = [] ∨
    terms.allowsDiagnostics = true
  output : Utf8.decodeLossy p.exit.output = output

theorem Terms.verdict_eq_output_iff {terms : Terms} {exit : Exit} {output : Text} :
    terms.verdict exit = .output output ↔
      exit.code ∈ terms.accepted ∧
        (Text.trim (Utf8.decodeLossy exit.diagnostics) = [] ∨
          terms.allowsDiagnostics = true) ∧
        Utf8.decodeLossy exit.output = output := by
  rw [verdict]
  generalize Text.trim (Utf8.decodeLossy exit.diagnostics) = diagnostics
  by_cases hcode : exit.code ∈ terms.accepted
  · cases diagnostics with
    | nil => simp [hcode]
    | cons c rest => cases hallows : terms.allowsDiagnostics <;> simp [hcode]
  · simp [hcode]

theorem Behavior.outcome_eq_output_iff {p : Behavior} {terms : Terms} {output : Text} :
    p.outcome terms = .output output ↔ p.Writes terms output := by
  constructor
  · intro h
    rw [outcome] at h
    split at h
    · cases h
    · cases h
    · cases h
    · next program rest hcommand hspelt hstarted =>
      split at h
      · next htime =>
        simp only [Bool.and_eq_true, Bool.not_eq_true', beq_iff_eq] at htime
        obtain ⟨haccepted, hsilent, houtput⟩ := Terms.verdict_eq_output_iff.mp h
        exact ⟨hcommand ▸ List.cons_ne_nil program rest, hspelt, hstarted, htime.1,
          htime.2, haccepted, hsilent,
          houtput⟩
      · cases h
  · intro h
    obtain ⟨program, rest, hcommand⟩ := List.exists_cons_of_ne_nil h.program
    simp only [outcome, hcommand, h.spelt, h.started, h.inTime, h.prompt]
    exact Terms.verdict_eq_output_iff.mpr ⟨h.accepted, h.silent, h.output⟩

/-- A run that nothing cancels has an output, or it fails for want of a program, or
because of a word of the command, or for a reason that is one of an external tool. -/
theorem Behavior.outcome_cases (p : Behavior) (terms : Terms) :
    (∃ output, p.outcome terms = .output output) ∨
    (terms.command = [] ∧ p.outcome terms = .fault .noProgram) ∨
    (∃ misspelling, terms.misspelling? = some misspelling ∧
      p.outcome terms = .fault (.misspelt misspelling)) ∨
    (terms.command ≠ [] ∧ terms.misspelling? = none ∧
      ∃ fault, p.outcome terms = .fault fault ∧
      (ExtensionAudit.Fault.tool fault).kind = .externalTool) := by
  rw [outcome.eq_def]
  cases terms.command with
  | nil => exact .inr (.inl ⟨rfl, rfl⟩)
  | cons program rest =>
    have hprogram : program :: rest ≠ [] := List.cons_ne_nil program rest
    cases terms.misspelling? with
    | some misspelling => exact .inr (.inr (.inl ⟨misspelling, rfl, rfl⟩))
    | none =>
      cases p.refusal with
      | some refusal => exact .inr (.inr (.inr ⟨hprogram, rfl, _, rfl, rfl⟩))
      | none =>
        dsimp only
        split
        · rw [Terms.verdict]
          split
          · exact .inr (.inr (.inr ⟨hprogram, rfl, _, rfl, rfl⟩))
          · split
            · exact .inr (.inr (.inr ⟨hprogram, rfl, _, rfl, rfl⟩))
            · exact .inl ⟨_, rfl⟩
        · exact .inr (.inr (.inr ⟨hprogram, rfl, _, rfl, rfl⟩))

/-- What a run comes to, by whether its process writes an output. -/
theorem Behavior.writes_cases (p : Behavior) (terms : Terms) :
    (∃ output, p.Writes terms output ∧ p.outcome terms = .output output) ∨
    ((∀ output, ¬ p.Writes terms output) ∧ terms.command = [] ∧
      p.outcome terms = .fault .noProgram) ∨
    ((∀ output, ¬ p.Writes terms output) ∧ ∃ misspelling, terms.misspelling? =
      some misspelling ∧
      p.outcome terms = .fault (.misspelt misspelling)) ∨
    ((∀ output, ¬ p.Writes terms output) ∧ terms.command ≠ [] ∧
      terms.misspelling? = none ∧
      ∃ fault, p.outcome terms = .fault fault ∧ (ExtensionAudit.Fault.tool fault).kind =
        .externalTool) := by
  have hsilent {fault : Fault} (h : p.outcome terms = .fault fault)
      (output : Text) : ¬ p.Writes terms output := by
    intro hwrites
    cases (Behavior.outcome_eq_output_iff.mpr hwrites).symm.trans h
  rcases p.outcome_cases terms with ⟨output, h⟩ | ⟨hcommand, h⟩ |
    ⟨misspelling, hmisspelt, h⟩ |
    ⟨hcommand, hspelt, fault, h, hkind⟩
  · exact .inl ⟨output, Behavior.outcome_eq_output_iff.mp h, h⟩
  · exact .inr (.inl ⟨hsilent h, hcommand, h⟩)
  · exact .inr (.inr (.inl ⟨hsilent h, misspelling, hmisspelt, h⟩))
  · exact .inr (.inr (.inr ⟨hsilent h, hcommand, hspelt, fault, h, hkind⟩))

/-- A process writes one output. -/
theorem Behavior.Writes.eq {p : Behavior} {terms : Terms} {output other : Text}
    (h : p.Writes terms output) (hother : p.Writes terms other) : output = other :=
  h.output.symm.trans hother.output

/-! ## What comes of a run -/

section Told

variable {α ι : Type} {comes : Outcome → Except ExtensionAudit.Fault α}
  {IsTold : Except ExtensionAudit.Fault α → Prop} {IsMisshapen : Text → Prop}
  {misuse : ι → ExtensionAudit.Fault}

/-- Where an output has a result that callers are told about, or is misshapen and has a
misuse for a fault, a run has a result that they are told about, unless there is no
program, or its command cannot be spelt, or the process writes what is misshapen. -/
theorem Behavior.told_cases
    (hfault : ∀ fault, comes (.fault fault) = .error (.tool fault))
    (htold : ∀ fault : ExtensionAudit.Fault, fault.kind = .externalTool →
      IsTold (.error fault))
    (houtput : ∀ output, (IsTold (comes (.output output)) ∧ ¬ IsMisshapen output) ∨
      (IsMisshapen output ∧ ∃ i, comes (.output output) = .error (misuse i)))
    (p : Behavior) (terms : Terms) :
    (IsTold (comes (p.outcome terms)) ∧ terms.command ≠ [] ∧ terms.misspelling? = none ∧
      ¬ ∃ output, p.Writes terms output ∧ IsMisshapen output) ∨
    (terms.command = [] ∧ terms.misspelling? = none ∧
      (¬ ∃ output, p.Writes terms output ∧ IsMisshapen output) ∧
      comes (p.outcome terms) = .error (.tool .noProgram)) ∨
    (terms.command ≠ [] ∧ (¬ ∃ output, p.Writes terms output ∧ IsMisshapen output) ∧
      ∃ misspelling, terms.misspelling? = some misspelling ∧
        comes (p.outcome terms) = .error (.tool (.misspelt misspelling))) ∨
    ((∃ output, p.Writes terms output ∧ IsMisshapen output) ∧ terms.command ≠ [] ∧
      terms.misspelling? = none ∧
      ∃ i, comes (p.outcome terms) = .error (misuse i)) := by
  rcases p.writes_cases terms with ⟨output, hwrites, h⟩ | ⟨hsilent, hcommand, h⟩ |
    ⟨hsilent, misspelling, hmisspelt, h⟩ |
    ⟨hsilent, hcommand, hspelt, fault, h, hkind⟩
  · rw [h]
    rcases houtput output with ⟨hresult, hgood⟩ | ⟨hbad, hresult⟩
    · exact .inl ⟨hresult, hwrites.program, hwrites.spelt,
        fun ⟨found, hfound, hbad⟩ => hgood (hwrites.eq hfound ▸ hbad)⟩
    · exact .inr (.inr (.inr ⟨⟨output, hwrites, hbad⟩, hwrites.program,
        hwrites.spelt, hresult⟩))
  · refine .inr (.inl ⟨hcommand, ?_,
      fun ⟨output, hwrites, _⟩ => hsilent output hwrites, ?_⟩)
    · rw [Terms.misspelling?, hcommand]
      rfl
    · rw [h, hfault]
  · refine .inr (.inr (.inl ⟨Terms.command_ne_nil hmisspelt,
      fun ⟨output, hwrites, _⟩ => hsilent output hwrites,
      misspelling, hmisspelt, ?_⟩))
    rw [h, hfault]
  · refine .inl ⟨?_, hcommand, hspelt, fun ⟨output, hwrites, _⟩ => hsilent output hwrites⟩
    rw [h, hfault]
    exact htold _ hkind

end Told

end ExtensionAudit.Tool
