import ExtensionAudit.Proofs.Letter
import ExtensionAudit.Proofs.Spelling
import ExtensionAudit.Proofs.Tool.Behavior
import Mathlib

/-!
# Tool — how a run is decided

A process that is started by a run is refused, ends in time, or is interrupted: its time
is up, or the run is cancelled. What there is to object to it is ordered, and the run
ends with the first objection, with the output if there is none, or as cancelled
(`Terms.Decides`). It kills its process just if the exit code is not known when it is
interrupted, and then it waits for it, even if there was none left to kill
(`Conduct.acts`). These are all the ways in which a run ends that is interrupted at most
once after its start (`Run.exists_conduct`).

No process is started by a command with a word that cannot be spelt for the system, and
then the run ends with a fault that is not one of an external tool
(`Conduct.run_of_misspelt`).
-/

namespace ExtensionAudit

theorem Text.trim_eq_nil_iff {t : Text} : trim t = [] ↔ ∀ c ∈ t, c.isBlank = true := by
  rw [trim, trimEnd, List.reverse_eq_nil_iff, List.dropWhile_eq_nil_iff]
  simp only [List.mem_reverse]
  rw [← List.dropWhile_eq_nil_iff, List.dropWhile_idempotent, List.dropWhile_eq_nil_iff]

namespace Tool

/-! ## What a process does -/

/-- What a process does that is started, unless it is interrupted. -/
inductive Conduct
  | refused (refusal : Refusal)
  | ended (exit : Exit)
  | interrupted (cause : Interruption) (remains : Remains)
deriving DecidableEq

/-- What happens to the run of a process. -/
def Conduct.events : Conduct → List Event
  | .refused refusal => [.refused refusal]
  | .ended exit => [.started, .exited exit]
  | .interrupted cause remains => [.started, .interrupted cause remains, .reaped]

/-- The run of a process. -/
def Conduct.run (conduct : Conduct) (terms : Terms) : Run :=
  Run.ready.steps terms conduct.events

/-- What is done to a process that is no longer waited for. -/
def Remains.acts (remains : Remains) : List Act :=
  if remains.isCodeKnown then [] else [.kill, .wait]

/-- What is done to a process. -/
def Conduct.acts : Conduct → List Act
  | .refused _ => []
  | .ended _ => [.start]
  | .interrupted _ remains => .start :: remains.acts

/-- What is known of a process in the end. -/
def Conduct.standing : Conduct → Standing
  | .refused _ => .absent
  | .ended _ => .exited
  | .interrupted _ remains => if remains.isCodeKnown then .exited else .waitedFor

/-- A process that is left to itself is refused, ends in time, or is interrupted when
its time is up. -/
def Behavior.conduct (p : Behavior) (limit : Binary64) : Conduct :=
  match p.refusal with
  | some refusal => .refused refusal
  | none =>
    if !hasNoTime limit && p.pace == .prompt then .ended p.exit
    else .interrupted .expiry p.remains

/-! ## What there is to object -/

/-- What there is to object to a process: that it cannot be started, that its time was
up, that its exit code is not accepted, and that it says more than blanks where that is
not allowed. -/
inductive Terms.Objects (terms : Terms) : Conduct → Fault → Prop
  | start {refusal : Refusal} {program : Text} {rest : List Text}
      (hcommand : terms.command = program :: rest) :
    Objects terms (.refused refusal) (.notStarted terms.name ⟨refusal, program⟩)
  | time (remains : Remains) :
      Objects terms (.interrupted .expiry remains) (.overdue terms.name terms.limit)
  | code {exit : Exit} (hcode : exit.code ∉ terms.accepted) :
    Objects terms (.ended exit)
      (.badExit terms.name exit.code (Text.trim (Utf8.decodeLossy exit.diagnostics)))
  | diagnostics {exit : Exit} (hallows : terms.allowsDiagnostics = false)
    (hspoken : ∃ c ∈ Utf8.decodeLossy exit.diagnostics, c.isBlank = false) :
    Objects terms (.ended exit)
      (.complaint terms.name (Text.trim (Utf8.decodeLossy exit.diagnostics)))

/-- Which objection comes first. -/
def Fault.rank : Fault → Nat
  | .notStarted .. => 0
  | .overdue .. => 1
  | .badExit .. => 2
  | .complaint .. => 3
  | _ => 4

/-- How a run ends: with what the process writes if there is nothing to object, with the
first objection if there is one, and as cancelled if it is. -/
inductive Terms.Decides (terms : Terms) (conduct : Conduct) : Outcome → Prop
  | output {exit : Exit} (ended : conduct = .ended exit)
      (sound : ∀ fault, ¬ terms.Objects conduct fault) :
    Decides terms conduct (.output (Utf8.decodeLossy exit.output))
  | fault {fault : Fault} (objection : terms.Objects conduct fault)
    (first : ∀ other, terms.Objects conduct other → fault.rank ≤ other.rank) :
      Decides terms conduct (.fault fault)
  | cancelled {remains : Remains}
      (interrupted : conduct = .interrupted .cancellation remains) :
    Decides terms conduct .cancelled

variable {terms : Terms} {conduct : Conduct} {fault other : Fault} {exit : Exit}

theorem Terms.Objects.kind (h : terms.Objects conduct fault) :
    (ExtensionAudit.Fault.tool fault).kind = .externalTool := by
  cases h <;> rfl

/-- There are no two objections of one rank. -/
theorem Terms.Objects.eq_of_rank (h : terms.Objects conduct fault)
    (hother : terms.Objects conduct other) (hrank : fault.rank = other.rank) :
    fault = other := by
  cases h with
  | start hcommand =>
    cases hother with
    | start hsame =>
      cases hcommand.symm.trans hsame
      rfl
  | time remains =>
    cases hother
    rfl
  | code hcode =>
    cases hother with
    | code => rfl
    | diagnostics => cases hrank
  | diagnostics hallows hspoken =>
    cases hother with
    | code => cases hrank
    | diagnostics => rfl

/-- There is one decision. -/
theorem Terms.Decides.unique {outcome found : Outcome} (h : terms.Decides conduct outcome)
    (hfound : terms.Decides conduct found) : outcome = found := by
  cases h with
  | output ended sound =>
    cases hfound with
    | output also =>
      cases ended.symm.trans also
      rfl
    | fault objection => exact absurd objection (sound _)
    | cancelled interrupted => cases ended.symm.trans interrupted
  | fault objection first =>
    cases hfound with
    | output ended sound => exact absurd objection (sound _)
    | fault also alsoFirst =>
      rw [objection.eq_of_rank also
        (Nat.le_antisymm (first _ also) (alsoFirst _ objection))]
    | cancelled interrupted =>
      subst interrupted
      cases objection
  | cancelled interrupted =>
    cases hfound with
    | output ended => cases interrupted.symm.trans ended
    | fault objection =>
      subst interrupted
      cases objection
    | cancelled => rfl

/-- Nothing is objected to a process that ends with an accepted code and says nothing,
or may say what it does. -/
theorem Terms.sound_ended_iff : (∀ fault, ¬ terms.Objects (.ended exit) fault) ↔
    exit.code ∈ terms.accepted ∧
      (terms.allowsDiagnostics = true ∨
        ∀ c ∈ Utf8.decodeLossy exit.diagnostics, c.isBlank = true) := by
  constructor
  · intro h
    refine ⟨by_contra fun hcode => h _ (.code hcode), ?_⟩
    cases hallows : terms.allowsDiagnostics with
    | true => exact .inl rfl
    | false =>
      exact .inr fun c hc => eq_true_of_ne_false fun hblank =>
        h _ (.diagnostics hallows ⟨c, hc, hblank⟩)
  · rintro ⟨hcode, hsilent⟩ fault hobjects
    cases hobjects with
    | code hbad => exact hbad hcode
    | diagnostics hallows hspoken =>
      obtain ⟨c, hc, hblank⟩ := hspoken
      rcases hsilent with hallowed | hsilent
      · cases hallows.symm.trans hallowed
      · cases hblank.symm.trans (hsilent c hc)

/-! ## How a process is judged -/

/-- A process that has ended is judged by the first objection. -/
theorem Terms.decides_verdict (terms : Terms)
    (exit : Exit) : terms.Decides (.ended exit) (terms.verdict exit) := by
  rw [verdict]
  by_cases hcode : exit.code ∈ terms.accepted
  · rw [if_neg (by simpa using hcode)]
    split
    · next h =>
      simp only [Bool.and_eq_true, bne_iff_ne, Bool.not_eq_true', ne_eq,
        Text.trim_eq_nil_iff, not_forall, Bool.not_eq_true, exists_prop] at h
      refine .fault (.diagnostics h.2 h.1) fun other hother => ?_
      cases hother with
      | code hbad => exact absurd hcode hbad
      | diagnostics => exact Nat.le_refl _
    · next h =>
      simp only [Bool.and_eq_true, bne_iff_ne, Bool.not_eq_true', ne_eq,
        Text.trim_eq_nil_iff, not_and_or, not_not, Bool.not_eq_false] at h
      exact .output rfl (sound_ended_iff.mpr ⟨hcode, h.symm⟩)
  · rw [if_pos (by simpa using hcode)]
    refine .fault (.code hcode) fun other hother => ?_
    cases hother with
    | code => exact Nat.le_refl _
    | diagnostics => exact Nat.le_succ _

/-- A run with a command that can be spelt waits for its process once that is started. -/
theorem Run.step_started (hcommand : terms.command ≠ [])
    (hspelt : terms.misspelling? = none) :
    ready.step terms .started = ⟨.waiting, .running, [.start]⟩ := by
  obtain ⟨program, rest, hcommand⟩ := List.exists_cons_of_ne_nil hcommand
  change ready.start terms none = _
  rw [start.eq_def, hcommand, hspelt]
  rfl

/-- The run of a process that is interrupted has not ended before the process was waited
for, unless its exit code is known. It was killed if it was there, and is lost if it was
not. -/
theorem Conduct.steps_interrupted (hcommand : terms.command ≠ [])
    (hspelt : terms.misspelling? = none) (cause : Interruption) {remains : Remains}
    (hunknown : remains.isCodeKnown = false) :
    Run.ready.steps terms [.started, .interrupted cause remains] =
      ⟨.reaping cause, remains.standing, [.start, .kill, .wait]⟩ := by
  rw [Run.steps, List.foldl_cons, Run.step_started hcommand hspelt]
  exact Run.giveUp_of_unknown hunknown _ terms cause

/-- The run of a process has ended with what is decided, and has done to the process
what there was to do. -/
theorem Conduct.run_eq (hcommand : terms.command ≠ [])
    (hspelt : terms.misspelling? = none) (conduct : Conduct) :
    ∃ outcome, conduct.run terms = ⟨.ended outcome, conduct.standing, conduct.acts⟩ ∧
      terms.Decides conduct outcome := by
  have hstarted := Run.step_started hcommand hspelt
  cases conduct with
  | refused refusal =>
    obtain ⟨program, rest, hcommand⟩ := List.exists_cons_of_ne_nil hcommand
    refine ⟨.fault (.notStarted terms.name ⟨refusal, program⟩), ?_,
      .fault (.start hcommand) fun other hother => ?_⟩
    · change Run.ready.start terms (some refusal) = _
      rw [Run.start.eq_def, hcommand, hspelt]
      rfl
    · exact Nat.zero_le _
  | ended exit =>
    refine ⟨terms.verdict exit, ?_, terms.decides_verdict exit⟩
    rw [run, events, Run.steps, List.foldl_cons, hstarted]
    rfl
  | interrupted cause remains =>
    refine ⟨terms.interruptedOutcome cause, ?_, ?_⟩
    · rw [standing, acts, Remains.acts]
      cases hknown : remains.isCodeKnown with
      | true =>
        rw [run, events, Run.steps, List.foldl_cons, hstarted, List.foldl_cons]
        change Run.step terms (Run.giveUp terms _ cause remains) .reaped = _
        rw [Run.giveUp_of_known hknown]
        rfl
      | false =>
        change Run.step terms (Run.ready.steps terms [.started,
          .interrupted cause remains]) .reaped = _
        rw [steps_interrupted hcommand hspelt cause hknown]
        rfl
    · cases cause with
      | expiry =>
        refine .fault (.time remains) fun other hother => ?_
        cases hother
        exact Nat.le_refl _
      | cancellation => exact .cancelled rfl

/-- A command with a word that cannot be spelt starts no process. -/
theorem Run.start_of_misspelt {misspelling : Path.Misspelling}
    (h : terms.misspelling? = some misspelling) (refusal : Option Refusal) :
    ready.start terms refusal = ⟨.ended (.fault (.misspelt misspelling)),
      .absent, []⟩ := by
  obtain ⟨program, rest, hcommand⟩ := List.exists_cons_of_ne_nil (Terms.command_ne_nil h)
  rw [start.eq_def, hcommand, h]
  rfl

/-- So its run has ended, whatever the process would do. -/
theorem Conduct.run_of_misspelt {misspelling : Path.Misspelling}
    (h : terms.misspelling? = some misspelling) (conduct : Conduct) :
    conduct.run terms = ⟨.ended (.fault (.misspelt misspelling)), .absent, []⟩ := by
  cases conduct with
  | refused refusal => exact Run.start_of_misspelt h (some refusal)
  | ended exit =>
    change Run.steps terms (Run.ready.start terms none) [.exited exit] = _
    rw [Run.start_of_misspelt h]
    rfl
  | interrupted cause remains =>
    change Run.steps terms (Run.ready.start terms none) [.interrupted cause remains,
      .reaped] = _
    rw [Run.start_of_misspelt h]
    rfl

/-- Whatever the process does, its run has ended. -/
theorem Conduct.exists_run_eq (hcommand : terms.command ≠ []) (conduct : Conduct) :
    ∃ outcome standing acts, conduct.run terms = ⟨.ended outcome, standing, acts⟩ := by
  cases hspelt : terms.misspelling? with
  | some misspelling => exact ⟨_, _, _, conduct.run_of_misspelt hspelt⟩
  | none =>
    obtain ⟨outcome, hrun, -⟩ := conduct.run_eq hcommand hspelt
    exact ⟨outcome, _, _, hrun⟩

/-- The run of a process that is left to itself is that of what it does. -/
theorem Behavior.run_eq_conduct (hcommand : terms.command ≠ []) (p : Behavior) :
    p.run terms = (p.conduct terms.limit).run terms := by
  obtain ⟨outcome, standing, acts, hrun⟩ := (p.conduct terms.limit).exists_run_eq hcommand
  -- What happens in all is what happens until the run is over, and then some.
  have hprefix : ∃ rest, [p.launch] ++ p.course terms.limit ++ p.expiry =
      (p.conduct terms.limit).events ++ rest := by
    rw [Behavior.launch, Behavior.course, Behavior.conduct]
    cases p.refusal with
    | some refusal => exact ⟨_, rfl⟩
    | none =>
      cases hasNoTime terms.limit with
      | true => exact ⟨p.expiry, rfl⟩
      | false =>
        cases p.pace with
        | prompt => exact ⟨p.expiry, rfl⟩
        | overdue => exact ⟨p.expiry, rfl⟩
        | endless => exact ⟨[], rfl⟩
  obtain ⟨rest, hprefix⟩ := hprefix
  rw [run, hprefix, Run.steps_append]
  change ((p.conduct terms.limit).run terms).steps terms rest = _
  rw [hrun]
  exact Run.steps_of_outcome rfl rest

/-! ## All runs -/

/-- Does the event interrupt a run? -/
def Event.isInterruption : Event → Bool
  | .interrupted .. => true
  | _ => false

theorem Run.steps_cons (run : Run) (terms : Terms) (event : Event) (rest : List Event) :
    run.steps terms (event :: rest) = (run.step terms event).steps terms rest := rfl

/-- A run that waits for what is left of its process goes on waiting until that is
over. -/
theorem Run.steps_reaping (terms : Terms) (cause : Interruption) (remains : Remains)
    {events : List Event} (hnone : events.countP Event.isInterruption = 0) :
    (steps terms ⟨.reaping cause, remains.standing,
      [.start, .kill, .wait]⟩ events).outcome? = none ∨
      steps terms ⟨.reaping cause, remains.standing, [.start, .kill, .wait]⟩ events =
        ⟨.ended (terms.interruptedOutcome cause), .waitedFor,
          [.start, .kill, .wait]⟩ := by
  induction events with
  | nil => exact .inl rfl
  | cons event rest ih =>
    rw [List.countP_eq_zero, List.forall_mem_cons, ← List.countP_eq_zero] at hnone
    rw [steps_cons]
    cases event with
    | interrupted found remains => exact absurd rfl hnone.1
    | reaped => exact .inr (steps_of_outcome rfl rest)
    | _ => exact ih hnone.2

/-- A run whose process is started goes on waiting until the process ends or it is
interrupted. -/
theorem Run.steps_waiting (hcommand : terms.command ≠ [])
    (hspelt : terms.misspelling? = none) {events : List Event}
    (hone : events.countP Event.isInterruption ≤ 1) :
    (steps terms ⟨.waiting, .running, [.start]⟩ events).outcome? = none ∨
      ∃ conduct : Conduct, steps terms ⟨.waiting, .running, [.start]⟩ events =
        conduct.run terms := by
  have hstarted := step_started hcommand hspelt
  -- The first event that the run does not wait through is its exit or the interruption,
  -- and of that there is only one.
  induction events with
  | nil => exact .inl rfl
  | cons event rest ih =>
    rw [List.countP_cons] at hone
    rw [steps_cons]
    cases event with
    | exited exit =>
      refine .inr ⟨.ended exit, ?_⟩
      rw [Conduct.run, Conduct.events, steps_cons, hstarted]
      exact steps_of_outcome rfl rest
    | interrupted cause remains =>
      have hnone : rest.countP Event.isInterruption = 0 :=
        Nat.eq_zero_of_le_zero (Nat.le_of_succ_le_succ hone)
      obtain ⟨outcome, hrun, -⟩ :=
        (Conduct.interrupted cause remains).run_eq hcommand hspelt
      have hsteps : (Conduct.interrupted cause remains).run terms =
          (step terms ⟨.waiting, .running,
            [.start]⟩ (.interrupted cause remains)).step terms .reaped := by
        rw [Conduct.run, Conduct.events, steps_cons, hstarted]
        rfl
      rcases interrupted_waiting terms cause remains with ⟨-, hstep⟩ | ⟨-, hstep⟩
      · refine .inr ⟨.interrupted cause remains, ?_⟩
        change steps terms (step terms ⟨.waiting, .running,
          Standing.acts .running⟩ _) rest = _
        rw [hsteps, steps_of_outcome (congrArg outcome? hstep) rest]
        exact (step_of_outcome (congrArg outcome? hstep) .reaped).symm
      · -- The exit code is not known, so the run waits until the process is reaped.
        change (steps terms (step terms ⟨.waiting, .running,
          Standing.acts .running⟩ _) rest).outcome? = none ∨
          ∃ conduct : Conduct, steps terms (step terms ⟨.waiting, .running,
            Standing.acts .running⟩ _) rest = _
        rw [hstep]
        rcases steps_reaping terms cause remains hnone with h | h
        · exact .inl h
        · refine .inr ⟨.interrupted cause remains, h.trans ?_⟩
          rw [hsteps]
          exact (congrArg (step terms · .reaped) hstep).symm
    | _ => exact ih hone

/-- A run that has ended and was interrupted at most once is the run of what its process
does, or it was cancelled before its start. -/
theorem Run.exists_conduct (hcommand : terms.command ≠ [])
    {events : List Event} (hone : events.countP Event.isInterruption ≤ 1)
    (hended : (ready.steps terms events).outcome?.isSome = true) :
    (∃ conduct : Conduct, ready.steps terms events = conduct.run terms) ∨
      ready.steps terms events = ⟨.ended .cancelled, .absent, []⟩ := by
  induction events with
  | nil => cases hended
  | cons event rest ih =>
    have hrest : rest.countP Event.isInterruption ≤ 1 := by
      rw [List.countP_cons] at hone
      exact (Nat.le_add_right _ _).trans hone
    rw [steps_cons] at hended ⊢
    cases event with
    | started =>
      cases hspelt : terms.misspelling? with
      | some misspelling =>
        have hrun := (Conduct.ended ⟨0, [], []⟩).run_of_misspelt hspelt
        have hstep : ready.step terms .started =
            ⟨.ended (.fault (.misspelt misspelling)), .absent, []⟩ :=
          start_of_misspelt hspelt none
        rw [hstep]
        exact .inl ⟨_, (steps_of_outcome rfl rest).trans hrun.symm⟩
      | none =>
        rw [step_started hcommand hspelt] at hended ⊢
        rcases steps_waiting hcommand hspelt hrest with h | h
        · rw [h] at hended
          cases hended
        · exact .inl h
    | refused refusal =>
      obtain ⟨outcome, standing, acts, hrun⟩ :=
        (Conduct.refused refusal).exists_run_eq hcommand
      have hstep : ready.step terms (.refused refusal) =
          ⟨.ended outcome, standing, acts⟩ := hrun
      refine .inl ⟨.refused refusal, ?_⟩
      rw [hrun, hstep]
      exact steps_of_outcome rfl rest
    | interrupted cause remains =>
      cases cause with
      | expiry => exact ih hrest hended
      | cancellation => exact .inr (steps_of_outcome rfl rest)
    | exited exit => exact ih hrest hended
    | reaped => exact ih hrest hended

/-! ## The decision law -/

theorem Terms.decides_output_iff {output : Text} :
    terms.Decides conduct (.output output) ↔
    ∃ exit, conduct = .ended exit ∧ exit.code ∈ terms.accepted ∧
      (terms.allowsDiagnostics = true ∨
        ∀ c ∈ Utf8.decodeLossy exit.diagnostics, c.isBlank = true) ∧
      output = Utf8.decodeLossy exit.output := by
  constructor
  · intro h
    cases h with
    | @output exit ended sound =>
      subst ended
      obtain ⟨hcode, hsilent⟩ := sound_ended_iff.mp sound
      exact ⟨exit, rfl, hcode, hsilent, rfl⟩
  · rintro ⟨exit, rfl, hcode, hsilent, rfl⟩
    exact .output rfl (sound_ended_iff.mpr ⟨hcode, hsilent⟩)

theorem Terms.decides_cancelled_iff :
    terms.Decides conduct .cancelled ↔ ∃ remains, conduct =
      .interrupted .cancellation remains := by
  constructor
  · intro h
    cases h with
    | cancelled interrupted => exact ⟨_, interrupted⟩
  · rintro ⟨remains, rfl⟩
    exact .cancelled rfl

/-- A process is killed just if it is interrupted and its exit code is not known. -/
theorem Conduct.kill_mem_acts :
    .kill ∈ conduct.acts ↔ ∃ cause remains, conduct = .interrupted cause remains ∧
    remains.isCodeKnown = false := by
  constructor
  · intro h
    cases conduct with
    | refused refusal => cases h
    | ended exit => cases List.mem_singleton.mp h
    | interrupted cause remains =>
      obtain ⟨isCodeKnown, isThere⟩ := remains
      cases isCodeKnown with
      | true => cases List.mem_singleton.mp h
      | false => exact ⟨cause, _, rfl, rfl⟩
  · rintro ⟨cause, ⟨isCodeKnown, isThere⟩, rfl, rfl⟩
    cases isThere <;> exact .tail _ (.head _)

/-- What is done to a process that is killed, whether or not it was there. -/
theorem Conduct.acts_of_kill (h : .kill ∈ conduct.acts) :
    conduct.acts = [.start, .kill, .wait] ∧ conduct.standing = .waitedFor := by
  obtain ⟨cause, ⟨isCodeKnown, isThere⟩, rfl, rfl⟩ := kill_mem_acts.mp h
  cases isThere <;> exact ⟨rfl, rfl⟩

/-- Every kill is followed by a wait, and by nothing else. -/
theorem Conduct.after_kill {before after : List Act}
    (h : conduct.acts = before ++ .kill :: after) :
    after = [.wait] ∧ conduct.standing = .waitedFor := by
  have hkill : .kill ∈ conduct.acts := by
    rw [h]
    exact List.mem_append_right before (.head after)
  obtain ⟨hacts, hstanding⟩ := acts_of_kill hkill
  rw [hacts] at h
  refine ⟨?_, hstanding⟩
  cases before with
  | nil => cases h
  | cons first before =>
    cases before with
    | nil => exact (List.cons.inj (List.cons.inj h).2).2.symm
    | cons second before =>
      -- There is no second kill.
      have hrest : [Act.wait] = before ++ .kill :: after :=
        (List.cons.inj (List.cons.inj h).2).2
      have hsecond : Act.kill ∈ [Act.wait] := by
        rw [hrest]
        exact List.mem_append_right before (.head after)
      cases List.mem_singleton.mp hsecond

/-- **How a run is decided.** A run with a command of words that can all be spelt ends
in one way, whatever its process does. It ends with what the process writes just if that
is started, ends in time with an accepted exit code, and says nothing but blanks or may
say what it does; as cancelled just if it is cancelled; and else with the first
objection, which is a fault of an external tool. The process is killed just if it is
interrupted before its exit code is known. It is lost then if it was not there, but also
then the run waits for it before it ends; to a process that ends in time nothing more is
done. So it is for a process that is left to itself, whatever the time limit, and for
every run that has ended and was interrupted at most once, unless it was cancelled
before its start.

A word that cannot be spelt is one with a null character, or with a surrogate that
stands for no octet. A run with a command that has one ends with what is wrong with the
first, which is no fault of an external tool. -/
theorem Conduct.run_decided (terms : Terms) (hcommand : terms.command ≠ []) :
    (terms.misspelling? = none ↔
      ∀ word ∈ terms.command, ∀ c ∈ word, c.val ≠ 0 ∧
      (c.isSurrogate = true → c.isOctetMark = true)) ∧
    (∀ misspelling, terms.misspelling? = some misspelling → ∀ conduct : Conduct,
      conduct.run terms = ⟨.ended (.fault (.misspelt misspelling)), .absent, []⟩ ∧
      (ExtensionAudit.Fault.tool (.misspelt misspelling)).kind = .untold) ∧
    (terms.misspelling? = none → ∀ conduct : Conduct,
      (∃ outcome, (conduct.run terms).outcome? = some outcome) ∧
      (∀ outcome, (conduct.run terms).outcome? = some outcome ↔
        terms.Decides conduct outcome) ∧
      (∀ output, terms.Decides conduct (.output output) ↔
        ∃ exit, conduct = .ended exit ∧ exit.code ∈ terms.accepted ∧
        (terms.allowsDiagnostics = true ∨
          ∀ c ∈ Utf8.decodeLossy exit.diagnostics, c.isBlank = true) ∧
        output = Utf8.decodeLossy exit.output) ∧
      (terms.Decides conduct .cancelled ↔
        ∃ remains, conduct = .interrupted .cancellation remains) ∧
      (∀ fault, terms.Decides conduct (.fault fault) →
        (ExtensionAudit.Fault.tool fault).kind = .externalTool) ∧
      (conduct.run terms).acts = conduct.acts ∧
      (.kill ∈ (conduct.run terms).acts ↔
        ∃ cause remains, conduct = .interrupted cause remains ∧
        remains.isCodeKnown = false) ∧
      (∀ cause remains, remains.isCodeKnown = false →
        Run.ready.steps terms [.started, .interrupted cause remains] =
          ⟨.reaping cause, if remains.isThere then .killed else .lost,
            [.start, .kill, .wait]⟩) ∧
      (∀ before after, (conduct.run terms).acts = before ++ .kill :: after →
        after = [.wait] ∧ (conduct.run terms).standing = .waitedFor) ∧
      ∀ exit, conduct = .ended exit → (conduct.run terms).acts = [.start]) ∧
    (∀ p : Behavior, p.run terms = (p.conduct terms.limit).run terms) ∧
    ∀ events : List Event, events.countP Event.isInterruption ≤ 1 →
      (Run.ready.steps terms events).outcome?.isSome = true →
        (∃ conduct : Conduct, Run.ready.steps terms events = conduct.run terms) ∨
          Run.ready.steps terms events = ⟨.ended .cancelled, .absent, []⟩ := by
  refine ⟨Terms.misspelling?_eq_none_iff,
    fun misspelling hmisspelt conduct => ⟨conduct.run_of_misspelt hmisspelt, rfl⟩,
    fun hspelt conduct => ?_, fun p => p.run_eq_conduct hcommand,
    fun events hone hended => Run.exists_conduct hcommand hone hended⟩
  obtain ⟨outcome, hrun, hdecides⟩ := conduct.run_eq hcommand hspelt
  have houtcome : (conduct.run terms).outcome? = some outcome := by
    rw [hrun]
    rfl
  have hacts : (conduct.run terms).acts = conduct.acts := by rw [hrun]
  have hstanding : (conduct.run terms).standing = conduct.standing := by rw [hrun]
  have hdecided (found : Outcome) : (conduct.run terms).outcome? = some found ↔
      terms.Decides conduct found := by
    rw [houtcome, Option.some.injEq]
    constructor
    · rintro rfl
      exact hdecides
    · exact hdecides.unique
  have hfault (fault : Fault) (h : terms.Decides conduct (.fault fault)) :
      (ExtensionAudit.Fault.tool fault).kind = .externalTool := by
    cases h with
    | fault objection => exact objection.kind
  have hended (exit : Exit) (h : conduct = .ended exit) : conduct.acts = [.start] := by
    rw [h]
    rfl
  rw [hacts, hstanding]
  exact ⟨⟨outcome, houtcome⟩, hdecided, fun output => Terms.decides_output_iff,
    Terms.decides_cancelled_iff, hfault,
    rfl, kill_mem_acts, fun cause _ hunknown =>
      steps_interrupted hcommand hspelt cause hunknown,
    fun before after h => after_kill h, hended⟩

/-- Terms under which one exit code is accepted and nothing may be said, within a
second. -/
def strictTerms : Terms := ⟨"retire", ["retire"], .ofQuotient false 1 1, [0], false⟩

/-- A process that is gone when its time is up, with no exit code. -/
def goneConduct : Conduct := .interrupted .expiry ⟨false, false⟩

/-- A process that ends with another exit code and says so. -/
def crashedConduct : Conduct := .ended ⟨2, [], [0x21]⟩

/-- The process that is gone is waited for, though the kill finds none; and of two
objections to the other one the first counts. -/
theorem Conduct.run_decided_strictTerms :
    strictTerms.command ≠ [] ∧ strictTerms.misspelling? = none ∧
      (goneConduct.run strictTerms).outcome? =
        some (.fault (.overdue "retire" strictTerms.limit)) ∧
      .kill ∈ (goneConduct.run strictTerms).acts ∧
        (goneConduct.run strictTerms).standing = .waitedFor ∧
      (Run.ready.steps strictTerms [.started,
        .interrupted .expiry ⟨false, false⟩]).standing = .lost ∧
      (crashedConduct.run strictTerms).outcome? =
        some (.fault (.badExit "retire" 2 "!")) ∧
      (crashedConduct.run strictTerms).acts = [.start] := by
  have hcommand : strictTerms.command ≠ [] := List.cons_ne_nil _ _
  have hspelt : strictTerms.misspelling? = none := rfl
  have hsaid : Text.trim (Utf8.decodeLossy [0x21]) = "!" := by cbv
  have hobjects : strictTerms.Objects crashedConduct (.badExit "retire" 2 "!") := by
    rw [← hsaid]
    exact .code (by decide)
  obtain ⟨-, -, hconduct, -⟩ := run_decided strictTerms hcommand
  obtain ⟨-, hgone, -, -, -, -, hkill, hlost, hwait, -⟩ := hconduct hspelt goneConduct
  obtain ⟨-, hcrashed, -, -, -, -, -, -, -, hacts⟩ := hconduct hspelt crashedConduct
  have hkilled : .kill ∈ (goneConduct.run strictTerms).acts := hkill.mpr ⟨_, _, rfl, rfl⟩
  obtain ⟨before, after, hsplit⟩ := List.append_of_mem hkilled
  refine ⟨hcommand, hspelt,
    (hgone _).mpr (.fault (.time _) fun other hother => ?_), hkilled,
    (hwait before after hsplit).2,
    congrArg Run.standing (hlost .expiry ⟨false, false⟩ rfl),
    (hcrashed _).mpr (.fault hobjects fun other hother => ?_), hacts _ rfl⟩
  · cases hother
    exact Nat.le_refl _
  · cases hother with
    | code => exact Nat.le_refl _
    | diagnostics => exact Nat.le_succ _

/-- Terms with a command that is a surrogate. -/
def surrogateTerms : Terms := { strictTerms with command := [[⟨0xD800, by decide⟩]] }

/-- No word of that command has a null character, and yet its runs end with no fault of
an external tool. -/
theorem Conduct.run_surrogateTerms :
    surrogateTerms.command ≠ [] ∧
    (∀ word ∈ surrogateTerms.command, ∀ c ∈ word, c.val ≠ 0) ∧
      ∀ conduct : Conduct, ∃ fault, (conduct.run surrogateTerms).outcome? =
        some (.fault fault) ∧
        (ExtensionAudit.Fault.tool fault).kind = .untold := by
  refine ⟨List.cons_ne_nil _ _, by decide, fun conduct =>
    ⟨.misspelt (.surrogates ⟨0, [⟨0xD800, by decide⟩]⟩), ?_, rfl⟩⟩
  rw [run_of_misspelt rfl]
  rfl

end Tool

end ExtensionAudit
