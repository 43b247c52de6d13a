import ExtensionAudit.Tool.Run
import Mathlib.Tactic.Common

/-!
# Tool — what a run does to its process

At every moment of every run, what the run has done to its process is what is known of
the process (`Run.IsSound`). A run that has ended has left no process running, but it
may have left one that it was to kill without waiting for it: if it was cancelled while
it waited for that (`Run.isAbandoned_step`).
-/

namespace ExtensionAudit.Tool

/-- What was done to a process of which this is known. -/
def Standing.acts : Standing → List Act
  | .absent => []
  | .running => [.start]
  | .exited => [.start]
  | .killed => [.start, .kill, .wait]
  | .lost => [.start, .kill, .wait]
  | .waitedFor => [.start, .kill, .wait]

/-- Was the process to be killed, but has not been waited for? -/
def Standing.isUnawaited : Standing → Bool
  | .killed | .lost => true
  | _ => false

theorem Standing.isUnawaited_iff {standing : Standing} :
    standing.isUnawaited = true ↔ standing = .killed ∨ standing = .lost := by
  cases standing <;> decide

/-- What is known of a process that was to be killed. -/
def Remains.standing (remains : Remains) : Standing :=
  if remains.isThere then .killed else .lost

theorem Remains.isUnawaited_standing (remains : Remains) :
    remains.standing.isUnawaited = true := by
  rw [standing]
  split <;> rfl

namespace Run

/-- The runs that there can be: what a run has done to its process is what is known of
the process, and only a run that waits has one that is running. One that waits for what
is left of its process has killed it, or found none to kill. -/
inductive IsSound : Run → Prop
  | ready : IsSound ⟨.ready, .absent, Standing.acts .absent⟩
  | waiting : IsSound ⟨.waiting, .running, Standing.acts .running⟩
  | reaping (cause : Interruption) {standing : Standing}
      (h : standing.isUnawaited = true) :
    IsSound ⟨.reaping cause, standing, standing.acts⟩
  | ended (outcome : Outcome) {standing : Standing} (h : standing ≠ .running) :
    IsSound ⟨.ended outcome, standing, standing.acts⟩

/-- The run has ended, but has not waited for the process that it was to kill. -/
def IsAbandoned (run : Run) : Prop :=
  run.outcome?.isSome = true ∧ run.standing.isUnawaited = true

variable {terms : Terms} {run : Run} {event : Event} {remains : Remains}

/-! ## Giving a process up -/

theorem giveUp_of_known (h : remains.isCodeKnown = true) (run : Run) (terms : Terms)
    (cause : Interruption) :
    run.giveUp terms cause remains =
      { run with
        phase := .ended (terms.interruptedOutcome cause), standing := .exited } := by
  rw [giveUp, if_pos h]

/-- A process whose exit code is not known is killed and waited for, whether or not it
is there. -/
theorem giveUp_of_unknown (h : remains.isCodeKnown = false) (run : Run) (terms : Terms)
    (cause : Interruption) :
    run.giveUp terms cause remains = ⟨.reaping cause, remains.standing,
      run.acts ++ [.kill, .wait]⟩ := by
  rw [giveUp, h, if_neg Bool.false_ne_true, kill, Remains.standing]
  cases remains.isThere <;> simp [await]

/-- A run that gives its process up has ended, or waits for what is left of it. -/
theorem phase_giveUp (run : Run) (terms : Terms) (cause : Interruption)
    (remains : Remains) :
    (run.giveUp terms cause remains).phase = .ended (terms.interruptedOutcome cause) ∨
      (run.giveUp terms cause remains).phase = .reaping cause := by
  cases h : remains.isCodeKnown with
  | true => exact .inl (by rw [giveUp_of_known h])
  | false => exact .inr (by rw [giveUp_of_unknown h])

/-! ## Sound runs -/

/-- A run that is over stays as it ended. -/
theorem step_of_outcome {outcome : Outcome} (h : run.outcome? = some outcome)
    (event : Event) :
    run.step terms event = run := by
  obtain ⟨phase, standing, acts⟩ := run
  cases phase with
  | ended found => cases event <;> rfl
  | ready => cases h
  | waiting => cases h
  | reaping cause => cases h

theorem IsSound.acts_eq (h : run.IsSound) : run.acts = run.standing.acts := by
  cases h <;> rfl

/-- A run that has ended has left no process running. -/
theorem IsSound.standing_ne_running (h : run.IsSound)
    (hended : run.outcome?.isSome = true) :
    run.standing ≠ .running := by
  cases h with
  | ended outcome h => exact h
  | ready => cases hended
  | waiting => cases hended
  | reaping cause => cases hended

/-- A run whose process has exited by itself has ended. -/
theorem IsSound.ended_of_exited (h : run.IsSound) (hexited : run.standing = .exited) :
    run.outcome?.isSome = true := by
  cases h with
  | ended outcome h => rfl
  | ready => cases hexited
  | waiting => cases hexited
  | reaping cause h =>
    dsimp only at hexited
    rw [hexited] at h
    cases h

/-- A run that starts has a process, or it has ended with a fault. -/
theorem start_ready (terms : Terms) (refusal : Option Refusal) :
    ready.start terms refusal = ⟨.waiting, .running, [.start]⟩ ∨
      ∃ fault, ready.start terms refusal = ⟨.ended (.fault fault), .absent, []⟩ := by
  rw [start.eq_def]
  cases terms.command with
  | nil => exact .inr ⟨_, rfl⟩
  | cons program rest =>
    cases terms.misspelling? with
    | some misspelling => exact .inr ⟨_, rfl⟩
    | none =>
      cases refusal with
      | none => exact .inl rfl
      | some refusal => exact .inr ⟨_, rfl⟩

theorem isSound_start (terms : Terms) (refusal : Option Refusal) :
    (ready.start terms refusal).IsSound := by
  rcases start_ready terms refusal with h | ⟨fault, h⟩
  · rw [h]
    exact .waiting
  · rw [h]
    exact .ended _ nofun

/-- A run that starts neither kills anything nor waits for a process that it has
killed. -/
theorem not_killed_start (terms : Terms) (refusal : Option Refusal) :
    (ready.start terms refusal).standing.isUnawaited = false ∧
    .kill ∉ (ready.start terms refusal).acts ∧
      ∀ cause, (ready.start terms refusal).phase ≠ .reaping cause := by
  rcases start_ready terms refusal with h | ⟨fault, h⟩
  · rw [h]
    exact ⟨rfl, by decide, nofun⟩
  · rw [h]
    exact ⟨rfl, List.not_mem_nil, nofun⟩

/-- A run that waits and is interrupted has ended if the exit code is known, and else
waits for what is left of its process. -/
theorem interrupted_waiting (terms : Terms) (cause : Interruption) (remains : Remains) :
    (remains.isCodeKnown = true ∧
      step terms ⟨.waiting, .running,
        Standing.acts .running⟩ (.interrupted cause remains) =
        ⟨.ended (terms.interruptedOutcome cause), .exited, Standing.acts .exited⟩) ∨
    (remains.isCodeKnown = false ∧
      step terms ⟨.waiting, .running,
        Standing.acts .running⟩ (.interrupted cause remains) =
        ⟨.reaping cause, remains.standing, [.start, .kill, .wait]⟩) := by
  change (_ ∧ giveUp terms _ cause remains = _) ∨ (_ ∧ giveUp terms _ cause remains = _)
  cases h : remains.isCodeKnown with
  | true => exact .inl ⟨rfl, giveUp_of_known h _ terms cause⟩
  | false => exact .inr ⟨rfl, giveUp_of_unknown h _ terms cause⟩

theorem acts_of_isUnawaited {standing : Standing} (h : standing.isUnawaited = true) :
    standing.acts = [.start, .kill, .wait] := by
  cases standing with
  | killed => rfl
  | lost => rfl
  | _ => cases h

/-- Whatever happens, a run stays sound. -/
theorem IsSound.step (h : run.IsSound) (terms : Terms) (event : Event) :
    (run.step terms event).IsSound := by
  cases h with
  | ready =>
    cases event with
    | started => exact isSound_start terms none
    | refused refusal => exact isSound_start terms (some refusal)
    | exited exit => exact .ready
    | interrupted cause remains =>
      cases cause with
      | expiry => exact .ready
      | cancellation => exact .ended _ nofun
    | reaped => exact .ready
  | waiting =>
    cases event with
    | exited exit => exact .ended _ nofun
    | interrupted cause remains =>
      rcases interrupted_waiting terms cause remains with ⟨-, hstep⟩ | ⟨-, hstep⟩
      · exact hstep ▸ .ended _ nofun
      · have hunawaited := remains.isUnawaited_standing
        have hreaping :
          IsSound ⟨.reaping cause, remains.standing, remains.standing.acts⟩ :=
          .reaping cause hunawaited
        rw [acts_of_isUnawaited hunawaited] at hreaping
        exact hstep ▸ hreaping
    | _ => exact .waiting
  | reaping found h =>
    cases event with
    | interrupted cause remains =>
      cases cause with
      | expiry => exact .reaping found h
      | cancellation => exact .ended _ (by rintro rfl; cases h)
    | reaped =>
      have hended : IsSound ⟨.ended (terms.interruptedOutcome found), .waitedFor,
          Standing.acts .waitedFor⟩ :=
        .ended _ nofun
      rwa [Standing.acts, ← acts_of_isUnawaited h] at hended
    | _ => exact .reaping found h
  | ended outcome h => cases event <;> exact .ended outcome h

/-- A run abandons its process when it is cancelled while it waits for it, and in no
other way. -/
theorem isAbandoned_step (h : run.IsSound) :
    (run.step terms event).IsAbandoned ↔
      run.IsAbandoned ∨ ∃ cause remains,
        run.phase = .reaping cause ∧ event = .interrupted .cancellation remains := by
  -- A run that is over with its process killed has left it there. Before the wait no
  -- process is killed, and in the wait only a cancellation ends the run at once.
  cases h with
  | ready =>
    constructor
    · rintro ⟨-, hkilled⟩
      cases event with
      | started => cases (not_killed_start terms none).1.symm.trans hkilled
      | refused refusal =>
        cases (not_killed_start terms (some refusal)).1.symm.trans hkilled
      | interrupted cause remains => cases cause <;> cases hkilled
      | exited exit => cases hkilled
      | reaped => cases hkilled
    · rintro (⟨-, hkilled⟩ | ⟨cause, remains, hphase, -⟩)
      · cases hkilled
      · cases hphase
  | waiting =>
    constructor
    · rintro ⟨hended, hkilled⟩
      cases event with
      | interrupted cause remains =>
        rcases interrupted_waiting terms cause remains with ⟨-, hstep⟩ | ⟨-, hstep⟩
        · exact absurd (hstep ▸ hkilled) nofun
        · exact absurd (hstep ▸ hended) nofun
      | _ => cases hkilled
    · rintro (⟨-, hkilled⟩ | ⟨cause, remains, hphase, -⟩)
      · cases hkilled
      · cases hphase
  | reaping found h =>
    constructor
    · rintro ⟨hended, hkilled⟩
      cases event with
      | interrupted cause remains =>
        cases cause with
        | expiry => cases hended
        | cancellation => exact .inr ⟨found, remains, rfl, rfl⟩
      | reaped => cases hkilled
      | _ => cases hended
    · rintro (⟨hended, -⟩ | ⟨cause, remains, -, rfl⟩)
      · cases hended
      · exact ⟨rfl, h⟩
  | @ended outcome standing h =>
    have hsame : step terms ⟨.ended outcome, standing, standing.acts⟩ event =
        ⟨.ended outcome, standing, standing.acts⟩ := by
      cases event <;> rfl
    rw [hsame]
    constructor
    · exact .inl
    · rintro (hsame | ⟨cause, remains, hphase, -⟩)
      · exact hsame
      · cases hphase

/-- A run waits for a process because it was cancelled only where it was. -/
theorem phase_step_of_cancelled (h : run.IsSound)
    (hphase : (run.step terms event).phase = .reaping .cancellation) :
    run.phase = .reaping .cancellation ∨
      ∃ remains, event = .interrupted .cancellation remains := by
  cases h with
  | ready =>
    cases event with
    | started => exact absurd hphase ((not_killed_start terms none).2.2 _)
    | refused refusal =>
      exact absurd hphase ((not_killed_start terms (some refusal)).2.2 _)
    | interrupted cause remains => cases cause <;> cases hphase
    | exited exit => cases hphase
    | reaped => cases hphase
  | waiting =>
    cases event with
    | interrupted cause remains =>
      rcases interrupted_waiting terms cause remains with ⟨-, hstep⟩ | ⟨-, hstep⟩
      · exact absurd (hstep ▸ hphase) nofun
      · rw [hstep] at hphase
        cases hphase
        exact .inr ⟨remains, rfl⟩
    | _ => cases hphase
  | reaping found h =>
    cases event with
    | interrupted cause remains =>
      cases cause with
      | expiry => exact .inl hphase
      | cancellation => cases hphase
    | reaped => cases hphase
    | _ => exact .inl hphase
  | ended outcome h => cases event <;> cases hphase

/-- A run gets to wait for a process that it was to kill only from one that is running,
for all that is known of it: by an interruption that finds its exit code not known, and
the process there or not. -/
theorem standing_step_of_isUnawaited (h : run.IsSound)
    (hnot : run.standing.isUnawaited = false)
    (hnow : (run.step terms event).standing.isUnawaited = true) :
    run.standing = .running ∧ ∃ cause remains, event = .interrupted cause remains ∧
      remains.isCodeKnown = false ∧ (run.step terms event).standing =
        remains.standing := by
  cases h with
  | ready =>
    cases event with
    | started => cases (not_killed_start terms none).1.symm.trans hnow
    | refused refusal => cases (not_killed_start terms (some refusal)).1.symm.trans hnow
    | interrupted cause remains => cases cause <;> cases hnow
    | exited exit => cases hnow
    | reaped => cases hnow
  | waiting =>
    cases event with
    | interrupted cause remains =>
      rcases interrupted_waiting terms cause remains with ⟨-, hstep⟩ | ⟨hknown, hstep⟩
      · exact absurd (hstep ▸ hnow) nofun
      · exact ⟨rfl, cause, remains, rfl, hknown, congrArg standing hstep⟩
    | _ => cases hnow
  | reaping cause h => cases hnot.symm.trans h
  | @ended outcome standing h =>
    have hsame : (step terms ⟨.ended outcome, standing, standing.acts⟩ event).standing =
        standing := by
      cases event <;> rfl
    cases hnot.symm.trans (hsame ▸ hnow)

/-- As long as its process is not waited for, a run does not find out more about it. -/
theorem standing_step_of_unawaited (h : run.IsSound)
    (hbefore : run.standing.isUnawaited = true)
    (hnow : (run.step terms event).standing.isUnawaited = true) :
    (run.step terms event).standing = run.standing := by
  cases h with
  | reaping found h =>
    cases event with
    | interrupted cause remains => cases cause <;> rfl
    | reaped => cases hnow
    | _ => rfl
  | ended outcome h => cases event <;> rfl
  | ready => cases hbefore
  | waiting => cases hbefore

/-- A run kills its process only while that is running, for all that is known of it. -/
theorem kill_mem_step (h : run.IsSound) (hnot : .kill ∉ run.acts)
    (hkills : .kill ∈ (run.step terms event).acts) :
    run.standing = .running ∧ ∃ cause remains, event = .interrupted cause remains ∧
      remains.isCodeKnown = false := by
  cases h with
  | ready =>
    cases event with
    | started => exact absurd hkills (not_killed_start terms none).2.1
    | refused refusal => exact absurd hkills (not_killed_start terms (some refusal)).2.1
    | interrupted cause remains => cases cause <;> exact absurd hkills hnot
    | exited exit => exact absurd hkills hnot
    | reaped => exact absurd hkills hnot
  | waiting =>
    cases event with
    | interrupted cause remains =>
      rcases interrupted_waiting terms cause remains with ⟨-, hstep⟩ | ⟨hknown, -⟩
      · rw [hstep] at hkills
        exact absurd hkills hnot
      · exact ⟨rfl, cause, remains, rfl, hknown⟩
    | _ => exact absurd hkills hnot
  | reaping cause h => exact absurd (acts_of_isUnawaited h ▸ .tail _ (.head _)) hnot
  | ended outcome h => cases event <;> exact absurd hkills hnot

end Run

end ExtensionAudit.Tool
