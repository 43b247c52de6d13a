import ExtensionAudit.Proofs.Request.Analysis
import ExtensionAudit.Proofs.Tool.Run

/-!
# Analysis — the runs of the tools

What an event does to the runs of the two tools and to the join of the four
(`Analysis.run_step`, `Analysis.join_step`), and what of it lasts. A tool that is
settled has come to what its run has ended with (`Analysis.Attended`).
-/

namespace ExtensionAudit

namespace Analysis

variable {work : Workload} {analysis : Analysis} {event : Event}

/-- Analyses in which each tool that is settled has come to what its run has ended with.
Tools that are not to run have finished from the start. -/
structure Attended (work : Workload) (analysis : Analysis) : Prop where
  isSound : IsSound work analysis
  runs (tool : Tool) : (analysis.run tool).IsSound
  settled (tool : Tool) (settlement : Settlement Part Fault) : work.tools.isSome = true →
    analysis.join.tasks[index tool]? = some (some settlement) →
    ∃ outcome, (analysis.run tool).outcome? = some outcome ∧
    settlement = ofOutcome tool outcome
  idle (tool : Tool) : work.tools = none → analysis.run tool = .ready ∧
    ∃ part, analysis.join.tasks[index tool]? = some (some (.finished part))

theorem run_start (work : Workload) (tool : Tool) : (start work).run tool = .ready := by
  rw [start]
  cases work.tools <;> cases tool <;> rfl

theorem failure_start (work : Workload) : (start work).join.failure = none := by
  rw [start]
  cases work.tools <;> rfl

theorem attended_start (work : Workload) : Attended work (start work) := by
  refine ⟨isSound_start work, fun tool => ?_, fun tool settlement htools h => ?_,
    fun tool hnone => ⟨run_start work tool, ?_⟩⟩
  · rw [run_start]
    exact .ready
  · obtain ⟨terms, hterms⟩ := Option.isSome_iff_exists.mp htools
    rw [start, hterms] at h
    cases tool <;> cases h
  · rw [start, hnone]
    cases tool <;> exact ⟨_, rfl⟩

theorem run_settle (analysis : Analysis) (position : Nat)
    (settlement : Settlement Part Fault) (tool : Tool) :
    (analysis.settle position settlement).run tool = analysis.run tool := by
  cases tool <;> rfl

theorem run_setRun_self (analysis : Analysis) (tool : Tool) (run : Tool.Run) :
    (analysis.setRun tool run).run tool = run := by
  cases tool <;> rfl

theorem run_setRun_of_ne {tool other : Tool} (h : other ≠ tool) (analysis : Analysis)
    (run : Tool.Run) :
    (analysis.setRun tool run).run other = analysis.run other := by
  cases tool <;> cases other <;> first | rfl | exact absurd rfl h

theorem index_injective {tool other : Tool} (h : index other = index tool) :
    other = tool := by
  cases tool <;> cases other <;> first | rfl | cases h

/-- The last two of the four are the tools. -/
theorem exists_index {position : Nat} (hlow : 2 ≤ position) (hhigh : position < 4) :
    ∃ tool, index tool = position := by
  obtain rfl | rfl : position = 2 ∨ position = 3 := by omega
  · exact ⟨.retire, rfl⟩
  · exact ⟨.eslint, rfl⟩

theorem Attended.settle {position : Nat} (h : Attended work analysis)
    (hposition : ∀ tool, index tool ≠ position) {settlement : Settlement Part Fault}
    (hsound : IsSound work (analysis.settle position settlement)) :
    Attended work (analysis.settle position settlement) := by
  refine ⟨hsound, fun tool => ?_, fun tool found htools hfound => ?_,
    fun tool hnone => ?_⟩
  · rw [run_settle]
    exact h.runs tool
  · rw [run_settle]
    rcases Join.settled_of_settle hfound with ⟨hindex, -⟩ | hfound
    · exact absurd hindex (hposition tool)
    · exact h.settled tool found htools hfound
  · obtain ⟨hready, part, hpart⟩ := h.idle tool hnone
    rw [run_settle]
    exact ⟨hready, part, Join.settled_settle hpart position settlement⟩

/-- What an event of a tool does: nothing, or something to the run of the tool, which is
settled when it has ended. A run is cancelled only after a failure. -/
inductive StepsTool (analysis : Analysis) (terms : Tool.Terms) (tool : Tool)
    (event : Tool.Event) :
    Analysis → Prop
  | ignored : StepsTool analysis terms tool event analysis
  | goesOn (hlate : isCancellation event = true → analysis.join.failure.isSome = true)
      (hopen : ((analysis.run tool).step terms event).outcome? = none) :
    StepsTool analysis terms tool event
      (analysis.setRun tool ((analysis.run tool).step terms event))
  | ends (hlate : isCancellation event = true → analysis.join.failure.isSome = true)
      {outcome : Tool.Outcome}
      (hended : ((analysis.run tool).step terms event).outcome? = some outcome) :
    StepsTool analysis terms tool event
      ((analysis.setRun tool ((analysis.run tool).step terms event)).settle (index tool)
        (ofOutcome tool outcome))

theorem stepsTool (analysis : Analysis) (terms : Tool.Terms) (tool : Tool)
    (event : Tool.Event) :
    StepsTool analysis terms tool event (analysis.stepTool terms tool event) := by
  rw [stepTool]
  split
  · exact .ignored
  · rename_i hcancels
    have hlate (hc : isCancellation event = true) :
      analysis.join.failure.isSome = true := by
      rw [hc, Bool.true_and, Option.isNone_iff_eq_none] at hcancels
      exact Option.isSome_iff_ne_none.mpr hcancels
    dsimp only
    split
    · rename_i outcome hended
      exact .ends hlate hended
    · rename_i hopen
      exact .goesOn hlate hopen

theorem join_setRun (analysis : Analysis) (tool : Tool) (run : Tool.Run) :
    (analysis.setRun tool run).join = analysis.join := by
  cases tool <;> rfl

/-- A run in the place of a tool's run, when the tool was settled before only if it
stays what it was. -/
theorem Attended.setRun (h : Attended work analysis) (htools : work.tools.isSome = true)
    (terms : Tool.Terms) (tool : Tool) (event : Tool.Event) :
    Attended work (analysis.setRun tool ((analysis.run tool).step terms event)) := by
  refine ⟨h.isSound.setRun terms tool event, fun other => ?_,
    fun other found _ hfound => ?_,
    fun other hnone => ?_⟩
  · by_cases hother : other = tool
    · subst hother
      rw [run_setRun_self]
      exact (h.runs other).step terms event
    · rw [run_setRun_of_ne hother]
      exact h.runs other
  · rw [join_setRun] at hfound
    obtain ⟨outcome, hended, hsame⟩ := h.settled other found htools hfound
    refine ⟨outcome, ?_, hsame⟩
    by_cases hother : other = tool
    · subst hother
      rw [run_setRun_self, Tool.Run.step_of_outcome hended]
      exact hended
    · rw [run_setRun_of_ne hother]
      exact hended
  · rw [hnone] at htools
    cases htools

theorem Attended.stepTool (h : Attended work analysis) (htools : work.tools.isSome = true)
    (terms : Tool.Terms) (tool : Tool) (event : Tool.Event) :
    Attended work (analysis.stepTool terms tool event) := by
  have hsound := h.isSound.stepTool htools terms tool event
  have hsteps := stepsTool analysis terms tool event
  generalize analysis.stepTool terms tool event = later at hsteps hsound ⊢
  cases hsteps with
  | ignored => exact h
  | goesOn hlate hopen => exact h.setRun htools terms tool event
  | @ends hlate outcome hended =>
    have hrun := h.setRun htools terms tool event
    refine ⟨hsound, fun other => ?_, fun other found _ hfound => ?_,
      fun other hnone => ?_⟩
    · rw [run_settle]
      exact hrun.runs other
    · rw [run_settle]
      rcases Join.settled_of_settle hfound with ⟨hindex, rfl⟩ | hfound
      · cases index_injective hindex
        rw [run_setRun_self]
        exact ⟨outcome, hended, rfl⟩
      · exact hrun.settled other found htools hfound
    · rw [hnone] at htools
      cases htools

/-- Whatever happens to the analyses, but for a fault of a tool's that does not come
from its run. -/
theorem Attended.step (h : Attended work analysis) (event : Event)
    (hevent : ∀ tool fault, event ≠ .broken (index tool) fault) :
    Attended work (analysis.step work event) := by
  have hfirst (tool : Tool) : index tool ≠ 0 := by cases tool <;> decide
  have hsecond (tool : Tool) : index tool ≠ 1 := by cases tool <;> decide
  have hsound := h.isSound.step event
  cases event with
  | scored => exact h.settle hfirst hsound
  | surveyed => exact h.settle hsecond hsound
  | dropped =>
    exact (h.settle hfirst (h.isSound.settle fun part hp => by cases hp)).settle
      hsecond hsound
  | tool tool event =>
    cases htools : work.tools with
    | none =>
      rw [Analysis.step, htools]
      exact h
    | some terms =>
      rw [Analysis.step, htools]
      exact h.stepTool (by rw [htools]; rfl) (terms tool) tool event
  | broken position fault =>
    exact h.settle (fun tool heq => hevent tool fault (heq ▸ rfl)) hsound
  | aborted => exact ⟨hsound, h.runs, h.settled, h.idle⟩

/-- In analyses that are all settled, a tool has not been called or its run has ended. -/
theorem Attended.run_of_isSettled (h : Attended work analysis)
    (hsettled : analysis.join.isSettled = true) (tool : Tool) :
    analysis.run tool = .ready ∨ (analysis.run tool).outcome?.isSome = true := by
  cases htools : work.tools with
  | none => exact .inl (h.idle tool htools).1
  | some terms =>
    have hlt : index tool < analysis.join.tasks.length := by
      rw [h.isSound.length]
      cases tool <;> decide
    have htask := List.getElem?_eq_getElem hlt
    have hsome : analysis.join.tasks[index tool].isSome = true :=
      List.all_eq_true.mp hsettled _ (List.getElem_mem hlt)
    obtain ⟨settlement, hsettlement⟩ := Option.isSome_iff_exists.mp hsome
    obtain ⟨outcome, hended, -⟩ := h.settled tool settlement (by rw [htools]; rfl)
      (htask.trans (congrArg some hsettlement))
    exact .inr (by rw [hended]; rfl)

/-- In analyses that are all settled no process is running, and one that was to be
killed and has not been waited for is abandoned. -/
theorem Attended.standing_of_isSettled (h : Attended work analysis)
    (hsettled : analysis.join.isSettled = true) (tool : Tool) :
    (analysis.run tool).standing ≠ .running ∧
      ((analysis.run tool).standing.isUnawaited = true →
        (analysis.run tool).IsAbandoned) := by
  rcases h.run_of_isSettled hsettled tool with hready | hended
  · rw [hready]
    exact ⟨nofun, nofun⟩
  · exact ⟨(h.runs tool).standing_ne_running hended, fun hkilled => ⟨hended, hkilled⟩⟩

/-- A tool has failed for the reason that its run has ended with. -/
theorem Attended.outcome_of_failed {tool : Tool}
    {reason : Fault} (h : Attended work analysis)
    (hfailed : analysis.join.tasks[index tool]? = some (some (.failed reason))) :
    ∃ outcome, (analysis.run tool).outcome? = some outcome ∧
      ofOutcome tool outcome = .failed reason := by
  cases htools : work.tools with
  | none =>
    obtain ⟨-, part, hpart⟩ := h.idle tool htools
    cases hfailed.symm.trans hpart
  | some terms =>
    obtain ⟨outcome, hended, hsame⟩ := h.settled tool _ (by rw [htools]; rfl) hfailed
    exact ⟨outcome, hended, hsame.symm⟩

/-- What an event does to the run of a tool: nothing, or what an event of that tool
does. -/
theorem run_step (work : Workload) (analysis : Analysis) (event : Event) (tool : Tool) :
    (analysis.step work event).run tool = analysis.run tool ∨
      ∃ terms happening, event = .tool tool happening ∧
        (isCancellation happening = true → analysis.join.failure.isSome = true) ∧
        (analysis.step work event).run tool =
          (analysis.run tool).step terms happening := by
  cases event with
  | tool other happening =>
    rw [step]
    split
    · rename_i terms htools
      have hsteps := stepsTool analysis (terms other) other happening
      generalize analysis.stepTool (terms other) other happening = later at hsteps ⊢
      by_cases hother : tool = other
      · subst hother
        cases hsteps with
        | ignored => exact .inl rfl
        | goesOn hlate hopen =>
          exact .inr ⟨_, happening, rfl, hlate, run_setRun_self analysis tool _⟩
        | ends hlate hended =>
          exact .inr ⟨_, happening, rfl, hlate, run_setRun_self analysis tool _⟩
      · cases hsteps with
        | ignored => exact .inl rfl
        | goesOn hlate hopen => exact .inl (run_setRun_of_ne hother analysis _)
        | ends hlate hended => exact .inl (run_setRun_of_ne hother analysis _)
    · exact .inl rfl
  | _ => exact .inl rfl

/-- An event of a tool whose terms are given goes to its run, if it is not a
cancellation before a failure. -/
theorem run_step_tool_of_late {terms : Tool → Tool.Terms}
    (htools : work.tools = some terms) {tool : Tool} {happening : Tool.Event}
    (hlate : isCancellation happening = true → analysis.join.failure.isSome = true) :
    (analysis.step work (.tool tool happening)).run tool =
      (analysis.run tool).step (terms tool) happening := by
  have hgiven : (isCancellation happening && analysis.join.failure.isNone) = false := by
    cases hcancels : isCancellation happening with
    | false => rfl
    | true => rw [Bool.true_and, ← Option.not_isSome, hlate hcancels, Bool.not_true]
  rw [step, htools]
  dsimp only
  rw [stepTool, hgiven, if_neg Bool.false_ne_true]
  dsimp only
  split
  · rw [run_settle, run_setRun_self]
  · rw [run_setRun_self]

theorem run_step_tool {terms : Tool → Tool.Terms} (htools : work.tools = some terms)
    (hlate : analysis.join.failure.isSome = true) (tool : Tool) (happening : Tool.Event) :
    (analysis.step work (.tool tool happening)).run tool =
      (analysis.run tool).step (terms tool) happening :=
  run_step_tool_of_late htools fun _ => hlate

/-- The tasks that an event can settle. -/
def Event.Settles : Event → Nat → Prop
  | .scored, position => position = 0
  | .surveyed, position => position = 1
  | .dropped, position => position < 2
  | .tool caller _, position => position = index caller
  | .broken place _, position => position = place
  | .aborted, _ => False

/-- With the first failure one of the tasks that the event can settle has failed, unless
all are aborted. -/
theorem failed_of_failure_step {reason : Fault} (hnone : analysis.join.failure = none)
    (h : (analysis.step work event).join.failure = some reason) :
    event = .aborted ∨ ∃ position, event.Settles position ∧
      (analysis.step work event).join.tasks[position]? =
        some (some (.failed reason)) := by
  cases event with
  | scored => exact .inr ⟨0, rfl, Join.failed_of_failure_settle hnone h⟩
  | surveyed => exact .inr ⟨1, rfl, Join.failed_of_failure_settle hnone h⟩
  | dropped =>
    have hfirst : analysis.settle 0 (.cancelled none) = analysis := by
      rw [settle, Join.settle_cancelled_of_unfailed hnone]
    simp only [step, hfirst] at h ⊢
    exact .inr ⟨1, Nat.one_lt_two, Join.failed_of_failure_settle hnone h⟩
  | tool tool happening =>
    rw [step] at h ⊢
    split at h
    · rename_i terms htools
      have hsteps := stepsTool analysis (terms tool) tool happening
      generalize analysis.stepTool (terms tool) tool happening = later at hsteps h ⊢
      cases hsteps with
      | ignored => cases hnone.symm.trans h
      | goesOn hlate hopen =>
        rw [join_setRun] at h
        cases hnone.symm.trans h
      | ends hlate hended =>
        rw [settle, join_setRun] at h ⊢
        exact .inr ⟨index tool, rfl, Join.failed_of_failure_settle hnone h⟩
    · cases hnone.symm.trans h
  | broken position fault =>
    exact .inr ⟨position, rfl, Join.failed_of_failure_settle hnone h⟩
  | aborted => exact .inl rfl

/-- What an event does to the join: nothing, a few settlements, or the end of all. -/
theorem join_step (work : Workload) (analysis : Analysis) (event : Event) :
    (∃ settlements, (analysis.step work event).join =
      analysis.join.settleAll settlements) ∨
      event = .aborted := by
  cases event with
  | scored =>
    exact .inl ⟨[(0, settlement
      (((ManifestScores.ofJson (.object work.manifest)).map .scores).mapError
        .misuse))], rfl⟩
  | surveyed => exact .inl ⟨[(1, .finished (.usage (Script.usage work.files)))], rfl⟩
  | dropped => exact .inl ⟨[(0, .cancelled none), (1, .cancelled none)], rfl⟩
  | tool tool happening =>
    rw [step]
    split
    · rename_i terms htools
      have hsteps := stepsTool analysis (terms tool) tool happening
      generalize analysis.stepTool (terms tool) tool happening = later at hsteps ⊢
      cases hsteps with
      | ignored => exact .inl ⟨[], rfl⟩
      | goesOn hlate hopen => exact .inl ⟨[], join_setRun ..⟩
      | @ends hlate outcome hended =>
        refine .inl ⟨[(index tool, ofOutcome tool outcome)], ?_⟩
        rw [settle, join_setRun]
        rfl
    · exact .inl ⟨[], rfl⟩
  | broken position fault => exact .inl ⟨[(position, .failed fault)], rfl⟩
  | aborted => exact .inr rfl

/-- Where a task has failed, there is a failure. -/
theorem IsSound.failure_isSome {position : Nat}
    {fault : Fault} (h : IsSound work analysis)
    (hfailed : analysis.join.tasks[position]? = some (some (.failed fault))) :
    analysis.join.failure.isSome = true := by
  cases hfailure : analysis.join.failure with
  | some reason => rfl
  | none =>
    obtain ⟨value, hvalue⟩ := h.unfailed hfailure position (.failed fault) hfailed
    cases hvalue

/-- What is settled stays settled. -/
theorem settled_step {position : Nat} {settlement : Settlement Part Fault}
    (h : analysis.join.tasks[position]? = some (some settlement)) (event : Event) :
    (analysis.step work event).join.tasks[position]? = some (some settlement) := by
  rcases join_step work analysis event with ⟨settlements, hjoin⟩ | rfl
  · rw [hjoin]
    exact Join.settled_settleAll h settlements
  · exact h

/-- The first failure stays, unless the request is aborted. -/
theorem failure_step {reason : Fault} (h : analysis.join.failure = some reason)
    (hevent : event ≠ .aborted) : (analysis.step work event).join.failure =
    some reason := by
  rcases join_step work analysis event with ⟨settlements, hjoin⟩ | rfl
  · rw [hjoin]
    exact Join.failure_settleAll_of_some h settlements
  · exact absurd rfl hevent

end Analysis

end ExtensionAudit
