import ExtensionAudit.Proofs.Join
import ExtensionAudit.Proofs.Tool.Run
import ExtensionAudit.Request.Analysis

/-!
# Analysis — what the four come to

Whatever happens to the analyses and in whatever order, each of the four that finishes
has come to what it should (`Analysis.Fits`): the scores of the manifest, the usage of
the scripts, and what the outputs of the two tools say. So has the join of them, if it
succeeds.
-/

namespace ExtensionAudit

namespace Analysis

/-- What the scanner found, once it has written its output; a scanner that is not called
has found nothing. -/
def findings? (isCalled : Bool) (analysis : Analysis) : Option (List Json) :=
  if isCalled then
    match analysis.scan.outcome? with
    | some (.output output) => (Tool.findings output).toOption
    | _ => none
  else some []

/-- The summary of what the linter wrote, once it has; a linter that is not called
complains of nothing. -/
def lintSummary? (isCalled : Bool) (analysis : Analysis) : Option Lint.Summary :=
  if isCalled then
    match analysis.lint.outcome? with
    | some (.output output) => (Tool.lintSummary output).toOption
    | _ => none
  else some .empty

/-! ## The invariant -/

/-- What each of the four has come to, if it has finished. -/
def Fits (work : Workload) (analysis : Analysis) : Nat → Part → Prop
  | 0, .scores scores => ManifestScores.ofJson (.object work.manifest) = .ok scores
  | 1, .usage usage => usage = Script.usage work.files
  | 2, .findings entries => analysis.findings? work.tools.isSome = some entries
  | 3, .lint summary => analysis.lintSummary? work.tools.isSome = some summary
  | _, _ => False

/-- The four analyses of a workload, each of them as it should be. -/
def IsSound (work : Workload) (analysis : Analysis) : Prop :=
  analysis.join.Sound (Fits work analysis) 4

variable {work : Workload} {analysis : Analysis}

/-- Settling one of the four does nothing to the runs of the tools. -/
theorem IsSound.settle (h : IsSound work analysis)
    {index : Nat} {settlement : Settlement Part Fault}
    (hs : ∀ part, settlement = .finished part → Fits work analysis index part) :
    IsSound work (analysis.settle index settlement) := by
  refine (Join.Sound.settle h hs).mono fun other part hp => ?_
  unfold Fits at hp ⊢
  split at hp <;> exact hp

theorem findings?_setRun {isCalled : Bool} {tool : Tool}
    {entries : List Json} {terms : Tool.Terms} {event : Tool.Event}
    (h : analysis.findings? isCalled = some entries) :
    (analysis.setRun tool ((analysis.run tool).step terms event)).findings? isCalled =
      some entries := by
  cases tool with
  | eslint => exact h
  | retire =>
    rw [findings?] at h ⊢
    split at h
    · rename_i hc
      split at h
      · rename_i output ho
        simpa only [setRun, run, Tool.Run.step_of_outcome ho, ho, if_pos hc] using h
      · cases h
    · rename_i hc
      rw [if_neg hc, h]

theorem lintSummary?_setRun {isCalled : Bool} {tool : Tool} {summary : Lint.Summary}
    {terms : Tool.Terms} {event : Tool.Event}
    (h : analysis.lintSummary? isCalled = some summary) :
    (analysis.setRun tool ((analysis.run tool).step terms event)).lintSummary? isCalled =
      some summary := by
  cases tool with
  | retire => exact h
  | eslint =>
    rw [lintSummary?] at h ⊢
    split at h
    · rename_i hc
      split at h
      · rename_i output ho
        simpa only [setRun, run, Tool.Run.step_of_outcome ho, ho, if_pos hc] using h
      · cases h
    · rename_i hc
      rw [if_neg hc, h]

/-- Whatever happens to the run of a tool, what has finished before stays as it should
be. -/
theorem IsSound.setRun (h : IsSound work analysis) (terms : Tool.Terms) (tool : Tool)
    (event : Tool.Event) :
    IsSound work (analysis.setRun tool ((analysis.run tool).step terms event)) := by
  have hjoin : (analysis.setRun tool ((analysis.run tool).step terms event)).join =
      analysis.join := by
    cases tool <;> rfl
  rw [IsSound, hjoin]
  refine Join.Sound.mono h fun index part hp => ?_
  unfold Fits at hp ⊢
  -- Only what is read off the runs of the tools could change, and a run that is over
  -- does not.
  split at hp
  · exact hp
  · exact hp
  · exact findings?_setRun hp
  · exact lintSummary?_setRun hp
  · exact hp

/-- The part that the output of a tool comes to is what is read off the run. -/
theorem fits_ofOutcome {tool : Tool} {outcome : Tool.Outcome} {part : Part}
    (hc : work.tools.isSome = true) (ho : (analysis.run tool).outcome? = some outcome)
    (hp : ofOutcome tool outcome = .finished part) :
    Fits work analysis (index tool) part := by
  cases outcome with
  | fault fault => cases hp
  | cancelled => cases hp
  | output output =>
    cases tool with
    | retire =>
      have hscan : analysis.scan.outcome? = some (.output output) := ho
      simp only [ofOutcome, ofOutput] at hp
      cases hf : Tool.findings output with
      | error fault =>
        rw [hf] at hp
        cases hp
      | ok entries =>
        rw [hf] at hp
        cases hp
        simp only [index, Fits, findings?, hc, if_true, hscan, hf]
        rfl
    | eslint =>
      have hlint : analysis.lint.outcome? = some (.output output) := ho
      simp only [ofOutcome, ofOutput] at hp
      cases hf : Tool.lintSummary output with
      | error fault =>
        rw [hf] at hp
        cases hp
      | ok summary =>
        rw [hf] at hp
        cases hp
        simp only [index, Fits, lintSummary?, hc, if_true, hlint, hf]
        rfl

theorem IsSound.stepTool (h : IsSound work analysis) (hc : work.tools.isSome = true)
    (terms : Tool.Terms) (tool : Tool) (event : Tool.Event) :
    IsSound work (analysis.stepTool terms tool event) := by
  unfold Analysis.stepTool
  split
  · exact h
  · have hrun := h.setRun terms tool event
    have hr : (analysis.setRun tool ((analysis.run tool).step terms event)).run tool =
        (analysis.run tool).step terms event := by
      cases tool <;> rfl
    dsimp only
    split
    · rename_i outcome ho
      exact hrun.settle fun part hp => fits_ofOutcome hc (hr.symm ▸ ho) hp
    · exact hrun

theorem IsSound.step (h : IsSound work analysis) (event : Event) :
    IsSound work (analysis.step work event) := by
  cases event with
  | scored =>
    refine h.settle fun part hp => ?_
    cases hs : ManifestScores.ofJson (.object work.manifest) with
    | error problem =>
      rw [hs] at hp
      cases hp
    | ok scores =>
      rw [hs] at hp
      cases hp
      exact hs
  | surveyed =>
    refine h.settle fun part hp => ?_
    cases hp
    rfl
  | dropped =>
    have hfirst : IsSound work (analysis.settle 0 (.cancelled none)) :=
      h.settle fun part hp => by cases hp
    exact hfirst.settle fun part hp => by cases hp
  | tool tool event =>
    simp only [Analysis.step]
    split
    · rename_i terms ht
      exact h.stepTool (by rw [ht, Option.isSome_some]) (terms tool) tool event
    · exact h
  | broken index fault => exact h.settle fun part hp => by cases hp
  | aborted => exact ⟨h.length, h.values, fun hn => by cases hn⟩

theorem isSound_start (work : Workload) : IsSound work (start work) := by
  unfold start
  cases ht : work.tools with
  | some terms => exact Join.sound_start _ 4
  | none =>
    have hstart : IsSound work ⟨.ready, .ready, .start 4⟩ := Join.sound_start _ 4
    have hscan : IsSound work
        ((⟨.ready, .ready,
          .start 4⟩ : Analysis).settle 2 (.finished (.findings []))) := by
      refine hstart.settle fun part hp => ?_
      cases hp
      simp [Fits, findings?, ht]
    refine hscan.settle fun part hp => ?_
    cases hp
    simp [Fits, lintSummary?, ht]

/-! ## The outcome -/

theorem fits_zero {part : Part} (h : Fits work analysis 0 part) :
    ∃ scores, part = .scores scores ∧
      ManifestScores.ofJson (.object work.manifest) = .ok scores := by
  cases part with
  | scores scores => exact ⟨scores, rfl, h⟩
  | _ => cases h

theorem fits_one {part : Part} (h : Fits work analysis 1 part) :
    part = .usage (Script.usage work.files) := by
  cases part with
  | usage usage => exact congrArg Part.usage h
  | _ => cases h

theorem fits_two {part : Part} (h : Fits work analysis 2 part) :
    ∃ entries, part = .findings entries ∧
      analysis.findings? work.tools.isSome = some entries := by
  cases part with
  | findings entries => exact ⟨entries, rfl, h⟩
  | _ => cases h

theorem fits_three {part : Part} (h : Fits work analysis 3 part) :
    ∃ summary, part = .lint summary ∧
      analysis.lintSummary? work.tools.isSome = some summary := by
  cases part with
  | lint summary => exact ⟨summary, rfl, h⟩
  | _ => cases h

/-- When the four succeed, they have come to the scores of the manifest, the usage of
the scripts, what the scanner found, and the summary of what the linter wrote. -/
theorem IsSound.outcome (h : IsSound work analysis) {parts : List Part}
    (ho : analysis.outcome? = some (.ok parts)) :
    ∃ scores entries summary,
      parts = [.scores scores, .usage (Script.usage work.files), .findings entries,
        .lint summary] ∧
      ManifestScores.ofJson (.object work.manifest) = .ok scores ∧
      analysis.findings? work.tools.isSome = some entries ∧
      analysis.lintSummary? work.tools.isSome = some summary := by
  obtain ⟨hlength, hfits⟩ := Join.Sound.outcome h ho
  match parts, hlength with
  | [first, second, third, fourth], _ =>
    obtain ⟨scores, rfl, hscores⟩ := fits_zero (hfits 0 first rfl)
    obtain rfl := fits_one (hfits 1 second rfl)
    obtain ⟨entries, rfl, hentries⟩ := fits_two (hfits 2 third rfl)
    obtain ⟨summary, rfl, hsummary⟩ := fits_three (hfits 3 fourth rfl)
    exact ⟨scores, entries, summary, rfl, hscores, hentries, hsummary⟩

end Analysis

end ExtensionAudit
