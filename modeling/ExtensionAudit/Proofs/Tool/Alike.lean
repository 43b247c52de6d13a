import ExtensionAudit.Proofs.Alike
import ExtensionAudit.Proofs.Spelling
import ExtensionAudit.Proofs.Tool.Run
import Mathlib.Data.List.Forall2

/-!
# Tool — runs that go alike

A tool that does the same in two directories comes to the same in both, and so do the
analyses that it is one of. The name of the directory is in the command that it is
called with, and may be in what it says; so it gets into faults, and nowhere else.
-/

namespace ExtensionAudit

/-! ## Joins -/

/-- Two tasks that were settled in the same way. -/
inductive Settlement.Alike {α β ε δ : Type} (values : α → β → Prop)
    (faults : ε → δ → Prop) :
    Settlement α ε → Settlement β δ → Prop
  | finished {a : α} {b : β} (h : values a b) :
      Alike values faults (.finished a) (.finished b)
  | failed {e : ε} {d : δ} (h : faults e d) : Alike values faults (.failed e) (.failed d)
  | cancelled : Alike values faults (.cancelled none) (.cancelled none)

/-- Two joins of tasks that went alike. -/
structure Join.Alike {α β ε δ : Type} (values : α → β → Prop) (faults : ε → δ → Prop)
    (join : Join α ε) (join' : Join β δ) : Prop where
  tasks :
    List.Forall₂ (Option.Rel (Settlement.Alike values faults)) join.tasks join'.tasks
  failure : Option.Rel faults join.failure join'.failure

section Lists

variable {α β : Type} {R : α → β → Prop} {list : List α} {list' : List β}

theorem rel_getElem? (h : List.Forall₂ R list list')
    (index : Nat) : Option.Rel R list[index]? list'[index]? := by
  induction h generalizing index with
  | nil => exact .none
  | cons hfirst _ ih =>
    cases index with
    | zero => exact .some hfirst
    | succ index => exact ih index

theorem forall₂_set (h : List.Forall₂ R list list') (index : Nat) {a : α} {b : β}
    (hab : R a b) :
    List.Forall₂ R (list.set index a) (list'.set index b) := by
  induction h generalizing index with
  | nil => exact .nil
  | cons hfirst hrest ih =>
    cases index with
    | zero => exact .cons hab hrest
    | succ index => exact .cons hfirst (ih index)

end Lists

namespace Join.Alike

variable {α β ε δ : Type} {values : α → β → Prop} {faults : ε → δ → Prop}
    {join : Join α ε} {join' : Join β δ}

theorem start (count : Nat) :
    Alike values faults (Join.start count) (Join.start count) := by
  refine ⟨?_, .none⟩
  induction count with
  | zero => exact .nil
  | succ count ih => exact .cons .none ih

/-- A failure was noted in both or in neither. -/
theorem isSome_failure (h : Alike values faults join join') :
    join.failure.isSome = join'.failure.isSome := by
  have hfailure := h.failure
  generalize join.failure = failure at hfailure
  generalize join'.failure = failure' at hfailure
  cases hfailure <;> rfl

theorem fail (h : Alike values faults join join') {e : ε} {d : δ} (hfault : faults e d) :
    Alike values faults (join.fail e) (join'.fail d) := by
  refine ⟨h.tasks, .some ?_⟩
  have hfailure := h.failure
  generalize join.failure = failure at hfailure
  generalize join'.failure = failure' at hfailure
  cases hfailure with
  | none => exact hfault
  | some hbefore => exact hbefore

theorem settle (h : Alike values faults join join') (index : Nat)
    {settlement : Settlement α ε} {settlement' : Settlement β δ}
    (hs : settlement.Alike values faults settlement') :
    Alike values faults (join.settle index settlement)
      (join'.settle index settlement') := by
  have htask := rel_getElem? h.tasks index
  unfold Join.settle
  generalize join.tasks[index]? = task at htask
  generalize join'.tasks[index]? = task' at htask
  cases htask with
  | none => exact h
  | some htask =>
    cases htask with
    | some _ => exact h
    | none =>
      have hset {s : Settlement α ε} {s' : Settlement β δ}
          (hs : s.Alike values faults s') :
          Alike values faults { join with tasks := join.tasks.set index (some s) }
            { join' with tasks := join'.tasks.set index (some s') } :=
        ⟨forall₂_set h.tasks index (.some hs), h.failure⟩
      cases hs with
      | finished hvalue => exact hset (.finished hvalue)
      | failed hfault => exact (hset (.failed hfault)).fail hfault
      | cancelled =>
        dsimp only
        rw [h.isSome_failure]
        split
        · exact hset .cancelled
        · exact h

/-- Joins that went alike come to the same, once they come to anything. -/
theorem outcome? (h : Alike values faults join join') :
    Option.Rel (Corresponds faults (List.Forall₂ values)) join.outcome?
      join'.outcome? := by
  have hsettled : join.isSettled = join'.isSettled := by
    rw [isSettled, isSettled]
    obtain ⟨htasks, -⟩ := h
    generalize join.tasks = tasks at htasks
    generalize join'.tasks = tasks' at htasks
    induction htasks with
    | nil => rfl
    | cons hfirst _ ih =>
      rw [List.all_cons, List.all_cons, ih]
      cases hfirst <;> rfl
  have hvalues : List.Forall₂ values (join.tasks.filterMap value?)
      (join'.tasks.filterMap value?) := by
    refine List.rel_filterMap (fun task task' htask => ?_) h.tasks
    cases htask with
    | none => exact .none
    | some hs =>
      cases hs with
      | finished hvalue => exact .some hvalue
      | failed _ => exact .none
      | cancelled => exact .none
  rw [Join.outcome?, Join.outcome?, hsettled]
  split
  · have hfailure := h.failure
    generalize join.failure = failure at hfailure
    generalize join'.failure = failure' at hfailure
    cases hfailure with
    | none => exact .some (.ok hvalues)
    | some hfault => exact .some (.error hfault)
  · exact .none

end Join.Alike

/-! ## Faults -/

/-- Two texts that differ only in the name of a directory, wherever that stands in
them. -/
def Text.Alike (path path' : Path) (t t' : Text) : Prop :=
  ∃ parts : List Text, t = Text.join path.text parts ∧ t' = Text.join path'.text parts

theorem Text.Alike.eq {path : Path} {t t' : Text}
    (h : t.Alike path path t') : t = t' := by
  obtain ⟨parts, rfl, rfl⟩ := h
  rfl

/-- Two faults of one tool that was called for two directories. A program that cannot be
started is a part of the command, which may have the name of the directory in it; and
where a word cannot be spelt, that may be further on in it with the one name than with
the other. -/
inductive Tool.Fault.Alike (path path' : Path) : Tool.Fault → Tool.Fault → Prop
  | same (fault : Tool.Fault) : Alike path path' fault fault
  | notStarted (name : Text) (refusal : Refusal) (part rules : Text)
      {program program' : Text}
    (h : Tool.fill [part] path rules = [program])
      (h' : Tool.fill [part] path' rules = [program']) :
    Alike path path' (.notStarted name ⟨refusal,
      program⟩) (.notStarted name ⟨refusal, program'⟩)
  | misspelt (template : List Text) (rules : Text)
      {misspelling misspelling' : Path.Misspelling}
    (h : (Tool.fill template path rules).findSome? Path.misspellingOf? = some misspelling)
    (h' : (Tool.fill template path' rules).findSome? Path.misspellingOf? =
      some misspelling') :
    Alike path path' (.misspelt misspelling) (.misspelt misspelling')
  | badExit (name : Text) (code : Int) {diagnostics diagnostics' : Text}
    (h : diagnostics.Alike path path' diagnostics') :
    Alike path path' (.badExit name code diagnostics) (.badExit name code diagnostics')
  | complaint (name : Text) {diagnostics diagnostics' : Text}
      (h : diagnostics.Alike path path' diagnostics') :
    Alike path path' (.complaint name diagnostics) (.complaint name diagnostics')

/-- Two faults that differ only in the name of a directory. -/
inductive Fault.Alike (path path' : Path) : Fault → Fault → Prop
  | same (fault : Fault) : Alike path path' fault fault
  | archive {fault fault' : Archive.Fault} (h : fault.Alike path path' fault') :
    Alike path path' (.archive fault) (.archive fault')
  | manifest {fault fault' : Manifest.Fault} (h : fault.Alike path path' fault') :
    Alike path path' (.manifest fault) (.manifest fault')
  | script {fault fault' : Script.Fault} (h : fault.Alike path path' fault') :
    Alike path path' (.script fault) (.script fault')
  | tool {fault fault' : Tool.Fault} (h : fault.Alike path path' fault') :
    Alike path path' (.tool fault) (.tool fault')

/-- With one directory there is no difference left. -/
theorem Fault.Alike.eq {path : Path} {fault fault' : Fault}
    (h : fault.Alike path path fault') : fault = fault' := by
  cases h with
  | same => rfl
  | archive h =>
    cases h with
    | same => rfl
    | unwritable h => rw [h.eq]
  | manifest h =>
    cases h with
    | same => rfl
    | absent => rfl
    | unreachable h => rw [h.eq]
    | unreadable h => rw [h.eq]
  | script h =>
    cases h with
    | unreadable name h => rw [h.eq]
    | tooDeep => rfl
  | tool h =>
    cases h with
    | same => rfl
    | notStarted name refusal part rules h h' =>
      cases h.symm.trans h'
      rfl
    | misspelt template rules h h' =>
      cases h.symm.trans h'
      rfl
    | badExit name code h => rw [h.eq]
    | complaint name h => rw [h.eq]

/-! ## Tools -/

/-- Two results of one analysis that the report says the same of. -/
inductive Part.Alike : Part → Part → Prop
  | same (part : Part) : Alike part part
  | findings {entries entries' : List Json}
    (h : Score.libraries (.array entries) = Score.libraries (.array entries')) :
    Alike (.findings entries) (.findings entries')

/-- How a task of the analyses is settled, for two directories. -/
abbrev Analysis.SettledAlike (path path' : Path) : Settlement Part Fault →
    Settlement Part Fault → Prop :=
  Settlement.Alike Part.Alike (Fault.Alike path path')

theorem Analysis.settledAlike_settlement {path path' : Path} {x y : Except Fault Part}
    (h : Corresponds (Fault.Alike path path') Part.Alike x y) :
    SettledAlike path path' (settlement x) (settlement y) := by
  cases h with
  | ok h => exact .finished h
  | error h => exact .failed h

/-- What has nothing to do with a directory comes to the same. -/
theorem Analysis.corresponds_refl (path path' : Path) (x : Except Fault Part) :
    Corresponds (Fault.Alike path path') Part.Alike x x := by
  cases x with
  | ok part => exact .ok (.same part)
  | error fault => exact .error (.same fault)

theorem Analysis.settledAlike_refl (path path' : Path) (x : Except Fault Part) :
    SettledAlike path path' (settlement x) (settlement x) :=
  settledAlike_settlement (corresponds_refl path path' x)

namespace Tool

/-- What a process says on its error stream. -/
def Exit.diagnosis (exit : Exit) : Text := Text.trim (Utf8.decodeLossy exit.diagnostics)

/-- Two exits of one tool that was called for two directories: the codes are the same,
what is said on the error stream differs only in the name of the directory, and the
output comes to the same. -/
structure Exit.Alike (tool : Tool) (path path' : Path) (exit exit' : Exit) : Prop where
  code : exit.code = exit'.code
  silent : exit.diagnosis = [] ↔ exit'.diagnosis = []
  diagnosis : exit.diagnosis.Alike path path' exit'.diagnosis
  output : Corresponds (ExtensionAudit.Fault.Alike path path') Part.Alike
    (Analysis.ofOutput tool (Utf8.decodeLossy exit.output))
      (Analysis.ofOutput tool (Utf8.decodeLossy exit'.output))

/-- Two events of the runs of one tool for two directories. -/
inductive Event.Alike (tool : Tool) (path path' : Path) : Event → Event → Prop
  | same (event : Event) : Alike tool path path' event event
  | exited {exit exit' : Exit} (h : exit.Alike tool path path' exit') :
    Alike tool path path' (.exited exit) (.exited exit')

/-- What a process does is the same in two directories with the same contents. -/
def Deed.Alike (tool : Tool) (path path' : Path) (deed : Deed) : Prop :=
  ∀ contents, (deed path contents).1 = (deed path' contents).1 ∧
    Option.Rel (Event.Alike tool path path') (deed path contents).2
      (deed path' contents).2

/-- Two runs of one tool for two directories, just as far, or ended with what comes to
the same. -/
inductive Phase.Alike (tool : Tool) (path path' : Path) : Phase → Phase → Prop
  | same (phase : Phase) : Alike tool path path' phase phase
  | ended {outcome outcome' : Outcome}
    (h : Analysis.SettledAlike path path' (Analysis.ofOutcome tool outcome)
      (Analysis.ofOutcome tool outcome')) :
    Alike tool path path' (.ended outcome) (.ended outcome')

structure Run.Alike (tool : Tool) (path path' : Path) (run run' : Run) : Prop where
  phase : run.phase.Alike tool path path' run'.phase
  standing : run.standing = run'.standing
  acts : run.acts = run'.acts

/-- The terms of one tool for two directories. -/
structure Terms.Alike (path path' : Path) (terms terms' : Terms) : Prop where
  name : terms.name = terms'.name
  command : ∃ template rules, terms.command = fill template path rules ∧
    terms'.command = fill template path' rules
  misspelt : terms.misspelling?.isSome = terms'.misspelling?.isSome
  limit : terms.limit = terms'.limit
  accepted : terms.accepted = terms'.accepted
  allowsDiagnostics : terms.allowsDiagnostics = terms'.allowsDiagnostics

end Tool

theorem Auditor.SpellsAlike.terms {auditor : Auditor} {path path' : Path}
    (h : auditor.SpellsAlike path path') (tool : Tool) :
    (auditor.terms path tool).Alike path path' (auditor.terms path' tool) := by
  refine ⟨rfl, ⟨auditor.commands tool, auditor.rules, ?_⟩, h tool, rfl, rfl, rfl⟩
  cases tool <;> exact ⟨rfl, rfl⟩

namespace Tool

variable {tool : Tool} {path path' : Path} {terms terms' : Terms} {run run' : Run}
    {event event' : Event}

theorem settledAlike_ofOutcome (tool : Tool) (path path' : Path) (outcome : Outcome) :
    Analysis.SettledAlike path path' (Analysis.ofOutcome tool outcome)
      (Analysis.ofOutcome tool outcome) := by
  cases outcome with
  | output t => exact Analysis.settledAlike_refl path path' _
  | fault fault => exact .failed (.same _)
  | cancelled => exact .cancelled

namespace Terms.Alike

theorem interruptedOutcome (h : terms.Alike path path' terms') (cause : Interruption) :
    terms.interruptedOutcome cause = terms'.interruptedOutcome cause := by
  cases cause with
  | expiry => rw [Terms.interruptedOutcome, Terms.interruptedOutcome, h.name, h.limit]
  | cancellation => rfl

theorem verdict_same (h : terms.Alike path path' terms')
    (exit : Exit) : terms.verdict exit = terms'.verdict exit := by
  rw [Terms.verdict, Terms.verdict, h.name, h.accepted, h.allowsDiagnostics]

/-- Exits that are alike come to the same. -/
theorem verdict (h : terms.Alike path path' terms') {exit exit' : Exit}
    (hexit : exit.Alike tool path path' exit') :
    Analysis.SettledAlike path path' (Analysis.ofOutcome tool (terms.verdict exit))
      (Analysis.ofOutcome tool (terms'.verdict exit')) := by
  have hsilent : (exit.diagnosis != []) = (exit'.diagnosis != []) := by
    rw [Bool.eq_iff_iff, bne_iff_ne, bne_iff_ne, Ne, Ne, hexit.silent]
  have hdiagnosis (exit : Exit) : Text.trim (Utf8.decodeLossy exit.diagnostics) =
      exit.diagnosis := rfl
  simp only [Terms.verdict, hdiagnosis, h.name, h.accepted, h.allowsDiagnostics,
    hexit.code, hsilent]
  split
  · exact .failed (.tool (.badExit _ _ hexit.diagnosis))
  · split
    · exact .failed (.tool (.complaint _ hexit.diagnosis))
    · exact Analysis.settledAlike_settlement hexit.output

end Terms.Alike

namespace Run.Alike

theorem refl (tool : Tool) (path path' : Path)
    (run : Run) : run.Alike tool path path' run := ⟨.same _, rfl, rfl⟩

/-- Either process is started, or neither. -/
theorem start (hterms : terms.Alike path path' terms') (tool : Tool) (run : Run)
    (refusal : Option Refusal) :
    (run.start terms refusal).Alike tool path path' (run.start terms' refusal) := by
  obtain ⟨template, rules, hcommand, hcommand'⟩ := hterms.command
  have hmisspelt := hterms.misspelt
  have hfound (misspelling misspelling' : Path.Misspelling)
      (h : terms.misspelling? = some misspelling)
      (h' : terms'.misspelling? = some misspelling') :
      ExtensionAudit.Fault.Alike path path' (.tool (.misspelt misspelling))
        (.tool (.misspelt misspelling')) := by
    rw [Terms.misspelling?, hcommand] at h
    rw [Terms.misspelling?, hcommand'] at h'
    exact .tool (.misspelt template rules h h')
  cases template with
  | nil =>
    simp only [Run.start, hcommand, hcommand', fill, List.map_nil]
    exact ⟨.same _, rfl, rfl⟩
  | cons part rest =>
    simp only [Run.start, hcommand, hcommand', fill, List.map_cons, hterms.name]
    generalize terms.misspelling? = misspelt at hmisspelt hfound
    generalize terms'.misspelling? = misspelt' at hmisspelt hfound
    cases misspelt with
    | some misspelling =>
      cases misspelt' with
      | none => cases hmisspelt
      | some misspelling' => exact ⟨.ended (.failed (hfound _ _ rfl rfl)), rfl, rfl⟩
    | none =>
      cases misspelt' with
      | some misspelling' => cases hmisspelt
      | none =>
        cases refusal with
        | none => exact ⟨.same _, rfl, rfl⟩
        | some refusal =>
          exact ⟨.ended (.failed (.tool (.notStarted _ refusal part rules rfl rfl))),
            rfl, rfl⟩

/-- What happens to a run depends on the directory only where the run begins. -/
theorem step_same (hterms : terms.Alike path path' terms') (tool : Tool) (run : Run)
    (event : Event) :
    (run.step terms event).Alike tool path path' (run.step terms' event) := by
  obtain ⟨phase, standing, acts⟩ := run
  cases phase with
  | ready =>
    cases event with
    | started => exact start hterms tool _ none
    | refused refusal => exact start hterms tool _ (some refusal)
    | interrupted cause remains => cases cause <;> exact .refl ..
    | _ => exact .refl ..
  | waiting =>
    cases event with
    | exited exit =>
      simp only [Run.step, hterms.verdict_same exit]
      exact .refl ..
    | interrupted cause remains =>
      simp only [Run.step, Run.giveUp, hterms.interruptedOutcome cause]
      exact .refl ..
    | _ => exact .refl ..
  | reaping cause =>
    cases event with
    | reaped =>
      simp only [Run.step, hterms.interruptedOutcome cause]
      exact .refl ..
    | interrupted other remains => cases other <;> exact .refl ..
    | _ => exact .refl ..
  | ended outcome =>
    rw [Run.step_of_outcome rfl, Run.step_of_outcome rfl]
    exact .refl ..

/-- What happens to both runs does the same to both. -/
theorem step (h : run.Alike tool path path' run') (hterms : terms.Alike path path' terms')
    (hevent : event.Alike tool path path' event') :
    (run.step terms event).Alike tool path path' (run'.step terms' event') := by
  obtain ⟨phase, standing, acts⟩ := run
  obtain ⟨phase', standing', acts'⟩ := run'
  obtain ⟨hphase, rfl, rfl⟩ := h
  dsimp only at hphase
  cases hphase with
  | ended houtcome =>
    rw [Run.step_of_outcome rfl, Run.step_of_outcome rfl]
    exact ⟨.ended houtcome, rfl, rfl⟩
  | same =>
    cases hevent with
    | same => exact step_same hterms tool _ event
    | exited hexit =>
      -- Only a run that waits for its process takes note of the exit.
      cases phase with
      | waiting => exact ⟨.ended (hterms.verdict hexit), rfl, rfl⟩
      | _ => exact .refl ..

theorem outcome? (h : run.Alike tool path path' run') :
    Option.Rel (fun outcome outcome' =>
      Analysis.SettledAlike path path' (Analysis.ofOutcome tool outcome)
        (Analysis.ofOutcome tool outcome'))
      run.outcome? run'.outcome? := by
  have hphase := h.phase
  rw [Run.outcome?, Run.outcome?]
  generalize run.phase = phase at hphase
  generalize run'.phase = phase' at hphase
  cases hphase with
  | ended houtcome => exact .some houtcome
  | same =>
    cases phase with
    | ended outcome => exact .some (settledAlike_ofOutcome tool path path' outcome)
    | _ => exact .none

end Run.Alike

end Tool

/-! ## Analyses -/

/-- What an auditor analyses in a directory. -/
def Auditor.workload (auditor : Auditor) (path : Path) (manifest : List (Text × Json))
    (files : Entries Text) :
    Workload :=
  ⟨manifest, files, if auditor.usesTools then some (auditor.terms path) else none⟩

namespace Analysis

variable {auditor : Auditor} {path path' : Path}

/-- Two analyses under way in two directories, just as far. -/
structure Alike (path path' : Path) (analysis analysis' : Analysis) : Prop where
  runs : ∀ tool, (analysis.run tool).Alike tool path path' (analysis'.run tool)
  join : analysis.join.Alike Part.Alike (Fault.Alike path path') analysis'.join

/-- Two events of the analyses in two directories. -/
inductive Event.Alike (path path' : Path) : Event → Event → Prop
  | same (event : Event) : Alike path path' event event
  | tool (tool : Tool) {event event' : Tool.Event}
      (h : event.Alike tool path path' event') :
    Alike path path' (.tool tool event) (.tool tool event')

namespace Alike

variable {analysis analysis' : Analysis}

theorem settle (h : analysis.Alike path path' analysis')
    (index : Nat) {settlement settlement' : Settlement Part Fault}
    (hs : SettledAlike path path' settlement settlement') :
    (analysis.settle index settlement).Alike path path'
      (analysis'.settle index settlement') := by
  refine ⟨fun tool => ?_, h.join.settle index hs⟩
  cases tool with
  | retire => exact h.runs .retire
  | eslint => exact h.runs .eslint

theorem setRun (h : analysis.Alike path path' analysis') (tool : Tool)
    {run run' : Tool.Run} (hrun : run.Alike tool path path' run') :
    (analysis.setRun tool run).Alike path path' (analysis'.setRun tool run') := by
  cases tool with
  | retire =>
    refine ⟨fun other => ?_, h.join⟩
    cases other with
    | retire => exact hrun
    | eslint => exact h.runs .eslint
  | eslint =>
    refine ⟨fun other => ?_, h.join⟩
    cases other with
    | retire => exact h.runs .retire
    | eslint => exact hrun

theorem start (auditor : Auditor) (path path' : Path) (manifest : List (Text × Json))
    (files : Entries Text) :
    (Analysis.start (auditor.workload path manifest files)).Alike path path'
      (Analysis.start (auditor.workload path' manifest files)) := by
  have hready : Alike path path' ⟨.ready, .ready, .start 4⟩ ⟨.ready, .ready,
      .start 4⟩ := by
    refine ⟨fun tool => ?_, .start 4⟩
    cases tool <;> exact .refl ..
  rw [Analysis.start, Analysis.start, Auditor.workload, Auditor.workload]
  cases auditor.usesTools with
  | true => exact hready
  | false => exact (hready.settle 2 (.finished (.same _))).settle 3 (.finished (.same _))

theorem stepTool (h : analysis.Alike path path' analysis') {terms terms' : Tool.Terms}
    (hterms : terms.Alike path path' terms') (tool : Tool) {event event' : Tool.Event}
    (hevent : event.Alike tool path path' event') :
    (analysis.stepTool terms tool event).Alike path path'
      (analysis'.stepTool terms' tool event') := by
  have hcancels : isCancellation event = isCancellation event' := by
    cases hevent with
    | same => rfl
    | exited _ => rfl
  have hfailure : analysis.join.failure.isNone = analysis'.join.failure.isNone := by
    rw [← Option.not_isSome, ← Option.not_isSome, h.join.isSome_failure]
  unfold Analysis.stepTool
  rw [hcancels, hfailure]
  split
  · exact h
  · have hrun := (h.runs tool).step hterms hevent
    have houtcome := hrun.outcome?
    dsimp only
    generalize ((analysis.run tool).step terms event).outcome? = outcome at houtcome
    generalize ((analysis'.run tool).step terms' event').outcome? = outcome' at houtcome
    cases houtcome with
    | none => exact h.setRun tool hrun
    | some hsettled => exact (h.setRun tool hrun).settle (index tool) hsettled

/-- What happens to both analyses does the same to both. -/
theorem step (h : analysis.Alike path path' analysis')
    (hspelling : auditor.SpellsAlike path path') (manifest : List (Text × Json))
    (files : Entries Text) {event event' : Event}
    (hevent : event.Alike path path' event') :
    (analysis.step (auditor.workload path manifest files) event).Alike path path'
      (analysis'.step (auditor.workload path' manifest files) event') := by
  have htool (tool : Tool) {event event' : Tool.Event}
      (hevent : event.Alike tool path path' event') :
      (analysis.step (auditor.workload path manifest files) (.tool tool event)).Alike
        path path'
        (analysis'.step (auditor.workload path' manifest files) (.tool tool event')) := by
    simp only [Analysis.step, Auditor.workload]
    cases auditor.usesTools with
    | true => exact h.stepTool (hspelling.terms tool) tool hevent
    | false => exact h
  cases hevent with
  | tool tool hevent => exact htool tool hevent
  | same =>
    cases event with
    | scored => exact h.settle 0 (settledAlike_refl path path' _)
    | surveyed => exact h.settle 1 (.finished (.same _))
    | dropped => exact (h.settle 0 .cancelled).settle 1 .cancelled
    | tool tool event => exact htool tool (.same event)
    | broken index fault => exact h.settle index (.failed (.same fault))
    | aborted => exact ⟨h.runs, ⟨h.join.tasks, .some (.same _)⟩⟩

end Alike

end Analysis

end ExtensionAudit
