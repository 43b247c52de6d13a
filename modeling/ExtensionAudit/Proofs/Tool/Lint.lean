import ExtensionAudit.Auditor
import ExtensionAudit.Proofs.Lint
import ExtensionAudit.Proofs.Tool.Behavior
import Mathlib

/-!
# Tool — the linting that no caller is told about

What the linter writes is read and summed up. A blank output is a summary of nothing,
and what is no array is a fault of an external tool (`Lint.Ends`). Where it comes to no
summary, the fault is one of an external tool, unless the settings give the linter no
command, or one with a word that cannot be spelt for the system, or the messages of a
file are of the wrong shape (`Auditor.lint_untold_iff`).
-/

namespace ExtensionAudit

namespace Lint

/-! ## What comes of an output -/

/-- What an output comes to. -/
inductive Ends (output : Text) : Except Tool.Fault Summary → Prop
  | blank (h : Text.trim output = []) : Ends output (.ok .empty)
  | malformed {fault : Json.ReadFault} (hblank : Text.trim output ≠ [])
      (hread : Json.read output = .error fault) :
    Ends output (.error (.malformed "eslint" fault))
  | notArray {value : Json} (hblank : Text.trim output ≠ [])
      (hread : Json.read output = .ok value)
    (hkind : value.kind ≠ .array) : Ends output (.error .notArray)
  | summed {files : List Json} (hblank : Text.trim output ≠ [])
      (hread : Json.read output = .ok (.array files))
    (hgood : ∀ file ∈ files, ∀ problem, ¬ FileFault file problem) :
      Ends output (.ok (summaryOf files))
  | misshapen {before after : List Json} {file : Json} {problem : Json.Misuse}
      (hblank : Text.trim output ≠ [])
    (hread : Json.read output = .ok (.array (before ++ file :: after)))
    (hbefore : ∀ other ∈ before, ∀ problem, ¬ FileFault other problem)
      (hfile : FileFault file problem) :
    Ends output (.error (.misuse problem))

/-- An output that is an array of files, one of which has messages that cannot be
counted. -/
def IsMisshapen (output : Text) : Prop :=
  Text.trim output ≠ [] ∧
    ∃ files, Json.read output = .ok (.array files) ∧
    ∃ file ∈ files, ∃ problem, FileFault file problem

theorem lintSummary_ends (output : Text) : Ends output (Tool.lintSummary output) := by
  rw [Tool.lintSummary, Tool.document]
  by_cases hblank : Text.trim output = []
  · rw [hblank]
    exact .blank hblank
  · rw [if_neg (by simpa using hblank)]
    cases hread : Json.read output with
    | error fault => exact .malformed hblank hread
    | ok value =>
      cases value with
      | array files =>
        change Ends output ((summarize (.array files)).mapError .misuse)
        rw [summarize_eq]
        cases hfault : files.findSome? fileFault? with
        | none =>
          refine .summed hblank hread fun file hfile => fileFault?_eq_none_iff.mp ?_
          exact List.findSome?_eq_none_iff.mp hfault file hfile
        | some problem =>
          obtain ⟨before, file, after, rfl, hfile, hbefore⟩ :=
            List.findSome?_eq_some_iff.mp hfault
          exact .misshapen hblank hread (fun other hother =>
            fileFault?_eq_none_iff.mp (hbefore other hother))
            (fileFault?_eq_some_iff.mp hfile)
      | _ => exact .notArray hblank hread nofun

/-! ## What a run comes to -/

/-- What the run of the linter comes to, once its output is summed up. -/
def linted : Tool.Outcome → Except Fault Summary
  | .output t => (Tool.lintSummary t).mapError .tool
  | .fault fault => .error (.tool fault)
  | .cancelled => .error .cancelled

/-- A summary, or a fault that is one of an external tool. -/
def IsTold : Except Fault Summary → Prop
  | .ok _ => True
  | .error fault => fault.kind = .externalTool

/-- An output is summed up, or it has a fault of an external tool, or it is misshapen. -/
theorem linted_output (output : Text) :
    (IsTold (linted (.output output)) ∧ ¬ IsMisshapen output) ∨
      (IsMisshapen output ∧ ∃ problem, linted (.output output) =
        .error (.tool (.misuse problem))) := by
  have hends := lintSummary_ends output
  rw [linted]
  generalize Tool.lintSummary output = ending at hends
  cases hends with
  | blank h => exact .inl ⟨trivial, fun hbad => hbad.1 h⟩
  | malformed hblank hread =>
    refine .inl ⟨rfl, fun ⟨_, files, hfiles, _⟩ => ?_⟩
    cases hread.symm.trans hfiles
  | notArray hblank hread hkind =>
    refine .inl ⟨rfl, fun ⟨_, files, hfiles, _⟩ => hkind ?_⟩
    rw [Except.ok.inj (hread.symm.trans hfiles)]
    rfl
  | summed hblank hread hgood =>
    refine .inl ⟨trivial, fun ⟨_, files, hfiles, file, hmem, problem, hfile⟩ => ?_⟩
    cases hread.symm.trans hfiles
    exact hgood file hmem problem hfile
  | misshapen hblank hread hbefore hfile =>
    exact .inr ⟨⟨hblank, _, hread, _, by simp, _, hfile⟩, _, rfl⟩

theorem ne_of_isTold {result : Except Fault Summary} {fault : Fault} (h : IsTold result)
    (hkind : fault.kind ≠ .externalTool) : result ≠ .error fault := by
  rintro rfl
  exact hkind h

/-- What the run of the linter comes to: it is told, or there is no program, or its
command cannot be spelt, or the output is misshapen. -/
theorem linted_cases (p : Tool.Behavior) (terms : Tool.Terms) :
    (IsTold (linted (p.outcome terms)) ∧ terms.command ≠ [] ∧ terms.misspelling? = none ∧
      ¬ ∃ output, p.Writes terms output ∧ IsMisshapen output) ∨
    (terms.command = [] ∧ terms.misspelling? = none ∧
      (¬ ∃ output, p.Writes terms output ∧ IsMisshapen output) ∧
      linted (p.outcome terms) = .error (.tool .noProgram)) ∨
    (terms.command ≠ [] ∧ (¬ ∃ output, p.Writes terms output ∧ IsMisshapen output) ∧
      ∃ misspelling, terms.misspelling? = some misspelling ∧
        linted (p.outcome terms) = .error (.tool (.misspelt misspelling))) ∨
    ((∃ output, p.Writes terms output ∧ IsMisshapen output) ∧ terms.command ≠ [] ∧
      terms.misspelling? = none ∧
      ∃ problem, linted (p.outcome terms) = .error (.tool (.misuse problem))) :=
  Tool.Behavior.told_cases (fun _ => rfl) (fun _ hkind => hkind) linted_output p terms

end Lint

namespace Auditor

/-- Runs the linter on a directory, with nothing to cancel it, and sums up what it has
found. -/
def lint (auditor : Auditor) (directory : Path)
    (p : Tool.Behavior) : Option (Except Fault Lint.Summary) :=
  (auditor.run directory .eslint p).outcome?.map Lint.linted

/-- The linting comes to what the linter writes, if it does. -/
theorem lint_of_writes {auditor : Auditor} {directory : Path} {p : Tool.Behavior}
    {output : Text} (h : p.Writes (auditor.terms directory .eslint) output) :
    auditor.lint directory p = some ((Tool.lintSummary output).mapError .tool) := by
  rw [lint, run, p.outcome?_run, Tool.Behavior.outcome_eq_output_iff.mpr h]
  rfl

/-- **What no caller is told about a linting.** A linting always comes to a result. It
is a summary or a fault of an external tool, unless the settings give the linter no
command, or one with a word that cannot be spelt for the system, or it writes an array
with a file whose messages cannot be counted; and then the fault is that there is no
program to start, or what is wrong with the first such word, or what the first such file
is misused for. -/
theorem lint_untold_iff (settings : Settings) (rules : Text) (usesTools : Option Bool)
    (platform : Platform) (directory : Path) (p : Tool.Behavior) :
    ∃ result, (ofSettings settings rules usesTools platform).lint directory p =
      some result ∧
      (Lint.IsTold result ↔
        ¬ (settings .eslintCommand = [] ∨
          (∃ misspelling,
            ((ofSettings settings rules usesTools platform).terms directory
              .eslint).misspelling? = some misspelling) ∨
          ∃ output, p.Writes ((ofSettings settings rules usesTools platform).terms
            directory .eslint) output ∧
            Lint.IsMisshapen output)) ∧
      (result = .error (.tool .noProgram) ↔ settings .eslintCommand = []) ∧
      (∀ misspelling, result = .error (.tool (.misspelt misspelling)) ↔
        ((ofSettings settings rules usesTools platform).terms directory
          .eslint).misspelling? = some misspelling) ∧
      ((∃ problem, result = .error (.tool (.misuse problem))) ↔
        ∃ output, p.Writes ((ofSettings settings rules usesTools platform).terms
          directory .eslint) output ∧
          Lint.IsMisshapen output) ∧
      ∀ output, p.Writes ((ofSettings settings rules usesTools platform).terms directory
        .eslint) output →
        ∃ ending, Lint.Ends output ending ∧ result = ending.mapError .tool := by
  have hcommand : ((ofSettings settings rules usesTools platform).terms directory
      .eslint).command = [] ↔
      settings .eslintCommand = [] := List.map_eq_nil_iff
  rw [← hcommand]
  generalize hterms :
    (ofSettings settings rules usesTools platform).terms directory .eslint = terms
  have hends (output : Text) (hwrites : p.Writes terms output) :
      ∃ ending, Lint.Ends output ending ∧ Lint.linted (p.outcome terms) =
        ending.mapError .tool := by
    refine ⟨Tool.lintSummary output, Lint.lintSummary_ends output, ?_⟩
    rw [Tool.Behavior.outcome_eq_output_iff.mpr hwrites]
    rfl
  refine ⟨Lint.linted (p.outcome terms), ?_, ?_⟩
  · rw [lint, run, hterms, p.outcome?_run]
    rfl
  · rcases Lint.linted_cases p terms with ⟨htold, hprogram, hspelt, hgood⟩ |
      ⟨hprogram, hspelt, hgood, h⟩ |
      ⟨hprogram, hgood, misspelling, hmisspelt, h⟩ | ⟨hbad, hprogram, hspelt, problem, h⟩
    · have hnoProgram : Lint.linted (p.outcome terms) ≠ .error (.tool .noProgram) :=
        Lint.ne_of_isTold htold nofun
      have hmisspelt (misspelling : Path.Misspelling) :
          Lint.linted (p.outcome terms) ≠ .error (.tool (.misspelt misspelling)) :=
        Lint.ne_of_isTold htold nofun
      have hcounted (problem : Json.Misuse) : Lint.linted (p.outcome terms) ≠
          .error (.tool (.misuse problem)) :=
        Lint.ne_of_isTold htold nofun
      exact ⟨by simp [htold, hprogram, hspelt, hgood], by simp [hnoProgram, hprogram],
        by simp [hmisspelt, hspelt],
        by simp [hcounted, hgood], hends⟩
    · refine ⟨?_, ?_, ?_, ?_, hends⟩ <;> simp [h, hprogram, hspelt, hgood,
        Lint.IsTold, Fault.kind]
    · refine ⟨?_, ?_, ?_, ?_, hends⟩ <;> simp [h, hprogram, hmisspelt, hgood,
        Lint.IsTold, Fault.kind]
    · refine ⟨?_, ?_, ?_, ?_, hends⟩ <;> simp [h, hprogram, hspelt, hbad,
        Lint.IsTold, Fault.kind]

/-- A linter that writes this and exits with this code. -/
def linterOf (code : Int) (output : Text) : Tool.Behavior where
  refusal := none
  pace := .prompt
  remains := ⟨true, false⟩
  exit := ⟨code, Utf8.encode output, []⟩

/-- The usual terms for a linter that is run on a directory. -/
def usualLintTerms : Tool.Terms :=
  (ofSettings .default [] none .plain).terms (.ofText "/ext") .eslint

theorem linterOf_writes {code : Int} {output : Text}
    (hcode : code ∈ usualLintTerms.accepted)
    (houtput : Utf8.decodeLossy (Utf8.encode output) = output) :
    (linterOf code output).Writes usualLintTerms output where
  program := List.cons_ne_nil _ _
  spelt := by decide +kernel
  started := rfl
  inTime := by decide
  prompt := rfl
  accepted := hcode
  silent := .inr rfl
  output := houtput

/-- What is written of two files, of which the first is none. -/
def orderlyOutput : Text :=
  "[7, \x7b\"messages\": [\x7b\"ruleId\": \"no-eval\", \"severity\": 2\x7d, \x7b\x7d]\x7d]"

/-- That output is summed up, and callers are told of it. -/
theorem lint_untold_orderly :
    (linterOf 1 orderlyOutput).Writes usualLintTerms orderlyOutput ∧
      ∃ result ending,
        (ofSettings .default [] none .plain).lint (.ofText "/ext")
          (linterOf 1 orderlyOutput) = some result ∧
        Lint.Ends orderlyOutput ending ∧ result = ending.mapError .tool ∧
        result = .ok ⟨2, 1, 1, [("no-eval", 1), ("null", 1)]⟩ ∧ Lint.IsTold result := by
  have hwrites : (linterOf 1 orderlyOutput).Writes usualLintTerms orderlyOutput :=
    linterOf_writes (by decide) (by cbv)
  have hsummary : Tool.lintSummary orderlyOutput =
      .ok ⟨2, 1, 1, [("no-eval", 1), ("null", 1)]⟩ := by cbv
  have hlint := lint_of_writes hwrites
  rw [hsummary] at hlint
  obtain ⟨result, hresult, -, -, -, -, hends⟩ :=
    lint_untold_iff .default [] none .plain (.ofText "/ext") (linterOf 1 orderlyOutput)
  obtain ⟨ending, hending, hsame⟩ := hends orderlyOutput hwrites
  obtain rfl := Option.some.inj (hlint.symm.trans hresult)
  exact ⟨hwrites, _, ending, hlint, hending, hsame, rfl, trivial⟩

/-- What is written of a file whose messages are a number. -/
def numberOutput : Text := "[\x7b\"messages\": 5\x7d]"

/-- What is written of a file of whose messages one is a text. -/
def textOutput : Text := "[\x7b\"messages\": [\"a\"]\x7d]"

/-- Of the number and of the text no caller is told, although the linter ran and exited
as it should. -/
theorem lint_untold_number :
    ((linterOf 0 numberOutput).Writes usualLintTerms numberOutput ∧
      ∃ result, (ofSettings .default [] none .plain).lint (.ofText "/ext")
        (linterOf 0 numberOutput) = some result ∧
        result = .error (.tool (.misuse (.notIterable .int))) ∧ ¬ Lint.IsTold result) ∧
    (linterOf 1 textOutput).Writes usualLintTerms textOutput ∧
      ∃ result, (ofSettings .default [] none .plain).lint (.ofText "/ext")
        (linterOf 1 textOutput) = some result ∧
        result = .error (.tool (.misuse (.noAttribute .text "get"))) ∧
        ¬ Lint.IsTold result := by
  have hnumber : (linterOf 0 numberOutput).Writes usualLintTerms numberOutput :=
    linterOf_writes (by decide) (by cbv)
  have htext : (linterOf 1 textOutput).Writes usualLintTerms textOutput :=
    linterOf_writes (by decide) (by cbv)
  have hnumberSummary : Tool.lintSummary numberOutput =
      .error (.misuse (.notIterable .int)) := by cbv
  have htextSummary : Tool.lintSummary textOutput =
      .error (.misuse (.noAttribute .text "get")) := by cbv
  refine ⟨⟨hnumber, _, lint_of_writes hnumber, ?_, ?_⟩, htext, _,
    lint_of_writes htext, ?_, ?_⟩
  · rw [hnumberSummary]
    rfl
  · rw [hnumberSummary]
    exact fun h => by cases h
  · rw [htextSummary]
    rfl
  · rw [htextSummary]
    exact fun h => by cases h

end Auditor

end ExtensionAudit
