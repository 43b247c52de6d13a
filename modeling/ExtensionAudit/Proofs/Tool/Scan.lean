import ExtensionAudit.Auditor
import ExtensionAudit.Proofs.Score.Library
import ExtensionAudit.Proofs.Tool.Behavior
import ExtensionAudit.Settings.Loading
import Mathlib

/-!
# Tool — the scans that no caller is told about

What the scanner writes is read and scored. Where that comes to no score, the fault is
one of an external tool, unless the settings give the scanner no command, or one with a
word that cannot be spelt for the system, or the findings are of the wrong shape
somewhere below the files that they are listed by (`Auditor.scan_untold_iff`).
-/

namespace ExtensionAudit

namespace Tool

/-! ## The findings -/

theorem kind_of_findings {output : Text} {fault : Fault}
    (h : findings output = .error fault) :
    (ExtensionAudit.Fault.tool fault).kind = .externalTool := by
  rw [findings, document] at h
  cases hread : Json.read output with
  | error problem =>
    rw [hread] at h
    cases h
    rfl
  | ok value =>
    rw [hread] at h
    cases value with
    | array entries => cases h
    | object members =>
      change (if (!(Json.member "data" members).isTruthy) = true then _ else _) = _ at h
      split at h
      · cases h
      · split at h
        · cases h
        · cases h
          rfl
    | _ =>
      cases h
      rfl

/-- What the output of the scanner comes to, once it is scored. -/
def scored : Outcome → Except ExtensionAudit.Fault Score.LibraryScore
  | .output t => do
    let entries ← (findings t).mapError .tool
    (Score.libraries (.array entries)).mapError .misuse
  | .fault fault => .error (.tool fault)
  | .cancelled => .error .cancelled

/-- A score, or a fault that is one of an external tool. -/
def IsTold : Except ExtensionAudit.Fault Score.LibraryScore → Prop
  | .ok _ => True
  | .error fault => fault.kind = .externalTool

/-- An output with the findings of files of which one lists something in the wrong
shape. -/
def IsMisshapen (output : Text) : Prop :=
  ∃ entries, findings output = .ok entries ∧ ∃ file ∈ entries, Score.IsBadFile file

/-- An output is scored, or it has a fault of an external tool, or it is misshapen. -/
theorem scored_output (output : Text) :
    (IsTold (scored (.output output)) ∧ ¬ IsMisshapen output) ∨
      (IsMisshapen output ∧ ∃ kind, scored (.output output) =
        .error (.misuse (.notIterable kind))) := by
  cases hfindings : findings output with
  | error fault =>
    have hscored : scored (.output output) = .error (.tool fault) := by
      rw [scored, hfindings]; rfl
    rw [hscored]
    refine .inl ⟨kind_of_findings hfindings, fun ⟨entries, hentries, _⟩ => ?_⟩
    cases hfindings.symm.trans hentries
  | ok entries =>
    have hmisshapen : IsMisshapen output ↔ ∃ file ∈ entries, Score.IsBadFile file := by
      simp [IsMisshapen, hfindings]
    have hscored : scored (.output output) =
        (Score.libraries (.array entries)).mapError .misuse := by
      rw [scored, hfindings]; rfl
    rw [hmisshapen, hscored]
    have hscore := Score.libraries_failsJustIf entries
    cases hresult : Score.libraries (.array entries) with
    | ok total =>
      rw [hresult] at hscore
      cases hscore with
      | ok _ hgood => exact .inl ⟨trivial, hgood⟩
    | error misuse =>
      rw [hresult] at hscore
      cases hscore with
      | error _ hbad hkind =>
        obtain ⟨kind, rfl⟩ := hkind
        exact .inr ⟨hbad, kind, rfl⟩

theorem ne_of_isTold {result : Except ExtensionAudit.Fault Score.LibraryScore}
    {fault : ExtensionAudit.Fault} (h : IsTold result)
    (hkind : fault.kind ≠ .externalTool) : result ≠ .error fault := by
  rintro rfl
  exact hkind h

/-- What the run of the scanner comes to: it is told, or there is no program, or its
command cannot be spelt, or the output is misshapen. -/
theorem scored_cases (p : Behavior) (terms : Terms) :
    (IsTold (scored (p.outcome terms)) ∧ terms.command ≠ [] ∧ terms.misspelling? = none ∧
      ¬ ∃ output, p.Writes terms output ∧ IsMisshapen output) ∨
    (terms.command = [] ∧ terms.misspelling? = none ∧
      (¬ ∃ output, p.Writes terms output ∧ IsMisshapen output) ∧
      scored (p.outcome terms) = .error (.tool .noProgram)) ∨
    (terms.command ≠ [] ∧ (¬ ∃ output, p.Writes terms output ∧ IsMisshapen output) ∧
      ∃ misspelling, terms.misspelling? = some misspelling ∧
        scored (p.outcome terms) = .error (.tool (.misspelt misspelling))) ∨
    ((∃ output, p.Writes terms output ∧ IsMisshapen output) ∧ terms.command ≠ [] ∧
      terms.misspelling? = none ∧
      ∃ kind, scored (p.outcome terms) = .error (.misuse (.notIterable kind))) :=
  Behavior.told_cases (fun _ => rfl) (fun _ hkind => hkind) scored_output p terms

end Tool

namespace Auditor

/-- Runs the scanner on a directory, with nothing to cancel it, and scores what it has
found. -/
def scan (auditor : Auditor) (directory : Path) (p : Tool.Behavior) :
    Option (Except Fault Score.LibraryScore) :=
  (auditor.run directory .retire p).outcome?.map Tool.scored

theorem command_eq_nil_iff (auditor : Auditor) (directory : Path) :
    (auditor.terms directory .retire).command = [] ↔ auditor.commands .retire = [] :=
  List.map_eq_nil_iff

/-- **What no caller is told about a scan.** A scan always comes to a result. It is a
score or a fault of an external tool, unless the settings give the scanner no command,
or one with a word that cannot be spelt for the system, or its findings are misshapen;
and then the fault is that there is no program to start, or what is wrong with the first
such word, or that something cannot be listed. -/
theorem scan_untold_iff (settings : Settings) (rules : Text) (usesTools : Option Bool)
    (platform : Platform) (directory : Path) (p : Tool.Behavior) :
    ∃ result, (ofSettings settings rules usesTools platform).scan directory p =
      some result ∧
      (Tool.IsTold result ↔
        ¬ (settings .retireCommand = [] ∨
          (∃ misspelling,
            ((ofSettings settings rules usesTools platform).terms directory
              .retire).misspelling? = some misspelling) ∨
          ∃ output, p.Writes ((ofSettings settings rules usesTools platform).terms
            directory .retire) output ∧
            Tool.IsMisshapen output)) ∧
      (result = .error (.tool .noProgram) ↔ settings .retireCommand = []) ∧
      (∀ misspelling, result = .error (.tool (.misspelt misspelling)) ↔
        ((ofSettings settings rules usesTools platform).terms directory
          .retire).misspelling? = some misspelling) ∧
      ((∃ kind, result = .error (.misuse (.notIterable kind))) ↔
        ∃ output, p.Writes ((ofSettings settings rules usesTools platform).terms
          directory .retire) output ∧
          Tool.IsMisshapen output) := by
  have hcommand :=
    (ofSettings settings rules usesTools platform).command_eq_nil_iff directory
  change _ ↔ settings .retireCommand = [] at hcommand
  rw [← hcommand]
  generalize hterms :
    (ofSettings settings rules usesTools platform).terms directory .retire = terms
  refine ⟨Tool.scored (p.outcome terms), ?_, ?_⟩
  · rw [scan, run, hterms, p.outcome?_run]
    rfl
  · rcases Tool.scored_cases p terms with ⟨htold, hprogram, hspelt, hgood⟩ |
      ⟨hprogram, hspelt, hgood, h⟩ |
      ⟨hprogram, hgood, misspelling, hmisspelt, h⟩ | ⟨hbad, hprogram, hspelt, kind, h⟩
    · have hnoProgram : Tool.scored (p.outcome terms) ≠ .error (.tool .noProgram) :=
        Tool.ne_of_isTold htold nofun
      have hmisspelt (misspelling : Path.Misspelling) :
          Tool.scored (p.outcome terms) ≠ .error (.tool (.misspelt misspelling)) :=
        Tool.ne_of_isTold htold nofun
      have hlistable (kind : Json.Kind) :
          Tool.scored (p.outcome terms) ≠ .error (.misuse (.notIterable kind)) :=
        Tool.ne_of_isTold htold nofun
      simp [htold, hprogram, hspelt, hgood, hnoProgram, hmisspelt, hlistable]
    · simp [h, hprogram, hspelt, hgood, Tool.IsTold, Fault.kind]
    · simp [h, hprogram, hmisspelt, hgood, Tool.IsTold, Fault.kind]
    · simp [h, hprogram, hspelt, hbad, Tool.IsTold, Fault.kind]

/-- A scanner that writes of a file whose results are a number. -/
def countingScanner : Tool.Behavior where
  refusal := none
  pace := .prompt
  remains := ⟨true, false⟩
  exit := ⟨0, Utf8.encode "[\x7b\"results\": 5\x7d]", []⟩

/-- A command of one word that is a surrogate, and one of a word that ends in a null
character. -/
def misspeltCommands : List (Text × List Text × Path.Misspelling) :=
  [("[\"\\ud800\"]", [[.ofNat 0xD800]], .surrogates ⟨0, [.ofNat 0xD800]⟩),
    ("[\"a\\u0000\"]", [['a', '\x00']], .nullCharacter)]

/-- With that scanner nobody is told why there is no score, and neither with a command
for it that the environment sets to be empty, or to have a word that cannot be spelt. -/
theorem scan_untold_counting :
    (∃ result, (ofSettings .default [] none .plain).scan (.ofText "/ext")
      countingScanner = some result ∧
      result = .error (.misuse (.notIterable .int)) ∧ ¬ Tool.IsTold result) ∧
    (∃ settings result,
      Settings.load .optional [(Setting.retireCommand.environmentName, "[]")] .empty =
        .ok settings ∧
      (ofSettings settings [] none .plain).scan (.ofText "/ext") countingScanner =
        some result ∧
      result = .error (.tool .noProgram) ∧ ¬ Tool.IsTold result) ∧
    ∀ written words misspelling, (written, words, misspelling) ∈ misspeltCommands →
      ∃ settings result,
      Settings.load .optional [(Setting.retireCommand.environmentName, written)]
        .empty = .ok settings ∧
      settings .retireCommand = words ∧
      (ofSettings settings [] none .plain).scan (.ofText "/ext") countingScanner =
        some result ∧
      result = .error (.tool (.misspelt misspelling)) ∧ ¬ Tool.IsTold result := by
  have hwrites : countingScanner.Writes
      ((ofSettings .default [] none .plain).terms (.ofText "/ext") .retire)
      "[\x7b\"results\": 5\x7d]" :=
    { program := List.cons_ne_nil _ _
      spelt := by decide +kernel
      started := rfl
      inTime := by decide
      prompt := rfl
      accepted := by decide
      silent := .inl (by cbv)
      output := by cbv }
  have hfindings : Tool.findings "[\x7b\"results\": 5\x7d]" =
      .ok [.object [("results", .int 5)]] := by cbv
  have hscored : Tool.scored (.output "[\x7b\"results\": 5\x7d]") =
      .error (.misuse (.notIterable .int)) := by
    rw [Tool.scored, hfindings]
    rfl
  refine ⟨⟨.error (.misuse (.notIterable .int)), ?_, rfl, fun h => by cases h⟩,
    ⟨Settings.default.put .retireCommand [], .error (.tool .noProgram), ?_, rfl, rfl,
      fun h => by cases h⟩,
    fun written words misspelling hmem => ?_⟩
  · rw [scan, run, Tool.Behavior.outcome?_run,
      Tool.Behavior.outcome_eq_output_iff.mpr hwrites, Option.map_some, hscored]
  · cbv
  · refine ⟨Settings.default.put .retireCommand words,
      .error (.tool (.misspelt misspelling)), ?_, rfl, ?_, rfl,
      fun h => by cases h⟩
    · rcases List.mem_cons.mp hmem with h | h
      · cases h
        cbv
      · cases List.mem_singleton.mp h
        cbv
    · have hmisspelt :
          ((ofSettings (Settings.default.put .retireCommand words) [] none .plain).terms
          (.ofText "/ext") .retire).misspelling? = some misspelling := by
        rcases List.mem_cons.mp hmem with h | h
        · cases h
          rfl
        · cases List.mem_singleton.mp h
          rfl
      rw [scan, run, Tool.Behavior.outcome?_run,
        Tool.Behavior.outcome_of_misspelt hmisspelt]
      rfl

end Auditor

end ExtensionAudit
