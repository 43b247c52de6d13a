import ExtensionAudit.Proofs.Disk
import ExtensionAudit.Proofs.Number
import ExtensionAudit.Proofs.Settings.Layers
import Mathlib

/-!
# Settings — the faults that no caller is told of

Of what can be wrong with a configuration, callers are told of the file, of the section
or of the setting that it is about. Loading can fail in other ways: at a path whose
names are too long to be looked up, at octets that are no text, at an integer with too
many digits, and at a number too large for its setting (`Untold`). Those are all the
ways, and `load_untold_iff` says so.
-/

namespace ExtensionAudit

/-! ### Paths -/

namespace Disk

theorem read_of_status_file {disk : Disk} {path : Path} {content : Bytes}
    (h : disk.status path = .ok (.file content)) : disk.read path = .ok content := by
  rw [read, h]
  rfl

theorem read_of_status_directory {disk : Disk} {path : Path}
    (h : disk.status path = .ok .directory) :
    disk.read path = .error ⟨.isDirectory, path.text⟩ := by
  rw [read, h]
  rfl

end Disk

namespace Settings

/-- A result, or a fault that callers are told of. -/
def IsTold {α : Type} : Except Fault α → Prop
  | .ok _ => True
  | .error fault => Command.isTold fault = true

theorem isTold_iff {α : Type} {result : Except Fault α} :
    IsTold result ↔
    ∀ fault, ¬ (result = .error fault ∧ Command.isTold fault = false) := by
  cases result with
  | ok a => exact iff_of_true trivial nofun
  | error fault => simp [IsTold]

/-! ### The file -/

/-- A configuration file cannot be taken for members, and no caller is told of that. -/
inductive Unread (path : Path) (disk : Disk) : Fault → Prop
  | unreachable (spelt : path.misspelling? = none)
      (h : disk.status path = .error .nameTooLong) :
    Unread path disk (.unreachable ⟨.nameTooLong, path.text⟩)
  | encoding {bytes : Bytes} {fault : Utf8.Fault} (spelt : path.misspelling? = none)
      (file : disk.status path = .ok (.file bytes))
      (h : Utf8.decode bytes = .error fault) :
    Unread path disk (.encoding fault)
  | tooManyDigits {bytes : Bytes} {t : Text} {count : Nat}
      (spelt : path.misspelling? = none)
      (file : disk.status path = .ok (.file bytes)) (text : Utf8.decode bytes = .ok t)
      (h : Json.read (Text.universalNewlines t) = .error (.tooManyDigits count)) :
    Unread path disk (.tooManyDigits count)

variable {path : Path} {disk : Disk} {isRequired : Bool} {fault : Fault}

theorem readConfig_of_misspelt (h : path.misspelling? ≠ none) :
    readConfig isRequired path disk = if isRequired then .error (.absent path)
      else .ok [] := by
  rw [readConfig, if_pos (Option.isSome_iff_ne_none.mpr h)]
  rfl

theorem readConfig_of_spelt (h : path.misspelling? = none) :
    readConfig isRequired path disk =
      match disk.status path with
      | .ok (.file bytes) => ofBytes path bytes
      | .ok .directory => .error (.unreadable path ⟨.isDirectory, path.text⟩)
      | .error .nameTooLong => .error (.unreachable ⟨.nameTooLong, path.text⟩)
      | .error _ => if isRequired then .error (.absent path) else .ok [] := by
  rw [readConfig, if_neg (by simp [h])]
  cases hstatus : disk.status path with
  | ok node =>
    cases node with
    | file bytes => rw [Disk.read_of_status_file hstatus]; rfl
    | directory => rw [Disk.read_of_status_directory hstatus]; rfl
  | error refusal =>
    rcases Disk.status_eq_error hstatus with rfl | rfl | rfl <;> rfl

theorem ofBytes_untold_iff {bytes : Bytes} :
    (ofBytes path bytes = .error fault ∧ Command.isTold fault = false) ↔
      (∃ found, Utf8.decode bytes = .error found ∧ fault = .encoding found) ∨
        ∃ t count, Utf8.decode bytes = .ok t ∧
          Json.read (Text.universalNewlines t) = .error (.tooManyDigits count) ∧
          fault = .tooManyDigits count := by
  rw [ofBytes]
  cases hdecode : Utf8.decode bytes with
  | error found =>
    simp only [Except.mapError, bind, Except.bind]
    constructor
    · rintro ⟨h, -⟩
      cases h
      exact .inl ⟨found, rfl, rfl⟩
    · rintro (⟨other, h, rfl⟩ | ⟨t, count, h, -⟩)
      · cases h
        exact ⟨rfl, rfl⟩
      · cases h
  | ok t =>
    simp only [Except.mapError, bind, Except.bind]
    constructor
    · rintro ⟨h, huntold⟩
      split at h
      · cases h
      · cases h
        cases huntold
      · cases h
        cases huntold
      · rename_i count hread
        cases h
        exact .inr ⟨t, count, rfl, hread, rfl⟩
    · rintro (⟨found, h, -⟩ | ⟨other, count, h, hread, rfl⟩)
      · cases h
      · cases h
        rw [hread]
        exact ⟨rfl, rfl⟩

theorem Unread.readConfig (h : Unread path disk fault) :
    readConfig isRequired path disk = .error fault ∧ Command.isTold fault = false := by
  cases h with
  | unreachable spelt h =>
    rw [readConfig_of_spelt spelt, h]
    exact ⟨rfl, rfl⟩
  | encoding spelt file h =>
    rw [readConfig_of_spelt spelt, file]
    exact ofBytes_untold_iff.mpr (.inl ⟨_, h, rfl⟩)
  | tooManyDigits spelt file text h =>
    rw [readConfig_of_spelt spelt, file]
    exact ofBytes_untold_iff.mpr (.inr ⟨_, _, text, h, rfl⟩)

theorem readConfig_untold_iff :
    (readConfig isRequired path disk = .error fault ∧ Command.isTold fault = false) ↔
      Unread path disk fault := by
  refine ⟨fun ⟨h, huntold⟩ => ?_, Unread.readConfig⟩
  -- That the file is absent is told.
  have habsent (h : (if isRequired then .error (.absent path) else .ok [] :
      Except Fault (Entries Json)) = .error fault) : Unread path disk fault := by
    cases isRequired <;> cases h
    cases huntold
  by_cases hspelt : path.misspelling? = none
  · rw [readConfig_of_spelt hspelt] at h
    cases hstatus : disk.status path with
    | ok node =>
      rw [hstatus] at h
      cases node with
      | file bytes =>
        rcases ofBytes_untold_iff.mp ⟨h, huntold⟩ with ⟨found, hdecode, rfl⟩ |
          ⟨t, count, hdecode, hread, rfl⟩
        · exact .encoding hspelt hstatus hdecode
        · exact .tooManyDigits hspelt hstatus hdecode hread
      | directory =>
        cases h
        cases huntold
    | error refusal =>
      rw [hstatus] at h
      rcases Disk.status_eq_error hstatus with rfl | rfl | rfl
      · exact habsent h
      · exact habsent h
      · cases h
        exact .unreachable hspelt hstatus
  · rw [readConfig_of_misspelt hspelt] at h
    exact habsent h

/-! ### The settings -/

/-- A number is too large for a setting. -/
inductive IsExcessive : Setting → Json → Coercion.Fault → Prop
  | infinite {s : Setting} {isNegative : Bool} (h : s.shape = .integer) :
    IsExcessive s (.float (.infinite isNegative)) .infinite
  | tooLarge {s : Setting} {n : Int} (h : s.shape = .number)
      (large : Binary64.overflow ≤ n.natAbs) :
    IsExcessive s (.int n) .tooLarge

/-- Nothing is objected to what a configuration says of a setting, nor to its section. -/
def IsSound (config : Entries Json) (s : Setting) : Prop :=
  membersOf? config s.part ≠ none ∧ ∀ value, given? config s = some value → Fits s value

/-- Loading fails, and no caller is told of that: the file cannot be taken for members,
or else the first thing that is objected to is a number too large for its setting. -/
inductive Untold (choice : Choice) (environment : Entries Text)
    (disk : Disk) : Fault → Prop
  | file {fault : Fault} (h : Unread (configPath choice environment) disk fault) :
    Untold choice environment disk fault
  | overflow {config : Entries Json} {before after : List Setting} {s : Setting}
      {value : Json}
      {problem : Coercion.Fault}
      (read : readConfig choice.isRequired (configPath choice environment) disk =
        .ok config)
      (split : Setting.all = before ++ s :: after)
        (sound : ∀ t ∈ before, IsSound config t)
      (given : given? config s = some value) (h : IsExcessive s value problem) :
    Untold choice environment disk (.overflow problem)

theorem integer_excess {value : Json} {problem : Coercion.Fault}
    (h : Coercion.integer value = .error problem)
    (hexcess : problem = .infinite ∨ problem = .tooLarge) :
    problem = .infinite ∧ ∃ isNegative, value = .float (.infinite isNegative) := by
  cases value with
  | float x =>
    cases x with
    | infinite isNegative =>
      cases h
      exact ⟨rfl, isNegative, rfl⟩
    | nan =>
      cases h
      simp at hexcess
    | finite => cases h
  | text t => exact absurd hexcess (not_or.mpr (@ne_of_read_text .integer t _ h))
  | bool b => cases h
  | int n => cases h
  | _ =>
    cases h
    simp at hexcess

theorem number_excess {value : Json} {problem : Coercion.Fault}
    (h : Coercion.number value = .error problem)
    (hexcess : problem = .infinite ∨ problem = .tooLarge) :
    problem = .tooLarge ∧ ∃ n, value = .int n ∧ Binary64.ofInt? n = none := by
  cases value with
  | int n =>
    rw [Coercion.number] at h
    cases hn : Binary64.ofInt? n with
    | none =>
      rw [hn] at h
      cases h
      exact ⟨rfl, n, rfl, hn⟩
    | some x =>
      rw [hn] at h
      cases h
  | text t => exact absurd hexcess (not_or.mpr (@ne_of_read_text .number t _ h))
  | bool b => cases h
  | float x => cases h
  | _ =>
    cases h
    simp at hexcess

/-- What is wrong with the value of a setting is that it is too large, just if it is. -/
theorem isExcessive_iff {s : Setting} {value : Json} {problem : Coercion.Fault} :
    (Coercion.read s.shape value = .error problem ∧
      (problem = .infinite ∨ problem = .tooLarge)) ↔
      IsExcessive s value problem := by
  constructor
  · rintro ⟨h, hexcess⟩
    cases hshape : s.shape with
    | flag =>
      rw [hshape] at h
      exact absurd hexcess (not_or.mpr (ne_of_flag h))
    | integer =>
      rw [hshape] at h
      obtain ⟨rfl, isNegative, rfl⟩ := integer_excess h hexcess
      exact .infinite hshape
    | number =>
      rw [hshape] at h
      obtain ⟨rfl, n, rfl, hn⟩ := number_excess h hexcess
      exact .tooLarge hshape ((Binary64.ofInt?_eq_none_iff n).mp hn)
    | texts =>
      rw [hshape] at h
      exact absurd hexcess (not_or.mpr (ne_of_texts h))
    | text =>
      rw [hshape] at h
      cases h
  · intro h
    cases h with
    | infinite h =>
      rw [h]
      exact ⟨rfl, .inl rfl⟩
    | tooLarge h large =>
      rw [h, Coercion.read, Coercion.number, (Binary64.ofInt?_eq_none_iff _).mpr large]
      exact ⟨rfl, .inr rfl⟩

/-! ### The first objection -/

/-- What is objected to a setting in a configuration, its section included. -/
def memberObjection? (path : Path) (config : Entries Json) (s : Setting) : Option Fault :=
  match membersOf? config s.part with
  | none => some (.notSection s.part path)
  | some _ => (given? config s).bind (objectionTo? s)

theorem memberObjection?_eq_none {config : Entries Json} {s : Setting} :
    memberObjection? path config s = none ↔ IsSound config s := by
  rw [memberObjection?, IsSound]
  cases membersOf? config s.part with
  | none => simp
  | some values =>
    cases given? config s with
    | none => simp
    | some value => simp [objectionTo?_eq_none]

theorem objectionTo?_eq_overflow {s : Setting} {value : Json} {problem : Coercion.Fault} :
    objectionTo? s value = some (.overflow problem) ↔ IsExcessive s value problem := by
  rw [← isExcessive_iff]
  constructor
  · intro h
    obtain ⟨found, hread, hfound | ⟨hfound, hexcess⟩⟩ := objectionTo?_eq_some h
    · cases hfound
    · cases hfound
      exact ⟨hread, hexcess⟩
  · rintro ⟨hread, hexcess⟩
    rw [objectionTo?, hread]
    rcases hexcess with rfl | rfl <;> rfl

theorem memberObjection?_eq_overflow {config : Entries Json} {s : Setting}
    {problem : Coercion.Fault} :
    memberObjection? path config s = some (.overflow problem) ↔
      ∃ value, given? config s = some value ∧ IsExcessive s value problem := by
  rw [memberObjection?]
  cases hmembers : membersOf? config s.part with
  | none => simp [given?, hmembers]
  | some values => simp [Option.bind_eq_some_iff, objectionTo?_eq_overflow]

/-- What is objected to a section is the first objection to one of its settings. -/
theorem sectionObjection?_eq (path : Path) (config : Entries Json) (part : Section) :
    sectionObjection? path config part =
      part.settings.findSome? (memberObjection? path config) := by
  rw [sectionObjection?]
  cases hmembers : membersOf? config part with
  | none =>
    cases part <;> simp [Section.settings, memberObjection?, Setting.part, hmembers]
  | some values =>
    cases part <;> simp [Section.settings, List.findSome?_cons, memberObjection?,
      Setting.part, hmembers]

theorem findSome?_sectionObjection? (path : Path) (config : Entries Json) :
    Section.all.findSome? (sectionObjection? path config) =
      Setting.all.findSome? (memberObjection? path config) := by
  calc Section.all.findSome? (sectionObjection? path config)
      = Section.all.findSome? fun part =>
        part.settings.findSome? (memberObjection? path config) := by
        rw [funext (sectionObjection?_eq path config)]
    _ = (Section.all.flatMap Section.settings).findSome?
      (memberObjection? path config) := by
        rw [← List.head?_filterMap (f := memberObjection? path config),
          List.filterMap_flatMap, List.head?_flatMap]
        simp only [List.head?_filterMap]

/-- Nothing in the environment is a number that is too large. -/
theorem objection?_eq_overflow {config : Entries Json} {environment : Entries Text}
    {problem : Coercion.Fault} :
    objection? path config environment = some (.overflow problem) ↔
      ∃ before s after value, Setting.all = before ++ s :: after ∧
      (∀ t ∈ before, IsSound config t) ∧
        given? config s = some value ∧ IsExcessive s value problem := by
  have henvironment :
      (Setting.all.findSome? fun s => (override? environment s).bind (objectionTo? s)) ≠
      some (.overflow problem) := by
    intro h
    obtain ⟨s, -, hs⟩ := List.exists_of_findSome?_eq_some h
    obtain ⟨value, hover, hvalue⟩ := Option.bind_eq_some_iff.mp hs
    obtain ⟨hread, hexcess⟩ := isExcessive_iff.mpr (objectionTo?_eq_overflow.mp hvalue)
    obtain ⟨t, -, rfl⟩ := Option.map_eq_some_iff.mp hover
    exact absurd hexcess (not_or.mpr (ne_of_read_text hread))
  rw [objection?, findSome?_sectionObjection?, Option.or_eq_some_iff,
    or_iff_left fun h => henvironment h.2, List.findSome?_eq_some_iff]
  constructor
  · rintro ⟨before, s, after, hsplit, hs, hbefore⟩
    obtain ⟨value, hgiven, hexcess⟩ := memberObjection?_eq_overflow.mp hs
    exact ⟨before, s, after, value, hsplit,
      fun t ht => memberObjection?_eq_none.mp (hbefore t ht),
      hgiven, hexcess⟩
  · rintro ⟨before, s, after, value, hsplit, hbefore, hgiven, hexcess⟩
    exact ⟨before, s, after, hsplit,
      memberObjection?_eq_overflow.mpr ⟨value, hgiven, hexcess⟩,
      fun t ht => memberObjection?_eq_none.mpr (hbefore t ht)⟩

/-! ### The result -/

variable {choice : Choice} {environment : Entries Text}

theorem load_of_readConfig_error (h : readConfig choice.isRequired
      (configPath choice environment) disk = .error fault) :
    load choice environment disk = .error fault := by
  rw [load_eq, h]
  rfl

theorem load_eq_error_iff {config : Entries Json}
    (h : readConfig choice.isRequired (configPath choice environment) disk = .ok config) :
    load choice environment disk = .error fault ↔
      objection? (configPath choice environment) config environment = some fault := by
  rw [load_of_readConfig h, unlessObjected_eq_error]

theorem untold_iff_load :
    (load choice environment disk = .error fault ∧ Command.isTold fault = false) ↔
      Untold choice environment disk fault := by
  -- Loading fails by the file, or by the first objection to what is in it. Of the
  -- objections only the one to a number that is too large is not told.
  cases hread : readConfig choice.isRequired (configPath choice environment) disk with
  | error found =>
    rw [load_of_readConfig_error hread]
    constructor
    · rintro ⟨h, huntold⟩
      cases h
      exact .file (readConfig_untold_iff.mp ⟨hread, huntold⟩)
    · intro h
      cases h with
      | file h =>
        obtain ⟨hfault, huntold⟩ := Unread.readConfig h
        cases hread.symm.trans hfault
        exact ⟨rfl, huntold⟩
      | overflow read split sound given h => cases hread.symm.trans read
  | ok config =>
    rw [load_eq_error_iff hread]
    constructor
    · rintro ⟨h, huntold⟩
      cases blames_of_objection? h with
      | part _ => cases huntold
      | value _ _ => cases huntold
      | number _ _ _ =>
        obtain ⟨before, s, after, value, hsplit, hsound, hgiven, hexcess⟩ :=
          objection?_eq_overflow.mp h
        exact .overflow hread hsplit hsound hgiven hexcess
    · intro h
      cases h with
      | file h => cases hread.symm.trans (Unread.readConfig h).1
      | overflow read split sound given h =>
        cases hread.symm.trans read
        exact ⟨objection?_eq_overflow.mpr ⟨_, _, _, _, split, sound, given, h⟩, rfl⟩

/-- **What no caller is told of.** Loading ends with settings or with a fault that its
caller is told of, unless it fails in one of the ways in which no caller is told. Then
that is the fault. -/
theorem load_untold_iff (choice : Choice) (environment : Entries Text) (disk : Disk) :
    (IsTold (load choice environment disk) ↔
      ¬ ∃ fault, Untold choice environment disk fault) ∧
      ∀ fault,
        (load choice environment disk = .error fault ∧ Command.isTold fault = false) ↔
        Untold choice environment disk fault := by
  refine ⟨?_, fun fault => untold_iff_load⟩
  rw [isTold_iff, not_exists]
  exact forall_congr' fun fault => not_congr untold_iff_load

/-- A configuration file with an octet that no text begins with. -/
def foreignDisk : Disk := ⟨[(["config.json"], .file [0xFF, 0x7B, 0x7D])]⟩

/-- It cannot be loaded, and nobody is told that it is the file. -/
theorem not_isTold_foreignDisk :
    load .optional [] foreignDisk = .error (.encoding ⟨0, [0xFF], .invalidStart⟩) ∧
      ¬ IsTold (load .optional [] foreignDisk) := by
  have hread :
      readConfig Choice.optional.isRequired (configPath .optional []) foreignDisk =
      .error (.encoding ⟨0, [0xFF], .invalidStart⟩) := by cbv
  rw [load_of_readConfig_error hread]
  exact ⟨rfl, fun h => by cases h⟩

end Settings

end ExtensionAudit
