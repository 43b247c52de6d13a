import ExtensionAudit.Command.Run
import ExtensionAudit.Proofs.Json

/-!
# Settings — layers and objections

The environment goes over the configuration file, and the file over the defaults.
Loading passes over the sections and over the variables of the environment in turn and
gives one setting after another its value; here it is described by what each layer says
of each setting, and by the first thing that is objected to.
-/

namespace ExtensionAudit

/-- The section that may give a setting. -/
def Setting.part : Setting → Section
  | .maxDownloadBytes => .download
  | .downloadTimeout => .download
  | .prodversion => .download
  | .retireCommand => .scanners
  | .eslintCommand => .scanners
  | .toolTimeout => .scanners
  | .externalScannersEnabled => .scanners
  | .host => .server
  | .port => .server
  | .logLevel => .logging

theorem Setting.mem_settings_iff {s : Setting} {part : Section} : s ∈ part.settings ↔
    s.part = part := by
  cases part <;> cases s <;> decide

theorem Setting.mem_all (s : Setting) : s ∈ Setting.all := by cases s <;> decide

theorem Section.mem_all (part : Section) : part ∈ Section.all := by cases part <;> decide

theorem Section.name_injective {part other : Section}
    (h : part.name = other.name) : part = other := by
  cases part <;> cases other <;> first | rfl | exact absurd h (by decide)

namespace Settings

/-! ### What the layers say -/

/-- The members of a section. One that is not there has none; one that is no object is
malformed. -/
def membersOf? (config : Entries Json) (part : Section) : Option (Entries Json) :=
  match Entries.get? part.name config with
  | none => some []
  | some (.object values) => some values
  | some _ => none

/-- What a configuration says of a setting, in the section of the setting. -/
def given? (config : Entries Json) (s : Setting) : Option Json :=
  (membersOf? config s.part).bind (Entries.get? s.name)

/-- What the environment says of a setting. -/
def override? (environment : Entries Text) (s : Setting) : Option Json :=
  (Entries.get? s.environmentName environment).map .text

/-- Can the value be read for the setting? -/
def Fits (s : Setting) (value : Json) : Prop := ∃ v, Coercion.read s.shape value = .ok v

/-- Everything that is present and known can be read, overridden or not. -/
structure WellFormed (config : Entries Json) (environment : Entries Text) : Prop where
  sections (part : Section) : membersOf? config part ≠ none
  given (s : Setting) (value : Json) : given? config s = some value → Fits s value
  overrides (s : Setting) (value : Json) : override? environment s =
    some value → Fits s value

/-- Each setting has the value that the uppermost layer says. -/
def Precedence (config : Entries Json) (environment : Entries Text)
    (settings : Settings) : Prop :=
  ∀ s, match override? environment s, given? config s with
    | some value, _ => Coercion.read s.shape value = .ok (settings s)
    | none, some value => Coercion.read s.shape value = .ok (settings s)
    | none, none => settings s = default s

/-- Some number in the configuration is too large for the shape of its setting. -/
def Excessive (config : Entries Json) : Prop :=
  ∃ s value, given? config s = some value ∧
    (Coercion.read s.shape value = .error .infinite ∨
      Coercion.read s.shape value = .error .tooLarge)

/-! ### One setting -/

/-- The fault of a value that cannot be read for a setting. -/
def objectionTo? (s : Setting) (value : Json) : Option Fault :=
  match Coercion.read s.shape value with
  | .ok _ => none
  | .error fault =>
    some (if fault == .infinite || fault == .tooLarge then .overflow fault
      else .unfit s fault)

/-- Gives a setting the value that a layer says, if it says one that can be read. -/
def takeFrom (layer : Setting → Option Json) (settings : Settings)
    (s : Setting) : Settings :=
  match layer s with
  | none => settings
  | some value =>
    match Coercion.read s.shape value with
    | .ok v => settings.put s v
    | .error _ => settings

/-- Settings with a layer over them. -/
def overlay (layer : Setting → Option Json) (settings : Settings) : Settings := fun s =>
  ((layer s).bind fun value => (Coercion.read s.shape value).toOption).getD (settings s)

theorem overlay_of_none {layer : Setting → Option Json} {settings : Settings}
    {s : Setting} (h : layer s = none) : overlay layer settings s = settings s := by
  rw [overlay, h]
  rfl

theorem overlay_of_some {layer : Setting → Option Json} {settings : Settings}
    {s : Setting} {value : Json} {v : s.shape.Value} (h : layer s = some value)
    (hv : Coercion.read s.shape value = .ok v) : overlay layer settings s = v := by
  rw [overlay, h, Option.bind_some, hv]
  rfl

theorem objectionTo?_eq_none {s : Setting} {value : Json} :
    objectionTo? s value = none ↔ Fits s value := by
  rw [objectionTo?, Fits]
  cases Coercion.read s.shape value with
  | ok v => simp
  | error fault => simp

theorem objectionTo?_eq_some {s : Setting} {value : Json} {fault : Fault}
    (h : objectionTo? s value = some fault) :
    ∃ problem, Coercion.read s.shape value = .error problem ∧
      (fault = .unfit s problem ∨
        fault = .overflow problem ∧ (problem = .infinite ∨ problem = .tooLarge)) := by
  rw [objectionTo?] at h
  cases hread : Coercion.read s.shape value with
  | ok v =>
    rw [hread] at h
    cases h
  | error problem =>
    rw [hread] at h
    refine ⟨problem, rfl, ?_⟩
    simp only [Option.some.injEq] at h
    split at h
    · rename_i hexcess
      exact .inr ⟨h.symm, by simpa using hexcess⟩
    · exact .inl h.symm

theorem ne_of_ofArray {value : Json} {fault : Coercion.Fault}
    (h : Coercion.ofArray value = .error fault) : fault ≠ .infinite ∧
    fault ≠ .tooLarge := by
  rw [Coercion.ofArray.eq_def] at h
  split at h
  · split at h
    · cases h
    · cases h
      exact ⟨nofun, nofun⟩
  · cases h
    exact ⟨nofun, nofun⟩

/-- Nothing is too large for a flag. -/
theorem ne_of_flag {value : Json} {fault : Coercion.Fault}
    (h : Coercion.flag value = .error fault) : fault ≠ .infinite ∧ fault ≠ .tooLarge := by
  rw [Coercion.flag.eq_def] at h
  split at h
  · cases h
  · dsimp only at h
    split at h
    · cases h
    · split at h
      · cases h
      · cases h
        exact ⟨nofun, nofun⟩

/-- Nothing is too large for a list of texts. -/
theorem ne_of_texts {value : Json} {fault : Coercion.Fault}
    (h : Coercion.texts value = .error fault) : fault ≠ .infinite ∧
    fault ≠ .tooLarge := by
  rw [Coercion.texts.eq_def] at h
  split at h
  · split at h
    · exact ne_of_ofArray h
    · cases h
      exact ⟨nofun, nofun⟩
  · exact ne_of_ofArray h

/-- A text is never too large for a shape. -/
theorem ne_of_read_text {shape : Shape} {t : Text} {fault : Coercion.Fault}
    (h : Coercion.read shape (.text t) = .error fault) : fault ≠ .infinite ∧
    fault ≠ .tooLarge := by
  have hnumeral {α : Type} {result : Except Numeral.Fault α}
      (h : result.mapError Coercion.Fault.notNumeral = .error fault) :
      fault ≠ .infinite ∧ fault ≠ .tooLarge := by
    cases result with
    | ok n => cases h
    | error found =>
      cases h
      exact ⟨nofun, nofun⟩
  cases shape with
  | flag =>
    rw [Coercion.read] at h
    exact ne_of_flag h
  | integer => exact hnumeral h
  | number => exact hnumeral h
  | texts =>
    rw [Coercion.read] at h
    exact ne_of_texts h
  | text => cases h

theorem assignFrom_eq {values : Text → Option Json} {key : Setting → Text}
    {layer : Setting → Option Json} {s : Setting} (h : values (key s) = layer s)
    (settings : Settings) :
    assignFrom values key settings s =
      unlessObjected ((layer s).bind (objectionTo? s)) (takeFrom layer settings s) := by
  rw [assignFrom, takeFrom, h]
  cases layer s with
  | none => rfl
  | some value =>
    simp only [assign, objectionTo?, Option.bind_some]
    cases Coercion.read s.shape value with
    | ok v => rfl
    | error fault => simp only; split <;> rfl

theorem takeFrom_apply (layer : Setting → Option Json) (settings : Settings)
    (s t : Setting) :
    takeFrom layer settings s t = if t = s then overlay layer settings t
      else settings t := by
  by_cases h : t = s
  · subst h
    rw [if_pos rfl, takeFrom, overlay]
    cases layer t with
    | none => rfl
    | some value =>
      cases hread : Coercion.read t.shape value with
      | ok v => simp [hread, put_self, Except.toOption]
      | error fault => simp [hread, Except.toOption]
  · rw [if_neg h, takeFrom]
    cases layer s with
    | none => rfl
    | some value =>
      cases hread : Coercion.read s.shape value with
      | ok v => simp [hread, put_of_ne h]
      | error fault => simp [hread]

/-- Settings that a layer is put over one by one. It makes no difference if one comes
twice. -/
theorem foldl_takeFrom_apply (layer : Setting → Option Json) (list : List Setting)
    (settings : Settings) (t : Setting) :
    list.foldl (takeFrom layer) settings t =
      if t ∈ list then overlay layer settings t else settings t := by
  induction list generalizing settings with
  | nil => simp
  | cons s rest ih =>
    rw [List.foldl_cons, ih]
    by_cases hs : t = s
    · have hself : takeFrom layer settings s t = overlay layer settings t := by
        rw [takeFrom_apply, if_pos hs]
      rw [if_pos (List.mem_cons.mpr (.inl hs)), hself]
      split
      · rw [overlay, hself, overlay]
        cases (layer t).bind fun value => (Coercion.read t.shape value).toOption <;> rfl
      · rfl
    · have hother : takeFrom layer settings s t = settings t := by
        rw [takeFrom_apply, if_neg hs]
      simp only [List.mem_cons, hs, false_or, overlay, hother]

theorem foldl_takeFrom_of_mem {layer : Setting → Option Json} {list : List Setting}
    (h : ∀ s, s ∈ list) (settings : Settings) :
    list.foldl (takeFrom layer) settings = overlay layer settings := by
  funext t
  rw [foldl_takeFrom_apply, if_pos (h t)]

/-! ### The passes -/

/-- The first objection to what a configuration says in a section. -/
def sectionObjection? (path : Path) (config : Entries Json)
    (part : Section) : Option Fault :=
  match membersOf? config part with
  | none => some (.notSection part path)
  | some _ => part.settings.findSome? fun s => (given? config s).bind (objectionTo? s)

/-- The first objection to anything that the layers say. -/
def objection? (path : Path) (config : Entries Json)
    (environment : Entries Text) : Option Fault :=
  (Section.all.findSome? (sectionObjection? path config)).or
    (Setting.all.findSome? fun s => (override? environment s).bind (objectionTo? s))

theorem given?_of_membersOf? {config values : Entries Json} {part : Section}
    (h : membersOf? config part = some values) :
    ∀ s ∈ part.settings, Entries.get? s.name values = given? config s := by
  intro s hs
  rw [given?, Setting.mem_settings_iff.mp hs, h, Option.bind_some]

theorem applySection_eq (path : Path) (config : Entries Json) (settings : Settings)
    (part : Section) :
    applySection path config settings part =
      unlessObjected (sectionObjection? path config part)
        (part.settings.foldl (takeFrom (given? config)) settings) := by
  have hobject (values : Entries Json) (h : membersOf? config part = some values) :
      part.settings.foldlM
        (assignFrom (fun key => Entries.get? key values) Setting.name) settings =
        unlessObjected (sectionObjection? path config part)
          (part.settings.foldl (takeFrom (given? config)) settings) := by
    rw [sectionObjection?, h]
    exact foldlM_eq_unlessObjected (fun s hs =>
      assignFrom_eq (given?_of_membersOf? h s hs)) settings
  cases hmember : Entries.get? part.name config with
  | none =>
    rw [← hobject [] (by rw [membersOf?, hmember]), applySection, hmember]
    cases part <;> rfl
  | some value =>
    cases value with
    | object values =>
      rw [← hobject values (by rw [membersOf?, hmember]), applySection, hmember]
    | _ => rw [applySection, sectionObjection?, membersOf?, hmember]; rfl

theorem applyConfig_eq (path : Path) (config : Entries Json) (settings : Settings) :
    applyConfig path config settings =
      unlessObjected (Section.all.findSome? (sectionObjection? path config))
        (overlay (given? config) settings) := by
  have hall (s : Setting) : s ∈ Section.all.flatMap Section.settings :=
    List.mem_flatMap.mpr ⟨s.part, s.part.mem_all, Setting.mem_settings_iff.mpr rfl⟩
  rw [applyConfig, ← foldl_takeFrom_of_mem hall, List.foldl_flatMap]
  exact foldlM_eq_unlessObjected (fun part _ settings =>
    applySection_eq path config settings part) settings

theorem applyEnvironment_eq (environment : Entries Text) (settings : Settings) :
    applyEnvironment environment settings =
      unlessObjected (Setting.all.findSome? fun s =>
        (override? environment s).bind (objectionTo? s))
        (overlay (override? environment) settings) := by
  rw [applyEnvironment, ← foldl_takeFrom_of_mem Setting.mem_all]
  exact foldlM_eq_unlessObjected (fun s _ => assignFrom_eq rfl) settings

/-- Loading is putting one layer over another, unless something in them is objected to. -/
theorem load_eq (choice : Choice) (environment : Entries Text) (disk : Disk) :
    load choice environment disk =
      readConfig choice.isRequired (configPath choice environment) disk >>= fun config =>
        unlessObjected (objection? (configPath choice environment) config environment)
          (overlay (override? environment) (overlay (given? config) default)) := by
  rw [load]
  congr 1
  funext config
  rw [applyConfig_eq, funext (applyEnvironment_eq environment)]
  exact unlessObjected_bind _ _ _ _

theorem load_of_readConfig {choice : Choice} {environment : Entries Text} {disk : Disk}
    {config : Entries Json}
    (h : readConfig choice.isRequired (configPath choice environment) disk = .ok config) :
    load choice environment disk =
      unlessObjected (objection? (configPath choice environment) config environment)
        (overlay (override? environment) (overlay (given? config) default)) := by
  rw [load_eq, h]
  rfl

/-! ### Objections -/

/-- A value that one of the layers says. -/
def Says (config : Entries Json) (environment : Entries Text) (s : Setting)
    (value : Json) : Prop :=
  given? config s = some value ∨ override? environment s = some value

theorem wellFormed_iff {config : Entries Json} {environment : Entries Text} :
    WellFormed config environment ↔
      (∀ part, membersOf? config part ≠ none) ∧
        ∀ s value, Says config environment s value → Fits s value := by
  constructor
  · intro h
    refine ⟨h.sections, fun s value hsaid => ?_⟩
    rcases hsaid with hgiven | hover
    · exact h.given s value hgiven
    · exact h.overrides s value hover
  · rintro ⟨hsections, hsaid⟩
    exact ⟨hsections, fun s value h => hsaid s value (.inl h),
      fun s value h => hsaid s value (.inr h)⟩

/-- The faults that are about a malformed section or a malformed value. -/
inductive Blames (path : Path) (config : Entries Json)
    (environment : Entries Text) : Fault → Prop
  | part {part : Section} (h : membersOf? config part = none) :
    Blames path config environment (.notSection part path)
  | value {s : Setting} {value : Json} {problem : Coercion.Fault}
      (h : Says config environment s value)
      (hread : Coercion.read s.shape value = .error problem) :
    Blames path config environment (.unfit s problem)
  | number {s : Setting} {value : Json} {problem : Coercion.Fault}
      (h : Says config environment s value)
      (hread : Coercion.read s.shape value = .error problem)
      (hexcess : problem = .infinite ∨ problem = .tooLarge) :
    Blames path config environment (.overflow problem)

theorem Blames.ofValue {path : Path} {config : Entries Json}
    {environment : Entries Text} {s : Setting} {value : Json}
    {fault : Fault} (hsaid : Says config environment s value)
    (h : objectionTo? s value = some fault) : Blames path config environment fault := by
  obtain ⟨problem, hread, rfl | ⟨rfl, hexcess⟩⟩ := objectionTo?_eq_some h
  · exact .value hsaid hread
  · exact .number hsaid hread hexcess

theorem blames_of_objection? {path : Path} {config : Entries Json}
    {environment : Entries Text} {fault : Fault}
    (h : objection? path config environment = some fault) :
    Blames path config environment fault := by
  rcases Option.or_eq_some_iff.mp h with hconfig | ⟨-, henvironment⟩
  · obtain ⟨part, -, hpart⟩ := List.exists_of_findSome?_eq_some hconfig
    rw [sectionObjection?] at hpart
    split at hpart
    · rename_i hmembers
      cases hpart
      exact .part hmembers
    · obtain ⟨s, -, hs⟩ := List.exists_of_findSome?_eq_some hpart
      obtain ⟨value, hgiven, hvalue⟩ := Option.bind_eq_some_iff.mp hs
      exact .ofValue (.inl hgiven) hvalue
  · obtain ⟨s, -, hs⟩ := List.exists_of_findSome?_eq_some henvironment
    obtain ⟨value, hover, hvalue⟩ := Option.bind_eq_some_iff.mp hs
    exact .ofValue (.inr hover) hvalue

theorem Blames.not_wellFormed {path : Path} {config : Entries Json}
    {environment : Entries Text} {fault : Fault}
    (h : Blames path config environment fault) : ¬ WellFormed config environment := by
  intro hw
  obtain ⟨hsections, hfits⟩ := wellFormed_iff.mp hw
  cases h with
  | part h => exact hsections _ h
  | value h hread =>
    obtain ⟨v, hv⟩ := hfits _ _ h
    cases hread.symm.trans hv
  | number h hread hexcess =>
    obtain ⟨v, hv⟩ := hfits _ _ h
    cases hread.symm.trans hv

/-- Nothing is objected to exactly what is well-formed. -/
theorem objection?_eq_none {path : Path} {config : Entries Json}
    {environment : Entries Text} :
    objection? path config environment = none ↔ WellFormed config environment := by
  constructor
  · intro h
    obtain ⟨hconfig, henvironment⟩ := Option.or_eq_none_iff.mp h
    have hsection (part : Section) : sectionObjection? path config part = none :=
      List.findSome?_eq_none_iff.mp hconfig part part.mem_all
    refine ⟨fun part hnone => ?_, fun s value hgiven => ?_, fun s value hover => ?_⟩
    · have hpart := hsection part
      rw [sectionObjection?, hnone] at hpart
      cases hpart
    · have hpart := hsection s.part
      rw [sectionObjection?] at hpart
      split at hpart
      · cases hpart
      · have hs :=
          List.findSome?_eq_none_iff.mp hpart s (Setting.mem_settings_iff.mpr rfl)
        rw [hgiven] at hs
        exact objectionTo?_eq_none.mp hs
    · have hs := List.findSome?_eq_none_iff.mp henvironment s s.mem_all
      rw [hover] at hs
      exact objectionTo?_eq_none.mp hs
  · intro h
    cases hobjection : objection? path config environment with
    | none => rfl
    | some fault => exact absurd h (blames_of_objection? hobjection).not_wellFormed

/-- Where no number is too large, the callers are told what is objected to. -/
theorem Blames.isTold {path : Path} {config : Entries Json} {environment : Entries Text}
    {fault : Fault} (h : Blames path config environment fault)
    (hsize : ¬ Excessive config) :
    Command.isTold fault = true := by
  cases h with
  | part h => rfl
  | value h hread => rfl
  | @number s value problem h hread hexcess =>
    exfalso
    rcases h with hgiven | hover
    · rcases hexcess with rfl | rfl
      · exact hsize ⟨s, value, hgiven, .inl hread⟩
      · exact hsize ⟨s, value, hgiven, .inr hread⟩
    · obtain ⟨t, -, rfl⟩ := Option.map_eq_some_iff.mp hover
      obtain ⟨hinfinite, htooLarge⟩ := ne_of_read_text hread
      exact hexcess.elim hinfinite htooLarge

end Settings

end ExtensionAudit
