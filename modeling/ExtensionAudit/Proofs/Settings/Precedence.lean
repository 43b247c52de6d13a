import ExtensionAudit.Proofs.Settings.Layers
import Mathlib

/-!
# Settings — which layer a value comes from

Setting by setting, the uppermost layer that says anything decides. What is not looked
at makes no difference to that, and neither does it whether a text stands in the file or
in the environment.
-/

namespace ExtensionAudit

namespace Settings

/-! ### What makes no difference -/

/-- Configurations that differ in what is not looked at: the order of the sections and
of their members, sections of other names, and members that are no settings of their
section. -/
inductive Rearranged : Entries Json → Entries Json → Prop
  | sectionOrder {config other : Entries Json} (h : config.Perm other)
      (hd : config.Distinct) :
    Rearranged config other
  | memberOrder {before after values others : Entries Json} {name : Text}
      (h : values.Perm others)
      (hd : values.Distinct) :
    Rearranged (before ++ (name, .object values) :: after)
      (before ++ (name, .object others) :: after)
  | unknownSection {before after : Entries Json} {name : Text} {value : Json}
      (h : ∀ part : Section, part.name ≠ name) :
    Rearranged (before ++ (name, value) :: after) (before ++ after)
  | unknownMember {before after first last : Entries Json} {part : Section}
      {name : Text} {value : Json}
      (h : ∀ s ∈ part.settings, s.name ≠ name) :
    Rearranged (before ++ (part.name, .object (first ++ (name, value) :: last)) :: after)
      (before ++ (part.name, .object (first ++ last)) :: after)
  | symm {config other : Entries Json} (h : Rearranged config other) :
      Rearranged other config
  | trans {config middle other : Entries Json} (h : Rearranged config middle)
      (h' : Rearranged middle other) : Rearranged config other

/-- Sections that are looked at with the same result. -/
def SameMembers (part : Section) (members others : Option (Entries Json)) : Prop :=
  (members = none ↔ others = none) ∧
    ∀ s ∈ part.settings, members.bind (Entries.get? s.name) =
      others.bind (Entries.get? s.name)

theorem sameMembers_refl (part : Section) (members : Option (Entries Json)) :
    SameMembers part members members :=
  ⟨Iff.rfl, fun _ _ => rfl⟩

theorem get?_between (key name : Text) (value : Json) (before after : Entries Json) :
    Entries.get? key (before ++ (name, value) :: after) =
      (Entries.get? key before).or (if name = key then some value
        else Entries.get? key after) := by
  rw [Entries.get?_append]
  simp [Entries.get?]

/-- Sections whose members are given by other objects in the same place. -/
theorem sameMembers_of_objects {part : Section}
    {before after values others : Entries Json} {name : Text} (h : name = part.name →
      ∀ s ∈ part.settings, Entries.get? s.name values = Entries.get? s.name others) :
    SameMembers part (membersOf? (before ++ (name, .object values) :: after) part)
      (membersOf? (before ++ (name, .object others) :: after) part) := by
  simp only [membersOf?, get?_between]
  cases Entries.get? part.name before with
  | some value => exact sameMembers_refl part _
  | none =>
    by_cases hname : name = part.name
    · simp only [hname, if_true, Option.none_or]
      exact ⟨by simp, h hname⟩
    · simp only [hname, if_false]
      exact sameMembers_refl part _

theorem Rearranged.sameMembers {config other : Entries Json}
    (h : Rearranged config other) (part : Section) :
    SameMembers part (membersOf? config part) (membersOf? other part) := by
  induction h with
  | sectionOrder h hd =>
    rw [membersOf?, membersOf?, Entries.get?_perm h hd]
    exact sameMembers_refl part _
  | memberOrder h hd => exact sameMembers_of_objects fun _ s _ => Entries.get?_perm h hd
  | unknownSection h =>
    rw [membersOf?, membersOf?, get?_between, if_neg (Ne.symm (h part)),
      ← Entries.get?_append]
    exact sameMembers_refl part _
  | @unknownMember before after first last part' name value h =>
    refine sameMembers_of_objects fun hname s hs => ?_
    cases Section.name_injective hname
    rw [get?_between, if_neg (Ne.symm (h s hs)), Entries.get?_append]
  | symm h ih => exact ⟨ih.1.symm, fun s hs => (ih.2 s hs).symm⟩
  | trans h h' ih ih' =>
    exact ⟨ih.1.trans ih'.1, fun s hs => (ih.2 s hs).trans (ih'.2 s hs)⟩

theorem given?_congr {config other : Entries Json}
    (h : ∀ part, SameMembers part (membersOf? config part) (membersOf? other part)) :
    given? config = given? other := by
  funext s
  exact (h s.part).2 s (Setting.mem_settings_iff.mpr rfl)

theorem objection?_congr {path : Path}
    {config other : Entries Json} {environment : Entries Text}
    (h : ∀ part, SameMembers part (membersOf? config part) (membersOf? other part)) :
    objection? path config environment = objection? path other environment := by
  have hsection : sectionObjection? path config = sectionObjection? path other := by
    funext part
    rw [sectionObjection?, sectionObjection?, given?_congr h]
    cases hmembers : membersOf? config part with
    | none => rw [(h part).1.mp hmembers]
    | some values =>
      cases hothers : membersOf? other part with
      | none =>
        rw [(h part).1.mpr hothers] at hmembers
        cases hmembers
      | some others => rfl
  rw [objection?, objection?, hsection]

/-- A file that was read names nothing twice. -/
theorem keyed_of_readConfig {isRequired : Bool} {path : Path} {disk : Disk}
    {config : Entries Json} (h : readConfig isRequired path disk = .ok config) :
    (Json.object config).Keyed := by
  rw [readConfig] at h
  split at h
  · obtain ⟨bytes, -, h⟩ := bind_eq_ok.mp h
    obtain ⟨t, -, h⟩ := bind_eq_ok.mp h
    split at h
    · rename_i members hread
      cases h
      exact Json.keyed_of_read hread
    · cases h
    · cases h
    · cases h
  · split at h
    · split at h
      · cases h
      · cases h
        exact Json.KeyedMembers.nil.object
    · cases h

/-! ### What the uppermost layer says -/

theorem precedence_iff {config : Entries Json} {environment : Entries Text}
    {settings : Settings} (h : WellFormed config environment) :
    overlay (override? environment) (overlay (given? config) default) = settings ↔
      Precedence config environment settings := by
  rw [funext_iff, Precedence]
  refine forall_congr' fun s => ?_
  cases hover : override? environment s with
  | some value =>
    obtain ⟨v, hv⟩ := h.overrides s value hover
    simp [overlay_of_some hover hv, hv]
  | none =>
    rw [overlay_of_none hover]
    cases hgiven : given? config s with
    | some value =>
      obtain ⟨v, hv⟩ := h.given s value hgiven
      simp [overlay_of_some hgiven hv, hv]
    | none =>
      rw [overlay_of_none hgiven]
      exact eq_comm

theorem load_eq_ok_iff {choice : Choice} {environment : Entries Text} {disk : Disk}
    {config : Entries Json} {settings : Settings}
    (h : readConfig choice.isRequired (configPath choice environment) disk = .ok config) :
    load choice environment disk = .ok settings ↔
      WellFormed config environment ∧ Precedence config environment settings := by
  rw [load_of_readConfig h, unlessObjected_eq_ok, objection?_eq_none]
  exact and_congr_right precedence_iff

/-! ### A text that moves from the file to the environment -/

/-- Two pairs of a configuration and an environment that say the same, but for one
setting. Of that, the one says a text in the configuration and the other says it in the
environment. -/
structure Moved (s : Setting) (t : Text) (config other : Entries Json)
    (environment overriding : Entries Text) : Prop where
  given : given? config s = some (.text t)
  notOverridden : override? environment s = none
  notGiven : given? other s = none
  overridden : override? overriding s = some (.text t)
  sections (part : Section) : membersOf? config part = none ↔ membersOf? other part = none
  others (r : Setting) : r ≠ s →
    given? config r = given? other r ∧ override? environment r = override? overriding r

section Moved

variable {s : Setting} {t : Text} {config other : Entries Json}
    {environment overriding : Entries Text}

theorem Moved.says_iff (h : Moved s t config other environment overriding) (r : Setting)
    (value : Json) :
    Says config environment r value ↔ Says other overriding r value := by
  by_cases hr : r = s
  · subst hr
    simp [Says, h.given, h.notOverridden, h.notGiven, h.overridden]
  · obtain ⟨hgiven, hover⟩ := h.others r hr
    rw [Says, Says, hgiven, hover]

theorem Moved.wellFormed_iff (h : Moved s t config other environment overriding) :
    WellFormed config environment ↔ WellFormed other overriding := by
  simp only [Settings.wellFormed_iff, ne_eq, h.sections, h.says_iff]

theorem Moved.precedence_iff (h : Moved s t config other environment overriding)
    (settings : Settings) :
    Precedence config environment settings ↔ Precedence other overriding settings := by
  refine forall_congr' fun r => ?_
  by_cases hr : r = s
  · subst hr
    simp [h.given, h.notOverridden, h.overridden]
  · obtain ⟨hgiven, hover⟩ := h.others r hr
    rw [hgiven, hover]

/-- Everything that is said is well-formed, but perhaps what is said of one setting. -/
def FitsElsewhere (config : Entries Json) (environment : Entries Text)
    (s : Setting) : Prop :=
  (∀ part, membersOf? config part ≠ none) ∧
    ∀ r value, r ≠ s → Says config environment r value → Fits r value

theorem Moved.fitsElsewhere_iff (h : Moved s t config other environment overriding) :
    FitsElsewhere config environment s ↔ FitsElsewhere other overriding s := by
  simp only [FitsElsewhere, ne_eq, h.sections, h.says_iff]

theorem objection?_of_text {path : Path} {problem : Coercion.Fault}
    (hfits : FitsElsewhere config environment s)
    (hsaid : ∀ value, Says config environment s value ↔ value = .text t)
    (hread : Coercion.read s.shape (.text t) = .error problem) :
    objection? path config environment = some (.unfit s problem) := by
  have hself {r : Setting} {value : Json} {found : Coercion.Fault}
      (h : Says config environment r value)
      (hr : Coercion.read r.shape value = .error found) :
      r = s ∧ found = problem := by
    by_cases hrs : r = s
    · subst hrs
      cases (hsaid value).mp h
      exact ⟨rfl, Except.error.inj (hr.symm.trans hread)⟩
    · obtain ⟨v, hv⟩ := hfits.2 r value hrs h
      cases hr.symm.trans hv
  cases hobjection : objection? path config environment with
  | none =>
    have hwell := Settings.wellFormed_iff.mp (objection?_eq_none.mp hobjection)
    obtain ⟨v, hv⟩ := hwell.2 s _ ((hsaid _).mpr rfl)
    cases hread.symm.trans hv
  | some fault =>
    cases blames_of_objection? hobjection with
    | part h => exact absurd h (hfits.1 _)
    | value h hr =>
      obtain ⟨rfl, rfl⟩ := hself h hr
      rfl
    | number h hr hexcess =>
      obtain ⟨rfl, rfl⟩ := hself h hr
      obtain ⟨hinfinite, htooLarge⟩ := ne_of_read_text hread
      exact absurd hexcess (not_or.mpr ⟨hinfinite, htooLarge⟩)

end Moved

/-! ### A configuration that gives the port -/

/-- A configuration that gives the port. -/
def portConfig (port : Json) : Entries Json := [("server", .object [("port", port)])]

/-- The disk with a configuration file that gives the port, written like this. -/
def portDisk (port : Text) : Disk :=
  ⟨[(["config.json"],
    .file (Utf8.encode ("\x7b\"server\": \x7b\"port\": " ++ port ++ "\x7d\x7d")))]⟩

/-- The same with a section that is none in front. -/
def strangePortDisk (port : Text) : Disk :=
  ⟨[(["config.json"],
    .file (Utf8.encode ("\x7b\"a\": [], \"server\": \x7b\"port\": " ++ port ++
      "\x7d\x7d")))]⟩

theorem moved_port (t : Text) :
    Moved .port t (portConfig (.text t)) [] [] [(Setting.port.environmentName, t)] where
  given := rfl
  notOverridden := rfl
  notGiven := rfl
  overridden := by simp [override?, Entries.get?]
  sections part := by cases part <;> exact ⟨(fun h => by cases h), fun h => by cases h⟩
  others r hr := by cases r <;> first | exact ⟨rfl, rfl⟩ | exact absurd rfl hr

theorem fitsElsewhere_port (port : Json) : FitsElsewhere (portConfig port) [] .port := by
  refine ⟨fun part => ?_, fun r value hr h => ?_⟩
  · cases part <;> nofun
  · rcases h with h | h <;> cases r <;> first | exact absurd rfl hr | cases h

theorem rearranged_strangePort (port : Json) :
    Rearranged (portConfig port) (("a", .array []) :: portConfig port) :=
  have ha (part : Section) : part.name ≠ ("a" : Text) := by cases part <;> decide
  .symm (@Rearranged.unknownSection [] _ _ _ ha)

/-! ### The result -/

/-- Loading gives every setting what the uppermost layer says of it, if everything that
is present and known can be read; otherwise it fails for a part that cannot, and the
callers are told unless a number is too large. What is not looked at makes no
difference, and neither does it whether a text stands in the file or in the
environment. -/
theorem load_precedence (choice : Choice) (environment : Entries Text) (disk : Disk) :
    (∀ settings, load choice environment disk = .ok settings ↔
      ∃ config, readConfig choice.isRequired (configPath choice environment) disk =
        .ok config ∧
        WellFormed config environment ∧ Precedence config environment settings) ∧
    ∀ config, readConfig choice.isRequired (configPath choice environment) disk =
      .ok config →
      (Json.object config).Keyed ∧
      (¬ WellFormed config environment →
        ∃ fault, load choice environment disk = .error fault ∧
          Blames (configPath choice environment) config environment fault ∧
          (¬ Excessive config → Command.isTold fault = true)) ∧
      (∀ place other,
        readConfig choice.isRequired (configPath choice environment) place = .ok other →
        Rearranged config other → load choice environment place =
          load choice environment disk) ∧
      ∀ option overriding place other s t,
        readConfig option.isRequired (configPath option overriding) place = .ok other →
        Moved s t config other environment overriding →
        (∀ settings, load choice environment disk = .ok settings ↔
          load option overriding place = .ok settings) ∧
        (FitsElsewhere config environment s →
          ∀ problem, Coercion.read s.shape (.text t) = .error problem →
            load choice environment disk = .error (.unfit s problem) ∧
            load option overriding place = .error (.unfit s problem)) := by
  refine ⟨fun settings => ⟨fun h => ?_, ?_⟩, fun config hconfig => ?_⟩
  · rw [load_eq] at h
    obtain ⟨config, hconfig, -⟩ := bind_eq_ok.mp h
    rw [← load_eq, load_eq_ok_iff hconfig] at h
    exact ⟨config, hconfig, h⟩
  · rintro ⟨config, hconfig, h⟩
    exact (load_eq_ok_iff hconfig).mpr h
  refine ⟨keyed_of_readConfig hconfig, ?_, ?_, ?_⟩
  · intro hmalformed
    rw [load_of_readConfig hconfig]
    cases hobjection : objection? (configPath choice environment) config environment with
    | none => exact absurd (objection?_eq_none.mp hobjection) hmalformed
    | some fault =>
      have hblames := blames_of_objection? hobjection
      exact ⟨fault, rfl, hblames, hblames.isTold⟩
  · intro place other hother h
    rw [load_of_readConfig hconfig, load_of_readConfig hother,
      objection?_congr h.sameMembers, given?_congr h.sameMembers]
  · intro option overriding place other s t hother h
    refine ⟨fun settings => ?_, fun hfits problem hread => ?_⟩
    · rw [load_eq_ok_iff hconfig, load_eq_ok_iff hother, h.wellFormed_iff,
        h.precedence_iff]
    · have hsaid (value : Json) : Says config environment s value ↔ value = .text t := by
        simp [Says, h.given, h.notOverridden, eq_comm]
      rw [load_of_readConfig hconfig, load_of_readConfig hother, unlessObjected_eq_error,
        unlessObjected_eq_error]
      exact ⟨objection?_of_text hfits hsaid hread,
        objection?_of_text (h.fitsElsewhere_iff.mp hfits)
        (fun value => (h.says_iff s value).symm.trans (hsaid value)) hread⟩

/-- A port that is a text is the same in the file, behind a strange section and in the
environment, and is the same fault in the file and in the environment if it is no
number. -/
theorem load_precedence_port :
    (∃ settings, load .optional [] (portDisk "\"81\"") = .ok settings ∧
      load .optional [] (strangePortDisk "\"81\"") = .ok settings ∧
      load .optional [(Setting.port.environmentName, "81")] .empty = .ok settings ∧
      settings .port = 81) ∧
    load .optional [] (portDisk "\"x\"") =
      .error (.unfit .port (.notNumeral (.notInteger "x"))) ∧
    load .optional [(Setting.port.environmentName, "x")] .empty =
      .error (.unfit .port (.notNumeral (.notInteger "x"))) := by
  have hgood : readConfig Choice.optional.isRequired (configPath .optional [])
      (portDisk "\"81\"") =
      .ok (portConfig (.text "81")) := by cbv
  have hbad : readConfig Choice.optional.isRequired (configPath .optional [])
      (portDisk "\"x\"") =
      .ok (portConfig (.text "x")) := by cbv
  have hstrange : readConfig Choice.optional.isRequired (configPath .optional [])
      (strangePortDisk "\"81\"") =
        .ok (("a", .array []) :: portConfig (.text "81")) := by cbv
  have hwell : WellFormed (portConfig (.text "81")) [] := by
    obtain ⟨hsections, hothers⟩ := fitsElsewhere_port (.text "81")
    refine wellFormed_iff.mpr ⟨hsections, fun s value h => ?_⟩
    by_cases hs : s = .port
    · subst hs
      rcases h with h | h <;> cases h
      exact ⟨81, by cbv⟩
    · exact hothers s value hs h
  obtain ⟨hload, hrest⟩ := load_precedence .optional [] (portDisk "\"81\"")
  obtain ⟨-, -, hsame, hmoved⟩ := hrest _ hgood
  obtain ⟨hfile, -⟩ :=
    hmoved .optional [(Setting.port.environmentName, "81")] .empty [] .port "81"
    (by cbv) (moved_port "81")
  have hsettings : load .optional [] (portDisk "\"81\"") = .ok (default.put .port 81) :=
    (hload _).mpr ⟨_, hgood, hwell, fun s => by cases s <;> rfl⟩
  obtain ⟨-, hbadRest⟩ := load_precedence .optional [] (portDisk "\"x\"")
  obtain ⟨-, -, -, hbadMoved⟩ := hbadRest _ hbad
  obtain ⟨-, hfault⟩ :=
    hbadMoved .optional [(Setting.port.environmentName, "x")] .empty [] .port "x"
    (by cbv) (moved_port "x")
  refine ⟨⟨default.put .port 81, hsettings, ?_, (hfile _).mp hsettings, rfl⟩,
    hfault (fitsElsewhere_port _) _ (by cbv)⟩
  rw [hsame _ _ hstrange (rearranged_strangePort _)]
  exact hsettings

/-- A port that is a number without bound: the fault is none of the configuration's, so
nobody is told which setting it is about. -/
theorem load_infinitePort : ∃ fault, load .optional [] (portDisk "1e999") = .error fault ∧
    given? (portConfig (.float (.infinite false))) .port =
      some (.float (.infinite false)) ∧
    Command.isTold fault = false := by
  have hconfig : readConfig Choice.optional.isRequired (configPath .optional [])
      (portDisk "1e999") =
      .ok (portConfig (.float (.infinite false))) := by cbv
  refine ⟨.overflow .infinite, ?_, rfl, rfl⟩
  rw [load_of_readConfig hconfig, unlessObjected_eq_error]
  rfl

end Settings

end ExtensionAudit
