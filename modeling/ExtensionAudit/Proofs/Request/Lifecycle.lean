import ExtensionAudit.Proofs.Archive.Extraction
import ExtensionAudit.Request.Course
import Mathlib.Tactic.Common

/-!
# Request — the lifecycle

What the record of a request says at every moment of every course. One lemma says what a
turn can do to phase and record (`take_passage`), the invariant is read off it
(`InOrder.passage`), and a course keeps the invariant.
-/

namespace ExtensionAudit

/-! ## The stages ahead -/

/-- The stages that a request for an extension in the store goes through. -/
def Stage.path : List Stage := [.resolved, .fetched, .parsed, .extracted, .analyzed]

/-- The stages that a request goes through. A package at hand needs no resolving. -/
def Request.Origin.path : Request.Origin → List Stage
  | .target _ => Stage.path
  | .package _ => Stage.path.tail

/-- The stages still to be entered in a phase, if nothing fails. -/
def Phase.ahead : Phase → List Stage
  | .resolve _ => [.resolved, .fetched, .parsed, .extracted, .analyzed]
  | .fetch _ => [.fetched, .parsed, .extracted, .analyzed]
  | .parse _ => [.parsed, .extracted, .analyzed]
  | .extract | .readManifest | .list _ | .read .. => [.extracted, .analyzed]
  | .analyze _ => [.analyzed]
  | .cleanUp .. | .ended _ | .overrun _ => []

/-- The failure that a phase is about, if it is about one. -/
def Phase.fault? : Phase → Option Fault
  | .cleanUp (.error fault) _ | .ended (.error fault) | .overrun (.error fault) =>
    some fault
  | _ => none

/-- Is there still something to do but cleaning up? -/
def Phase.isBusy (phase : Phase) : Bool := 1 < Request.rank phase

/-- Has the cleaning up begun? -/
def Phase.hasBegun : Phase → Bool
  | .cleanUp _ (some _) | .ended _ | .overrun _ => true
  | _ => false

/-- Has the cleaning up come to its end? -/
def Phase.isCleaned : Phase → Bool
  | .ended _ => true
  | _ => false

/-- Is an extension looked for by what it is called? -/
def Phase.isResolve : Phase → Bool
  | .resolve _ => true
  | _ => false

/-- Are the analyses waited for? -/
def Phase.isAnalyze : Phase → Bool
  | .analyze _ => true
  | _ => false

theorem Phase.ne_resolve {phase : Phase} (h : phase.isResolve = false)
    (target : Json) : phase ≠ .resolve target := by
  rintro rfl
  cases h

theorem Phase.ne_analyze {phase : Phase} (h : phase.isAnalyze = false)
    (work : Workload) : phase ≠ .analyze work := by
  rintro rfl
  cases h

theorem Phase.eq_analyze {phase : Phase} (h : phase.isAnalyze = true) :
    ∃ work, phase = .analyze work := by
  cases phase with
  | analyze work => exact ⟨work, rfl⟩
  | _ => cases h

theorem Phase.ahead_ne_nil {phase : Phase} (h : phase.isBusy = true) :
    phase.ahead ≠ [] := by
  cases phase with
  | cleanUp outcome chores => exact absurd h (by simp [isBusy, Request.rank])
  | ended outcome => exact absurd h (by simp [isBusy, Request.rank])
  | overrun outcome => exact absurd h (by simp [isBusy, Request.rank])
  | _ => simp [ahead]

theorem Phase.fault?_of_isBusy {phase : Phase} (h : phase.isBusy = true) :
    phase.fault? = none := by
  cases phase with
  | cleanUp outcome chores => exact absurd h (by simp [isBusy, Request.rank])
  | ended outcome => exact absurd h (by simp [isBusy, Request.rank])
  | overrun outcome => exact absurd h (by simp [isBusy, Request.rank])
  | _ => rfl

theorem Phase.hasBegun_of_isBusy {phase : Phase}
    (h : phase.isBusy = true) : phase.hasBegun = false := by
  cases phase with
  | cleanUp outcome chores => exact absurd h (by simp [isBusy, Request.rank])
  | ended outcome => exact absurd h (by simp [isBusy, Request.rank])
  | overrun outcome => exact absurd h (by simp [isBusy, Request.rank])
  | _ => rfl

theorem Phase.isCleaned_of_hasBegun {phase : Phase} (h : phase.hasBegun = false) :
    phase.isCleaned = false := by
  cases phase with
  | ended outcome => cases h
  | _ => rfl

namespace Request

/-! ## What a turn can do -/

/-- Has the store been asked, or is it about to be? -/
def HasAsked (request : Request) : Prop :=
  (∃ id, request.phase = .fetch id) ∨ request.exchange.isSome = true

/-- How a turn takes a request on. It stays where it is, or goes on and enters stages,
or fails, or goes on with the cleaning up, has come to its end, or is overrun by it. The
store is asked, and the analyses are started, only along with their stages. -/
inductive Passage (before after : Request) : Prop
  | stays (phase : after.phase = before.phase) (record : after.record = before.record)
      (exchange : after.exchange = before.exchange)
      (analysis : after.analysis.isSome = before.analysis.isSome)
  | goesOn (stages : List Stage) (busy : before.phase.isBusy = true)
      (ahead : before.phase.ahead = stages ++ after.phase.ahead)
      (sound : after.phase.fault? = none) (unbegun : after.phase.hasBegun = false)
      (entered : after.record.entered = before.record.entered ++ stages)
      (error : after.record.error = before.record.error)
      (cleanups : after.record.cleanups = before.record.cleanups)
      (asked : after.HasAsked → before.HasAsked ∨ .resolved ∈ stages)
      (analyzed : after.analysis.isSome = true → before.analysis.isSome = true ∨
        .extracted ∈ stages)
  | fails (fault : Fault) (busy : before.phase.isBusy = true)
      (phase : after.phase = .cleanUp (.error fault) none)
      (record : after.record = before.record.fail fault)
      (asked : after.HasAsked → before.HasAsked)
      (analysis : after.analysis = before.analysis)
  | clears (outcome : Except Fault Report) {chores left : Option (List Chore)}
      (phase : before.phase = .cleanUp outcome chores)
      (going : after.phase = .cleanUp outcome left)
      (record : after.record = before.record)
        (exchange : after.exchange = before.exchange)
      (analysis : after.analysis = before.analysis)
  | cleansUp (outcome : Except Fault Report)
      (phase : before.phase = .cleanUp outcome (some []))
      (ended : after.phase = .ended outcome)
        (record : after.record = before.record.cleanedUp)
      (exchange : after.exchange = before.exchange)
        (analysis : after.analysis = before.analysis)
  | overruns (outcome : Except Fault Report) {chores : Option (List Chore)}
      (phase : before.phase = .cleanUp outcome chores)
      (overrun : after.phase = .overrun outcome)
      (record : after.record = before.record)
        (exchange : after.exchange = before.exchange)
      (analysis : after.analysis = before.analysis)

theorem Passage.fail {request : Request} (h : request.phase.isBusy = true)
    (fault : Fault) :
    Passage request (request.fail fault) := by
  refine .fails fault h rfl rfl ?_ rfl
  rintro (⟨id, hp⟩ | he)
  · cases hp
  · exact .inr he

/-- Going on where no stage is entered. -/
theorem Passage.goOn {request : Request} {phase : Phase}
    (hb : request.phase.isBusy = true) (hp : phase.isBusy = true)
    (ha : request.phase.ahead = phase.ahead) (hf : ∀ id, phase ≠ .fetch id) :
    Passage request (request.goOn phase) := by
  refine .goesOn [] hb ha (Phase.fault?_of_isBusy hp) (Phase.hasBegun_of_isBusy hp)
    (by simp [Request.goOn])
    rfl rfl ?_ fun h => .inl h
  rintro (⟨id, h⟩ | h)
  · exact absurd h (hf id)
  · exact .inl (.inr h)

theorem Passage.attempt {α : Type} {request : Request} (h : request.phase.isBusy = true)
    {result : Except Fault α} {next : α → Request} (hn : ∀ a, Passage request (next a)) :
    Passage request (request.attempt result next) := by
  cases result with
  | ok a => exact hn a
  | error fault => exact .fail h fault

theorem work_passage (request : Request)
    (disk : Disk) : Passage request (request.work disk).1 := by
  unfold work
  split
  · exact .stays rfl rfl rfl rfl
  · split <;> exact .stays rfl rfl rfl rfl

theorem notice_passage (request : Request) (event : Analysis.Event) :
    Passage request (request.notice event) := by
  unfold notice
  split
  · exact .stays rfl rfl rfl (by simp)
  · exact .stays rfl rfl rfl rfl

theorem cancel_passage (request : Request) : Passage request request.cancel := by
  unfold cancel
  split
  · exact .fail (by simp_all [Phase.isBusy, rank]) _
  · exact .fail (by simp_all [Phase.isBusy, rank]) _
  · exact .fail (by simp_all [Phase.isBusy, rank]) _
  · exact .fail (by simp_all [Phase.isBusy, rank]) _
  · exact notice_passage request _

theorem breakOff_passage (request : Request) (fault : Fault) :
    Passage request (request.breakOff fault) := by
  unfold breakOff
  split
  · rename_i work hp
    split
    · exact .fail (by simp [hp, Phase.isBusy, rank]) fault
    · exact .stays rfl rfl rfl rfl
  · exact .stays rfl rfl rfl rfl
  · exact .stays rfl rfl rfl rfl
  · exact .stays rfl rfl rfl rfl
  · rename_i hp
    refine .fails fault (by simp [hp, Phase.isBusy, rank]) rfl rfl ?_ rfl
    rintro (⟨id, h⟩ | h)
    · cases h
    · exact .inr h
  · -- What is left are the phases in which nothing keeps a failure from being one.
    rename_i h₁ h₂ h₃ h₄ h₅
    refine .fail ?_ fault
    cases hp : request.phase with
    | analyze work => exact absurd hp (h₁ work)
    | cleanUp outcome chores => exact absurd hp (h₂ outcome chores)
    | ended outcome => exact absurd hp (h₃ outcome)
    | overrun outcome => exact absurd hp (h₄ outcome)
    | _ => simp [Phase.isBusy, rank]

theorem conclude_passage {request : Request} {work : Workload}
    (hp : request.phase = .analyze work) :
    Passage request (request.conclude work) := by
  have hb : request.phase.isBusy = true := by simp [hp, Phase.isBusy, rank]
  unfold conclude
  split
  · exact .stays rfl rfl rfl rfl
  · exact .fail hb _
  · refine .attempt hb fun report => ?_
    refine .goesOn [.analyzed] hb (by simp [hp, enter, Phase.ahead]) rfl rfl
      rfl rfl rfl ?_
      fun h => .inl h
    rintro (⟨id, h⟩ | h)
    · cases h
    · exact .inl (.inr h)

theorem clean_passage {request : Request}
    {outcome : Except Fault Report} {chores : Option (List Chore)}
    (hp : request.phase = .cleanUp outcome chores) (levels : Nat)
    (disk : Disk) : Passage request (request.clean levels disk outcome chores).1 := by
  rw [clean.eq_def]
  split
  · exact .clears outcome hp rfl rfl rfl rfl
  · exact .cleansUp outcome hp rfl rfl rfl rfl
  · split
    · exact .clears outcome hp rfl rfl rfl rfl
    · exact .overruns outcome hp rfl rfl rfl rfl

theorem step_passage (auditor : Auditor) (reply : Fetch.Reply) (request : Request)
    (disk : Disk) :
    Passage request (request.step auditor reply disk).1 := by
  obtain ⟨directory, record, phase, worker, exchange, analysis⟩ := request
  cases phase with
  | resolve target =>
    simp only [step]
    split
    · exact .fail rfl _
    · refine .goesOn [.resolved] rfl rfl rfl rfl rfl rfl rfl ?_ fun h => .inl h
      intro _
      exact .inr (List.mem_singleton_self _)
  | fetch id =>
    -- The exchange is noted before its outcome is looked at, so a failure keeps it, too.
    simp only [step]
    cases (Fetch.fetch auditor.fetching reply id).outcome with
    | error fault => exact .fails (.fetch fault) rfl rfl rfl (fun _ => .inl ⟨id, rfl⟩) rfl
    | ok package =>
      exact .goesOn [.fetched] rfl rfl rfl rfl rfl rfl rfl
        (fun _ => .inl (.inl ⟨id, rfl⟩))
        fun h => .inl h
  | parse package =>
    refine .attempt rfl fun archive => ?_
    refine .goesOn [.parsed] rfl rfl rfl rfl rfl rfl rfl ?_ fun h => .inl h
    rintro (⟨id, h⟩ | h)
    · cases h
    · exact .inl (.inr h)
  | extract =>
    obtain ⟨pending, fault⟩ := worker
    cases pending with
    | nil =>
      cases fault with
      | none => exact .goOn rfl rfl rfl fun id h => by cases h
      | some fault => exact .fail rfl _
    | cons action rest => exact work_passage _ disk
  | readManifest => exact .attempt rfl fun _ => .goOn rfl rfl rfl fun id h => by cases h
  | list manifest => exact .attempt rfl fun _ => .goOn rfl rfl rfl fun id h => by cases h
  | read manifest pending files =>
    cases pending with
    | nil =>
      refine .goesOn [.extracted] rfl rfl rfl rfl rfl rfl rfl ?_
        fun _ => .inr (List.mem_singleton_self _)
      rintro (⟨id, h⟩ | h)
      · cases h
      · exact .inl (.inr h)
    | cons names rest =>
      exact .attempt rfl fun _ => .goOn rfl rfl rfl fun id h => by cases h
  | analyze work => exact conclude_passage rfl
  | cleanUp outcome chores => exact clean_passage rfl _ disk
  | ended outcome => exact .stays rfl rfl rfl rfl
  | overrun outcome => exact .stays rfl rfl rfl rfl

theorem take_passage (auditor : Auditor) (request : Request) (disk : Disk) (turn : Turn) :
    Passage request (request.take auditor disk turn).1 := by
  cases turn with
  | step reply => exact step_passage auditor reply request disk
  | work => exact work_passage request disk
  | event event => exact notice_passage request event
  | failure fault => exact breakOff_passage request fault
  | cancellation => exact cancel_passage request

/-! ## The invariant -/

/-- What the record of a request on a path of stages says. Without a failure, the stages
entered and those ahead are the path; a failure is noted, closes the stages, and keeps
some of the path back. -/
structure InOrder (path : List Stage) (request : Request) : Prop where
  sound : request.phase.fault? = none →
    path = request.record.entered ++ request.phase.ahead ∧ request.record.error = none
  failed : ∀ fault, request.phase.fault? = some fault →
    request.record.error = some fault ∧ ∃ stages, stages <+: path ∧ stages ≠ path ∧
      request.record.entered = stages ++ [.failed]
  cleanups : request.record.cleanups = if request.phase.isCleaned then 1 else 0
  asked : request.HasAsked → .resolved ∈ request.record.entered
  analyzed : request.analysis.isSome = true → .extracted ∈ request.record.entered

theorem inOrder_request (directory : Path) (origin : Origin) :
    InOrder origin.path (origin.request directory) := by
  cases origin with
  | target value =>
    refine ⟨fun _ => ⟨rfl, rfl⟩, ?_, rfl, ?_, ?_⟩
    · intro fault h
      cases h
    · rintro (⟨id, h⟩ | h) <;> cases h
    · intro h
      cases h
  | package bytes =>
    refine ⟨fun _ => ⟨rfl, rfl⟩, ?_, rfl, ?_, ?_⟩
    · intro fault h
      cases h
    · rintro (⟨id, h⟩ | h) <;> cases h
    · intro h
      cases h

/-- What the record says stays true where only the count of the cleanings-up changes. -/
theorem InOrder.cleaning {path : List Stage} {before after : Request}
    (h : InOrder path before) (entered : after.record.entered = before.record.entered)
    (error : after.record.error = before.record.error)
    (cleanups : after.record.cleanups = if after.phase.isCleaned then 1 else 0)
    (fault : after.phase.fault? = before.phase.fault?)
    (ahead : after.phase.ahead = before.phase.ahead)
    (asked : after.HasAsked → before.HasAsked)
    (analysis : after.analysis.isSome = before.analysis.isSome) :
    InOrder path after := by
  refine ⟨?_, ?_, cleanups, fun ha => entered ▸ h.asked (asked ha), fun ha => ?_⟩
  · rw [fault, entered, error, ahead]
    exact h.sound
  · rw [fault, entered, error]
    exact h.failed
  · rw [entered]
    exact h.analyzed (analysis ▸ ha)

/-- While a request cleans up, it does not ask. -/
theorem HasAsked.of_exchange {before after : Request}
    (h : after.HasAsked) (exchange : after.exchange = before.exchange)
    (hphase : ∀ id, after.phase ≠ .fetch id) :
    before.HasAsked := by
  rcases h with ⟨id, hid⟩ | hsome
  · exact absurd hid (hphase id)
  · exact .inr (exchange ▸ hsome)

theorem InOrder.passage {path : List Stage} {before after : Request}
    (h : InOrder path before) (hp : Passage before after) : InOrder path after := by
  cases hp with
  | stays phase record exchange analysis =>
    have hask : after.HasAsked → before.HasAsked := by
      rw [HasAsked, HasAsked, phase, exchange]
      exact id
    exact h.cleaning (by rw [record]) (by rw [record]) (by rw [record, phase, h.cleanups])
      (by rw [phase]) (by rw [phase]) hask analysis
  | goesOn stages busy ahead sound unbegun entered error cleanups asked analyzed =>
    obtain ⟨hpath, herror⟩ := h.sound (Phase.fault?_of_isBusy busy)
    refine ⟨fun _ => ⟨?_, error.trans herror⟩, fun fault hf => ?_, ?_,
      fun ha => ?_, fun ha => ?_⟩
    · rw [entered, List.append_assoc, ← ahead]
      exact hpath
    · rw [sound] at hf
      cases hf
    · rw [cleanups, h.cleanups, Phase.isCleaned_of_hasBegun
        (Phase.hasBegun_of_isBusy busy), Phase.isCleaned_of_hasBegun unbegun]
    · rw [entered, List.mem_append]
      exact (asked ha).imp h.asked id
    · rw [entered, List.mem_append]
      exact (analyzed ha).imp h.analyzed id
  | fails fault busy phase record asked analysis =>
    obtain ⟨hpath, -⟩ := h.sound (Phase.fault?_of_isBusy busy)
    have hentered : after.record.entered = before.record.entered ++ [.failed] := by
      rw [record]
      rfl
    refine ⟨fun hn => ?_, fun found hf => ?_, ?_, fun ha => ?_, fun ha => ?_⟩
    · rw [phase] at hn
      cases hn
    · rw [phase] at hf
      cases hf
      refine ⟨by rw [record]; rfl, before.record.entered, ⟨_, hpath.symm⟩, ?_, hentered⟩
      intro heq
      -- All stages entered would leave none ahead, but in a busy phase there are some.
      rw [heq] at hpath
      exact Phase.ahead_ne_nil busy (List.self_eq_append_right.mp hpath)
    · have hc : after.record.cleanups = before.record.cleanups := by
        rw [record]
        rfl
      rw [hc, h.cleanups,
        Phase.isCleaned_of_hasBegun (Phase.hasBegun_of_isBusy busy), phase]
      rfl
    · rw [hentered, List.mem_append]
      exact .inl (h.asked (asked ha))
    · rw [hentered, List.mem_append]
      exact .inl (h.analyzed (analysis ▸ ha))
  | clears outcome phase going record exchange analysis =>
    refine h.cleaning (by rw [record]) (by rw [record]) ?_ ?_ (by rw [phase, going]; rfl)
      (fun ha => ha.of_exchange exchange (by simp [going])) (by rw [analysis])
    · rw [record, h.cleanups, phase, going]
      rfl
    · rw [phase, going]
      cases outcome <;> rfl
  | cleansUp outcome phase ended record exchange analysis =>
    refine h.cleaning (by rw [record]; rfl) (by rw [record]; rfl) ?_ ?_
      (by rw [phase, ended]; rfl)
      (fun ha => ha.of_exchange exchange (by simp [ended])) (by rw [analysis])
    · have hc : after.record.cleanups = before.record.cleanups + 1 := by
        rw [record]
        rfl
      rw [hc, h.cleanups, phase, ended]
      rfl
    · rw [phase, ended]
      cases outcome <;> rfl
  | overruns outcome phase overrun record exchange analysis =>
    refine h.cleaning (by rw [record]) (by rw [record]) ?_ ?_
      (by rw [phase, overrun]; rfl)
      (fun ha => ha.of_exchange exchange (by simp [overrun])) (by rw [analysis])
    · rw [record, h.cleanups, phase, overrun]
      rfl
    · rw [phase, overrun]
      cases outcome <;> rfl

/-! ## The extraction directory -/

theorem directory_work (request : Request) (disk : Disk) :
    (request.work disk).1.directory = request.directory := by
  unfold work
  split
  · rfl
  · split <;> rfl

theorem directory_attempt {α : Type} {request : Request} {result : Except Fault α}
    {next : α → Request} (h : ∀ a, (next a).directory = request.directory) :
    (request.attempt result next).directory = request.directory := by
  cases result with
  | ok a => exact h a
  | error fault => rfl

/-- By cleaning up a request changes in its phase and its record only, and what it has
come to stays. -/
theorem clean_cases (levels : Nat) (request : Request) (disk : Disk)
    (outcome : Except Fault Report) (chores : Option (List Chore)) : ∃ phase record,
    (request.clean levels disk outcome chores).1 =
      { request with phase := phase, record := record } ∧
      ((∃ left, phase = .cleanUp outcome left) ∨ phase = .ended outcome ∨
        phase = .overrun outcome) := by
  rw [clean.eq_def]
  split
  · exact ⟨_, _, rfl, .inl ⟨_, rfl⟩⟩
  · exact ⟨_, _, rfl, .inr (.inl rfl)⟩
  · split
    · exact ⟨_, _, rfl, .inl ⟨_, rfl⟩⟩
    · exact ⟨_, _, rfl, .inr (.inr rfl)⟩

theorem directory_step (auditor : Auditor) (reply : Fetch.Reply) (request : Request)
    (disk : Disk) :
    (request.step auditor reply disk).1.directory = request.directory := by
  obtain ⟨directory, record, phase, worker, exchange, analysis⟩ := request
  cases phase with
  | resolve target =>
    simp only [step]
    split <;> rfl
  | fetch id => exact directory_attempt fun _ => rfl
  | parse package => exact directory_attempt fun _ => rfl
  | extract =>
    obtain ⟨pending, fault⟩ := worker
    cases pending with
    | nil => cases fault <;> rfl
    | cons action rest => exact directory_work _ disk
  | readManifest => exact directory_attempt fun _ => rfl
  | list manifest => exact directory_attempt fun _ => rfl
  | read manifest pending files =>
    cases pending with
    | nil => rfl
    | cons names rest => exact directory_attempt fun _ => rfl
  | analyze work =>
    simp only [step, conclude]
    split
    · rfl
    · rfl
    · exact directory_attempt fun _ => rfl
  | cleanUp outcome chores =>
    obtain ⟨phase, record, hclean, -⟩ := clean_cases auditor.platform.removing
      ⟨directory, record, .cleanUp outcome chores, worker, exchange,
        analysis⟩ disk outcome chores
    rw [step, hclean]
  | ended outcome => rfl
  | overrun outcome => rfl

theorem directory_take (auditor : Auditor) (request : Request) (disk : Disk)
    (turn : Turn) :
    (request.take auditor disk turn).1.directory = request.directory := by
  cases turn with
  | step reply => exact directory_step auditor reply request disk
  | work => exact directory_work request disk
  | event event => exact directory_notice request event
  | failure fault =>
    simp only [take, breakOff]
    split
    · split <;> rfl
    all_goals rfl
  | cancellation =>
    simp only [take, cancel]
    split
    any_goals rfl
    exact directory_notice request _

/-! ## The whole course -/

/-- A course keeps what every turn of it keeps. -/
theorem course_induction {P : Request → Disk → Prop} {auditor : Auditor}
    (take : ∀ request disk turn, P request disk →
      P (request.take auditor disk turn).1 (request.take auditor disk turn).2)
    {request : Request} {disk : Disk} (h : P request disk) (turns : List Turn) :
    P (request.course auditor disk turns).1 (request.course auditor disk turns).2 := by
  induction turns generalizing request disk with
  | nil => exact h
  | cons turn rest ih =>
    rw [course]
    cases hb : request.isEnded with
    | true => simpa [hb] using h
    | false => exact ih (take request disk turn h)

/-! ## Driving is a course -/

theorem course_of_isEnded {auditor : Auditor} {request : Request} {disk : Disk}
    (h : request.isEnded = true) (turns : List Turn) :
    request.course auditor disk turns = (request, disk) := by
  cases turns with
  | nil => rfl
  | cons turn rest => rw [course, if_pos h]

theorem course_append (auditor : Auditor) (request : Request) (disk : Disk)
    (first second : List Turn) :
    request.course auditor disk (first ++ second) =
      (request.course auditor disk first).1.course auditor
        (request.course auditor disk first).2
        second := by
  induction first generalizing request disk with
  | nil => rfl
  | cons turn rest ih =>
    cases hb : request.isEnded with
    | true => rw [course_of_isEnded hb, course_of_isEnded hb, course_of_isEnded hb]
    | false =>
      rw [List.cons_append, course, course, hb, if_neg Bool.false_ne_true,
        if_neg Bool.false_ne_true]
      exact ih _ _

/-- Events do not end a request, so a course of them takes note of each. -/
theorem course_events (auditor : Auditor) {request : Request} (disk : Disk)
    (h : request.isEnded = false) (events : List Analysis.Event) :
    request.course auditor disk (events.map .event) =
      (events.foldl notice request, disk) := by
  induction events generalizing request with
  | nil => rfl
  | cons event rest ih =>
    have hn : (request.notice event).isEnded = false := by
      rw [isEnded, phase_notice, ← isEnded, h]
    rw [List.map_cons, course, h, if_neg Bool.false_ne_true, List.foldl_cons]
    exact ih hn

theorem undergo_eq_course (auditor : Auditor) (world : World) {request : Request}
    (disk : Disk) (h : request.isEnded = false) :
    ∃ turns, .work ∉ turns ∧ (request.undergo world, disk) =
      request.course auditor disk turns := by
  unfold undergo
  split
  · exact ⟨_, by simp, (course_events auditor disk h _).symm⟩
  · exact ⟨[], List.not_mem_nil, rfl⟩

/-- A request that is driven never lets its worker go on by itself. -/
theorem drive_eq_course (auditor : Auditor) (world : World) (request : Request)
    (disk : Disk) :
    ∃ turns, .work ∉ turns ∧
      request.drive auditor world disk = request.course auditor disk turns := by
  -- The induction is on the steps of the driver; each of them is the events it lets
  -- happen, then a turn.
  induction request, disk using drive.induct auditor world with
  | case1 request disk h => exact ⟨[], List.not_mem_nil, by rw [drive, if_pos h]; rfl⟩
  | case2 request disk h hw =>
    obtain ⟨turns, hidle, ht⟩ := undergo_eq_course auditor world disk (by simpa using h)
    exact ⟨turns, hidle, by rw [drive, if_neg h, if_pos hw, ht]⟩
  | case3 request disk h hw next ih =>
    obtain ⟨first, hfirst, hf⟩ := undergo_eq_course auditor world disk (by simpa using h)
    obtain ⟨rest, hrest, hr⟩ := ih
    have hu : (request.undergo world).isEnded = false := by
      rw [isEnded_undergo]
      simpa using h
    refine ⟨first ++ .step world.reply :: rest, by simp [hfirst, hrest], ?_⟩
    rw [drive, if_neg h, if_neg hw, course_append, ← hf, course, hu,
      if_neg Bool.false_ne_true]
    exact hr

end Request

namespace Call

theorem inOrder (call : Call) : Request.InOrder call.origin.path call.request :=
  Request.course_induction (P := fun request _ =>
    Request.InOrder call.origin.path request)
    (fun request disk turn h =>
      h.passage (Request.take_passage call.auditor request disk turn))
    (Request.inOrder_request call.directory call.origin) call.turns

theorem workspace (call : Call) : call.request.directory = call.directory := by
  refine Request.course_induction (P := fun request _ => request.directory =
    call.directory)
    (fun request disk turn h =>
      (Request.directory_take call.auditor request disk turn).trans h)
    ?_ call.turns
  cases call.origin <;> rfl

/-- What is answered comes of a call, so whatever holds of all calls holds of it. -/
theorem exists_answer (auditor : Auditor) (world : World)
    (origin : Request.Origin) {directory : Path} {before opened : Disk}
    (h : before.makeDirectory directory = .ok opened) :
    ∃ turns, .work ∉ turns ∧
      (⟨auditor, origin, directory, before, opened, h, turns⟩ : Call).course =
        (origin.request directory).answer auditor world before := by
  obtain ⟨turns, hidle, ht⟩ :=
    Request.drive_eq_course auditor world (origin.request directory) opened
  have hdirectory : (origin.request directory).directory =
      directory := by cases origin <;> rfl
  refine ⟨turns, hidle, ?_⟩
  rw [Request.answer, Request.openDirectory, hdirectory, h]
  exact ht.symm

end Call

end ExtensionAudit
