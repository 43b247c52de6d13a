import ExtensionAudit.Proofs.Request.Lifecycle
import ExtensionAudit.Proofs.Request.Runs
import Mathlib.Data.List.Induction

/-!
# Request — the moments of its analyses

One lemma says what a turn can do to the analyses of a request (`take_touches`), and
what holds of them at every moment is read off it (`Watched`). What holds of them in the
end has come to hold by an event (`Call.comesToHold`), and what every event keeps lasts
to the end (`Call.analysis_after_append`).
-/


namespace ExtensionAudit

/-! ## The request -/

namespace Request

/-- What a turn does to the analyses of a request: nothing, whether or not the request
goes on; it starts them; it is one of their events; or the request has concluded
them. -/
inductive Touches (turn : Turn) (before after : Request) : Prop
  | keeps (phase : after.phase = before.phase)
      (analysis : after.analysis = before.analysis)
  | passes (hbefore : ∀ work, before.phase ≠ .analyze work)
      (hafter : ∀ work, after.phase ≠ .analyze work)
      (idle : before.phase.isBusy = false → after.phase.isBusy = false ∧
        after.phase.fault? = before.phase.fault?)
      (analysis : after.analysis = before.analysis)
  | starts (work : Workload) (busy : before.phase.isBusy = true)
      (hbefore : ∀ work, before.phase ≠ .analyze work)
      (phase : after.phase = .analyze work)
      (analysis : after.analysis = some (.start work))
  | happens (work : Workload) (event : Analysis.Event)
      (hphase : before.phase = .analyze work)
      (phase : after.phase = .analyze work)
      (analysis : after.analysis = before.analysis.map (Analysis.step work · event))
      (hturn : turn = .event event ∨ turn = .cancellation ∧ event = .aborted)
  | closes (work : Workload) {result : Except Fault (List Part)}
      (hphase : before.phase = .analyze work)
      (settled : before.settlement? = some result) (idle : after.phase.isBusy = false)
      (fault : ∀ fault, result = .error fault → after.phase.fault? = some fault)
      (analysis : after.analysis = before.analysis)

variable {turn : Turn} {request : Request}

theorem Touches.fail (hbusy : request.phase.isBusy = true)
    (h : request.phase.isAnalyze = false)
    (fault : Fault) : Touches turn request (request.fail fault) := by
  refine .passes (Phase.ne_analyze h) (Phase.ne_analyze rfl) (fun hidle => ?_) rfl
  rw [hbusy] at hidle
  cases hidle

/-- Going on without the analyses. -/
theorem Touches.goOn {after : Request} (hbusy : request.phase.isBusy = true)
    (h : request.phase.isAnalyze = false) (hafter : after.phase.isAnalyze = false)
    (hanalysis : after.analysis = request.analysis) : Touches turn request after := by
  refine .passes (Phase.ne_analyze h) (Phase.ne_analyze hafter)
    (fun hidle => ?_) hanalysis
  rw [hbusy] at hidle
  cases hidle

theorem Touches.attempt {α : Type} {result : Except Fault α}
    {next : α → Request} (hbusy : request.phase.isBusy = true)
    (h : request.phase.isAnalyze = false) (hnext : ∀ a, Touches turn request (next a)) :
    Touches turn request (request.attempt result next) := by
  cases result with
  | ok a => exact hnext a
  | error fault => exact .fail hbusy h fault

theorem work_touches (request : Request)
    (disk : Disk) : Touches turn request (request.work disk).1 := by
  unfold work
  split
  · exact .keeps rfl rfl
  · split <;> exact .keeps rfl rfl

theorem notice_touches (request : Request) (event : Analysis.Event)
    (hturn : turn = .event event ∨ turn = .cancellation ∧ event = .aborted) :
    Touches turn request (request.notice event) := by
  unfold notice
  split
  · rename_i work hphase
    exact .happens work event hphase hphase rfl hturn
  · exact .keeps rfl rfl

theorem step_touches (auditor : Auditor) (reply : Fetch.Reply) (request : Request)
    (disk : Disk) :
    Touches turn request (request.step auditor reply disk).1 := by
  -- Only the stage of the analyses can close them, and only the end of the reading can
  -- start them. No other stage touches them.
  obtain ⟨directory, record, phase, worker, exchange, analysis⟩ := request
  cases phase with
  | resolve target =>
    simp only [step]
    split
    · exact .fail rfl rfl _
    · exact .goOn rfl rfl rfl rfl
  | fetch id =>
    simp only [step]
    cases (Fetch.fetch auditor.fetching reply id).outcome with
    | error fault => exact .goOn rfl rfl rfl rfl
    | ok package => exact .goOn rfl rfl rfl rfl
  | parse package => exact .attempt rfl rfl fun archive => .goOn rfl rfl rfl rfl
  | extract =>
    obtain ⟨pending, fault⟩ := worker
    cases pending with
    | nil =>
      cases fault with
      | none => exact .goOn rfl rfl rfl rfl
      | some fault => exact .fail rfl rfl _
    | cons action rest => exact work_touches _ disk
  | readManifest =>
    exact .attempt rfl rfl fun manifest => .goOn rfl rfl rfl rfl
  | list manifest => exact .attempt rfl rfl fun pending => .goOn rfl rfl rfl rfl
  | read manifest pending files =>
    cases pending with
    | nil => exact .starts _ rfl (Phase.ne_analyze rfl) rfl rfl
    | cons names rest => exact .attempt rfl rfl fun text => .goOn rfl rfl rfl rfl
  | analyze work =>
    simp only [step, conclude]
    split
    · exact .keeps rfl rfl
    · rename_i fault hsettled
      exact .closes work rfl hsettled rfl (fun found heq => by cases heq; rfl) rfl
    · rename_i parts hsettled
      cases report work.manifest parts with
      | ok report => exact .closes work rfl hsettled rfl (fun _ h => by cases h) rfl
      | error fault => exact .closes work rfl hsettled rfl (fun _ h => by cases h) rfl
  | cleanUp outcome chores =>
    obtain ⟨phase, record, hclean, hphase⟩ := clean_cases auditor.platform.removing
      ⟨directory, record, .cleanUp outcome chores, worker, exchange,
        analysis⟩ disk outcome chores
    rw [step, hclean]
    have hidle : phase.isAnalyze = false ∧ phase.isBusy = false ∧
        phase.fault? = (Phase.cleanUp outcome chores).fault? := by
      rcases hphase with ⟨left, rfl⟩ | rfl | rfl <;> cases outcome
        <;> exact ⟨rfl, rfl, rfl⟩
    exact .passes (Phase.ne_analyze rfl) (Phase.ne_analyze hidle.1) (fun _ => hidle.2) rfl
  | ended outcome => exact .keeps rfl rfl
  | overrun outcome => exact .keeps rfl rfl

theorem breakOff_touches (request : Request) (fault : Fault) :
    Touches turn request (request.breakOff fault) := by
  unfold breakOff
  split
  · rename_i work hphase
    split
    · rename_i parts hsettled
      exact .closes work hphase hsettled rfl nofun rfl
    · exact .keeps rfl rfl
  · exact .keeps rfl rfl
  · exact .keeps rfl rfl
  · exact .keeps rfl rfl
  · rename_i hphase
    exact .goOn (by rw [hphase]; rfl) (by rw [hphase]; rfl) rfl rfl
  · -- What is left are the phases in which nothing keeps a failure from being one.
    rename_i hanalyze hcleanUp hended hoverrun hextract
    have hidle : request.phase.isAnalyze = false := by
      cases hphase : request.phase with
      | analyze work => exact absurd hphase (hanalyze work)
      | _ => rfl
    refine .fail ?_ hidle fault
    cases hphase : request.phase with
    | analyze work => exact absurd hphase (hanalyze work)
    | cleanUp outcome chores => exact absurd hphase (hcleanUp outcome chores)
    | ended outcome => exact absurd hphase (hended outcome)
    | overrun outcome => exact absurd hphase (hoverrun outcome)
    | _ => rfl

theorem cancel_touches (request : Request) :
    Touches .cancellation request request.cancel := by
  unfold cancel
  split
  · rename_i hphase
    exact .fail (by rw [hphase]; rfl) (by rw [hphase]; rfl) _
  · rename_i hphase
    exact .fail (by rw [hphase]; rfl) (by rw [hphase]; rfl) _
  · rename_i hphase
    exact .fail (by rw [hphase]; rfl) (by rw [hphase]; rfl) _
  · rename_i hphase
    exact .fail (by rw [hphase]; rfl) (by rw [hphase]; rfl) _
  · exact notice_touches request .aborted (.inr ⟨rfl, rfl⟩)

theorem take_touches (auditor : Auditor) (request : Request) (disk : Disk) (turn : Turn) :
    Touches turn request (request.take auditor disk turn).1 := by
  cases turn with
  | step reply => exact step_touches auditor reply request disk
  | work => exact work_touches request disk
  | event event => exact notice_touches request event (.inl rfl)
  | failure fault => exact breakOff_touches request fault
  | cancellation => exact cancel_touches request

/-- What holds of the analyses of a request at every moment: before they are started
there are none, and once the request has concluded them they are all settled, and their
failure is that of the request. -/
inductive Watched (request : Request) : Prop
  | early (hphase : ∀ work, request.phase ≠ .analyze work)
      (hnone : request.analysis = none)
  | amid {work : Workload} {analysis : Analysis} (hphase : request.phase = .analyze work)
      (hanalysis : request.analysis = some analysis) (attended : analysis.Attended work)
  | late {work : Workload} {analysis : Analysis} (idle : request.phase.isBusy = false)
      (hanalysis : request.analysis = some analysis) (attended : analysis.Attended work)
      (settled : analysis.join.isSettled = true)
      (failed : ∀ fault, analysis.outcome? = some (.error fault) →
        request.phase.fault? = some fault)

theorem Watched.attended {analysis : Analysis} (h : Watched request)
    (hanalysis : request.analysis = some analysis) : ∃ work, analysis.Attended work := by
  cases h with
  | early hphase hnone => cases hnone.symm.trans hanalysis
  | amid hphase hfound attended =>
    cases hfound.symm.trans hanalysis
    exact ⟨_, attended⟩
  | late idle hfound attended settled failed =>
    cases hfound.symm.trans hanalysis
    exact ⟨_, attended⟩

/-- A request that waits for its analyses has them. -/
theorem Watched.of_analyze {work : Workload} (h : Watched request)
    (hphase : request.phase = .analyze work) :
    ∃ analysis, request.analysis = some analysis ∧ analysis.Attended work := by
  cases h with
  | early hother hnone => exact absurd hphase (hother work)
  | amid hfound hanalysis attended =>
    cases hphase.symm.trans hfound
    exact ⟨_, hanalysis, attended⟩
  | late idle hanalysis attended settled failed =>
    rw [hphase] at idle
    cases idle

theorem isSettled_of_outcome? {join : Join Part Fault} {result : Except Fault (List Part)}
    (h : join.outcome? = some result) : join.isSettled = true := by
  rw [Join.outcome?] at h
  split at h
  · assumption
  · cases h

theorem Watched.touch {after : Request}
    (h : Watched request) (ht : Touches turn request after)
    (hturn : ∀ tool fault, turn ≠ .event (.broken (Analysis.index tool) fault)) :
    Watched after := by
  cases ht with
  | keeps phase analysis =>
    cases h with
    | early hphase hnone => exact .early (phase ▸ hphase) (analysis.trans hnone)
    | amid hphase hanalysis attended =>
      exact .amid (phase.trans hphase) (analysis.trans hanalysis) attended
    | late idle hanalysis attended settled failed =>
      exact .late (phase ▸ idle) (analysis.trans hanalysis) attended settled
        (phase ▸ failed)
  | passes hbefore hafter hidle analysis =>
    cases h with
    | early hphase hnone => exact .early hafter (analysis.trans hnone)
    | amid hphase hanalysis attended => exact absurd hphase (hbefore _)
    | late idle hanalysis attended settled failed =>
      obtain ⟨hlater, hfault⟩ := hidle idle
      exact .late hlater (analysis.trans hanalysis) attended settled (hfault ▸ failed)
  | starts work busy hbefore phase analysis =>
    exact .amid phase analysis (Analysis.attended_start work)
  | happens work event hphase phase analysis hevent =>
    have hordinary (tool : Tool) (fault : Fault) :
        event ≠ .broken (Analysis.index tool) fault := by
      rintro rfl
      rcases hevent with hevent | ⟨-, hevent⟩
      · exact hturn tool fault hevent
      · cases hevent
    obtain ⟨early, hearly, attended⟩ := h.of_analyze hphase
    rw [hearly] at analysis
    exact .amid phase analysis (attended.step event hordinary)
  | closes work hphase hsettled idle hfault analysis =>
    obtain ⟨early, hearly, attended⟩ := h.of_analyze hphase
    rw [settlement?, hearly] at hsettled
    refine .late idle (analysis.trans hearly) attended (isSettled_of_outcome? hsettled) ?_
    intro fault hfailed
    exact hfault fault (Option.some.inj (hsettled.symm.trans hfailed))

/-- What becomes of the analyses of a request with a turn: nothing, or they are started,
or they undergo an event. -/
inductive Progress (turn : Turn) (before after : Option Analysis) : Prop
  | none (same : after = before)
  | started (work : Workload) (hnone : before = .none)
      (hstarted : after = some (.start work))
  | event (work : Workload) {early : Analysis} (event : Analysis.Event)
      (hearly : before = some early)
      (attended : early.Attended work) (hlater : after = some (early.step work event))
      (turn_eq : turn = .event event ∨ turn = .cancellation ∧ event = .aborted)

theorem Watched.progress {after : Request} (h : Watched request)
    (ht : Touches turn request after) :
    Progress turn request.analysis after.analysis := by
  cases ht with
  | keeps phase analysis => exact .none analysis
  | passes hbefore hafter hidle analysis => exact .none analysis
  | closes work hphase hsettled hidle hfault analysis => exact .none analysis
  | starts work busy hbefore phase analysis =>
    -- The analyses are started once.
    cases h with
    | early hphase hnone => exact .started work hnone analysis
    | amid hphase hanalysis attended => exact absurd hphase (hbefore _)
    | late idle hanalysis attended settled failed =>
      rw [busy] at idle
      cases idle
  | happens work event hphase phase analysis turn_eq =>
    obtain ⟨early, hearly, attended⟩ := h.of_analyze hphase
    exact .event work event hearly attended (by rw [analysis, hearly]; rfl) turn_eq

end Request

/-! ## The moments of a call -/

namespace Call

/-- The request of a call after some turns. -/
def after (call : Call) (turns : List Request.Turn) : Request :=
  ((call.origin.request call.directory).course call.auditor call.opened turns).1

/-- The tools fail only as their runs do. -/
def IsOrdinary (turns : List Request.Turn) : Prop :=
  ∀ tool fault, .event (.broken (Analysis.index tool) fault) ∉ turns

variable {call : Call} {turns rest : List Request.Turn}

theorem IsOrdinary.append_left (h : IsOrdinary (turns ++ rest)) : IsOrdinary turns :=
  fun tool fault hmem => h tool fault (List.mem_append_left _ hmem)

theorem analysis_after_nil (call : Call) : (call.after []).analysis = none := by
  rw [after]
  cases call.origin <;> rfl

/-- One turn more. A request that is over takes none. -/
theorem touches_after (call : Call) (turns : List Request.Turn) (turn : Request.Turn) :
    Request.Touches turn (call.after turns) (call.after (turns ++ [turn])) := by
  rw [after, after, Request.course_append]
  generalize (call.origin.request call.directory).course call.auditor
    call.opened turns = state
  rw [Request.course]
  split
  · exact .keeps rfl rfl
  · exact Request.take_touches call.auditor state.1 state.2 turn

/-- An event befalls the analyses of a request that waits for them. -/
theorem analysis_after_event {work : Workload}
    (h : (call.after turns).phase = .analyze work) (event : Analysis.Event) :
    (call.after (turns ++ [.event event])).analysis =
      (call.after turns).analysis.map (Analysis.step work · event) := by
  have hended : (call.after turns).isEnded = false := by rw [Request.isEnded, h]
  rw [after] at h hended ⊢
  have hevents := Request.course_events call.auditor
    ((call.origin.request call.directory).course call.auditor call.opened turns).2
      hended [event]
  rw [List.map_singleton] at hevents
  rw [Request.course_append, hevents, List.foldl_cons, List.foldl_nil, Request.notice, h]
  rfl

theorem watched_after (call : Call) (h : IsOrdinary turns) :
    Request.Watched (call.after turns) := by
  induction turns using List.reverseRecOn with
  | nil =>
    rw [after]
    cases call.origin with
    | target value => exact .early nofun rfl
    | package bytes => exact .early nofun rfl
  | append_singleton turns turn ih =>
    refine (ih h.append_left).touch (touches_after call turns turn)
      fun tool fault heq => ?_
    exact h tool fault (List.mem_append_right _ (heq ▸ .head _))

theorem progress_after (call : Call) (h : IsOrdinary turns) (turn : Request.Turn) :
    Request.Progress turn (call.after turns).analysis
      (call.after (turns ++ [turn])).analysis :=
  (watched_after call h).progress (touches_after call turns turn)

/-- Something comes to hold of the analyses of a call with one of its turns, by an
event. -/
inductive ComesToHold (call : Call) (turns : List Request.Turn)
    (P : Analysis → Prop) : Prop
  | by_event (before rest : List Request.Turn) (turn : Request.Turn) {work : Workload}
      {early : Analysis}
      {event : Analysis.Event} (turns_eq : turns = before ++ turn :: rest)
      (turn_eq : turn = .event event ∨ turn = .cancellation ∧ event = .aborted)
      (hearly : (call.after before).analysis = some early)
        (attended : early.Attended work)
      (hnot : ¬ P early) (hlater : (call.after (before ++ [turn])).analysis =
        some (early.step work event))
      (holds : P (early.step work event))

/-- What holds of the analyses of a call, but not of analyses that are just started, has
come to hold by an event. -/
theorem comesToHold {P : Analysis → Prop} (hordinary : IsOrdinary turns)
    (hstart : ∀ work, ¬ P (.start work)) {analysis : Analysis}
    (hanalysis : (call.after turns).analysis = some analysis) (holds : P analysis) :
    ComesToHold call turns P := by
  induction turns using List.reverseRecOn generalizing analysis with
  | nil => cases (analysis_after_nil call).symm.trans hanalysis
  | append_singleton turns turn ih =>
    by_cases hearlier : ∃ early, (call.after turns).analysis = some early ∧ P early
    · obtain ⟨early, hearly, hP⟩ := hearlier
      obtain ⟨before, rest, found, rfl, turn_eq, hfound, attended, hnot, hlater, hnow⟩ :=
        ih hordinary.append_left hearly hP
      exact .by_event before (rest ++ [turn]) found (by simp) turn_eq hfound attended
        hnot hlater hnow
    · cases progress_after call hordinary.append_left turn with
      | none same => exact absurd ⟨analysis, same ▸ hanalysis, holds⟩ hearlier
      | started work hnone hstarted =>
        cases hstarted.symm.trans hanalysis
        exact absurd holds (hstart work)
      | event work event hearly attended hlater turn_eq =>
        cases hlater.symm.trans hanalysis
        exact .by_event turns [] turn rfl turn_eq hearly attended
          (fun hP => hearlier ⟨_, hearly, hP⟩) hlater holds

/-- What holds of the analyses of a call at a moment and is kept by every event from
then on holds in the end. -/
theorem analysis_after_append {P : Analysis → Prop}
    (hordinary : IsOrdinary (turns ++ rest))
    (hstep : ∀ work analysis event, .event event ∈ rest ∨ .cancellation ∈ rest ∧
      event = .aborted → P analysis → P (analysis.step work event)) {early : Analysis}
    (hearly : (call.after turns).analysis = some early) (holds : P early) :
    ∃ analysis, (call.after (turns ++ rest)).analysis = some analysis ∧ P analysis := by
  induction rest using List.reverseRecOn with
  | nil => exact ⟨early, by rw [List.append_nil]; exact hearly, holds⟩
  | append_singleton rest turn ih =>
    rw [← List.append_assoc] at hordinary ⊢
    obtain ⟨middle, hmiddle, hnow⟩ :=
      ih hordinary.append_left fun work analysis event hevent =>
      hstep work analysis event
        (hevent.imp (List.mem_append_left _) (And.imp_left (List.mem_append_left _)))
    have hlast : turn ∈ rest ++ [turn] := List.mem_append_right _ (.head _)
    cases progress_after call hordinary.append_left turn with
    | none same => exact ⟨middle, same.trans hmiddle, hnow⟩
    | started work hnone hstarted => cases hnone.symm.trans hmiddle
    | event work event hearly attended hlater turn_eq =>
      cases hearly.symm.trans hmiddle
      refine ⟨middle.step work event, hlater, hstep work middle event ?_ hnow⟩
      rcases turn_eq with rfl | ⟨rfl, hevent⟩
      · exact .inl hlast
      · exact .inr ⟨hlast, hevent⟩

end Call

end ExtensionAudit
