import ExtensionAudit.Proofs.Request.Runs

/-!
# Analysis — the schedule settles all four

Analyses that are left to themselves stay orderly (`Analysis.Orderly`): a tool whose run
has ended is settled, nothing is cancelled before a failure, and a failure is one of the
work. As the schedule lets every process that is started run out of time at last, all
four are settled in the end (`Analysis.outcome?_schedule`).
-/

namespace ExtensionAudit

/-! ## Runs -/

namespace Tool.Run

variable {terms : Terms} {run : Run} {event : Event}

theorem phase_step_ne_ready (h : run.phase ≠ .ready) :
    (run.step terms event).phase ≠ .ready := by
  obtain ⟨phase, standing, acts⟩ := run
  cases phase with
  | ready => exact absurd rfl h
  | waiting =>
    cases event with
    | interrupted cause remains =>
      rcases phase_giveUp ⟨.waiting, standing, acts⟩ terms cause remains with h |
        h <;> exact h ▸ nofun
    | _ => nofun
  | reaping found =>
    cases event with
    | interrupted cause remains => cases cause <;> nofun
    | _ => nofun
  | ended outcome => cases event <;> nofun

/-- A run is under way once its process was to be started. -/
theorem phase_launch_ne_ready (h : run.IsSound) (p : Behavior) :
    (run.step terms p.launch).phase ≠ .ready := by
  cases h with
  | ready =>
    have hstart (refusal : Option Refusal) :
        (ready.start terms refusal).phase ≠ .ready := by
      rcases start_ready terms refusal with hstart | ⟨fault, hstart⟩
        <;> rw [hstart] <;> nofun
    rw [Behavior.launch]
    cases p.refusal with
    | none => exact hstart none
    | some refusal => exact hstart (some refusal)
  | _ => exact phase_step_ne_ready nofun

/-- A run that is under way has ended once its time is up and its process was waited
for. -/
theorem outcome?_expiry_isSome (h : run.phase ≠ .ready) (p : Behavior) :
    (run.steps terms p.expiry).outcome?.isSome = true := by
  obtain ⟨phase, standing, acts⟩ := run
  rw [Behavior.expiry]
  cases phase with
  | ready => exact absurd rfl h
  | waiting =>
    change ((giveUp terms _ .expiry p.remains).step terms .reaped).outcome?.isSome = true
    cases h : p.remains.isCodeKnown with
    | true =>
      rw [giveUp_of_known h]
      rfl
    | false =>
      rw [giveUp_of_unknown h]
      rfl
  | reaping cause => rfl
  | ended outcome => rfl

theorem verdict_ne_cancelled (terms : Terms)
    (exit : Exit) : terms.verdict exit ≠ .cancelled := by
  rw [Terms.verdict]
  split
  · nofun
  · split <;> nofun

/-- A run ends cancelled only where it is cancelled, or was while it waits for its
process. -/
theorem cancelled_of_step (h : run.IsSound) (hopen : run.outcome? = none)
    (hcancelled : (run.step terms event).outcome? = some .cancelled) :
    run.phase = .reaping .cancellation ∨
      ∃ remains, event = .interrupted .cancellation remains := by
  -- No verdict on a process is a cancellation, and neither is a start that fails.
  cases h with
  | ready =>
    have hstart (refusal : Option Refusal) : (ready.start terms refusal).outcome? ≠
        some .cancelled := by
      rcases start_ready terms refusal with hstart | ⟨fault, hstart⟩
        <;> rw [hstart] <;> nofun
    cases event with
    | started => exact absurd hcancelled (hstart none)
    | refused refusal => exact absurd hcancelled (hstart (some refusal))
    | interrupted cause remains =>
      cases cause with
      | expiry => cases hcancelled
      | cancellation => exact .inr ⟨remains, rfl⟩
    | exited exit => cases hcancelled
    | reaped => cases hcancelled
  | waiting =>
    cases event with
    | exited exit =>
      exact absurd (Option.some.inj hcancelled) (verdict_ne_cancelled terms exit)
    | interrupted cause remains =>
      cases cause with
      | expiry =>
        rcases interrupted_waiting terms .expiry remains with ⟨-, hstep⟩ | ⟨-, hstep⟩
        · rw [hstep] at hcancelled
          cases hcancelled
        · rw [hstep] at hcancelled
          cases hcancelled
      | cancellation => exact .inr ⟨remains, rfl⟩
    | _ => cases hcancelled
  | reaping found =>
    cases event with
    | interrupted cause remains =>
      cases cause with
      | expiry => cases hcancelled
      | cancellation => exact .inr ⟨remains, rfl⟩
    | reaped =>
      cases found with
      | expiry => cases hcancelled
      | cancellation => exact .inl rfl
    | _ => cases hcancelled
  | ended outcome h => cases hopen

end Tool.Run

/-! ## Settlements -/

namespace Join

variable {α ε : Type} {join : Join α ε} {index : Nat} {settlement : Settlement α ε}

/-- A task is settled by everything but a cancellation before a failure. -/
theorem exists_settled (hlt : index < join.tasks.length)
    (h : ∀ complaint, settlement = .cancelled complaint → join.failure.isSome = true) :
    ∃ found, (join.settle index settlement).tasks[index]? = some (some found) := by
  cases htask : join.tasks[index] with
  | some found =>
    have hfound : join.tasks[index]? = some (some found) :=
      htask ▸ List.getElem?_eq_getElem hlt
    exact ⟨found, settled_settle hfound index settlement⟩
  | none =>
    have hnone : join.tasks[index]? = some none := htask ▸ List.getElem?_eq_getElem hlt
    refine ⟨settlement, ?_⟩
    rw [settle.eq_def, hnone]
    cases settlement with
    | finished value => exact List.getElem?_set_self hlt
    | failed error => exact List.getElem?_set_self hlt
    | cancelled complaint =>
      simp only [h complaint rfl, if_true]
      exact List.getElem?_set_self hlt

/-- The first failure after a settlement was there before, or it is what was settled. -/
theorem failure_of_settle {error : ε}
    (h : (join.settle index settlement).failure = some error) :
    join.failure = some error ∨ settlement = .failed error := by
  have hsettles := settles join index settlement
  generalize join.settle index settlement = later at hsettles h
  cases hsettles with
  | ignored => exact .inl h
  | finished value unsettled => exact .inl h
  | failed found unsettled =>
    cases hfailure : join.failure with
    | none =>
      simp only [hfailure, Option.getD_none, Option.some.injEq] at h
      exact .inr (congrArg Settlement.failed h)
    | some reason =>
      simp only [hfailure, Option.getD_some] at h
      exact .inl h
  | cancelled complaint unsettled broken => exact .inl h

/-- A join of which every task is settled has come to something. -/
theorem outcome?_isSome
    (h : ∀ index < join.tasks.length, ∃ found, join.tasks[index]? = some (some found)) :
    join.outcome?.isSome = true := by
  have hsettled : join.isSettled = true := by
    rw [isSettled, List.all_eq_true]
    intro task hmem
    obtain ⟨index, hlt, rfl⟩ := List.getElem_of_mem hmem
    obtain ⟨found, hfound⟩ := h index hlt
    rw [List.getElem?_eq_getElem hlt, Option.some.injEq] at hfound
    rw [hfound]
    rfl
  rw [outcome?, if_pos hsettled]
  cases join.failure <;> rfl

/-- A join that fails fails for the first failure. -/
theorem failure_of_outcome? {error : ε} (h : join.outcome? = some (.error error)) :
    join.failure = some error := by
  rw [outcome?] at h
  split at h
  · cases hfailure : join.failure with
    | none =>
      rw [hfailure] at h
      cases h
    | some reason =>
      rw [hfailure] at h
      cases h
      rfl
  · cases h

end Join

/-! ## The four analyses -/

/-- A fault of the work on an extension that is named: not that it is not, and no
cancellation. -/
def Fault.IsOfWork : Fault → Prop
  | .target => False
  | .cancelled => False
  | _ => True

namespace Analysis

variable {work : Workload} {analysis : Analysis} {event : Event}

/-- An event that comes of the analyses themselves. -/
def Event.IsNatural : Event → Prop
  | .scored => True
  | .surveyed => True
  | .tool _ _ => True
  | _ => False

/-- Analyses that are left to themselves. A tool whose run has ended is settled, a run
waits for a process because it was cancelled only after a failure, and a failure is one
of the work. -/
structure Orderly (work : Workload) (analysis : Analysis) : Prop where
  attended : Attended work analysis
  answered (tool : Tool) : work.tools.isSome = true →
    (analysis.run tool).outcome?.isSome = true →
    ∃ found, analysis.join.tasks[index tool]? = some (some found)
  cancelled (tool : Tool) : (analysis.run tool).phase = .reaping .cancellation →
    analysis.join.failure.isSome = true
  failure (fault : Fault) : analysis.join.failure = some fault → fault.IsOfWork

theorem orderly_start (work : Workload) : Orderly work (start work) := by
  refine ⟨attended_start work, fun tool _ hended => ?_, fun tool hphase => ?_,
    fun fault hfailure => ?_⟩
  · rw [run_start] at hended
    cases hended
  · rw [run_start] at hphase
    cases hphase
  · rw [failure_start] at hfailure
    cases hfailure

theorem failure_isSome_settle (h : analysis.join.failure.isSome = true) (position : Nat)
    (settlement : Settlement Part Fault) :
    (analysis.settle position settlement).join.failure.isSome = true := by
  obtain ⟨reason, hreason⟩ := Option.isSome_iff_exists.mp h
  rw [settle, Join.failure_settle_of_some hreason]
  rfl

theorem Orderly.settle (h : Orderly work analysis) {position : Nat}
    (hposition : ∀ tool, index tool ≠ position) {settlement : Settlement Part Fault}
    (hsound : IsSound work (analysis.settle position settlement))
    (hfault : ∀ fault, settlement = .failed fault → fault.IsOfWork) :
    Orderly work (analysis.settle position settlement) := by
  refine ⟨h.attended.settle hposition hsound, fun tool htools hended => ?_,
    fun tool hphase => ?_,
    fun fault hfailure => ?_⟩
  · rw [run_settle] at hended
    obtain ⟨found, hfound⟩ := h.answered tool htools hended
    exact ⟨found, Join.settled_settle hfound position settlement⟩
  · rw [run_settle] at hphase
    exact failure_isSome_settle (h.cancelled tool hphase) position settlement
  · exact (Join.failure_of_settle hfailure).elim (h.failure fault) (hfault fault)

theorem isOfWork_of_ofOutcome {tool : Tool} {outcome : Tool.Outcome} {fault : Fault}
    (h : ofOutcome tool outcome = .failed fault) : fault.IsOfWork := by
  cases outcome with
  | cancelled => cases h
  | fault found =>
    cases h
    exact trivial
  | output t =>
    cases tool with
    | retire =>
      rw [ofOutcome, ofOutput] at h
      cases hfindings : Tool.findings t <;> rw [hfindings] at h <;> cases h
      exact trivial
    | eslint =>
      rw [ofOutcome, ofOutput] at h
      cases hsummary : Tool.lintSummary t <;> rw [hsummary] at h <;> cases h
      exact trivial

theorem cancelled_of_ofOutcome {tool : Tool} {outcome : Tool.Outcome}
    {complaint : Option Fault} (h : ofOutcome tool outcome = .cancelled complaint) :
    outcome = .cancelled := by
  cases outcome with
  | cancelled => rfl
  | fault found => cases h
  | output t =>
    rw [ofOutcome] at h
    cases hresult : ofOutput tool t <;> rw [hresult] at h <;> cases h

/-- A run that a step cancels, or that waits because of that, is one of analyses that
have failed. -/
theorem Orderly.failure_of_cancelled (h : Orderly work analysis)
    {terms : Tool.Terms} {tool : Tool} {happening : Tool.Event}
    (hlate : isCancellation happening = true → analysis.join.failure.isSome = true)
    (hopen : (analysis.run tool).outcome? = none) (hcancelled :
      ((analysis.run tool).step terms happening).outcome? = some .cancelled) :
    analysis.join.failure.isSome = true := by
  rcases Tool.Run.cancelled_of_step (h.attended.runs tool) hopen hcancelled with
    hphase | ⟨remains, rfl⟩
  · exact h.cancelled tool hphase
  · exact hlate rfl

/-- A run that goes on leaves the settlements as they are. -/
theorem Orderly.setRun (h : Orderly work analysis) (htools : work.tools.isSome = true)
    {terms : Tool.Terms} {tool : Tool} {happening : Tool.Event}
    (hattended : Attended work
      (analysis.setRun tool ((analysis.run tool).step terms happening)))
    (hlate : isCancellation happening = true → analysis.join.failure.isSome = true)
    (hopen : ((analysis.run tool).step terms happening).outcome? = none) :
    Orderly work (analysis.setRun tool ((analysis.run tool).step terms happening)) := by
  refine ⟨hattended, fun other _ hended => ?_, fun other hphase => ?_,
    fun fault hfailure => ?_⟩
  · by_cases hother : other = tool
    · subst hother
      rw [run_setRun_self, hopen] at hended
      cases hended
    · rw [run_setRun_of_ne hother] at hended
      rw [join_setRun]
      exact h.answered other htools hended
  · rw [join_setRun]
    by_cases hother : other = tool
    · subst hother
      rw [run_setRun_self] at hphase
      rcases Tool.Run.phase_step_of_cancelled (h.attended.runs other) hphase with
        hphase | ⟨remains, rfl⟩
      · exact h.cancelled other hphase
      · exact hlate rfl
    · rw [run_setRun_of_ne hother] at hphase
      exact h.cancelled other hphase
  · rw [join_setRun] at hfailure
    exact h.failure fault hfailure

/-- A run that ends settles its tool. -/
theorem Orderly.settleRun (h : Orderly work analysis) (htools : work.tools.isSome = true)
    {terms : Tool.Terms} {tool : Tool} {happening : Tool.Event} {outcome : Tool.Outcome}
    (hattended : Attended work
      ((analysis.setRun tool ((analysis.run tool).step terms happening)).settle
        (index tool) (ofOutcome tool outcome)))
    (hlate : isCancellation happening = true → analysis.join.failure.isSome = true)
    (hended : ((analysis.run tool).step terms happening).outcome? = some outcome) :
    Orderly work
      ((analysis.setRun tool ((analysis.run tool).step terms happening)).settle
        (index tool) (ofOutcome tool outcome)) := by
  have hjoin := join_setRun analysis tool ((analysis.run tool).step terms happening)
  refine ⟨hattended, fun other _ hended' => ?_, fun other hphase => ?_,
    fun fault hfailure => ?_⟩
  · rw [run_settle] at hended'
    rw [Analysis.settle, hjoin]
    by_cases hother : other = tool
    · subst hother
      cases hopen : (analysis.run other).outcome? with
      | some found =>
        obtain ⟨settlement, hsettled⟩ := h.answered other htools (by rw [hopen]; rfl)
        exact ⟨settlement, Join.settled_settle hsettled _ _⟩
      | none =>
        -- Nothing was settled yet. A cancellation before a failure would settle nothing,
        -- but a run that is cancelled is one of analyses that have failed.
        have hlt : index other < analysis.join.tasks.length := by
          rw [h.attended.isSound.length]
          cases other <;> decide
        refine Join.exists_settled hlt fun complaint hcomplaint => ?_
        obtain rfl := cancelled_of_ofOutcome hcomplaint
        exact h.failure_of_cancelled hlate hopen hended
    · rw [run_setRun_of_ne hother] at hended'
      obtain ⟨settlement, hsettled⟩ := h.answered other htools hended'
      exact ⟨settlement, Join.settled_settle hsettled _ _⟩
  · rw [run_settle] at hphase
    refine failure_isSome_settle ?_ _ _
    rw [hjoin]
    by_cases hother : other = tool
    · subst hother
      rw [run_setRun_self] at hphase
      rw [Tool.Run.outcome?, hphase] at hended
      cases hended
    · rw [run_setRun_of_ne hother] at hphase
      exact h.cancelled other hphase
  · rw [Analysis.settle, hjoin] at hfailure
    exact (Join.failure_of_settle hfailure).elim (h.failure fault) isOfWork_of_ofOutcome

theorem Orderly.stepTool (h : Orderly work analysis) (htools : work.tools.isSome = true)
    (terms : Tool.Terms) (tool : Tool) (happening : Tool.Event) :
    Orderly work (analysis.stepTool terms tool happening) := by
  have hattended := h.attended.stepTool htools terms tool happening
  have hsteps := stepsTool analysis terms tool happening
  generalize analysis.stepTool terms tool happening = later at hsteps hattended ⊢
  cases hsteps with
  | ignored => exact h
  | goesOn hlate hopen => exact h.setRun htools hattended hlate hopen
  | ends hlate hended => exact h.settleRun htools hattended hlate hended

theorem Orderly.step (h : Orderly work analysis) (hevent : event.IsNatural) :
    Orderly work (analysis.step work event) := by
  have hfirst (tool : Tool) : index tool ≠ 0 := by cases tool <;> decide
  have hsecond (tool : Tool) : index tool ≠ 1 := by cases tool <;> decide
  have hsound := h.attended.isSound.step event
  cases event with
  | scored =>
    refine h.settle hfirst hsound fun fault hfault => ?_
    cases hscores : ManifestScores.ofJson (.object work.manifest) <;> rw [hscores]
      at hfault <;> cases hfault
    exact trivial
  | surveyed => exact h.settle hsecond hsound nofun
  | tool tool happening =>
    rw [Analysis.step]
    cases htools : work.tools with
    | none => exact h
    | some terms => exact h.stepTool (by rw [htools]; rfl) (terms tool) tool happening
  | dropped => exact hevent.elim
  | broken position fault => exact hevent.elim
  | aborted => exact hevent.elim

variable {events : List Event}

theorem Orderly.steps (h : Orderly work analysis)
    (hevents : ∀ event ∈ events, event.IsNatural) :
    Orderly work (analysis.steps work events) := by
  induction events generalizing analysis with
  | nil => exact h
  | cons event rest ih =>
    rw [List.forall_mem_cons] at hevents
    exact ih (h.step hevents.1) hevents.2

theorem steps_append (analysis : Analysis) (first second : List Event) :
    analysis.steps work (first ++ second) =
      (analysis.steps work first).steps work second :=
  List.foldl_append

theorem settled_steps {position : Nat} {settlement : Settlement Part Fault}
    (h : analysis.join.tasks[position]? = some (some settlement)) (events : List Event) :
    (analysis.steps work events).join.tasks[position]? = some (some settlement) := by
  induction events generalizing analysis with
  | nil => exact h
  | cons event rest ih => exact ih (settled_step h event)

/-- What holds of a run whatever happens to it, holds after events if it does before. -/
theorem run_steps (P : Tool.Run → Prop) {tool : Tool}
    (hkept : ∀ terms run happening, P run → P (Tool.Run.step terms run happening))
    (h : P (analysis.run tool)) (work : Workload) (events : List Event) :
    P ((analysis.steps work events).run tool) := by
  induction events generalizing analysis with
  | nil => exact h
  | cons event rest ih =>
    refine ih ?_
    rcases run_step work analysis event tool with hsame | ⟨terms, happening, -, -, hstep⟩
    · rw [hsame]
      exact h
    · rw [hstep]
      exact hkept terms _ happening h

/-- What happens to the run of a tool, if it is not cancelled. -/
theorem run_steps_tool {terms : Tool → Tool.Terms}
    (htools : work.tools = some terms) (tool : Tool) {happenings : List Tool.Event}
    (h : ∀ happening ∈ happenings, isCancellation happening = false) :
    (analysis.steps work (happenings.map (.tool tool))).run tool =
      (analysis.run tool).steps (terms tool) happenings := by
  induction happenings generalizing analysis with
  | nil => rfl
  | cons happening rest ih =>
    rw [List.forall_mem_cons] at h
    have hstep : (analysis.step work (.tool tool happening)).run tool =
        (analysis.run tool).step (terms tool) happening := by
      refine run_step_tool_of_late htools fun hcancels => ?_
      rw [h.1] at hcancels
      cases hcancels
    rw [List.map_cons, steps, List.foldl_cons, Tool.Run.steps, List.foldl_cons, ← hstep]
    exact ih h.2

/-! ## What happens by itself -/

theorem isNatural_of_mem_schedule {behavior : Tool → Tool.Behavior}
    (h : event ∈ schedule work behavior) : event.IsNatural := by
  cases event with
  | scored => trivial
  | surveyed => trivial
  | tool tool happening => trivial
  | _ =>
    rw [schedule] at h
    split at h <;> simp at h

/-- What happens to a tool happens to the analyses. -/
def ofTool (tool : Tool) (happenings : List Tool.Event) : List Event :=
  happenings.map (.tool tool)

/-- What a tool does soon after its start, if it is to run. -/
def toolCourse (work : Workload) (behavior : Tool → Tool.Behavior)
    (tool : Tool) : List Event :=
  match work.tools with
  | some terms => ofTool tool ((behavior tool).course (terms tool).limit)
  | none => []

/-- What happens by itself between the tools' start and the time when it runs out for
the first of them. -/
def scheduleMiddle (work : Workload) (behavior : Tool → Tool.Behavior) : List Event :=
  [.scored, .surveyed] ++ toolCourse work behavior .retire ++
    toolCourse work behavior .eslint ++
    ofTool .retire (behavior .retire).cancellation ++
      ofTool .eslint (behavior .eslint).cancellation

theorem schedule_eq (work : Workload) (behavior : Tool → Tool.Behavior) :
    schedule work behavior =
      ofTool .retire [(behavior .retire).launch] ++
        ofTool .eslint [(behavior .eslint).launch] ++
        scheduleMiddle work behavior ++ ofTool .retire (behavior .retire).expiry ++
        ofTool .eslint (behavior .eslint).cancellation ++
          ofTool .eslint (behavior .eslint).expiry := by
  simp only [schedule, scheduleMiddle, List.append_assoc]
  rfl

/-- In what happens by itself every tool is started, and later its time is up. -/
theorem exists_schedule_eq (work : Workload) (behavior : Tool → Tool.Behavior)
    (tool : Tool) :
    ∃ before between after, schedule work behavior =
      before ++ [(behavior tool).launch].map (.tool tool) ++ between ++
        (behavior tool).expiry.map (.tool tool) ++ after := by
  rw [schedule_eq]
  cases tool with
  | retire =>
    refine ⟨[],
      ofTool .eslint [(behavior .eslint).launch] ++ scheduleMiddle work behavior,
      ofTool .eslint (behavior .eslint).cancellation ++
        ofTool .eslint (behavior .eslint).expiry, ?_⟩
    simp only [List.append_assoc, List.nil_append]
    rfl
  | eslint =>
    refine ⟨ofTool .retire [(behavior .retire).launch], scheduleMiddle work behavior ++
      ofTool .retire (behavior .retire).expiry ++
        ofTool .eslint (behavior .eslint).cancellation, [], ?_⟩
    simp only [List.append_assoc, List.append_nil]
    rfl

variable {behavior : Tool → Tool.Behavior}

theorem isCancellation_launch (p : Tool.Behavior) : isCancellation p.launch = false := by
  rw [Tool.Behavior.launch]
  cases p.refusal <;> rfl

/-- When the tools' processes go their way, the runs of the tools end. -/
theorem outcome?_run_schedule {terms : Tool → Tool.Terms}
    (htools : work.tools = some terms) (tool : Tool) :
    (((start work).steps work (schedule work behavior)).run tool).outcome?.isSome =
      true := by
  obtain ⟨before, between, after, hschedule⟩ := exists_schedule_eq work behavior tool
  have hnatural : ∀ event ∈ before, event.IsNatural := by
    intro event hmem
    have hscheduled : event ∈ schedule work behavior := by
      rw [hschedule]
      simp [hmem]
    exact isNatural_of_mem_schedule hscheduled
  have hsound := ((orderly_start work).steps hnatural).attended.runs tool
  rw [hschedule, steps_append, steps_append, steps_append, steps_append]
  generalize (start work).steps work before = early at hsound ⊢
  have hlaunched :
      ((early.steps work ([(behavior tool).launch].map (.tool tool))).run tool).phase ≠
      .ready := by
    rw [run_steps_tool htools tool (by simp [isCancellation_launch])]
    exact Tool.Run.phase_launch_ne_ready hsound (behavior tool)
  have hlate := run_steps (fun run => run.phase ≠ .ready)
    (fun _ _ _ hready => Tool.Run.phase_step_ne_ready hready) hlaunched work between
  refine run_steps (fun run => run.outcome?.isSome = true)
    (fun terms run happening hended => ?_) ?_ work
    after
  · obtain ⟨outcome, houtcome⟩ := Option.isSome_iff_exists.mp hended
    rw [Tool.Run.step_of_outcome houtcome]
    exact hended
  · rw [run_steps_tool htools tool (by simp [Tool.Behavior.expiry, isCancellation])]
    exact Tool.Run.outcome?_expiry_isSome hlate (behavior tool)

/-- One of the four that an event finishes, or makes fail, is settled once the event has
happened. -/
theorem settled_of_mem (hmem : event ∈ events)
    (hnatural : ∀ event ∈ events, event.IsNatural) {position : Nat}
    (hlt : position < 4) {settlement : Settlement Part Fault}
    (hsettlement : ∀ complaint, settlement ≠ .cancelled complaint)
    (hevent : ∀ analysis : Analysis, analysis.step work event =
      analysis.settle position settlement) :
    ∃ found, ((start work).steps work events).join.tasks[position]? =
      some (some found) := by
  obtain ⟨before, after, rfl⟩ := List.append_of_mem hmem
  have hearly := (orderly_start work).steps fun event h =>
    hnatural event (List.mem_append_left _ h)
  rw [steps_append, steps, List.foldl_cons, ← steps, hevent]
  obtain ⟨found, hfound⟩ := Join.exists_settled (hearly.attended.isSound.length ▸ hlt)
    fun complaint hcancelled => absurd hcancelled (hsettlement complaint)
  exact ⟨found, settled_steps hfound after⟩

theorem orderly_schedule (work : Workload) (behavior : Tool → Tool.Behavior) :
    Orderly work ((start work).steps work (schedule work behavior)) :=
  (orderly_start work).steps fun _ => isNatural_of_mem_schedule

/-- **The analyses end.** When the tools' processes go their way, all four analyses are
settled in the end. -/
theorem outcome?_schedule (work : Workload) (behavior : Tool → Tool.Behavior) :
    ((start work).steps work (schedule work behavior)).outcome?.isSome = true := by
  have hnatural : ∀ event ∈ schedule work behavior, event.IsNatural :=
    fun _ => isNatural_of_mem_schedule
  have horderly := orderly_schedule work behavior
  have hmem : Event.scored ∈ schedule work behavior ∧
      Event.surveyed ∈ schedule work behavior := by
    simp [schedule]
  refine Join.outcome?_isSome fun position hlt => ?_
  rw [horderly.attended.isSound.length] at hlt
  by_cases htool : 2 ≤ position
  · obtain ⟨tool, rfl⟩ := exists_index htool hlt
    cases htools : work.tools with
    | none =>
      obtain ⟨-, part, hpart⟩ := horderly.attended.idle tool htools
      exact ⟨_, hpart⟩
    | some terms =>
      exact horderly.answered tool (by rw [htools]; rfl)
        (outcome?_run_schedule htools tool)
  · obtain rfl | rfl : position = 0 ∨ position = 1 := by omega
    · refine settled_of_mem hmem.1 hnatural (by decide) (fun complaint => ?_) fun _ => rfl
      cases ManifestScores.ofJson (.object work.manifest) <;> nofun
    · refine settled_of_mem hmem.2 hnatural (by decide) (fun complaint => ?_) fun _ => rfl
      nofun

end Analysis

end ExtensionAudit
