import ExtensionAudit.Proofs.Gathering
import Mathlib.Data.List.Induction

/-!
# Gathering — how a join ends

Every turn that does something brings a join nearer to its end, and only a task that is
endless can keep a join without a failure from it. What a join has ended with depends on
the settlements of its tasks alone.
-/

namespace ExtensionAudit.Joining

variable {α ε : Type} {tasks : List (Join.Task α ε)} {joining later : Joining α ε}

/-! ### The outcome -/

theorem Recorded.settlements {table : List (Option (Settlement α ε))}
    {order : List (Nat × Settlement α ε)}
    {values : List α} (h : Recorded tasks table order)
    (htable : table = values.map fun value => some (.finished value)) :
    tasks.map Join.Task.settlement? = values.map fun value => some (.finished value) := by
  have hlength := h.length
  rw [htable, List.length_map] at hlength
  apply List.ext_getElem?
  intro index
  rw [List.getElem?_map, List.getElem?_map]
  cases hvalue : values[index]? with
  | none =>
    rw [List.getElem?_eq_none_iff, hlength] at hvalue
    rw [List.getElem?_eq_none_iff.mpr hvalue]
    rfl
  | some value =>
    have hfound : table[index]? = some (some (.finished value)) := by
      rw [htable, List.getElem?_map, hvalue]
      rfl
    obtain ⟨task, htask, hcourse⟩ :=
      h.courses index _ ((h.recorded index _).mp hfound) rfl
    rw [htask, Option.map_some, hcourse]
    rfl

theorem Recorded.firstFailure?_eq_none {table : List (Option (Settlement α ε))}
    {order : List (Nat × Settlement α ε)} {values : List α}
    (h : Recorded tasks table order) (hvalues : tasks.map Join.Task.settlement? =
      values.map fun value => some (.finished value)) :
    firstFailure? order = none := by
  refine List.findSome?_eq_none_iff.mpr fun entry hentry => ?_
  obtain ⟨index, settlement⟩ := entry
  cases settlement with
  | finished value => rfl
  | cancelled complaint => rfl
  | failed error =>
    obtain ⟨task, htask, hcourse⟩ := h.courses index _ hentry rfl
    have hmem : some (Settlement.failed error) ∈ values.map fun value =>
        some (.finished value) := by
      rw [← hvalues, ← hcourse]
      exact List.mem_map_of_mem (List.mem_of_getElem? htask)
    obtain ⟨value, -, heq⟩ := List.mem_map.mp hmem
    cases heq

/-- What a join has come to, once it has ended: every task is settled, and the first
failure is raised or else the values are returned, in the order of the tasks. -/
theorem Sound.outcome {outcome : Except (Raised ε) (List α)} (h : Sound tasks joining)
    (hphase : joining.phase = .ended outcome) :
    (∀ task ∈ joining.tasks, task.isSome = true) ∧
    ∃ result, ((Join.start tasks.length).settleAll joining.order).outcome? = some result ∧
      outcome = result.mapError .error ∧
      match firstFailure? joining.order with
      | some error => result = .error error
      | none => ∃ values, result = .ok values ∧
          tasks.map Join.Task.settlement? = values.map fun value =>
            some (.finished value) := by
  obtain ⟨hr, hs⟩ := h
  rw [hphase] at hs
  cases hs with
  | @succeeded values hfailure htable =>
    have hall : ∀ task ∈ joining.tasks, task.isSome = true := by
      rw [htable]
      intro task htask
      obtain ⟨value, -, rfl⟩ := List.mem_map.mp htask
      rfl
    have hsettled : joining.tasks.all Option.isSome = true := List.all_eq_true.mpr hall
    refine ⟨hall, .ok values, ?_, rfl, ?_⟩
    · rw [hr.joins, Join.outcome?, Join.isSettled, hsettled, hfailure, htable,
        List.filterMap_map]
      simp [Join.value?, Function.comp_def]
    · rw [hfailure]
      exact ⟨values, rfl, hr.settlements htable⟩
  | @failed error hfailure hcount =>
    have hall := hr.isSome_of_length hcount
    have hsettled : joining.tasks.all Option.isSome = true := List.all_eq_true.mpr hall
    refine ⟨hall, .error error, ?_, rfl, ?_⟩
    · rw [hr.joins, Join.outcome?, Join.isSettled, hsettled, hfailure]
      rfl
    · rw [hfailure]

/-! ### The way to the end -/

/-- How much is left to do, counted in turns, for a join that has come this far. -/
def Phase.remaining (count : Nat) : Phase α ε → Nat
  | .waiting _ => count + 2
  | .collecting _ _ => 1
  | .ended _ => 0

/-- How many turns can be taken at most. A task takes two, one to be settled and one to
report. -/
def remaining (joining : Joining α ε) : Nat :=
  2 * (joining.tasks.length - joining.order.length) + joining.unheard.length +
    joining.phase.remaining joining.tasks.length

theorem Phase.remaining_hear (table : List (Option (Settlement α ε)))
    (settlement : Settlement α ε) (phase : Phase α ε) (count : Nat) :
    (phase.hear table settlement).remaining count = phase.remaining count := by
  cases phase <;> rfl

/-- A turn that does something leaves less to do. -/
theorem Takes.idle_or_lt (ht : Takes tasks joining later) (h : Sound tasks joining) :
    later = joining ∨ remaining later < remaining joining := by
  cases ht with
  | idle => exact .inl rfl
  | settles unsettled hcourse =>
    have hlt := h.recorded.length_order_lt unsettled
    simp only [remaining, List.length_set, List.length_append, List.length_singleton]
    omega
  | reports hunheard hsettled =>
    simp only [remaining, hunheard, Phase.remaining_hear, List.length_cons]
    omega
  | succeeds hphase hresult =>
    simp only [remaining, hphase, Phase.remaining]
    omega
  | cancels hphase hresult =>
    have hle := h.recorded.counted ▸ h.recorded.length_order_le
    simp only [remaining, hphase, Phase.remaining, length_settled]
    omega
  | fails hphase hresult =>
    simp only [remaining, hphase, Phase.remaining]
    omega
  | failsAnew hphase hresult =>
    simp only [remaining, hphase, Phase.remaining]
    omega

theorem run_append (turns more : List Turn) :
    run tasks (turns ++ more) = more.foldl (step tasks) (run tasks turns) :=
  List.foldl_append

theorem run_concat (turns : List Turn) (turn : Turn) :
    run tasks (turns ++ [turn]) = step tasks (run tasks turns) turn :=
  run_append turns [turn]

/-- Turns that all do something are not many. -/
theorem length_add_remaining_le (turns : List Turn)
    (h : ∀ before turn after, turns = before ++ turn :: after →
      run tasks (before ++ [turn]) ≠ run tasks before) :
    turns.length + remaining (run tasks turns) ≤ 3 * tasks.length + 2 := by
  induction turns using List.reverseRecOn with
  | nil =>
    simp only [run, List.foldl_nil, start, remaining, Phase.remaining,
      List.length_replicate, List.length_nil]
    omega
  | append_singleton turns turn ih =>
    have hturns :=
      ih fun before other after heq => h before other (after ++ [turn]) (by simp [heq])
    have hchange := h turns turn [] rfl
    rw [run_concat] at hchange ⊢
    rcases (takes_step tasks (run tasks turns) turn).idle_or_lt (sound_run tasks turns)
      with hidle | hlt
    · exact absurd hidle hchange
    · rw [List.length_append, List.length_singleton]
      omega

/-! ### Joins that cannot go on -/

/-- A join that comes about, as a `Join` that is given the settlements one by one. -/
def toJoin (joining : Joining α ε) : Join α ε :=
  ⟨joining.tasks, firstFailure? joining.order⟩

/-- A task that has not been heard of but was counted is settled. -/
theorem Sound.exists_of_unheard {index : Nat} {rest : List Nat}
    (h : Sound tasks joining) (hopen : ∀ outcome, joining.phase ≠ .ended outcome)
    (hunheard : joining.unheard = index :: rest) :
    ∃ settlement, joining.tasks[index]? = some (some settlement) := by
  obtain ⟨hr, hs⟩ := h
  generalize hp : joining.phase = phase at hs hopen
  cases hs with
  | @waiting heard later result? horder hlater huncancelled hverdict =>
    have hmem : index ∈ later.map Prod.fst := hlater ▸ hunheard ▸ .head _
    obtain ⟨⟨other, settlement⟩, hentry, rfl⟩ := List.mem_map.mp hmem
    exact ⟨settlement, (hr.recorded _ _).mpr (horder ▸ List.mem_append_right _ hentry)⟩
  | collecting hfailure hcount hsettled => exact hsettled index (hunheard ▸ .head _)
  | succeeded hfailure htable => exact absurd rfl (hopen _)
  | failed hfailure hcount => exact absurd rfl (hopen _)

/-- The join has ended, or all reports have been heard and it does not go on. -/
def IsQuiet (joining : Joining α ε) : Prop :=
  (∃ outcome, joining.phase = .ended outcome) ∨ joining.unheard = [] ∧
    joining.goOn = joining

theorem toJoin_goOn (joining : Joining α ε) : joining.goOn.toJoin = joining.toJoin := by
  rw [goOn]
  split
  · split <;> rfl
  · split <;> rfl
  · rfl

/-- A join that is not quiet can hear a report or go on, and that settles nothing. -/
theorem exists_turn_of_not_quiet (h : Sound tasks joining) (hq : ¬ IsQuiet joining) :
    ∃ turn, step tasks joining turn ≠ joining ∧ (step tasks joining turn).toJoin =
      joining.toJoin := by
  obtain ⟨hopen, hbusy⟩ := not_or.mp hq
  cases hunheard : joining.unheard with
  | nil =>
    refine ⟨.goesOn, fun hwaits => hbusy ⟨hunheard, hwaits⟩, toJoin_goOn joining⟩
  | cons index rest =>
    obtain ⟨settlement, hsettled⟩ := h.exists_of_unheard (not_exists.mp hopen) hunheard
    refine ⟨.reports, fun hsame => ?_, ?_⟩
    · have hrest := congrArg unheard hsame
      simp only [step, hunheard, hsettled] at hrest
      exact absurd hrest.symm (List.cons_ne_self _ _)
    · simp only [step, hunheard, hsettled]
      rfl

theorem isQuiet_of_stuck (h : Sound tasks joining)
    (hstuck : ∀ turn, step tasks joining turn = joining) :
    IsQuiet joining := by
  by_contra hq
  obtain ⟨turn, hturn, -⟩ := exists_turn_of_not_quiet h hq
  exact hturn (hstuck turn)

/-- A quiet join has ended, or it waits for tasks that are not settled: for all as long
as there is no failure, and for those that it has cancelled otherwise. -/
theorem IsQuiet.cases (hq : IsQuiet joining) (h : Sound tasks joining) :
    (∃ outcome, joining.phase = .ended outcome) ∨
    joining.order.length < joining.tasks.length ∧
      ((∃ gathering, joining.phase = .waiting gathering) ∧
        firstFailure? joining.order = none ∧
          (∀ entry ∈ joining.order, entry.2.isCancelled = false) ∨
        (∃ raised gathering, joining.phase = .collecting raised gathering) ∧
          (firstFailure? joining.order).isSome = true) := by
  rcases hq with hended | ⟨hunheard, hwaits⟩
  · exact .inl hended
  obtain ⟨hr, hs⟩ := h
  have hle := hr.length_order_le
  generalize hp : joining.phase = phase at hs
  rw [goOn, hp] at hwaits
  cases hs with
  | @waiting heard later result? horder hlater huncancelled hverdict =>
    have hsame := congrArg Joining.phase hwaits
    cases hverdict with
    | pending hfailure hcount =>
      have hnone : later = [] := List.map_eq_nil_iff.mp (hlater.symm.trans hunheard)
      rw [hnone, List.append_nil] at horder
      subst horder
      exact .inr ⟨Nat.lt_of_le_of_ne hle hcount, .inl ⟨⟨_, rfl⟩, hfailure, huncancelled⟩⟩
    | complete hfailure hcount => cases hsame.trans hp
    | broken hfailure => cases hsame.trans hp
  | @collecting error reports hfailure hcount hsettled =>
    by_cases hlast : reports = joining.tasks.length
    · simp only [hlast, beq_self_eq_true, if_true] at hwaits
      cases (congrArg Joining.phase hwaits).trans hp
    · rw [hunheard, List.length_nil, Nat.add_zero] at hcount
      exact .inr ⟨by omega, .inr ⟨⟨_, _, rfl⟩, by rw [hfailure]; rfl⟩⟩
  | succeeded hfailure htable => exact .inl ⟨_, rfl⟩
  | failed hfailure hcount => exact .inl ⟨_, rfl⟩

theorem settle_ne {index : Nat} (unsettled : joining.tasks[index]? = some none)
    (settlement : Settlement α ε) : joining.settle index settlement ≠ joining := by
  intro hsame
  have horder := congrArg Joining.order hsame
  rw [settle, unsettled] at horder
  simp at horder

theorem Recorded.exists_unsettled {table : List (Option (Settlement α ε))}
    {order : List (Nat × Settlement α ε)} (h : Recorded tasks table order)
    (hlt : order.length < table.length) :
    ∃ (index : Nat) (task : Join.Task α ε), table[index]? = some none ∧
      tasks[index]? = some task := by
  have hnot : ¬ ∀ task ∈ table, task.isSome = true := by
    intro hall
    have hcount := List.countP_eq_length.mpr hall
    have hcounted := h.counted
    omega
  push Not at hnot
  obtain ⟨found, hmem, hnone⟩ := hnot
  obtain ⟨index, hindex⟩ := List.getElem?_of_mem hmem
  obtain ⟨hlength, -⟩ := List.getElem?_eq_some_iff.mp hindex
  rw [h.length] at hlength
  refine ⟨index, tasks[index], ?_, List.getElem?_eq_getElem hlength⟩
  rw [hindex, Option.not_isSome_iff_eq_none.mp hnone]

theorem Recorded.exists_of_ne_none {table : List (Option (Settlement α ε))}
    {order : List (Nat × Settlement α ε)} {index : Nat}
    {task : Join.Task α ε} (h : Recorded tasks table order)
    (htask : tasks[index]? = some task) (hne : table[index]? ≠ some none) :
    ∃ settlement, table[index]? = some (some settlement) := by
  obtain ⟨hlt, -⟩ := List.getElem?_eq_some_iff.mp htask
  rw [← h.length] at hlt
  rw [List.getElem?_eq_getElem hlt] at hne ⊢
  cases hfound : table[index] with
  | none => exact absurd (congrArg some hfound) hne
  | some settlement => exact ⟨settlement, rfl⟩

theorem settlement?_of_fails {task : Join.Task α ε} (h : task.fails = true) :
    ∃ error, task.settlement? = some (.failed error) := by
  rw [Join.Task.fails] at h
  rw [Join.Task.settlement?]
  split at h
  · rename_i error hcourse
    exact ⟨error, by rw [hcourse]⟩
  · cases h

/-- The tasks come to something together: one fails by itself, or none is endless. -/
def Ends (tasks : List (Join.Task α ε)) : Prop :=
  (∃ task ∈ tasks, task.fails = true) ∨ ∀ task ∈ tasks, task.settlement?.isSome = true

/-- Where nobody can do anything, the join has ended, if its tasks come to something. -/
theorem ended_of_stuck (h : Sound tasks joining)
    (hstuck : ∀ turn, step tasks joining turn = joining) (hends : Ends tasks) :
    ∃ outcome, joining.phase = .ended outcome := by
  by_contra hopen
  push Not at hopen
  -- what can be settled is settled
  have hsettled {index : Nat} {task : Join.Task α ε} {settlement : Settlement α ε}
      (htask : tasks[index]? = some task) (hcourse : task.settlement? = some settlement) :
      joining.tasks[index]? ≠ some none := by
    intro unsettled
    have hsame := hstuck (.settles index)
    rw [step, htask, Option.bind_some, hcourse] at hsame
    exact settle_ne unsettled settlement hsame
  have hr := h.recorded
  rcases (isQuiet_of_stuck h hstuck).cases h with ⟨outcome, hphase⟩ | ⟨hlt, hcases⟩
  · exact hopen outcome hphase
  · obtain ⟨index, task, unsettled, htask⟩ := hr.exists_unsettled hlt
    rcases hcases with ⟨-, hfailure, huncancelled⟩ | ⟨⟨raised, gathering, hphase⟩, -⟩
    · rcases hends with ⟨failing, hmem, hfails⟩ | hall
      · -- its failure stands in the record
        obtain ⟨error, hcourse⟩ := settlement?_of_fails hfails
        obtain ⟨place, hplace⟩ := List.getElem?_of_mem hmem
        obtain ⟨found, hfound⟩ := hr.exists_of_ne_none hplace (hsettled hplace hcourse)
        have hentry := (hr.recorded place found).mp hfound
        obtain ⟨other, hother, hsame⟩ :=
          hr.courses place found hentry (huncancelled _ hentry)
        cases hplace.symm.trans hother
        cases hcourse.symm.trans hsame
        cases List.findSome?_eq_none_iff.mp hfailure _ hentry
      · obtain ⟨settlement, hcourse⟩ :=
          Option.isSome_iff_exists.mp (hall task (List.mem_of_getElem? htask))
        exact hsettled htask hcourse unsettled
    · have hsame := hstuck (.noticesCancellation index true)
      rw [step, hphase, htask] at hsame
      exact settle_ne unsettled _ hsame

/-- Whatever turns have been taken, the join can be brought to its end. -/
theorem exists_ended (turns : List Turn)
    (hends : Ends tasks) :
    ∃ more outcome, (run tasks (turns ++ more)).phase = .ended outcome := by
  induction hn : remaining (run tasks turns) using Nat.strongRecOn generalizing turns with
  | ind n ih =>
    by_cases hstuck : ∀ turn, step tasks (run tasks turns) turn = run tasks turns
    · obtain ⟨outcome, hphase⟩ := ended_of_stuck (sound_run tasks turns) hstuck hends
      exact ⟨[], outcome, by rw [List.append_nil]; exact hphase⟩
    · push Not at hstuck
      obtain ⟨turn, hturn⟩ := hstuck
      rcases (takes_step tasks _ turn).idle_or_lt (sound_run tasks turns) with hidle | hlt
      · exact absurd hidle hturn
      · rw [← run_concat, hn] at hlt
        obtain ⟨more, outcome, hphase⟩ := ih _ hlt (turns ++ [turn]) rfl
        exact ⟨turn :: more, outcome, by rw [← hphase, List.append_assoc]; rfl⟩

/-! ### Settlements in any order -/

/-- Can the task come to this? -/
def CanCome (tasks : List (Join.Task α ε)) (event : Nat × Settlement α ε) : Prop :=
  ∃ task, tasks[event.1]? = some task ∧
    (task.settlement? = some event.2 ∨ ∃ hasStarted : Bool,
      event.2 = .cancelled (if hasStarted then task.complaint else none))

theorem toJoin_settle {index : Nat} {settlement : Settlement α ε} (hlate :
      settlement.isCancelled = true → (firstFailure? joining.order).isSome = true) :
    (joining.settle index settlement).toJoin =
      joining.toJoin.settle index settlement := by
  rw [settle]
  split
  · rename_i unsettled
    rw [toJoin, toJoin, settle_eq unsettled hlate, firstFailure?_append]
    simp [firstFailure?]
  · rename_i hsettled
    exact (Join.settle_of_ne_none hsettled settlement).symm

/-- After finitely many reports, and goings on, a join is quiet. -/
theorem exists_quiet (tasks : List (Join.Task α ε)) (turns : List Turn) :
    ∃ more, IsQuiet (run tasks (turns ++ more)) ∧
      (run tasks (turns ++ more)).toJoin = (run tasks turns).toJoin := by
  induction hn : remaining (run tasks turns) using Nat.strongRecOn generalizing turns with
  | ind n ih =>
    by_cases hq : IsQuiet (run tasks turns)
    · exact ⟨[], by rw [List.append_nil]; exact ⟨hq, rfl⟩⟩
    · obtain ⟨turn, hturn, hsame⟩ := exists_turn_of_not_quiet (sound_run tasks turns) hq
      rcases (takes_step tasks _ turn).idle_or_lt (sound_run tasks turns) with hidle | hlt
      · exact absurd hidle hturn
      · rw [← run_concat, hn] at hlt
        obtain ⟨more, hquiet, hjoin⟩ := ih _ hlt (turns ++ [turn]) rfl
        rw [List.append_assoc] at hquiet hjoin
        exact ⟨turn :: more, hquiet, hjoin.trans (by rw [run_concat, hsame])⟩

/-- What is settled in a `Join` can be settled in a quiet join, and what is ignored
there is ignored. -/
theorem exists_turn_settle (h : Sound tasks joining) (hq : IsQuiet joining)
    {event : Nat × Settlement α ε} (hevent : CanCome tasks event) :
    ∃ turn, (step tasks joining turn).toJoin = joining.toJoin.settle event.1 event.2 := by
  obtain ⟨index, settlement⟩ := event
  obtain ⟨task, htask, hcourse | ⟨hasStarted, hcancelled⟩⟩ := hevent
  · refine ⟨.settles index, ?_⟩
    simp only at htask hcourse
    rw [step, htask, Option.bind_some, hcourse]
    apply toJoin_settle
    intro hcancelled
    rw [isCancelled_of_settlement? hcourse] at hcancelled
    cases hcancelled
  · refine ⟨.noticesCancellation index hasStarted, ?_⟩
    simp only at htask hcancelled
    subst hcancelled
    rcases hq.cases h with ⟨outcome, hphase⟩ | ⟨-, ⟨⟨gathering, hphase⟩, hfailure, -⟩ |
      ⟨⟨raised, gathering, hphase⟩, hfailure⟩⟩
    · rw [step, hphase]
      refine (Join.settle_of_ne_none (fun unsettled => ?_) _).symm
      cases (h.outcome hphase).1 none (List.mem_of_getElem? unsettled)
    · rw [step, hphase]
      exact (Join.settle_cancelled_of_unfailed hfailure index _).symm
    · rw [step, hphase, htask]
      exact toJoin_settle fun _ => hfailure

/-- However the settlements of the tasks come about, a join that comes about can have
them in this order. -/
theorem exists_turns_of_events (events : List (Nat × Settlement α ε))
    (hevents : ∀ event ∈ events, CanCome tasks event) :
    ∃ turns, IsQuiet (run tasks turns) ∧
      (run tasks turns).toJoin = (Join.start tasks.length).settleAll events := by
  induction events using List.reverseRecOn with
  | nil => exact exists_quiet tasks []
  | append_singleton events event ih =>
    obtain ⟨turns, hquiet, hjoin⟩ :=
      ih fun earlier hmem => hevents earlier (List.mem_append_left _ hmem)
    obtain ⟨turn, hturn⟩ := exists_turn_settle (sound_run tasks turns) hquiet
      (hevents event (List.mem_append_right _ (.head _)))
    obtain ⟨more, hmore, hsame⟩ := exists_quiet tasks (turns ++ [turn])
    refine ⟨turns ++ [turn] ++ more, hmore, ?_⟩
    rw [hsame, run_concat, hturn, hjoin, Join.settleAll, Join.settleAll,
      List.foldl_append]
    rfl

/-- A quiet join has ended where the `Join` of its settlements has an outcome, and with
that outcome. -/
theorem IsQuiet.ended {result : Except ε (List α)} (hq : IsQuiet joining)
    (h : Sound tasks joining) (houtcome : joining.toJoin.outcome? = some result) :
    joining.phase = .ended (result.mapError .error) := by
  rcases hq.cases h with ⟨outcome, hphase⟩ | ⟨hlt, -⟩
  · obtain ⟨-, found, hfound, hresult, -⟩ := h.outcome hphase
    rw [h.recorded.joins] at hfound
    cases hfound.symm.trans houtcome
    rw [hphase, hresult]
  · rw [Join.outcome?] at houtcome
    split at houtcome
    · rename_i hsettled
      have hcount := List.countP_eq_length.mpr (List.all_eq_true.mp hsettled)
      have hcounted := h.recorded.counted
      simp only [toJoin] at hcount
      omega
    · cases houtcome

theorem canCome_of_mem_schedule {event : Nat × Settlement α ε}
    (h : event ∈ Join.schedule tasks) :
    CanCome tasks event := by
  rw [Join.schedule, List.mem_append] at h
  rcases h with h | h
  · obtain ⟨⟨task, index⟩, hmem, hevent⟩ := List.mem_filterMap.mp h
    obtain ⟨settlement, hcourse, rfl⟩ := Option.map_eq_some_iff.mp hevent
    have hmem := (List.mem_filter.mp (List.mem_mergeSort.mp hmem)).1
    exact ⟨task, List.mem_zipIdx_iff_getElem?.mp hmem, .inl hcourse⟩
  · obtain ⟨⟨task, index⟩, hmem, rfl⟩ := List.mem_map.mp h
    exact ⟨task, List.mem_zipIdx_iff_getElem?.mp hmem, .inr ⟨true, rfl⟩⟩

/-- Tasks that are joined in step take turns like any others. -/
theorem exists_turns_in_step (tasks : List (Join.Task α ε)) :
    ∃ turns, (run tasks turns).tasks = (Join.run tasks).tasks ∧
      ∀ result, (Join.run tasks).outcome? = some result →
        (run tasks turns).phase = .ended (result.mapError .error) := by
  obtain ⟨turns, hquiet, hjoin⟩ :=
    exists_turns_of_events (Join.schedule tasks) (fun event => canCome_of_mem_schedule)
  refine ⟨turns, congrArg Join.tasks hjoin, fun result hresult => ?_⟩
  exact hquiet.ended (sound_run tasks turns) (hjoin ▸ hresult)

/-! ### Every order of turns -/

/-- A join whose tasks take turns in any order. When it ends, every task is settled; it
raises the failure that happened first, and if there was none it returns the values in
the order of the tasks, just as a `Join` does that is given the settlements. What was
settled before the first failure is what the task came to by itself, and stays. The join
does end, after a bounded number of turns, unless it waits for a task without end; and
tasks in step are joined by one of these orders. -/
theorem outcome_of_turns (tasks : List (Join.Task α ε)) (turns : List Turn) :
    (∀ outcome, (run tasks turns).phase = .ended outcome →
      (∀ index < tasks.length, ∃ settlement, (run tasks turns).tasks[index]? =
        some (some settlement)) ∧
      (∀ error, firstFailure? (run tasks turns).order = some error →
        outcome = .error (.error error)) ∧
      (firstFailure? (run tasks turns).order = none → ∃ values, outcome = .ok values ∧
        tasks.map Join.Task.settlement? = values.map fun value =>
          some (.finished value)) ∧
      (∀ values, tasks.map Join.Task.settlement? =
        values.map (fun value => some (.finished value)) →
        outcome = .ok values) ∧
      ∃ result, ((Join.start tasks.length).settleAll (run tasks turns).order).outcome? =
        some result ∧
        outcome = result.mapError .error) ∧
    (∀ position index settlement, (run tasks turns).order[position]? =
      some (index, settlement) →
      (run tasks turns).tasks[index]? = some (some settlement) ∧
      (firstFailure? ((run tasks turns).order.take position) = none →
        ∃ task, tasks[index]? = some task ∧ task.settlement? = some settlement)) ∧
    (Ends tasks →
      ((∀ turn, step tasks (run tasks turns) turn = run tasks turns) →
        ∃ outcome, (run tasks turns).phase = .ended outcome) ∧
      ∃ more outcome, (run tasks (turns ++ more)).phase = .ended outcome) ∧
    ((∀ before turn after, turns = before ++ turn :: after →
        run tasks (before ++ [turn]) ≠ run tasks before) →
      turns.length ≤ 3 * tasks.length + 2) ∧
    ∃ inStep, (run tasks inStep).tasks = (Join.run tasks).tasks ∧
      ∀ result, (Join.run tasks).outcome? = some result →
        (run tasks inStep).phase = .ended (result.mapError .error) := by
  have hsound := sound_run tasks turns
  refine ⟨fun outcome hphase => ?_, fun position index settlement hentry => ?_,
    fun hends => ?_,
    fun hchanges => ?_, exists_turns_in_step tasks⟩
  · obtain ⟨hall, result, hresult, houtcome, hverdict⟩ := hsound.outcome hphase
    refine ⟨fun index hlt => ?_, fun error hfailure => ?_, fun hfailure => ?_,
      fun values hvalues => ?_,
      result, hresult, houtcome⟩
    · rw [← hsound.recorded.length] at hlt
      obtain ⟨settlement, hsettled⟩ :=
        Option.isSome_iff_exists.mp (hall _ (List.getElem_mem hlt))
      exact ⟨settlement, by rw [List.getElem?_eq_getElem hlt, hsettled]⟩
    · rw [hfailure] at hverdict
      rw [houtcome, hverdict]
      rfl
    · rw [hfailure] at hverdict
      obtain ⟨values, hvalues, hsettlements⟩ := hverdict
      exact ⟨values, by rw [houtcome, hvalues]; rfl, hsettlements⟩
    · have hfailure := hsound.recorded.firstFailure?_eq_none hvalues
      rw [hfailure] at hverdict
      obtain ⟨found, hfound, hsame⟩ := hverdict
      have heq : found = values :=
        (List.map_inj_right fun first second heq => by cases heq; rfl).mp
          (hsame.symm.trans hvalues)
      rw [houtcome, hfound, heq]
      rfl
  · have hmem : (index, settlement) ∈ (run tasks turns).order :=
      List.mem_of_getElem? hentry
    refine ⟨(hsound.recorded.recorded index settlement).mpr hmem, fun hfailure => ?_⟩
    refine hsound.recorded.courses index settlement hmem ?_
    by_contra hcancelled
    have hlate :=
      hsound.recorded.late position index settlement hentry (by simpa using hcancelled)
    rw [hfailure] at hlate
    cases hlate
  · exact ⟨fun hstuck => ended_of_stuck hsound hstuck hends, exists_ended turns hends⟩
  · exact Nat.le_trans (Nat.le_add_right _ _) (length_add_remaining_le turns hchanges)

/-- A task with a value, one that fails, one without end that complains of being
cancelled, and another one with a value. -/
def mixedTasks : List (Join.Task Nat Nat) :=
  [⟨0, .value 1, none⟩, ⟨0, .error 2, none⟩, ⟨0, .endless, some 3⟩, ⟨0, .value 4, none⟩]

/-- The last task is settled between the failure and its report, and the one without end
complains. -/
def mixedTurns : List Turn :=
  [.settles 0, .settles 1, .settles 3, .reports, .reports, .goesOn, .reports,
    .noticesCancellation 2 true,
    .reports, .reports, .reports, .goesOn]

theorem outcome_of_mixedTurns :
    (run mixedTasks mixedTurns).phase = .ended (.error (.error 2)) ∧
    (run mixedTasks mixedTurns).tasks[2]? = some (some (.cancelled (some 3))) ∧
    (run mixedTasks mixedTurns).tasks[3]? = some (some (.finished 4)) ∧
    ∃ turns outcome, (run mixedTasks turns).phase = .ended outcome := by
  obtain ⟨hended, hrecord, hends, -, -⟩ := outcome_of_turns mixedTasks mixedTurns
  obtain ⟨hsettled, hfirst, -⟩ := hended _ rfl
  obtain ⟨more, outcome, hphase⟩ := (hends (.inl ⟨_, .tail _ (.head _), rfl⟩)).2
  have hphase' : (run mixedTasks mixedTurns).phase = .ended (.error (.error 2)) :=
    congrArg Phase.ended (hfirst 2 rfl)
  exact ⟨hphase', (hrecord 3 2 _ rfl).1, (hrecord 2 3 _ rfl).1, _, outcome, hphase⟩

end ExtensionAudit.Joining
