import ExtensionAudit.Gathering
import ExtensionAudit.Proofs.Join

/-!
# Gathering — a join in any order of turns

One lemma says what a turn can do (`takes_step`). From it come the invariant of a join
that comes about (`Sound`), and that every turn that does something brings the join
nearer to its end (`remaining`). A join that has ended, whatever the turns were, is the
settled `Join` of the same settlements.
-/

namespace ExtensionAudit

variable {α ε : Type}

/-- The error of a task that failed by itself. -/
def Settlement.failure? : Settlement α ε → Option ε
  | .failed error => some error
  | _ => none

/-- Was the task cancelled? -/
def Settlement.isCancelled : Settlement α ε → Bool
  | .cancelled _ => true
  | _ => false

theorem isCancelled_of_settlement? {task : Join.Task α ε} {settlement : Settlement α ε}
    (h : task.settlement? = some settlement) : settlement.isCancelled = false := by
  rw [Join.Task.settlement?] at h
  split at h <;> cases h <;> rfl

theorem Settlement.raised?_of_not_cancelled {settlement : Settlement α ε}
    (h : settlement.isCancelled = false) :
    settlement.raised? = settlement.failure?.map Raised.error := by
  cases settlement with
  | finished value => rfl
  | failed error => rfl
  | cancelled complaint => cases h

namespace Joining

/-- The first failure among settlements in the order in which they happened. -/
def firstFailure? (order : List (Nat × Settlement α ε)) : Option ε :=
  order.findSome? fun entry => entry.2.failure?

theorem firstFailure?_append (order later : List (Nat × Settlement α ε)) :
    firstFailure? (order ++ later) = (firstFailure? order).or (firstFailure? later) :=
  List.findSome?_append

theorem firstFailure?_append_of_some {order : List (Nat × Settlement α ε)} {error : ε}
    (h : firstFailure? order = some error) (later : List (Nat × Settlement α ε)) :
    firstFailure? (order ++ later) = some error := by
  rw [firstFailure?_append, h]
  rfl

/-! ### What a turn can do -/

/-- What a task can come to: what it comes to by itself, or to be cancelled, once the
join has cancelled what was going on. -/
inductive MayCome (tasks : List (Join.Task α ε))
    (index : Nat) : Phase α ε → Settlement α ε → Prop
  | itself {phase : Phase α ε} {settlement : Settlement α ε} {task : Join.Task α ε}
      (htask : tasks[index]? = some task) (h : task.settlement? = some settlement) :
    MayCome tasks index phase settlement
  | cancelled {raised : Raised ε} {gathering : Gathering α ε} {task : Join.Task α ε}
      (hasStarted : Bool)
      (htask : tasks[index]? = some task) :
    MayCome tasks index (.collecting raised gathering)
      (.cancelled (if hasStarted then task.complaint else none))

/-- What a turn makes of a join. -/
inductive Takes (tasks : List (Join.Task α ε))
    (joining : Joining α ε) : Joining α ε → Prop
  | idle : Takes tasks joining joining
  | settles {index : Nat} {settlement : Settlement α ε}
      (unsettled : joining.tasks[index]? = some none)
      (h : MayCome tasks index joining.phase settlement) :
    Takes tasks joining
      ⟨joining.tasks.set index (some settlement), joining.order ++ [(index, settlement)],
        joining.unheard ++ [index], joining.phase⟩
  | reports {index : Nat} {later : List Nat} {settlement : Settlement α ε}
      (hunheard : joining.unheard = index :: later)
      (hsettled : joining.tasks[index]? = some (some settlement)) :
    Takes tasks joining
      ⟨joining.tasks, joining.order, later, joining.phase.hear joining.tasks settlement⟩
  | succeeds {gathering : Gathering α ε} {results : List (Settlement α ε)}
      (hphase : joining.phase = .waiting gathering)
      (hresult : gathering.result? = some (.ok results)) :
    Takes tasks joining
      ⟨joining.tasks, joining.order, joining.unheard,
        .ended (.ok (results.filterMap fun result => Join.value? (some result)))⟩
  | cancels {gathering : Gathering α ε} {raised : Raised ε}
      (hphase : joining.phase = .waiting gathering)
      (hresult : gathering.result? = some (.error raised)) :
    Takes tasks joining
      ⟨joining.tasks, joining.order, settled joining.tasks,
        .collecting raised (.start true joining.tasks.length)⟩
  | fails {gathering : Gathering α ε} {raised : Raised ε}
      {results : List (Settlement α ε)}
      (hphase : joining.phase = .collecting raised gathering)
      (hresult : gathering.result? = some (.ok results)) :
    Takes tasks joining ⟨joining.tasks, joining.order, joining.unheard,
      .ended (.error raised)⟩
  | failsAnew {gathering : Gathering α ε} {raised other : Raised ε}
      (hphase : joining.phase = .collecting raised gathering)
      (hresult : gathering.result? = some (.error other)) :
    Takes tasks joining ⟨joining.tasks, joining.order, joining.unheard,
      .ended (.error other)⟩

theorem takes_settle {tasks : List (Join.Task α ε)} {joining : Joining α ε} {index : Nat}
    {settlement : Settlement α ε} (h : MayCome tasks index joining.phase settlement) :
    Takes tasks joining (joining.settle index settlement) := by
  rw [settle]
  split
  · rename_i unsettled
    exact .settles unsettled h
  · exact .idle

theorem takes_goOn (tasks : List (Join.Task α ε)) (joining : Joining α ε) :
    Takes tasks joining joining.goOn := by
  rw [goOn]
  split
  · rename_i hphase
    split
    · rename_i hresult
      exact .succeeds hphase hresult
    · rename_i hresult
      exact .cancels hphase hresult
    · exact .idle
  · rename_i hphase
    split
    · rename_i hresult
      exact .fails hphase hresult
    · rename_i hresult
      exact .failsAnew hphase hresult
    · exact .idle
  · exact .idle

theorem takes_step (tasks : List (Join.Task α ε)) (joining : Joining α ε) (turn : Turn) :
    Takes tasks joining (step tasks joining turn) := by
  cases turn with
  | settles index =>
    rw [step]
    split
    · rename_i settlement hcourse
      obtain ⟨task, htask, hcourse⟩ := Option.bind_eq_some_iff.mp hcourse
      exact takes_settle (.itself htask hcourse)
    · exact .idle
  | noticesCancellation index hasStarted =>
    rw [step]
    split
    · rename_i raised gathering task hphase htask
      refine takes_settle ?_
      rw [hphase]
      exact .cancelled hasStarted htask
    · exact .idle
  | reports =>
    rw [step]
    split
    · exact .idle
    · rename_i index later hunheard
      split
      · rename_i settlement hsettled
        exact .reports hunheard hsettled
      · exact .idle
  | goesOn => exact takes_goOn tasks joining

/-! ### The record -/

/-- The record of the settlements so far: what each task has come to stands in the table
and in the order, cancelled tasks come after the first failure, and a `Join` that is
given the settlements in this order has the same table and the same failure. -/
structure Recorded (tasks : List (Join.Task α ε)) (table : List (Option (Settlement α ε)))
    (order : List (Nat × Settlement α ε)) : Prop where
  length : table.length = tasks.length
  counted : order.length = table.countP Option.isSome
  recorded : ∀ index settlement, table[index]? = some (some settlement) ↔
    (index, settlement) ∈ order
  courses : ∀ index settlement, (index, settlement) ∈ order →
    settlement.isCancelled = false →
    ∃ task, tasks[index]? = some task ∧ task.settlement? = some settlement
  late : ∀ position index settlement, order[position]? = some (index, settlement) →
    settlement.isCancelled = true → (firstFailure? (order.take position)).isSome = true
  joins : (Join.start tasks.length).settleAll order = ⟨table, firstFailure? order⟩

theorem recorded_start (tasks : List (Join.Task α ε)) :
    Recorded tasks (List.replicate tasks.length none) [] where
  length := List.length_replicate
  counted := by simp [List.countP_replicate]
  recorded := by simp [List.getElem?_replicate]
  courses := by simp
  late := by simp
  joins := rfl

section Recorded

variable {tasks : List (Join.Task α ε)} {table : List (Option (Settlement α ε))}
  {order : List (Nat × Settlement α ε)} {index : Nat} {settlement : Settlement α ε}

theorem Recorded.length_order_le (h : Recorded tasks table order) :
    order.length ≤ table.length :=
  h.counted ▸ List.countP_le_length

/-- Where a task is still going on, not all are settled. -/
theorem Recorded.length_order_lt (h : Recorded tasks table order)
    (unsettled : table[index]? = some none) : order.length < table.length := by
  rw [h.counted]
  refine Nat.lt_of_le_of_ne List.countP_le_length fun heq => ?_
  have hall := List.countP_eq_length.mp heq none (List.mem_of_getElem? unsettled)
  cases hall

theorem Recorded.isSome_of_length (h : Recorded tasks table order)
    (hlength : order.length = table.length) :
    ∀ task ∈ table, task.isSome = true :=
  List.countP_eq_length.mp (h.counted ▸ hlength)

theorem settle_eq {failure : Option ε} (unsettled : table[index]? = some none)
    (hlate : settlement.isCancelled = true → failure.isSome = true) :
    (⟨table, failure⟩ : Join α ε).settle index settlement =
      ⟨table.set index (some settlement), failure.or settlement.failure?⟩ := by
  cases settlement with
  | finished value => simp [Join.settle, unsettled, Settlement.failure?]
  | failed error =>
    cases failure <;> simp [Join.settle, unsettled, Settlement.failure?, Join.fail]
  | cancelled complaint =>
    obtain ⟨error, rfl⟩ := Option.isSome_iff_exists.mp (hlate rfl)
    simp [Join.settle, unsettled]

theorem countP_set_settled (unsettled : table[index]? = some none)
    (settlement : Settlement α ε) :
    (table.set index (some settlement)).countP Option.isSome =
      table.countP Option.isSome + 1 := by
  obtain ⟨hlt, hnone⟩ := List.getElem?_eq_some_iff.mp unsettled
  rw [List.countP_set hlt, hnone]
  rfl

theorem Recorded.settle (h : Recorded tasks table order)
    (unsettled : table[index]? = some none) (hcourse : settlement.isCancelled = false →
      ∃ task, tasks[index]? = some task ∧ task.settlement? = some settlement)
    (hlate : settlement.isCancelled = true → (firstFailure? order).isSome = true) :
    Recorded tasks (table.set index (some settlement))
      (order ++ [(index, settlement)]) where
  length := by rw [List.length_set, h.length]
  counted := by rw [countP_set_settled unsettled, List.length_append, h.counted]; rfl
  recorded other found := by
    rw [List.mem_append, List.mem_singleton, Prod.mk.injEq, ← h.recorded]
    constructor
    · intro hfound
      exact (Join.getElem?_set_settled hfound).symm
    · rintro (hfound | ⟨rfl, rfl⟩)
      · have hne : index ≠ other := by
          rintro rfl
          rw [unsettled] at hfound
          cases hfound
        rw [List.getElem?_set_ne hne]
        exact hfound
      · exact List.getElem?_set_self (List.getElem?_eq_some_iff.mp unsettled).1
  courses other found hmem hown := by
    rcases List.mem_append.mp hmem with hmem | hmem
    · exact h.courses other found hmem hown
    · cases List.mem_singleton.mp hmem
      exact hcourse hown
  late position other found hposition hcancelled := by
    -- What came before the new entry is what came, and before the others is less.
    rcases Nat.lt_or_ge position order.length with hlt | hge
    · rw [List.getElem?_append_left hlt] at hposition
      rw [List.take_append_of_le_length (Nat.le_of_lt hlt)]
      exact h.late position other found hposition hcancelled
    · rw [List.getElem?_append_right hge] at hposition
      obtain ⟨hlast, hfound⟩ := List.getElem?_eq_some_iff.mp hposition
      have hposition : position = order.length := by
        simp only [List.length_singleton] at hlast
        omega
      subst hposition
      simp only [Nat.sub_self, List.getElem_cons_zero] at hfound
      cases hfound
      rw [List.take_left]
      exact hlate hcancelled
  joins := by
    rw [Join.settleAll, List.foldl_append]
    change ((Join.start tasks.length).settleAll order).settle index settlement = _
    rw [h.joins, settle_eq unsettled hlate, firstFailure?_append]
    simp [firstFailure?]

end Recorded

/-! ### Where a join stands -/

/-- What the first gathering has come to when these tasks have reported to it. -/
inductive Verdict (table : List (Option (Settlement α ε)))
    (heard : List (Nat × Settlement α ε)) :
    Option (Except (Raised ε) (List (Settlement α ε))) → Prop
  | pending (hfailure : firstFailure? heard = none)
      (hcount : heard.length ≠ table.length) :
    Verdict table heard none
  | complete (hfailure : firstFailure? heard = none)
      (hcount : heard.length = table.length) :
    Verdict table heard (some (.ok (table.filterMap id)))
  | broken {error : ε} (hfailure : firstFailure? heard = some error) :
    Verdict table heard (some (.error (.error error)))

/-- Where a join stands. While it waits, nothing is cancelled and the tasks report in
the order in which they were settled. From then on the first failure is kept, and the
reports that are still to come are counted. -/
inductive Stands (table : List (Option (Settlement α ε)))
    (order : List (Nat × Settlement α ε)) (unheard : List Nat) : Phase α ε → Prop
  | waiting {heard later : List (Nat × Settlement α ε)}
      {result? : Option (Except (Raised ε) (List (Settlement α ε)))}
      (horder : order = heard ++ later)
      (hunheard : unheard = later.map Prod.fst)
      (huncancelled : ∀ entry ∈ order, entry.2.isCancelled = false)
      (hverdict : Verdict table heard result?) :
    Stands table order unheard (.waiting ⟨false, heard.length, result?⟩)
  | collecting {error : ε} {reports : Nat} (hfailure : firstFailure? order = some error)
      (hcount : reports + unheard.length = order.length)
      (hsettled : ∀ index ∈ unheard, ∃ settlement, table[index]? =
        some (some settlement)) :
    Stands table order unheard (.collecting (.error error) ⟨true, reports,
      if reports == table.length then some (.ok (table.filterMap id)) else none⟩)
  | succeeded {values : List α} (hfailure : firstFailure? order = none)
      (htable : table = values.map fun value => some (.finished value)) :
    Stands table order unheard (.ended (.ok values))
  | failed {error : ε} (hfailure : firstFailure? order = some error)
      (hcount : order.length = table.length) :
    Stands table order unheard (.ended (.error (.error error)))

/-- The invariant of a join that comes about. -/
structure Sound (tasks : List (Join.Task α ε)) (joining : Joining α ε) : Prop where
  recorded : Recorded tasks joining.tasks joining.order
  stands : Stands joining.tasks joining.order joining.unheard joining.phase

section Sound

variable {tasks : List (Join.Task α ε)} {table : List (Option (Settlement α ε))}
  {order heard : List (Nat × Settlement α ε)} {unheard : List Nat}
  {phase : Phase α ε} {index : Nat}
  {settlement : Settlement α ε}
    {result? : Option (Except (Raised ε) (List (Settlement α ε)))}

theorem sound_start (tasks : List (Join.Task α ε)) :
    Sound tasks (start tasks.length) where
  recorded := recorded_start tasks
  stands := by
    have hverdict :
        Verdict (List.replicate tasks.length (none : Option (Settlement α ε))) []
        (Gathering.start false tasks.length).result? := by
      rw [Gathering.start]
      cases tasks with
      | nil => exact .complete rfl rfl
      | cons task rest => exact .pending rfl (by simp)
    exact .waiting rfl rfl (by simp) hverdict

/-- A task that is settled while it is waited for: nothing has been decided by then but
by a failure. -/
theorem Verdict.settle (h : Verdict table heard result?)
    (hlt : heard.length < table.length) (settlement : Settlement α ε) :
    Verdict (table.set index (some settlement)) heard result? := by
  cases h with
  | pending hfailure hcount => exact .pending hfailure (by rwa [List.length_set])
  | complete hfailure hcount => omega
  | broken hfailure => exact .broken hfailure

/-- A task that has come to something by itself reports. -/
theorem Verdict.hear (h : Verdict table heard result?) (hlt : heard.length < table.length)
    (hown : settlement.isCancelled = false) (index : Nat) :
    Verdict table (heard ++ [(index, settlement)])
      ((⟨false, heard.length,
        result?⟩ : Gathering α ε).hear table settlement).result? := by
  have hlength : (heard ++ [(index, settlement)]).length = heard.length + 1 :=
    List.length_append
  have happend : firstFailure? (heard ++ [(index, settlement)]) =
      (firstFailure? heard).or settlement.failure? := by
    rw [firstFailure?_append]
    simp [firstFailure?]
  cases h with
  | pending hfailure hcount =>
    rw [hfailure, Option.none_or] at happend
    simp only [Gathering.hear, Bool.false_eq_true, if_false,
      settlement.raised?_of_not_cancelled hown]
    cases hs : settlement.failure? with
    | some error => exact .broken (happend.trans hs)
    | none =>
      by_cases hlast : heard.length + 1 = table.length
      · simpa [hlast] using Verdict.complete (happend.trans hs) (hlength.trans hlast)
      · simpa [hlast] using Verdict.pending (happend.trans hs) (hlength ▸ hlast)
  | complete hfailure hcount => omega
  | broken hfailure => exact .broken (firstFailure?_append_of_some hfailure _)

theorem MayCome.course (h : MayCome tasks index phase settlement)
    (hown : settlement.isCancelled = false) :
    ∃ task, tasks[index]? = some task ∧ task.settlement? = some settlement := by
  cases h with
  | itself htask hcourse => exact ⟨_, htask, hcourse⟩
  | cancelled hasStarted htask => cases hown

/-- Nothing is cancelled before there is a failure. -/
theorem Stands.late (h : Stands table order unheard phase)
    (hcourse : MayCome tasks index phase settlement)
    (hcancelled : settlement.isCancelled = true) :
    (firstFailure? order).isSome = true := by
  cases hcourse with
  | itself htask hcourse =>
    rw [isCancelled_of_settlement? hcourse] at hcancelled
    cases hcancelled
  | cancelled hasStarted htask =>
    cases h with
    | collecting hfailure hcount hsettled =>
      rw [hfailure]
      rfl

theorem Stands.settle (h : Stands table order unheard phase)
    (hr : Recorded tasks table order) (unsettled : table[index]? = some none)
    (hcourse : MayCome tasks index phase settlement) :
    Stands (table.set index (some settlement)) (order ++ [(index, settlement)])
      (unheard ++ [index])
      phase := by
  have hlt := hr.length_order_lt unsettled
  cases h with
  | @waiting heard later result? horder hunheard huncancelled hverdict =>
    have hown : settlement.isCancelled = false := by
      cases hcourse with
      | itself htask hcourse => exact isCancelled_of_settlement? hcourse
    have hheard : heard.length < table.length := by
      rw [horder, List.length_append] at hlt
      omega
    refine .waiting (by rw [horder, List.append_assoc]) (by simp [hunheard]) ?_
      (hverdict.settle hheard _)
    intro entry hentry
    rcases List.mem_append.mp hentry with hentry | hentry
    · exact huncancelled entry hentry
    · cases List.mem_singleton.mp hentry
      exact hown
  | @collecting error reports hfailure hcount hsettled =>
    -- The first failure has been there before, so it stays the first.
    have hopen : (reports == table.length) = false := beq_false_of_ne (by omega)
    have hset : (table.set index (some settlement))[index]? = some (some settlement) :=
      List.getElem?_set_self (List.getElem?_eq_some_iff.mp unsettled).1
    have hall : ∀ other ∈ unheard ++ [index],
        ∃ found, (table.set index (some settlement))[other]? = some (some found) := by
      intro other hother
      by_cases hne : index = other
      · exact ⟨settlement, hne ▸ hset⟩
      · rw [List.getElem?_set_ne hne]
        rcases List.mem_append.mp hother with hother | hother
        · exact hsettled other hother
        · exact absurd (List.mem_singleton.mp hother).symm hne
    have hnext :
        Stands (table.set index (some settlement)) (order ++ [(index, settlement)])
        (unheard ++ [index]) (.collecting (.error error) ⟨true, reports, _⟩) :=
      .collecting (firstFailure?_append_of_some hfailure _) (by simp; omega) hall
    rw [List.length_set, hopen] at hnext
    rw [hopen]
    exact hnext
  | @succeeded values hfailure htable =>
    rw [htable, List.getElem?_map] at unsettled
    obtain ⟨value, -, hnone⟩ := Option.map_eq_some_iff.mp unsettled
    cases hnone
  | failed hfailure hcount => omega

theorem Stands.hear {later : List Nat}
    (h : Stands table order (index :: later) phase) (hr : Recorded tasks table order)
    (hsettled : table[index]? = some (some settlement)) :
    Stands table order later (phase.hear table settlement) := by
  have hle := hr.length_order_le
  generalize hqueue : index :: later = unheard at h
  cases h with
  | @waiting heard rest result? horder hunheard huncancelled hverdict =>
    -- the task that reports is the first of those that have not
    cases rest with
    | nil => cases hqueue.trans hunheard
    | cons entry rest =>
      obtain ⟨other, found⟩ := entry
      cases hqueue.trans hunheard
      have hmem : (other, found) ∈ order := horder ▸ List.mem_append_right _ (.head _)
      cases ((hr.recorded other found).mpr hmem).symm.trans hsettled
      have hlt : heard.length < table.length := by
        rw [horder, List.length_append, List.length_cons] at hle
        omega
      have hnext : Stands table order (rest.map Prod.fst)
          (.waiting ⟨false, (heard ++ [(other, settlement)]).length, _⟩) :=
        .waiting (by rw [horder, List.append_assoc]; rfl) rfl huncancelled
          (hverdict.hear hlt (huncancelled _ hmem) other)
      rw [List.length_append] at hnext
      exact hnext
  | @collecting error reports hfailure hcount hall =>
    subst hqueue
    rw [List.length_cons] at hcount
    have hopen : (reports == table.length) = false := beq_false_of_ne (by omega)
    have hnext :
        Stands table order later (.collecting (.error error) ⟨true, reports + 1, _⟩) :=
      .collecting hfailure (by omega) (fun other hother => hall other (.tail _ hother))
    simpa [Phase.hear, Gathering.hear, hopen] using hnext
  | succeeded hfailure htable => exact .succeeded hfailure htable
  | failed hfailure hcount => exact .failed hfailure hcount

/-- Where all tasks have finished, their values are all there is. -/
theorem table_of_finished (hall : ∀ task ∈ table, task.isSome = true)
    (hfinished : ∀ (index : Nat) (settlement : Settlement α ε), table[index]? =
      some (some settlement) → ∃ value, settlement = .finished value) :
    table = ((table.filterMap id).filterMap fun result =>
      Join.value? (some result)).map fun value =>
      some (.finished value) := by
  have hsound : Join.Sound (fun _ _ => True) table.length (⟨table, none⟩ : Join α ε) :=
    ⟨rfl, fun _ _ _ => trivial, fun _ => hfinished⟩
  refine Join.tasks_of_outcome hsound ?_
  have hsettled : (⟨table, none⟩ : Join α ε).isSettled = true := List.all_eq_true.mpr hall
  rw [Join.outcome?, hsettled, List.filterMap_filterMap]
  simp only [if_true, Option.some.injEq, Except.ok.injEq]
  congr 1
  funext task
  cases task <;> rfl

theorem finished_of_order (hr : Recorded tasks table order)
    (hfailure : firstFailure? order = none)
    (huncancelled : ∀ entry ∈ order, entry.2.isCancelled = false)
    (hfound : table[index]? = some (some settlement)) :
    ∃ value, settlement = .finished value := by
  have hmem := (hr.recorded index settlement).mp hfound
  have hnone := List.findSome?_eq_none_iff.mp hfailure _ hmem
  have hown := huncancelled _ hmem
  cases settlement with
  | finished value => exact ⟨value, rfl⟩
  | failed error => cases hnone
  | cancelled complaint => cases hown

theorem Stands.succeed {gathering : Gathering α ε} {results : List (Settlement α ε)}
    (h : Stands table order unheard (.waiting gathering))
    (hr : Recorded tasks table order)
    (hresult : gathering.result? = some (.ok results)) :
    Stands table order unheard
      (.ended (.ok (results.filterMap fun result => Join.value? (some result)))) := by
  cases h with
  | @waiting heard later result? horder hunheard huncancelled hverdict =>
    subst hresult
    cases hverdict with
    | complete hfailure hcount =>
      -- all tasks have reported, so that none is left to report
      have hle := hr.length_order_le
      rw [horder, List.length_append] at hle
      have hlater : later = [] := List.length_eq_zero_iff.mp (by omega)
      rw [hlater, List.append_nil] at horder
      subst horder
      refine .succeeded hfailure (table_of_finished (hr.isSome_of_length hcount) ?_)
      intro index settlement hfound
      exact finished_of_order hr hfailure huncancelled hfound

theorem length_settled (table : List (Option (Settlement α ε))) :
    (settled table).length = table.countP Option.isSome := by
  rw [settled, List.length_map, ← List.countP_eq_length_filter]
  conv_rhs => rw [← List.zipIdx_map_fst 0 table, List.countP_map]
  rfl

theorem of_mem_settled (h : index ∈ settled table) :
    ∃ settlement, table[index]? = some (some settlement) := by
  obtain ⟨⟨task, position⟩, hmem, rfl⟩ := List.mem_map.mp h
  obtain ⟨hmem, hsome⟩ := List.mem_filter.mp hmem
  obtain ⟨settlement, rfl⟩ := Option.isSome_iff_exists.mp hsome
  exact ⟨settlement, List.mem_zipIdx_iff_getElem?.mp hmem⟩

theorem Stands.cancel {gathering : Gathering α ε} {raised : Raised ε}
    (h : Stands table order unheard (.waiting gathering))
    (hr : Recorded tasks table order)
    (hresult : gathering.result? = some (.error raised)) :
    Stands table order (settled table)
      (.collecting raised (.start true table.length)) := by
  cases h with
  | @waiting heard later result? horder hunheard huncancelled hverdict =>
    subst hresult
    cases hverdict with
    | @broken error hheard =>
      have hfailure : firstFailure? order = some error := by
        rw [horder]
        exact firstFailure?_append_of_some hheard later
      -- a task has failed, so that there are tasks to collect
      have hsome : table.length ≠ 0 := by
        intro hnone
        have hempty :=
          List.length_eq_zero_iff.mp (Nat.le_zero.mp (hnone ▸ hr.length_order_le))
        rw [hempty] at hfailure
        cases hfailure
      have hnext : Stands table order (settled table)
          (.collecting (.error error) ⟨true, 0, _⟩) :=
        .collecting hfailure (by rw [Nat.zero_add, length_settled, hr.counted]) fun _ =>
          of_mem_settled
      simpa [Gathering.start, hsome, Ne.symm hsome] using hnext

theorem Stands.fail {gathering : Gathering α ε} {raised : Raised ε}
    {result : Except (Raised ε) (List (Settlement α ε))}
    (h : Stands table order unheard (.collecting raised gathering))
    (hr : Recorded tasks table order) (hresult : gathering.result? = some result) :
    (∃ results, result = .ok results) ∧
      Stands table order unheard (.ended (.error raised)) := by
  cases h with
  | @collecting error reports hfailure hcount hsettled =>
    by_cases hlast : reports = table.length
    · simp only [hlast, beq_self_eq_true, if_true, Option.some.injEq] at hresult
      have hle := hr.length_order_le
      exact ⟨⟨_, hresult.symm⟩, .failed hfailure (by omega)⟩
    · simp [hlast] at hresult

/-- A turn keeps the invariant. -/
theorem Sound.takes {joining later : Joining α ε} (h : Sound tasks joining)
    (ht : Takes tasks joining later) : Sound tasks later := by
  obtain ⟨hr, hs⟩ := h
  cases ht with
  | idle => exact ⟨hr, hs⟩
  | settles unsettled hcourse =>
    exact ⟨hr.settle unsettled hcourse.course (hs.late hcourse),
      hs.settle hr unsettled hcourse⟩
  | reports hunheard hsettled =>
    rw [hunheard] at hs
    exact ⟨hr, hs.hear hr hsettled⟩
  | succeeds hphase hresult =>
    rw [hphase] at hs
    exact ⟨hr, hs.succeed hr hresult⟩
  | cancels hphase hresult =>
    rw [hphase] at hs
    exact ⟨hr, hs.cancel hr hresult⟩
  | fails hphase hresult =>
    rw [hphase] at hs
    exact ⟨hr, (hs.fail hr hresult).2⟩
  | failsAnew hphase hresult =>
    rw [hphase] at hs
    obtain ⟨results, hfalse⟩ := (hs.fail hr hresult).1
    cases hfalse

/-- Every join that comes about has it. -/
theorem sound_run (tasks : List (Join.Task α ε))
    (turns : List Turn) : Sound tasks (run tasks turns) := by
  have hturns (joining : Joining α ε) (h : Sound tasks joining) :
      Sound tasks (turns.foldl (step tasks) joining) := by
    induction turns generalizing joining with
    | nil => exact h
    | cons turn rest ih => exact ih _ (h.takes (takes_step tasks joining turn))
  exact hturns _ (sound_start tasks)

end Sound

end Joining

end ExtensionAudit
