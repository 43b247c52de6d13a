import ExtensionAudit.Text.Basic

/-!
Joining tasks that go on at the same time. The join succeeds with the results of all, in
the order of the tasks. The first failure cancels the tasks that are still going on and
becomes the outcome, once every task is settled; whatever the others come to no longer
matters.
-/

namespace ExtensionAudit

/-- How a task is settled. A cancelled one may complain. -/
inductive Settlement (α ε : Type)
  | finished (value : α)
  | failed (error : ε)
  | cancelled (complaint : Option ε)

/-- A join: the settlements of its tasks, none for one that is still going on, and the
first failure. -/
structure Join (α ε : Type) where
  tasks : List (Option (Settlement α ε))
  failure : Option ε

namespace Join

variable {α ε : Type}

/-- A join of tasks that are all going on. -/
def start (count : Nat) : Join α ε := ⟨List.replicate count none, none⟩

/-- Notes a failure, unless there was one before. -/
def fail (join : Join α ε) (error : ε) : Join α ε :=
  { join with failure := some (join.failure.getD error) }

/-- Settles a task. One that is settled stays as it is, and nothing is cancelled before
a failure. -/
def settle (join : Join α ε) (index : Nat) (settlement : Settlement α ε) : Join α ε :=
  match join.tasks[index]? with
  | some none =>
    match settlement with
    | .finished value =>
      { join with tasks := join.tasks.set index (some (.finished value)) }
    | .failed error =>
      { join with tasks := join.tasks.set index (some (.failed error)) }.fail error
    | .cancelled complaint =>
      if join.failure.isSome then
        { join with tasks := join.tasks.set index (some (.cancelled complaint)) }
      else join
  | _ => join

/-- Is every task settled? -/
def isSettled (join : Join α ε) : Bool := join.tasks.all Option.isSome

/-- The value of a task that finished. -/
def value? : Option (Settlement α ε) → Option α
  | some (.finished value) => some value
  | _ => none

/-- The outcome, once every task is settled. -/
def outcome? (join : Join α ε) : Option (Except ε (List α)) :=
  if join.isSettled then
    match join.failure with
    | some error => some (.error error)
    | none => some (.ok (join.tasks.filterMap value?))
  else none

/-- Settles tasks one after another. -/
def settleAll (join : Join α ε) (events : List (Nat × Settlement α ε)) : Join α ε :=
  events.foldl (fun join (index, settlement) => join.settle index settlement) join

/-! ### Tasks in step -/

/-- What a task comes to by itself. -/
inductive Course (α ε : Type)
  | value (value : α)
  | error (error : ε)
  | endless

/-- A task that lets the others go on a number of times before it comes to anything. -/
structure Task (α ε : Type) where
  ticks : Nat
  course : Course α ε
  complaint : Option ε

/-- How a task is settled by itself, if it ever is. -/
def Task.settlement? (task : Task α ε) : Option (Settlement α ε) :=
  match task.course with
  | .value value => some (.finished value)
  | .error error => some (.failed error)
  | .endless => none

/-- Does the task fail by itself? -/
def Task.fails (task : Task α ε) : Bool :=
  match task.course with
  | .error _ => true
  | _ => false

/-- The tick of the first failure. -/
def failureTick? (tasks : List (Task α ε)) : Option Nat :=
  ((tasks.filter Task.fails).map (·.ticks)).min?

/-- Does the task come to anything before the first failure cancels it? At the tick of
the failure itself it does. -/
def Task.isInTime (failureTick : Option Nat) (task : Task α ε) : Bool :=
  match failureTick with
  | some tick => task.ticks ≤ tick
  | none => true

/-- The order in which tasks in step are settled: tick by tick, the tasks of one tick in
their order, and then what is left is cancelled. -/
def schedule (tasks : List (Task α ε)) : List (Nat × Settlement α ε) :=
  let inTime := tasks.zipIdx.filter fun (task, _) => task.isInTime (failureTick? tasks)
  let ordered := inTime.mergeSort fun a b => a.1.ticks ≤ b.1.ticks
  (ordered.filterMap fun (task, index) => task.settlement?.map fun settlement =>
    (index, settlement)) ++
    tasks.zipIdx.map fun (task, index) => (index, .cancelled task.complaint)

/-- Joins tasks in step. -/
def run (tasks : List (Task α ε)) : Join α ε :=
  (start tasks.length).settleAll (schedule tasks)

end Join

end ExtensionAudit
