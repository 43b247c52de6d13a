import ExtensionAudit.Join

/-!
How a join comes about while its tasks go on, turn by turn. The tasks are gathered
twice: first until all have reported or one has reported a failure; then, when the tasks
that are still going on have been cancelled, until all have reported, whatever they have
come to. A task reports some time after it was settled, and the join goes on some time
after a gathering has its result. Whose turn is next is decided elsewhere, and anything
can be decided.
-/

namespace ExtensionAudit

/-- What is raised where something is waited for: its error, or that it was cancelled. -/
inductive Raised (ε : Type)
  | error (error : ε)
  | cancellation

variable {α ε : Type}

/-- What a settled task raises, if it has no value. -/
def Settlement.raised? : Settlement α ε → Option (Raised ε)
  | .finished _ => none
  | .failed error => some (.error error)
  | .cancelled (some complaint) => some (.error complaint)
  | .cancelled none => some .cancellation

/-- Waiting for tasks: does a failure count as a result, how many tasks have reported,
and what it has come to. -/
structure Gathering (α ε : Type) where
  takesFailures : Bool
  reports : Nat
  result? : Option (Except (Raised ε) (List (Settlement α ε)))

namespace Gathering

/-- A gathering of which no task has reported. One of no tasks has its result at once. -/
def start (takesFailures : Bool) (count : Nat) : Gathering α ε :=
  ⟨takesFailures, 0, if count == 0 then some (.ok []) else none⟩

/-- Takes the report of a settled task. A result that there is stays. -/
def hear (gathering : Gathering α ε) (tasks : List (Option (Settlement α ε)))
    (settlement : Settlement α ε) : Gathering α ε where
  takesFailures := gathering.takesFailures
  reports := gathering.reports + 1
  result? :=
    match gathering.result? with
    | some result => some result
    | none =>
      match if gathering.takesFailures then none else settlement.raised? with
      | some raised => some (.error raised)
      | none =>
        if gathering.reports + 1 == tasks.length
          then some (.ok (tasks.filterMap id)) else none

end Gathering

/-- How far a join has come: it waits, it collects the tasks that it has cancelled
because something was raised, or it has ended. -/
inductive Joining.Phase (α ε : Type)
  | waiting (gathering : Gathering α ε)
  | collecting (raised : Raised ε) (gathering : Gathering α ε)
  | ended (outcome : Except (Raised ε) (List α))

/-- A join that comes about: the settlements of the tasks, none for one that is still
going on, the order in which they were settled, and the tasks that have not reported to
the gathering of the moment yet, the next one first. -/
structure Joining (α ε : Type) where
  tasks : List (Option (Settlement α ε))
  order : List (Nat × Settlement α ε)
  unheard : List Nat
  phase : Joining.Phase α ε

/-- Whose turn it is: a task comes to what it comes to by itself, a task notices that it
was cancelled, the next task reports, or the join goes on. A task that has not started
cannot complain of being cancelled. -/
inductive Joining.Turn
  | settles (index : Nat)
  | noticesCancellation (index : Nat) (hasStarted : Bool)
  | reports
  | goesOn

namespace Joining

/-- A join of tasks that are all going on. -/
def start (count : Nat) : Joining α ε :=
  ⟨List.replicate count none, [], [], .waiting (.start false count)⟩

/-- Settles a task that is still going on. -/
def settle (joining : Joining α ε) (index : Nat)
    (settlement : Settlement α ε) : Joining α ε :=
  match joining.tasks[index]? with
  | some none =>
    { joining with
      tasks := joining.tasks.set index (some settlement)
      order := joining.order ++ [(index, settlement)]
      unheard := joining.unheard ++ [index] }
  | _ => joining

/-- The gathering of the moment takes a report. -/
def Phase.hear (tasks : List (Option (Settlement α ε))) (settlement : Settlement α ε) :
    Phase α ε → Phase α ε
  | .waiting gathering => .waiting (gathering.hear tasks settlement)
  | .collecting raised gathering => .collecting raised (gathering.hear tasks settlement)
  | .ended outcome => .ended outcome

/-- The tasks that are settled, in their own order. -/
def settled (tasks : List (Option (Settlement α ε))) : List Nat :=
  (tasks.zipIdx.filter fun (task, _) => task.isSome).map fun (_, index) => index

/-- The join goes on where a gathering has its result. The tasks that are settled by
then report to the second gathering before the others; their reports to the first one
are of no use any more. -/
def goOn (joining : Joining α ε) : Joining α ε :=
  match joining.phase with
  | .waiting gathering =>
    match gathering.result? with
    | some (.ok results) =>
      { joining with
        phase :=
          .ended (.ok (results.filterMap fun result => Join.value? (some result))) }
    | some (.error raised) =>
      { joining with
        unheard := settled joining.tasks
        phase := .collecting raised (.start true joining.tasks.length) }
    | none => joining
  | .collecting raised gathering =>
    match gathering.result? with
    | some (.ok _) => { joining with phase := .ended (.error raised) }
    | some (.error other) => { joining with phase := .ended (.error other) }
    | none => joining
  | .ended _ => joining

/-- Takes a turn. A turn that nobody can take changes nothing. -/
def step (tasks : List (Join.Task α ε)) (joining : Joining α ε) : Turn → Joining α ε
  | .settles index =>
    match tasks[index]?.bind Join.Task.settlement? with
    | some settlement => joining.settle index settlement
    | none => joining
  | .noticesCancellation index hasStarted =>
    match joining.phase, tasks[index]? with
    | .collecting _ _, some task =>
      joining.settle index (.cancelled (if hasStarted then task.complaint else none))
    | _, _ => joining
  | .reports =>
    match joining.unheard with
    | [] => joining
    | index :: later =>
      match joining.tasks[index]? with
      | some (some settlement) =>
        { joining with
          unheard := later, phase := joining.phase.hear joining.tasks settlement }
      | _ => joining
  | .goesOn => joining.goOn

/-- Joins tasks that take these turns. -/
def run (tasks : List (Join.Task α ε)) (turns : List Turn) : Joining α ε :=
  turns.foldl (step tasks) (start tasks.length)

end Joining

end ExtensionAudit
