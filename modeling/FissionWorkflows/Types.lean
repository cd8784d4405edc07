import Mathlib.Data.Finset.Basic

/-!
# The data model of the invocation controller

The entities that `pkg/controller/invocation.go` reads: the workflow
invocation snapshot carried by a `ctrl.Event`, its tasks and task runs, the
statuses of both, the scheduler's decision, and the `ctrl.Result` that `Eval`
returns.  The types live in packages that are not in the source (`types`,
`typedvalues`, `scheduler`, `ctrl`, `fes`); their fields here are the ones the
controller reads, and the status predicates follow the spec.

Go maps become association lists.  A `range` loop over a map visits its keys
in an order the runtime picks; `MapOrder` is that choice, and it carries the
fact that it is a permutation of the keys, so every loop over a map is
modelled at every order Go may use.

Times are `Int` nanoseconds since the epoch.  A protobuf timestamp that does
not parse is `none`.
-/

namespace FissionWorkflows

/-- A point in time or a duration, in nanoseconds. -/
abbrev Time := Int

/-- `DefaultMaxRuntime`: ten minutes. -/
def defaultMaxRuntime : Time := 10 * 60 * 1000000000

/-! ## Statuses -/

/-- `types.TaskInvocationStatus_Status`, with the values the spec lists. -/
inductive TaskStatus
  | scheduled
  | inProgress
  | succeeded
  | failed
  | aborted
  deriving DecidableEq, Repr

namespace TaskStatus

/-- Modelled from the spec: `TaskInvocationStatus.Finished` is not in the
source.  A run is finished once it has succeeded, failed or been aborted. -/
def finished : TaskStatus → Bool
  | succeeded | failed | aborted => true
  | scheduled | inProgress => false

/-- Modelled from the spec: `TaskInvocationStatus.Successful` is not in the
source.  Only a succeeded run is successful. -/
def successful : TaskStatus → Bool
  | succeeded => true
  | _ => false

end TaskStatus

/-- `types.WorkflowInvocationStatus_Status`, with the values the spec lists. -/
inductive InvocationStatus
  | scheduled
  | inProgress
  | succeeded
  | failed
  | aborted
  deriving DecidableEq, Repr

namespace InvocationStatus

/-- Modelled from the spec: `WorkflowInvocationStatus.Finished` is not in the
source.  The terminal statuses are the three that
`InvocationStorePollSensor.Poll` skips. -/
def finished : InvocationStatus → Bool
  | succeeded | failed | aborted => true
  | scheduled | inProgress => false

/-- The protobuf name of a status, as `String()` prints it. -/
def name : InvocationStatus → String
  | scheduled => "SCHEDULED"
  | inProgress => "IN_PROGRESS"
  | succeeded => "SUCCEEDED"
  | failed => "FAILED"
  | aborted => "ABORTED"

end InvocationStatus

/-! ## Values, tasks and invocations -/

/-- `typedvalues.TypedValue`.  An expression keeps its source text; any other
value keeps its type tag and its encoded bytes. -/
inductive TypedValue
  | expression (source : String)
  | value (valueType : String) (bytes : List UInt8)
  deriving DecidableEq, Repr

/-- `types.FnRef`: the function a task runs, after resolution. -/
structure FnRef where
  runtime : String
  «namespace» : String
  id : String
  deriving DecidableEq, Repr

/-- `types.TaskSpec`: the parts of a task's definition the controller reads. -/
structure TaskSpec where
  functionRef : String
  inputs : List (String × TypedValue)
  output : Option TypedValue
  outputHeaders : Option TypedValue
  deriving DecidableEq, Repr

/-- `types.Task`: a task of the workflow, with the function reference that
parsing resolved (`Status.FnRef`, `none` while unresolved). -/
structure Task where
  id : String
  spec : TaskSpec
  fnRef : Option FnRef
  deriving DecidableEq, Repr

/-- `types.TaskInvocation`: one run of a task, as `Status.Tasks` holds it. -/
structure TaskRun where
  status : TaskStatus
  output : Option TypedValue
  outputHeaders : Option TypedValue
  deriving DecidableEq, Repr

/-- `types.Workflow`, reduced to the designated output task (`""` when none
is set). -/
structure Workflow where
  outputTask : String
  deriving DecidableEq, Repr

/-- `types.WorkflowInvocation`: one snapshot of an invocation.  `tasks` is the
map that `Tasks()` returns and `taskRuns` is `Status.Tasks`. -/
structure WorkflowInvocation where
  id : String
  workflow : Option Workflow
  deadline : Option Time
  parentId : String
  createdAt : Option Time
  status : InvocationStatus
  tasks : List (String × Task)
  taskRuns : List (String × TaskRun)
  deriving DecidableEq, Repr

/-- A `fes.Entity`: a workflow invocation, or an entity of another Go type,
named by that type. -/
inductive Entity
  | invocation (inv : WorkflowInvocation)
  | other (typeName : String)
  deriving DecidableEq, Repr

/-- The two aggregate types of the spec (`types.TypeWorkflow`,
`types.TypeInvocation`). -/
inductive AggregateType
  | workflow
  | invocation
  deriving DecidableEq, Repr

/-- `fes.Aggregate`: the identity of an event-sourced entity. -/
structure Aggregate where
  type : AggregateType
  id : String
  deriving DecidableEq, Repr

/-- The type of a `fes.Event`: the synthetic `EventRefresh` of the sensors, or
an event of the log, by its name. -/
inductive EventType
  | refresh
  | named (name : String)
  deriving DecidableEq, Repr

/-- `ctrl.Event`: a notification for a controller, with the entity before and
after the event. -/
structure Event where
  old : Entity
  updated : Entity
  eventType : EventType
  aggregate : Aggregate
  deriving DecidableEq, Repr

/-- `ctrl.Result`: what one evaluation of a controller returns. -/
inductive Result
  | success (msg : String)
  | done (msg : String)
  | err (msg : String)
  deriving DecidableEq, Repr

/-! ## The scheduler's decision -/

/-- `scheduler.RunTaskAction`. -/
structure RunTaskAction where
  taskID : String
  deriving DecidableEq, Repr

/-- `scheduler.PrepareTaskAction`: a task to prewarm, and when it is expected
to run. -/
structure PrepareTaskAction where
  taskID : String
  expectedAt : Time
  deriving DecidableEq, Repr

/-- `scheduler.AbortAction`. -/
structure AbortAction where
  reason : String
  deriving DecidableEq, Repr

/-- `scheduler.Schedule`. -/
structure Schedule where
  abort : Option AbortAction
  prepareTasks : List PrepareTaskAction
  runTasks : List RunTaskAction
  deriving DecidableEq, Repr

/-- `scheduler.InvocationScheduler`.  Its policy is not in the source; the
spec asks it to be a pure function of the snapshot and of the set of task
ids the controller has already scheduled. -/
structure Scheduler where
  evaluate : WorkflowInvocation → Finset String → Except String Schedule

/-! ## Iteration over a map -/

/-- The order in which a `range` loop visits the keys of a Go map.  The
runtime picks it, and it is a permutation of the keys. -/
structure MapOrder where
  arrange : List String → List String
  arrange_perm : ∀ keys, (arrange keys).Perm keys

/-- The order that keeps the keys as they are listed. -/
def MapOrder.listed : MapOrder := ⟨id, fun _ => List.Perm.refl _⟩

end FissionWorkflows
