import FissionWorkflows.Types

/-!
# One evaluation of an invocation controller

`InvocationController.Eval` of `pkg/controller/invocation.go`, as a function
of the controller's fields, the event, the clock and the iteration orders of
its two `range` loops over the task map.  The function is cut where the code
is cut:

* `evalChecks` is everything up to the scheduler's answer.  It either returns
  a `ctrl.Result`, having submitted at most one job (the invocation's fail or
  success job), or hands the schedule on.
* `markScheduled` is the loop that records the run actions in
  `sheduledTasks`, and `submitRuns` is the loop that submits them.
* `eval` puts the pieces together, with the executor's answer to every
  `Submit` given as `accept`.

The controller's concurrent life, where jobs run between and during these
loops, is `FissionWorkflows.Controller.System`, which reuses the pieces.

`evalChecks_sound` says once what the checks can end in, for the proofs
about whole runs: a returned job is never a run job and acts on the
controller's own invocation, and a schedule comes from the scheduler for the
controller's own invocation.

The lemmas give the checks in the order the code makes them, the two loops
over the task map as order-free predicates (`allTasksFinished_eq`,
`determineTaskOutput_eq`), the behaviour on a terminal snapshot
(`eval_of_terminal`), the completion jobs once every check has passed
(`eval_submitted_of_checks`), and that `errorCount` is never written
(`eval_errorCount`).
-/

namespace FissionWorkflows.Controller

/-- The fields of `InvocationController` that `Eval` and `execTask` read and
write.  The collaborators behind the other fields are parameters of the
functions that call them. -/
structure InvocationController where
  invocationID : String
  startedTasks : Finset String
  sheduledTasks : Finset String
  errorCount : Nat

/-- `NewInvocationController`: both task sets empty and no error counted. -/
def newInvocationController (invocationID : String) : InvocationController :=
  ⟨invocationID, ∅, ∅, 0⟩

/-! ## Jobs for the executor -/

/-- The closure a job hands to the executor as `Apply`, named by what it
calls and by the variables it captures.  A prewarm closure captures the
loop variable `action` of its call of `Eval`, not its value; `frame` names
that variable. -/
inductive Apply
  | fail (invocationID err : String)
  | complete (invocationID : String) (output outputHeaders : Option TypedValue)
  | prewarm (invocation : WorkflowInvocation) (frame : Nat)
  | run (invocation : WorkflowInvocation) (taskID : String)
  deriving DecidableEq

/-- `executor.Task`. -/
structure ExecTask where
  taskID : String
  groupID : String
  apply : Apply
  deriving DecidableEq

/-- The job that calls `invocationAPI.Fail`. -/
def failTask (invocationID err : String) : ExecTask :=
  ⟨invocationID ++ ".fail", invocationID, .fail invocationID err⟩

/-- The job that calls `invocationAPI.Complete`. -/
def successTask (invocationID : String) (output outputHeaders : Option TypedValue) :
    ExecTask :=
  ⟨invocationID ++ ".success", invocationID, .complete invocationID output outputHeaders⟩

/-- The job the prepare loop submits for `action`. -/
def prewarmTask (inv : WorkflowInvocation) (action : PrepareTaskAction) (frame : Nat) :
    ExecTask :=
  ⟨inv.id ++ ".prewarm." ++ action.taskID, inv.id, .prewarm inv frame⟩

/-- The job the run loop submits for `taskID`. -/
def runTask (inv : WorkflowInvocation) (taskID : String) : ExecTask :=
  ⟨inv.id ++ ".run." ++ taskID, inv.id, .run inv taskID⟩

/-! ## The loops over the task map -/

/-- The `range` loop shared by `allTasksFinished` and `determineTaskOutput`:
the flag starts true and turns false, ending the loop, at the first task
whose run is missing or whose status fails `p`. -/
def allRuns (p : TaskStatus → Bool) (runs : List (String × TaskRun)) :
    List String → Bool
  | [] => true
  | id :: ids =>
    match runs.lookup id with
    | some run => if p run.status then allRuns p runs ids else false
    | none => false

/-- Every task of the invocation has a run in `Status.Tasks` whose status
satisfies `p`. -/
def everyRun (p : TaskStatus → Bool) (inv : WorkflowInvocation) : Bool :=
  inv.tasks.all fun t => (inv.taskRuns.lookup t.1).any fun run => p run.status

/-- `allTasksFinished`, visiting the tasks in `order`. -/
def allTasksFinished (order : MapOrder) (inv : WorkflowInvocation) : Bool :=
  allRuns TaskStatus.finished inv.taskRuns (order.arrange (inv.tasks.map Prod.fst))

/-- Modelled from the spec: `controlflow.ResolveTaskOutput` is not in the
source.  The invocation's output is the output of the output task's run. -/
def resolveTaskOutput (taskID : String) (inv : WorkflowInvocation) : Option TypedValue :=
  (inv.taskRuns.lookup taskID).bind TaskRun.output

/-- Modelled from the spec: `controlflow.ResolveTaskOutputHeaders` is not in
the source.  The invocation's output headers are those of the output task's
run. -/
def resolveTaskOutputHeaders (taskID : String) (inv : WorkflowInvocation) :
    Option TypedValue :=
  (inv.taskRuns.lookup taskID).bind TaskRun.outputHeaders

/-- The output and output headers of the invocation: those of the designated
output task when one is set, nil otherwise. -/
def finalOutput (inv : WorkflowInvocation) : Option TypedValue × Option TypedValue :=
  let outputTask := (inv.workflow.map Workflow.outputTask).getD ""
  if outputTask.length ≠ 0 then
    (resolveTaskOutput outputTask inv, resolveTaskOutputHeaders outputTask inv)
  else (none, none)

/-- With the workflow at hand, the output is that of the run of its output
task, when one is set. -/
theorem finalOutput_of_workflow {inv : WorkflowInvocation} {wf : Workflow}
    (hwf : inv.workflow = some wf) :
    finalOutput inv = if wf.outputTask.length ≠ 0 then
        ((inv.taskRuns.lookup wf.outputTask).bind TaskRun.output,
          (inv.taskRuns.lookup wf.outputTask).bind TaskRun.outputHeaders)
      else (none, none) := by
  simp only [finalOutput, hwf, Option.map_some', Option.getD_some, resolveTaskOutput,
    resolveTaskOutputHeaders]

/-- `determineTaskOutput`, visiting the tasks in `order`. -/
def determineTaskOutput (order : MapOrder) (inv : WorkflowInvocation) :
    Except String (Option TypedValue × Option TypedValue) :=
  let success :=
    allRuns TaskStatus.successful inv.taskRuns (order.arrange (inv.tasks.map Prod.fst))
  if success then .ok (finalOutput inv)
  else .error "one or more tasks in the workflow have failed"

/-- The loop stops at a bad run exactly when some task has no good run. -/
theorem allRuns_eq_true {p : TaskStatus → Bool} {runs : List (String × TaskRun)}
    {ids : List String} :
    allRuns p runs ids = true ↔
      ∀ id ∈ ids, (runs.lookup id).any (fun run => p run.status) = true := by
  induction ids with
  | nil => simp [allRuns]
  | cons id ids ih =>
    simp only [allRuns, List.mem_cons, forall_eq_or_imp]
    cases runs.lookup id with
    | none => simp
    | some run => by_cases h : p run.status <;> simp [h, ih]

/-- The loop's answer is the same in every order of the keys. -/
theorem allRuns_arrange (p : TaskStatus → Bool) (order : MapOrder)
    (inv : WorkflowInvocation) :
    allRuns p inv.taskRuns (order.arrange (inv.tasks.map Prod.fst)) = everyRun p inv := by
  rw [Bool.eq_iff_iff, allRuns_eq_true, everyRun, List.all_eq_true]
  simp only [(order.arrange_perm _).mem_iff, List.mem_map, Prod.exists,
    exists_and_right, exists_eq_right, forall_exists_index]
  exact ⟨fun h t ht => h t.1 t.2 ht, fun h id task ht => h _ ht⟩

theorem allTasksFinished_eq (order : MapOrder) (inv : WorkflowInvocation) :
    allTasksFinished order inv = everyRun TaskStatus.finished inv :=
  allRuns_arrange _ order inv

theorem determineTaskOutput_eq (order : MapOrder) (inv : WorkflowInvocation) :
    determineTaskOutput order inv =
      if everyRun TaskStatus.successful inv then .ok (finalOutput inv)
      else .error "one or more tasks in the workflow have failed" := by
  simp only [determineTaskOutput, allRuns_arrange]

/-! ## The checks of `Eval` -/

/-- What `Eval` reads besides the controller and the event: the clock, and
the order of each of its two loops over the task map. -/
structure EvalEnv where
  now : Time
  tasksOrder : MapOrder
  outputOrder : MapOrder

/-- Where `Eval` stands once the scheduler has answered: it has returned,
having submitted at most one job, or it goes on to the loops over the
schedule. -/
inductive Checked
  | returned (result : Result) (job : Option ExecTask)
  | scheduled (inv : WorkflowInvocation) (schedule : Schedule)
  deriving DecidableEq

/-- Return `ctrl.Err` after submitting the invocation's fail job. -/
def failWith (invocationID err : String) : Checked :=
  .returned (.err err) (some (failTask invocationID err))

/-- The invocation's deadline: the one in its spec, else ten minutes after its
creation. -/
def deadlineOf (inv : WorkflowInvocation) : Option Time :=
  match inv.deadline with
  | some deadline => some deadline
  | none => inv.createdAt.map (· + defaultMaxRuntime)

/-- `Eval` once every task has finished: the invocation succeeds with its
output, or fails when `determineTaskOutput` fails. -/
def onFinished (order : MapOrder) (inv : WorkflowInvocation) : Checked :=
  match determineTaskOutput order inv with
  | .error err => failWith inv.id err
  | .ok (output, outputHeaders) =>
    .returned (.success "all tasks of the invocation have completed")
      (some (successTask inv.id output outputHeaders))

/-- `Eval` from the scheduler's answer on. -/
def onSchedule (inv : WorkflowInvocation) : Except String Schedule → Checked
  | .error err => .returned (.err err) none
  | .ok schedule =>
    match schedule.abort with
    | some abort => failWith inv.id abort.reason
    | none => .scheduled inv schedule

/-- `Eval` up to the scheduler's answer, check by check. -/
def evalChecks (scheduler : Scheduler) (c : InvocationController) (ev : Event)
    (env : EvalEnv) : Checked :=
  match ev.updated with
  | .other typeName =>
    .returned (.err ("entity expected *types.WorkflowInvocation, but was " ++ typeName)) none
  | .invocation inv =>
    if inv.id ≠ c.invocationID then
      .returned (.err ("invocation ID expected " ++ c.invocationID ++ ", but was " ++ inv.id))
        none
    else if inv.workflow.isNone then
      failWith inv.id "workflow is not present in the invocation"
    else if inv.status.finished then
      .returned (.done ("invocation is in a terminal state (" ++ inv.status.name ++ ")")) none
    else match deadlineOf inv with
    | none => failWith inv.id "failed to read deadline and createdAt"
    | some deadline =>
      if deadline < env.now then failWith inv.id "deadline exceeded"
      else if 0 < c.errorCount then failWith inv.id "error count exceeded"
      else if allTasksFinished env.tasksOrder inv then onFinished env.outputOrder inv
      else onSchedule inv (scheduler.evaluate inv c.sheduledTasks)

/-- The task a closure runs, for the closure of a run job. -/
def Apply.runTaskID : Apply → Option String
  | .run _ taskID => some taskID
  | _ => none

/-- The invocation a closure acts on. -/
def Apply.invocationID : Apply → String
  | .fail invocationID _ => invocationID
  | .complete invocationID _ _ => invocationID
  | .prewarm inv _ => inv.id
  | .run inv _ => inv.id

/-- What the checks of `Eval` can end in: a return whose job, if any, is not
a run job and acts on the controller's own invocation, or a schedule that the
scheduler handed out for the controller's own invocation. -/
def Checked.Sound (scheduler : Scheduler) (c : InvocationController) : Checked → Prop
  | .returned _ job =>
    ∀ t ∈ job, t.apply.runTaskID = none ∧ t.apply.invocationID = c.invocationID
  | .scheduled inv schedule =>
    inv.id = c.invocationID ∧ scheduler.evaluate inv c.sheduledTasks = .ok schedule

section Sound

variable {scheduler : Scheduler} {c : InvocationController} {inv : WorkflowInvocation}

theorem returned_none_sound (result : Result) : (Checked.returned result none).Sound scheduler c :=
  fun _ h => nomatch h

theorem failWith_sound (hid : inv.id = c.invocationID) (err : String) :
    (failWith inv.id err).Sound scheduler c := by
  simp [failWith, Checked.Sound, failTask, Apply.runTaskID, Apply.invocationID, hid]

theorem onFinished_sound (hid : inv.id = c.invocationID) (order : MapOrder) :
    (onFinished order inv).Sound scheduler c := by
  unfold onFinished
  split
  · exact failWith_sound hid _
  · simp [Checked.Sound, successTask, Apply.runTaskID, Apply.invocationID, hid]

theorem onSchedule_sound (hid : inv.id = c.invocationID) :
    (onSchedule inv (scheduler.evaluate inv c.sheduledTasks)).Sound scheduler c := by
  unfold onSchedule
  split
  · exact returned_none_sound _
  · split
    · exact failWith_sound hid _
    · exact ⟨hid, ‹_›⟩

/-- The checks of `Eval` always end soundly. -/
theorem evalChecks_sound (ev : Event) (env : EvalEnv) :
    (evalChecks scheduler c ev env).Sound scheduler c := by
  unfold evalChecks
  split
  · exact returned_none_sound _
  rename_i inv _
  by_cases hid : inv.id = c.invocationID
  swap
  · rw [if_pos hid]
    exact returned_none_sound _
  rw [if_neg (not_not.mpr hid)]
  by_cases hwf : inv.workflow.isNone
  · rw [if_pos hwf]
    exact failWith_sound hid _
  rw [if_neg hwf]
  by_cases hfin : inv.status.finished
  · rw [if_pos hfin]
    exact returned_none_sound _
  rw [if_neg hfin]
  rcases deadlineOf inv with _ | deadline
  · exact failWith_sound hid _
  dsimp only
  split_ifs
  · exact failWith_sound hid _
  · exact failWith_sound hid _
  · exact onFinished_sound hid _
  · exact onSchedule_sound hid

end Sound

/-! ## The loops over the schedule -/

/-- The loop that records every run action in `sheduledTasks`. -/
def markScheduled (c : InvocationController) (runs : List RunTaskAction) :
    InvocationController :=
  runs.foldl (fun c action => { c with sheduledTasks := insert action.taskID c.sheduledTasks }) c

/-- One turn of the run loop: the job for `taskID` is submitted, and the task
is recorded as started when the executor accepts it. -/
def submitRun (accepted : Bool) (c : InvocationController) (taskID : String) :
    InvocationController :=
  if accepted then { c with startedTasks := insert taskID c.startedTasks } else c

@[simp] theorem submitRun_sheduledTasks (accepted : Bool) (c : InvocationController)
    (taskID : String) : (submitRun accepted c taskID).sheduledTasks = c.sheduledTasks := by
  unfold submitRun; split <;> rfl

@[simp] theorem submitRun_invocationID (accepted : Bool) (c : InvocationController)
    (taskID : String) : (submitRun accepted c taskID).invocationID = c.invocationID := by
  unfold submitRun; split <;> rfl

@[simp] theorem submitRun_errorCount (accepted : Bool) (c : InvocationController)
    (taskID : String) : (submitRun accepted c taskID).errorCount = c.errorCount := by
  unfold submitRun; split <;> rfl

/-- The run loop, with the executor's answer to each `Submit`.  It returns the
controller and the jobs submitted, in order. -/
def submitRuns (accept : ExecTask → Bool) (inv : WorkflowInvocation) :
    InvocationController → List RunTaskAction → InvocationController × List ExecTask
  | c, [] => (c, [])
  | c, action :: rest =>
    let job := runTask inv action.taskID
    let next := submitRuns accept inv (submitRun (accept job) c action.taskID) rest
    (next.1, job :: next.2)

/-- What one call of `Eval` returns and submits, and the controller after it. -/
structure Evaluated where
  result : Result
  submitted : List ExecTask
  controller : InvocationController

/-- The message of a successful evaluation that handed out a schedule. -/
def scheduledMsg (schedule : Schedule) : String :=
  "scheduled execution of " ++ toString schedule.runTasks.length ++
    " tasks and preparation of " ++ toString schedule.prepareTasks.length ++ " tasks"

/-- `InvocationController.Eval`.  `frame` names this call's loop variable
`action`, which the prewarm closures capture. -/
def eval (scheduler : Scheduler) (accept : ExecTask → Bool) (frame : Nat)
    (c : InvocationController) (ev : Event) (env : EvalEnv) : Evaluated :=
  match evalChecks scheduler c ev env with
  | .returned result job => ⟨result, job.toList, c⟩
  | .scheduled inv schedule =>
    let prewarms := schedule.prepareTasks.map (prewarmTask inv · frame)
    let runs := submitRuns accept inv (markScheduled c schedule.runTasks) schedule.runTasks
    ⟨.success (scheduledMsg schedule), prewarms ++ runs.2, runs.1⟩

/-! ## What one evaluation does -/

theorem markScheduled_eq (c : InvocationController) (runs : List RunTaskAction) :
    markScheduled c runs =
      { c with sheduledTasks := c.sheduledTasks ∪ (runs.map RunTaskAction.taskID).toFinset } := by
  induction runs generalizing c with
  | nil => simp [markScheduled]
  | cons action rest ih =>
    simp only [markScheduled, List.foldl_cons] at ih ⊢
    rw [ih]
    simp [Finset.insert_union, Finset.union_insert]

/-- After the loop, the scheduled tasks are the old ones and those of the
run actions. -/
theorem mem_markScheduled {c : InvocationController} {runs : List RunTaskAction} {t : String} :
    t ∈ (markScheduled c runs).sheduledTasks ↔
      t ∈ c.sheduledTasks ∨ t ∈ runs.map RunTaskAction.taskID := by
  simp [markScheduled_eq]

@[simp] theorem markScheduled_invocationID (c : InvocationController) (runs : List RunTaskAction) :
    (markScheduled c runs).invocationID = c.invocationID := by
  simp [markScheduled_eq]

@[simp] theorem markScheduled_errorCount (c : InvocationController) (runs : List RunTaskAction) :
    (markScheduled c runs).errorCount = c.errorCount := by
  simp [markScheduled_eq]

@[simp] theorem submitRuns_submitted (accept : ExecTask → Bool) (inv : WorkflowInvocation)
    (c : InvocationController) (runs : List RunTaskAction) :
    (submitRuns accept inv c runs).2 = runs.map fun action => runTask inv action.taskID := by
  induction runs generalizing c with
  | nil => rfl
  | cons action rest ih => simp [submitRuns, ih]

/-- The run loop writes `startedTasks` only. -/
theorem submitRuns_controller (accept : ExecTask → Bool) (inv : WorkflowInvocation)
    (c : InvocationController) (runs : List RunTaskAction) :
    (submitRuns accept inv c runs).1 =
      { c with startedTasks := (submitRuns accept inv c runs).1.startedTasks } := by
  induction runs generalizing c with
  | nil => rfl
  | cons action rest ih =>
    simp only [submitRuns]
    rw [ih]
    unfold submitRun
    split <;> rfl

/-- No path of `Eval` writes `errorCount`. -/
theorem eval_errorCount (scheduler : Scheduler) (accept : ExecTask → Bool) (frame : Nat)
    (c : InvocationController) (ev : Event) (env : EvalEnv) :
    (eval scheduler accept frame c ev env).controller.errorCount = c.errorCount := by
  unfold eval
  split
  · rfl
  · dsimp only
    rw [submitRuns_controller, markScheduled_eq]

/-- On a snapshot of its own invocation in a terminal status, `Eval` leaves
the controller as it is.  It returns `Done` with nothing submitted when the
workflow is present, and otherwise fails the invocation once more. -/
theorem eval_of_terminal {scheduler : Scheduler} {accept : ExecTask → Bool} {frame : Nat}
    {c : InvocationController} {ev : Event} {env : EvalEnv} {inv : WorkflowInvocation}
    (hev : ev.updated = .invocation inv) (hid : inv.id = c.invocationID)
    (hfin : inv.status.finished = true) :
    eval scheduler accept frame c ev env =
      if inv.workflow.isSome then
        ⟨.done ("invocation is in a terminal state (" ++ inv.status.name ++ ")"), [], c⟩
      else
        ⟨.err "workflow is not present in the invocation",
          [failTask inv.id "workflow is not present in the invocation"], c⟩ := by
  cases hw : inv.workflow <;> simp [eval, evalChecks, hev, hid, hw, hfin, failWith]

/-- The jobs `Eval` submits from the scheduler's answer on: the fail job of
an abort, or a prewarm job per prepare action and a run job per run action. -/
def scheduledJobs (inv : WorkflowInvocation) (frame : Nat) :
    Except String Schedule → List ExecTask
  | .error _ => []
  | .ok schedule =>
    match schedule.abort with
    | some abort => [failTask inv.id abort.reason]
    | none =>
      schedule.prepareTasks.map (prewarmTask inv · frame) ++
        schedule.runTasks.map fun action => runTask inv action.taskID

section Checked

variable {scheduler : Scheduler} {c : InvocationController} {ev : Event} {env : EvalEnv}
  {inv : WorkflowInvocation} {deadline : Time}

/-- Once the first five checks pass, what `Eval` does depends on the task runs
and on the scheduler only, not on the order of either loop over the task
map. -/
theorem evalChecks_of_checks (hev : ev.updated = .invocation inv)
    (hid : inv.id = c.invocationID) (hwf : inv.workflow.isSome)
    (hfin : inv.status.finished = false) (hdl : deadlineOf inv = some deadline)
    (hnow : ¬ deadline < env.now) (herr : c.errorCount = 0) :
    evalChecks scheduler c ev env =
      if everyRun TaskStatus.finished inv then
        if everyRun TaskStatus.successful inv then
          .returned (.success "all tasks of the invocation have completed")
            (some (successTask inv.id (finalOutput inv).1 (finalOutput inv).2))
        else failWith inv.id "one or more tasks in the workflow have failed"
      else onSchedule inv (scheduler.evaluate inv c.sheduledTasks) := by
  obtain ⟨wf, hw⟩ := Option.isSome_iff_exists.mp hwf
  simp only [evalChecks, hev, hid, ne_eq, not_true_eq_false, if_false, hw, Option.isNone_some,
    hfin, Bool.false_eq_true, hdl, hnow, herr, lt_self_iff_false, allTasksFinished_eq]
  split_ifs <;> simp [onFinished, determineTaskOutput_eq, *]

/-- Once the first five checks pass, `Eval` submits the success job exactly
when every task has a successful run, carrying the output and the output
headers of the run of the output task when the workflow sets one, and nil
otherwise; the fail job exactly when every task has a finished run and some
run did not succeed; and otherwise only what the scheduler hands out.  No
loop order over the task map changes this. -/
theorem eval_submitted_of_checks {accept : ExecTask → Bool} {frame : Nat} {wf : Workflow}
    (hev : ev.updated = .invocation inv)
    (hid : inv.id = c.invocationID) (hwf : inv.workflow = some wf)
    (hfin : inv.status.finished = false) (hdl : deadlineOf inv = some deadline)
    (hnow : ¬ deadline < env.now) (herr : c.errorCount = 0) :
    (eval scheduler accept frame c ev env).submitted =
      if everyRun TaskStatus.finished inv then
        if everyRun TaskStatus.successful inv then
          [if wf.outputTask.length ≠ 0 then
            successTask inv.id ((inv.taskRuns.lookup wf.outputTask).bind TaskRun.output)
              ((inv.taskRuns.lookup wf.outputTask).bind TaskRun.outputHeaders)
          else successTask inv.id none none]
        else [failTask inv.id "one or more tasks in the workflow have failed"]
      else scheduledJobs inv frame (scheduler.evaluate inv c.sheduledTasks) := by
  unfold eval
  rw [evalChecks_of_checks hev hid (by simp [hwf]) hfin hdl hnow herr, finalOutput_of_workflow hwf]
  split_ifs
  · rfl
  · rfl
  · rfl
  · rcases scheduler.evaluate inv c.sheduledTasks with err | ⟨_ | abort, prepares, runs⟩ <;>
      simp [onSchedule, scheduledJobs, failWith]

end Checked

/-! ## A one-task invocation -/

/-- The task `a`: a resolved function and one static input `x`. -/
def sampleTask : Task :=
  ⟨"a", ⟨"noop", [("x", .value "string" [])], none, none⟩, some ⟨"native", "", "noop"⟩⟩

/-- Invocation `id` of a workflow with the one task `a`, in progress, nothing
run yet, due at time `1000`. -/
def sampleInvocation (id : String) : WorkflowInvocation :=
  ⟨id, some ⟨""⟩, some 1000, "", none, .inProgress, [("a", sampleTask)], []⟩

/-- The refresh notification that carries a snapshot. -/
def refresh (inv : WorkflowInvocation) : Event :=
  ⟨.invocation inv, .invocation inv, .refresh, ⟨.invocation, inv.id⟩⟩

/-- A scheduler that runs every task it is not told is scheduled. -/
def runAllScheduler : Scheduler :=
  ⟨fun inv scheduled =>
    .ok ⟨none, [], ((inv.tasks.map Prod.fst).dedup.filter (· ∉ scheduled)).map RunTaskAction.mk⟩⟩

/-- Time `0`, with the task map visited as listed. -/
def sampleEnv : EvalEnv := ⟨0, .listed, .listed⟩

/-- The output the run of `a` returns: the string `1`. -/
def sampleOutput : TypedValue := .value "string" [49]

/-- The output headers the run of `a` returns. -/
def sampleHeaders : TypedValue := .value "headers" []

/-- The sample invocation in a workflow whose output task is `a`, once `a`
has succeeded with `sampleOutput` and `sampleHeaders`. -/
def outputInvocation : WorkflowInvocation :=
  { sampleInvocation "inv" with
    workflow := some ⟨"a"⟩
    taskRuns := [("a", ⟨.succeeded, some sampleOutput, some sampleHeaders⟩)] }

theorem eval_submitted_of_checks_output :
    (refresh outputInvocation).updated = .invocation outputInvocation ∧
      outputInvocation.id = (newInvocationController "inv").invocationID ∧
      outputInvocation.workflow = some ⟨"a"⟩ ∧ outputInvocation.status.finished = false ∧
      deadlineOf outputInvocation = some 1000 ∧ ¬ (1000 : Time) < sampleEnv.now ∧
      (newInvocationController "inv").errorCount = 0 ∧
      (eval runAllScheduler (fun _ => true) 0 (newInvocationController "inv")
          (refresh outputInvocation) sampleEnv).submitted =
        [successTask "inv" (some sampleOutput) (some sampleHeaders)] :=
  ⟨rfl, rfl, rfl, rfl, rfl, by decide, rfl,
    (@eval_submitted_of_checks runAllScheduler (newInvocationController "inv")
      (refresh outputInvocation) sampleEnv outputInvocation 1000
      (fun _ => true) 0 ⟨"a"⟩ rfl rfl rfl rfl rfl (by decide) rfl).trans (by decide)⟩

/-- A terminal snapshot without its workflow is failed again, not answered
with `Done`. -/
theorem eval_terminal_without_workflow :
    (eval runAllScheduler (fun _ => true) 0 (newInvocationController "inv")
        (refresh { sampleInvocation "inv" with workflow := none, status := .succeeded })
        sampleEnv).submitted =
      [failTask "inv" "workflow is not present in the invocation"] := by
  decide

theorem eval_of_terminal_succeeded :
    (refresh { sampleInvocation "inv" with status := .succeeded }).updated =
        .invocation { sampleInvocation "inv" with status := .succeeded } ∧
      ({ sampleInvocation "inv" with status := .succeeded } : WorkflowInvocation).id =
        (newInvocationController "inv").invocationID ∧
      ({ sampleInvocation "inv" with status := .succeeded } : WorkflowInvocation).status.finished ∧
      eval runAllScheduler (fun _ => true) 0 (newInvocationController "inv")
          (refresh { sampleInvocation "inv" with status := .succeeded }) sampleEnv =
        ⟨.done "invocation is in a terminal state (SUCCEEDED)", [], newInvocationController "inv"⟩ :=
  ⟨rfl, rfl, rfl, (@eval_of_terminal runAllScheduler (fun _ => true) 0
    (newInvocationController "inv") (refresh { sampleInvocation "inv" with status := .succeeded })
    sampleEnv { sampleInvocation "inv" with status := .succeeded } rfl rfl rfl).trans rfl⟩

/-- A controller that has returned `ctrl.Err` dispatches again on the next
call: the first call gets a snapshot of another invocation, the second a
healthy one, and the second submits the run job of `a` and no fail job. -/
theorem eval_after_err_submits_run :
    (eval runAllScheduler (fun _ => true) 0 (newInvocationController "inv")
        (refresh (sampleInvocation "other")) sampleEnv).result =
      .err "invocation ID expected inv, but was other" ∧
    (eval runAllScheduler (fun _ => true) 1
        (eval runAllScheduler (fun _ => true) 0 (newInvocationController "inv")
          (refresh (sampleInvocation "other")) sampleEnv).controller
        (refresh (sampleInvocation "inv")) sampleEnv).submitted =
      [runTask (sampleInvocation "inv") "a"] := by
  decide

end FissionWorkflows.Controller
