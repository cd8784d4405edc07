import FissionWorkflows.Controller.ExecTask
import Mathlib.Logic.Relation

/-!
# The controller among its jobs

One `InvocationController` with the jobs it has handed to the executor, the
shared expression store, and the calls its jobs make into the API layer.
`Eval` calls are serialized (the work queue runs one per key at a time), but
the executor runs accepted jobs at any moment, also between the turns of
`Eval`'s loops.  `Step` is that interleaving:

* `returned` and `scheduled` are the checks of `Eval` (`evalChecks`);
* `prewarm`, `record` and `submitRun` are the turns of its three loops over
  the schedule, and `finish` is its return;
* `apply` runs a fail, success or prewarm job; `execStart` and `execFinish`
  run a run job up to and after the Task API's `Invoke`;
* `other` is another controller writing its own scope into the store.

Each `Submit` is answered by the executor at will (`accepted`), and each
`Invoke` returns with or without error at will.  Each call of `Eval` reads
the clock at will (`env.now`).  Nothing is assumed about the snapshots the
events carry.

`sheduledTasks` is a plain Go map that `Eval` writes (lines 175 and 210 of
`invocation.go`) and that the run jobs write from the executor's goroutines
(line 319), with no lock.  The model assumes these accesses serialized: each
step reads and writes the map at once, which Go does not promise for a map
written from two goroutines.  Under that assumption the loop that records
the run actions in `sheduledTasks` is one step: the only concurrent writer of
that set is a finishing run job, which deletes its own task, and a delete of
a key commutes with the inserts of the other keys.

The prewarm closures capture the loop variable `action` (Go before 1.22 has
one such variable per loop).  `frames` holds that variable for every call of
`Eval`, and a prewarm job reads it when it runs.

`evalTimes` is a history variable: the times the calls of `Eval` have read,
in order.  The code keeps no such record and no step reads it; it is there
so that a result can say at which reading of the clock a decision was made.
-/

namespace FissionWorkflows.Controller

variable {Scope : Type}

/-- How far the current call of `Eval` has got: none is running, or it is in
its prepare loop (with the remaining actions and the frame of its variable
`action`), or in its run loop. -/
inductive EvalPc
  | idle
  | prewarm (inv : WorkflowInvocation) (schedule : Schedule) (frame : Nat)
      (rest : List PrepareTaskAction)
  | submit (inv : WorkflowInvocation) (schedule : Schedule) (rest : List RunTaskAction)

/-- A job the executor has accepted and not finished, with the spec of the
`Invoke` call it is in, for a run job past its checks. -/
structure Job where
  task : ExecTask
  invoking : Option TaskInvocationSpec
  deriving DecidableEq

/-- A call from the controller's jobs into the API layer. -/
inductive Effect
  | fail (invocationID err : String)
  | complete (invocationID : String) (output outputHeaders : Option TypedValue)
  | prepare (taskID : String) (expectedAt : Time)
  | invoke (spec : TaskInvocationSpec)
  | invoked (taskID : String) (succeeded : Bool)
  deriving DecidableEq

/-- The state of one controller, its jobs and the store. -/
structure Sys (Scope : Type) where
  ctrl : InvocationController
  pc : EvalPc
  frames : Nat → Option PrepareTaskAction
  nextFrame : Nat
  jobs : List Job
  store : Store Scope
  log : List Effect
  evalTimes : List Time

/-- A controller just made for `invocationID`, over a store that may already
hold scopes. -/
def Sys.init (invocationID : String) (store : Store Scope) : Sys Scope :=
  ⟨newInvocationController invocationID, .idle, fun _ => none, 0, [], store, [], []⟩

/-- A call of `Eval` reads the clock: the reading joins `evalTimes`. -/
@[simp] def Sys.readClock (s : Sys Scope) (now : Time) : Sys Scope :=
  { s with evalTimes := s.evalTimes ++ [now] }

/-- `Submit`: the job is queued when the executor accepts it. -/
def Sys.submit (s : Sys Scope) (task : ExecTask) (accepted : Bool) : Sys Scope :=
  if accepted then { s with jobs := s.jobs ++ [⟨task, none⟩] } else s

@[simp] theorem Sys.submit_ctrl (s : Sys Scope) (task : ExecTask) (accepted : Bool) :
    (s.submit task accepted).ctrl = s.ctrl := by
  unfold Sys.submit; split <;> rfl

@[simp] theorem Sys.submit_pc (s : Sys Scope) (task : ExecTask) (accepted : Bool) :
    (s.submit task accepted).pc = s.pc := by
  unfold Sys.submit; split <;> rfl

@[simp] theorem Sys.submit_store (s : Sys Scope) (task : ExecTask) (accepted : Bool) :
    (s.submit task accepted).store = s.store := by
  unfold Sys.submit; split <;> rfl

@[simp] theorem Sys.submit_log (s : Sys Scope) (task : ExecTask) (accepted : Bool) :
    (s.submit task accepted).log = s.log := by
  unfold Sys.submit; split <;> rfl

@[simp] theorem Sys.submit_nextFrame (s : Sys Scope) (task : ExecTask) (accepted : Bool) :
    (s.submit task accepted).nextFrame = s.nextFrame := by
  unfold Sys.submit; split <;> rfl

@[simp] theorem Sys.submit_evalTimes (s : Sys Scope) (task : ExecTask) (accepted : Bool) :
    (s.submit task accepted).evalTimes = s.evalTimes := by
  unfold Sys.submit; split <;> rfl

@[simp] theorem Sys.submit_jobs (s : Sys Scope) (task : ExecTask) (accepted : Bool) :
    (s.submit task accepted).jobs = if accepted then s.jobs ++ [⟨task, none⟩] else s.jobs := by
  unfold Sys.submit; split <;> simp [*]

/-- What a fail, success or prewarm closure calls when it runs.  A prewarm
closure reads its frame's `action` at that moment. -/
def applyEffects (frames : Nat → Option PrepareTaskAction) : Apply → List Effect
  | .fail invocationID err => [.fail invocationID err]
  | .complete invocationID output outputHeaders => [.complete invocationID output outputHeaders]
  | .prewarm inv frame =>
    match frames frame with
    | some action =>
      if (inv.tasks.lookup action.taskID).isSome then [.prepare action.taskID action.expectedAt]
      else []
    | none => []
  | .run _ _ => []

/-- A run job up to `Invoke`: it ends with its error, or calls `Invoke`. -/
def Sys.execStart (E : ExprEngine Scope) (s : Sys Scope) (pre post : List Job)
    (task : ExecTask) (inv : WorkflowInvocation) (taskID : String) : Sys Scope :=
  match execTaskStart E s.store inv taskID with
  | (.error _, store) => { s with jobs := pre ++ post, store := store }
  | (.ok spec, store) =>
    { s with jobs := pre ++ ⟨task, some spec⟩ :: post, store := store,
             log := s.log ++ [.invoke spec] }

/-- A run job up to `Invoke` changes only the jobs, the store and the log:
the job ends, or it waits in `Invoke`. -/
theorem Sys.execStart_cases (E : ExprEngine Scope) (s : Sys Scope) (pre post : List Job)
    (task : ExecTask) (inv : WorkflowInvocation) (taskID : String) :
    (∃ store, s.execStart E pre post task inv taskID =
      { s with jobs := pre ++ post, store := store }) ∨
    (∃ spec store, s.execStart E pre post task inv taskID =
      { s with jobs := pre ++ ⟨task, some spec⟩ :: post, store := store,
               log := s.log ++ [.invoke spec] }) := by
  unfold Sys.execStart
  split
  · exact .inl ⟨_, rfl⟩
  · exact .inr ⟨_, _, rfl⟩

theorem Sys.execStart_store (E : ExprEngine Scope) (s : Sys Scope) (pre post : List Job)
    (task : ExecTask) (inv : WorkflowInvocation) (taskID : String) :
    (s.execStart E pre post task inv taskID).store = (execTaskStart E s.store inv taskID).2 := by
  unfold Sys.execStart
  split <;> rename_i heq <;> simp [heq]

/-- A run job that cannot run ends with its error and records nothing: it
makes no call into the API layer, submits no job, and leaves the controller
as it was, its task still in `sheduledTasks`.  Of the store, only the
invocation's own scope may be written. -/
theorem execStart_of_cannotRun (E : ExprEngine Scope) {s : Sys Scope} {pre post : List Job}
    {task : ExecTask} {inv : WorkflowInvocation} {taskID : String}
    (h : CannotRun E s.store inv taskID) :
    s.execStart E pre post task inv taskID =
        { s with jobs := pre ++ post, store := (execTaskStart E s.store inv taskID).2 } ∧
      ∀ id, id ≠ inv.id → (execTaskStart E s.store inv taskID).2.get id = s.store.get id := by
  refine ⟨?_, fun id hid => ?_⟩
  · obtain ⟨err, herr⟩ := execTaskStart_of_cannotRun E h
    unfold Sys.execStart
    rcases hx : execTaskStart E s.store inv taskID with ⟨result, store⟩
    rw [hx] at herr
    subst herr
    rfl
  · rcases execTaskStart_store E s.store inv taskID with h | ⟨scope, h⟩ <;> rw [h]
    exact Store.get_set_ne _ _ hid

theorem execStart_of_cannotRun_missing :
    CannotRun identityEngine (Sys.init "inv" ⟨fun _ => none⟩ : Sys Unit).store
        (sampleInvocation "inv") "z" ∧
      (Sys.init "inv" ⟨fun _ => none⟩ : Sys Unit).execStart identityEngine [] []
          (runTask (sampleInvocation "inv") "z") (sampleInvocation "inv") "z" =
        { (Sys.init "inv" ⟨fun _ => none⟩ : Sys Unit) with
          jobs := [] ++ [],
          store := (execTaskStart identityEngine ⟨fun _ => none⟩ (sampleInvocation "inv") "z").2 } ∧
      ∀ id, id ≠ (sampleInvocation "inv").id →
        (execTaskStart identityEngine ⟨fun _ => none⟩ (sampleInvocation "inv") "z").2.get id =
          (⟨fun _ => none⟩ : Store Unit).get id :=
  ⟨.missing rfl, execStart_of_cannotRun identityEngine (.missing rfl)⟩

variable (scheduler : Scheduler) (E : ExprEngine Scope)

/-- One step of the controller, of one of its jobs, or of another controller. -/
inductive Step : Sys Scope → Sys Scope → Prop
  | returned (ev : Event) (env : EvalEnv) (accepted : Bool) {s : Sys Scope} {result : Result}
      {job : Option ExecTask} :
      s.pc = .idle → evalChecks scheduler s.ctrl ev env = .returned result job →
      Step s (job.elim (s.readClock env.now) fun task => (s.readClock env.now).submit task accepted)
  | scheduled (ev : Event) (env : EvalEnv) {s : Sys Scope} {inv : WorkflowInvocation}
      {schedule : Schedule} :
      s.pc = .idle → evalChecks scheduler s.ctrl ev env = .scheduled inv schedule →
      Step s { s.readClock env.now with
               pc := .prewarm inv schedule s.nextFrame schedule.prepareTasks,
               nextFrame := s.nextFrame + 1 }
  | prewarm (accepted : Bool) {s : Sys Scope} {inv : WorkflowInvocation} {schedule : Schedule}
      {frame : Nat} {action : PrepareTaskAction} {rest : List PrepareTaskAction} :
      s.pc = .prewarm inv schedule frame (action :: rest) →
      Step s (Sys.submit { s with pc := .prewarm inv schedule frame rest,
                                  frames := Function.update s.frames frame (some action) }
                (prewarmTask inv action frame) accepted)
  | record {s : Sys Scope} {inv : WorkflowInvocation} {schedule : Schedule} {frame : Nat} :
      s.pc = .prewarm inv schedule frame [] →
      Step s { s with pc := .submit inv schedule schedule.runTasks,
                      ctrl := markScheduled s.ctrl schedule.runTasks }
  | submitRun (accepted : Bool) {s : Sys Scope} {inv : WorkflowInvocation} {schedule : Schedule}
      {action : RunTaskAction} {rest : List RunTaskAction} :
      s.pc = .submit inv schedule (action :: rest) →
      Step s (Sys.submit { s with pc := .submit inv schedule rest,
                                  ctrl := submitRun accepted s.ctrl action.taskID }
                (runTask inv action.taskID) accepted)
  | finish {s : Sys Scope} {inv : WorkflowInvocation} {schedule : Schedule} :
      s.pc = .submit inv schedule [] → Step s { s with pc := .idle }
  | apply (pre post : List Job) {s : Sys Scope} {task : ExecTask} :
      s.jobs = pre ++ ⟨task, none⟩ :: post → task.apply.runTaskID = none →
      Step s { s with jobs := pre ++ post, log := s.log ++ applyEffects s.frames task.apply }
  | execStart (pre post : List Job) {s : Sys Scope} {task : ExecTask}
      {inv : WorkflowInvocation} {taskID : String} :
      s.jobs = pre ++ ⟨task, none⟩ :: post → task.apply = .run inv taskID →
      Step s (s.execStart E pre post task inv taskID)
  | execFinish (pre post : List Job) (succeeded : Bool) (transformed : Option Scope)
      {s : Sys Scope} {task : ExecTask} {spec : TaskInvocationSpec}
      {inv : WorkflowInvocation} {taskID : String} :
      s.jobs = pre ++ ⟨task, some spec⟩ :: post → task.apply = .run inv taskID →
      Step s { s with jobs := pre ++ post, ctrl := execTaskFinish s.ctrl taskID succeeded,
                      store := transformed.elim s.store (s.store.set inv.id),
                      log := s.log ++ [.invoked taskID succeeded] }
  | other (id : String) (scope : Scope) {s : Sys Scope} :
      id ≠ s.ctrl.invocationID → Step s { s with store := s.store.set id scope }

/-- The states a controller reaches from its creation. -/
inductive Reachable : Sys Scope → Prop
  | init (invocationID : String) (store : Store Scope) : Reachable (Sys.init invocationID store)
  | step {s s' : Sys Scope} : Reachable s → Step scheduler E s s' → Reachable s'

/-! ## A sample run -/

/-- The first call of `Eval` on the sample invocation schedules `a`. -/
theorem evalChecks_sampleInvocation :
    evalChecks runAllScheduler (newInvocationController "inv") (refresh (sampleInvocation "inv"))
      sampleEnv = .scheduled (sampleInvocation "inv") ⟨none, [], [⟨"a"⟩]⟩ := by
  decide

/-- The spec the run job of `a` invokes, its one input resolved. -/
def invokedSpec : TaskInvocationSpec :=
  ⟨"inv", "a", ⟨"native", "", "noop"⟩, [("x", .value "string" [])]⟩

/-- A run of the sample controller.  `Eval` schedules `a` and the executor
accepts its run job.  The job resolves its input, which stores the
invocation's scope, and waits in `Invoke`.  Meanwhile a second call of
`Eval` is told that `a` is scheduled and hands out nothing. -/
theorem reachable_invokingA :
    ∃ s : Sys Unit, Reachable runAllScheduler identityEngine s ∧ s.pc = .idle ∧
      s.ctrl.invocationID = "inv" ∧ "a" ∈ s.ctrl.sheduledTasks ∧
      s.jobs = [⟨runTask (sampleInvocation "inv") "a", some invokedSpec⟩] ∧
      s.log = [.invoke invokedSpec] ∧ (s.store.get "inv").isSome := by
  have hchk : ∀ c : InvocationController, c.invocationID = "inv" → c.errorCount = 0 →
      "a" ∈ c.sheduledTasks → evalChecks runAllScheduler c (refresh (sampleInvocation "inv"))
        sampleEnv = .scheduled (sampleInvocation "inv") ⟨none, [], []⟩ := by
    intro c hid herr ha
    simp [evalChecks, refresh, sampleInvocation, hid, herr, deadlineOf, allTasksFinished,
      allRuns, onSchedule, runAllScheduler, ha, sampleEnv, InvocationStatus.finished]
  exact ⟨_, .step (.step (.step (.step (.step (.step (.step (.step
    (.init "inv" ⟨fun _ => none⟩) (.scheduled _ _ rfl evalChecks_sampleInvocation)) (.record rfl))
    (.submitRun true rfl)) (.finish rfl)) (.execStart [] [] rfl rfl))
    (.scheduled _ _ rfl (hchk _ rfl rfl (by decide)))) (.record rfl)) (.finish rfl),
    rfl, rfl, by decide, rfl, rfl, rfl⟩

/-- A run of the sample controller past the sample's deadline: `Eval` reads
the time `2000`, returns `ctrl.Err` with the fail job, and the job calls
`Fail`. -/
theorem reachable_deadlineFailed :
    ∃ s : Sys Unit, Reachable runAllScheduler identityEngine s ∧ s.jobs = [] ∧
      s.log = [.fail "inv" "deadline exceeded"] ∧ s.evalTimes = [2000] := by
  have hchk : evalChecks runAllScheduler (newInvocationController "inv")
      (refresh (sampleInvocation "inv")) ⟨2000, .listed, .listed⟩ =
      .returned (.err "deadline exceeded") (some (failTask "inv" "deadline exceeded")) := by
    decide
  exact ⟨_, .step (.step (.init "inv" ⟨fun _ => none⟩) (.returned _ _ true rfl hchk))
    (.apply [] [] rfl rfl), rfl, rfl, rfl⟩

/-- The sample invocation once `a` has succeeded, and the invocation with it. -/
def sampleSucceeded : WorkflowInvocation :=
  { sampleInvocation "inv" with
    status := .succeeded, taskRuns := [("a", ⟨.succeeded, none, none⟩)] }

/-- A controller of `inv` answers the terminal snapshot with `Done`. -/
theorem evalChecks_sampleSucceeded (c : InvocationController) (hc : c.invocationID = "inv") :
    evalChecks runAllScheduler c (refresh sampleSucceeded) sampleEnv =
      .returned (.done "invocation is in a terminal state (SUCCEEDED)") none := by
  simp [evalChecks, refresh, sampleSucceeded, sampleInvocation, hc,
    InvocationStatus.finished, InvocationStatus.name]

/-! ## The store only grows -/

/-- A step writes at most one scope into the store and takes none out. -/
theorem step_store {s s' : Sys Scope} (hstep : Step scheduler E s s') :
    s'.store = s.store ∨ ∃ id scope, s'.store = s.store.set id scope := by
  cases hstep with
  | @returned ev env accepted _ result job hpc hchk => cases job <;> simp
  | scheduled | prewarm | record | submitRun | finish | apply => simp
  | @execStart pre post _ task inv taskID hjobs happly =>
    rw [Sys.execStart_store]
    rcases execTaskStart_store E s.store inv taskID with h | ⟨scope, h⟩
    · exact .inl h
    · exact .inr ⟨_, _, h⟩
  | @execFinish pre post succeeded transformed _ task spec inv taskID hjobs happly =>
    cases transformed with
    | none => exact .inl rfl
    | some scope => exact .inr ⟨_, _, rfl⟩
  | other id scope hid => exact .inr ⟨_, _, rfl⟩

/-- Over any run, once the store holds a scope for an invocation it holds one
at every later state: no step removes a scope, also not when the invocation
has turned terminal and its jobs are done. -/
theorem store_isSome_of_steps {s s' : Sys Scope}
    (hrun : Relation.ReflTransGen (Step scheduler E) s s') {id : String}
    (h : (s.store.get id).isSome) : (s'.store.get id).isSome := by
  induction hrun with
  | refl => exact h
  | tail _ hstep ih =>
    rcases step_store scheduler E hstep with heq | ⟨id', scope, heq⟩ <;> rw [heq]
    · exact ih
    · exact Store.isSome_set scope ih

theorem store_isSome_of_steps_done :
    ∃ s s' : Sys Unit, Reachable runAllScheduler identityEngine s ∧
      Relation.ReflTransGen (Step runAllScheduler identityEngine) s s' ∧
      (s.store.get "inv").isSome ∧ s'.jobs = [] ∧
      evalChecks runAllScheduler s'.ctrl (refresh sampleSucceeded) sampleEnv =
        .returned (.done "invocation is in a terminal state (SUCCEEDED)") none ∧
      (s'.store.get "inv").isSome := by
  obtain ⟨s, hs, hpc, hid, -, hjobs, -, hstore⟩ := reachable_invokingA
  have hid' : (execTaskFinish s.ctrl "a" true).invocationID = "inv" := by simpa using hid
  have h₁ : Step runAllScheduler identityEngine s _ := .execFinish [] [] true none hjobs rfl
  have hrun := (Relation.ReflTransGen.single h₁).tail
    (.returned (refresh sampleSucceeded) sampleEnv true hpc (evalChecks_sampleSucceeded _ hid'))
  exact ⟨s, _, hs, hrun, hstore, rfl, evalChecks_sampleSucceeded _ hid',
    store_isSome_of_steps runAllScheduler identityEngine hrun hstore⟩

/-- The run job of `a` resolves its input and so stores the invocation's
scope.  After the job is done and the controller has answered the terminal
snapshot with `Done`, the scope is still in the store. -/
theorem scope_outlives_invocation :
    ∃ s : Sys Unit, Reachable runAllScheduler identityEngine s ∧
      evalChecks runAllScheduler s.ctrl (refresh sampleSucceeded) sampleEnv =
        .returned (.done "invocation is in a terminal state (SUCCEEDED)") none ∧
      s.jobs = [] ∧ (s.store.get "inv").isSome := by
  obtain ⟨s, hs, hpc, hid, -, hjobs, -, hstore⟩ := reachable_invokingA
  have hid' : (execTaskFinish s.ctrl "a" true).invocationID = "inv" := by simpa using hid
  exact ⟨_, .step (.step hs (.execFinish [] [] true none hjobs rfl))
    (.returned (refresh sampleSucceeded) sampleEnv true hpc (evalChecks_sampleSucceeded _ hid')),
    evalChecks_sampleSucceeded _ hid', rfl, hstore⟩

/-! ## A run job that cannot run -/

/-- The sample invocation with the function reference of `a` unresolved. -/
def unresolvedInvocation : WorkflowInvocation :=
  { sampleInvocation "inv" with tasks := [("a", { sampleTask with fnRef := none })] }

/-- The run job of a task whose function reference is unresolved ends without
a trace: nothing is logged, so no fail job and no event, and `a` stays in
`sheduledTasks`, where the scheduler is told to skip it. -/
theorem unresolved_run_records_nothing :
    ∃ s : Sys Unit, Reachable runAllScheduler identityEngine s ∧
      s.jobs.map (fun job => job.task.taskID) = ["inv.run.a"] ∧
      ∃ s', Step runAllScheduler identityEngine s s' ∧ s'.jobs = [] ∧ s'.log = [] ∧
        "a" ∈ s'.ctrl.sheduledTasks := by
  have hchk : evalChecks runAllScheduler (newInvocationController "inv")
      (refresh unresolvedInvocation) sampleEnv =
      .scheduled unresolvedInvocation ⟨none, [], [⟨"a"⟩]⟩ := by decide
  exact ⟨_, .step (.step (.step (.step (.init "inv" ⟨fun _ => none⟩)
    (.scheduled _ _ rfl hchk)) (.record rfl)) (.submitRun true rfl)) (.finish rfl), rfl,
    _, .execStart [] [] rfl rfl, rfl, rfl, by decide⟩

/-! ## The prewarm closures -/

/-- An invocation with the tasks `a` and `b`. -/
def pairInvocation : WorkflowInvocation :=
  { sampleInvocation "inv" with
    tasks := [("a", sampleTask), ("b", { sampleTask with id := "b" })] }

/-- A scheduler that runs nothing and prewarms `a`, expected at `10`, and `b`,
expected at `20`. -/
def prewarmScheduler : Scheduler := ⟨fun _ _ => .ok ⟨none, [⟨"a", 10⟩, ⟨"b", 20⟩], []⟩⟩

/-- `Eval` submits the prewarm jobs of `a` and of `b` and returns; when the
executor runs them after the loop, both read the loop variable's last value
and prewarm `b`, and `a` is never prewarmed. -/
theorem prewarm_jobs_prepare_last_action :
    ∃ s : Sys Unit, Reachable prewarmScheduler identityEngine s ∧ s.pc = .idle ∧
      s.jobs.map (fun job => job.task.taskID) = ["inv.prewarm.a", "inv.prewarm.b"] ∧
      ∃ s', Relation.ReflTransGen (Step prewarmScheduler identityEngine) s s' ∧ s'.jobs = [] ∧
        s'.log = [.prepare "b" 20, .prepare "b" 20] := by
  have hchk : evalChecks prewarmScheduler (newInvocationController "inv")
      (refresh pairInvocation) sampleEnv =
      .scheduled pairInvocation ⟨none, [⟨"a", 10⟩, ⟨"b", 20⟩], []⟩ := by decide
  exact ⟨_, .step (.step (.step (.step (.step (.init "inv" ⟨fun _ => none⟩)
    (.scheduled _ _ rfl hchk)) (.prewarm true rfl)) (.prewarm true rfl)) (.record rfl))
    (.finish rfl), rfl, rfl, _, .tail (.single (.apply [] _ rfl rfl)) (.apply [] [] rfl rfl),
    rfl, rfl⟩

end FissionWorkflows.Controller
