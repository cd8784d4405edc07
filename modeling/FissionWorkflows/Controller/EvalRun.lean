import FissionWorkflows.Controller.System

/-!
# A call of `Eval` with no job running

`eval` reads `InvocationController.Eval` as one function: the checks, the
prepare loop, the recording of the run actions and the run loop, with the
executor's answer to each `Submit` given by `accept`.  `Step` reads the same
code as separate steps, between which the executor's jobs and other
controllers may run.  This module connects the two readings: when nothing
else moves during a call, the steps of the call compute what `eval` computes.

* `prewarm_run` and `submitRun_run`: the prepare loop and the run loop, each
  by induction on the actions left.
* `eval_run`: from any state between two calls, a call of `Eval` during
  which no job runs is a run of `Step` that ends between calls, with the
  controller that `eval` leaves and with the jobs that `eval` submits and the
  executor accepts, in the order submitted, queued after the jobs there
  were.  Nothing is logged, and the store is as it was.

So what `eval` computes is what the system does on the runs in which no job
runs during a call of `Eval`, and the invariants of `Step` hold of it.
-/

namespace FissionWorkflows.Controller

variable {Scope : Type} (scheduler : Scheduler) (E : ExprEngine Scope) (accept : ExecTask → Bool)

/-- The jobs the executor queues from the jobs submitted to it, in order: those
it accepts, none of them yet in `Invoke`. -/
def acceptedJobs (tasks : List ExecTask) : List Job :=
  (tasks.filter accept).map fun task => ⟨task, none⟩

@[simp] theorem acceptedJobs_nil : acceptedJobs accept [] = [] := rfl

theorem acceptedJobs_cons (task : ExecTask) (tasks : List ExecTask) :
    acceptedJobs accept (task :: tasks) =
      (if accept task then [⟨task, none⟩] else []) ++ acceptedJobs accept tasks := by
  cases h : accept task <;> simp [acceptedJobs, List.filter_cons, h]

@[simp] theorem acceptedJobs_append (tasks tasks' : List ExecTask) :
    acceptedJobs accept (tasks ++ tasks') =
      acceptedJobs accept tasks ++ acceptedJobs accept tasks' := by
  simp [acceptedJobs]

/-- A `Submit` answered by `accept` queues the job's accepted part. -/
theorem submit_jobs_accept (s : Sys Scope) (task : ExecTask) :
    (s.submit task (accept task)).jobs = s.jobs ++ acceptedJobs accept [task] := by
  rw [Sys.submit_jobs, acceptedJobs_cons, acceptedJobs_nil, List.append_nil]
  split <;> simp

/-- The prepare loop, from any action left on: it submits a prewarm job per
action and changes nothing but the jobs, the frames and its position. -/
theorem prewarm_run (s : Sys Scope) {inv : WorkflowInvocation} {schedule : Schedule}
    {frame : Nat} {rest : List PrepareTaskAction} (hpc : s.pc = .prewarm inv schedule frame rest) :
    ∃ s', Relation.ReflTransGen (Step scheduler E) s s' ∧
      s'.pc = .prewarm inv schedule frame [] ∧ s'.ctrl = s.ctrl ∧ s'.nextFrame = s.nextFrame ∧
      s'.jobs = s.jobs ++ acceptedJobs accept (rest.map (prewarmTask inv · frame)) ∧
      s'.log = s.log ∧ s'.store = s.store := by
  induction rest generalizing s with
  | nil => exact ⟨s, .refl, hpc, rfl, rfl, by simp, rfl, rfl⟩
  | cons action rest ih =>
    obtain ⟨s', hrun, hpc', hctrl, hframe, hjobs, hlog, hstore⟩ := ih
      (Sys.submit { s with pc := .prewarm inv schedule frame rest,
                           frames := Function.update s.frames frame (some action) }
        (prewarmTask inv action frame) (accept (prewarmTask inv action frame))) (by simp)
    refine ⟨s', .head (.prewarm _ hpc) hrun, hpc', by simpa using hctrl, by simpa using hframe, ?_,
      by simpa using hlog, by simpa using hstore⟩
    rw [hjobs, submit_jobs_accept, List.map_cons, acceptedJobs_cons, acceptedJobs_cons]
    simp

/-- The run loop, from any action left on: it submits a run job per action,
records the accepted ones as started as `submitRuns` does, and changes
nothing but the jobs, the controller and its position. -/
theorem submitRun_run (s : Sys Scope) {inv : WorkflowInvocation} {schedule : Schedule}
    {rest : List RunTaskAction} (hpc : s.pc = .submit inv schedule rest) :
    ∃ s', Relation.ReflTransGen (Step scheduler E) s s' ∧
      s'.pc = .submit inv schedule [] ∧ s'.ctrl = (submitRuns accept inv s.ctrl rest).1 ∧
      s'.nextFrame = s.nextFrame ∧
      s'.jobs = s.jobs ++ acceptedJobs accept (rest.map fun action => runTask inv action.taskID) ∧
      s'.log = s.log ∧ s'.store = s.store := by
  induction rest generalizing s with
  | nil => exact ⟨s, .refl, hpc, rfl, rfl, by simp, rfl, rfl⟩
  | cons action rest ih =>
    obtain ⟨s', hrun, hpc', hctrl, hframe, hjobs, hlog, hstore⟩ := ih
      (Sys.submit { s with pc := .submit inv schedule rest,
                           ctrl := submitRun (accept (runTask inv action.taskID)) s.ctrl
                             action.taskID }
        (runTask inv action.taskID) (accept (runTask inv action.taskID))) (by simp)
    refine ⟨s', .head (.submitRun _ hpc) hrun, hpc', by simpa [submitRuns] using hctrl,
      by simpa using hframe, ?_, by simpa using hlog, by simpa using hstore⟩
    rw [hjobs, submit_jobs_accept, List.map_cons, acceptedJobs_cons, acceptedJobs_cons]
    simp

/-- From any state between two calls, a call of `Eval` during which no job
runs is a run of the system that ends between calls: the controller is the
one `eval` leaves, the jobs `eval` submits and the executor accepts are
queued in the order submitted after the jobs there were, nothing is logged,
and the store is as it was. -/
theorem eval_run {s : Sys Scope} (hpc : s.pc = .idle) (ev : Event) (env : EvalEnv) :
    ∃ s', Relation.ReflTransGen (Step scheduler E) s s' ∧ s'.pc = .idle ∧
      s'.ctrl = (eval scheduler accept s.nextFrame s.ctrl ev env).controller ∧
      s'.jobs =
        s.jobs ++ acceptedJobs accept (eval scheduler accept s.nextFrame s.ctrl ev env).submitted ∧
      s'.log = s.log ∧ s'.store = s.store := by
  cases hchk : evalChecks scheduler s.ctrl ev env with
  | returned result job =>
    -- `Eval` returns from its checks, with at most one job submitted
    have hstep : Step scheduler E s _ := .returned ev env (job.elim true accept) hpc hchk
    refine ⟨_, .single hstep, ?_⟩
    cases job with
    | none => simp [eval, hchk, hpc]
    | some task =>
      refine ⟨by simpa using hpc, by simp [eval, hchk], ?_, by simp, by simp⟩
      rw [show (eval scheduler accept s.nextFrame s.ctrl ev env).submitted = [task] by
        simp [eval, hchk]]
      exact submit_jobs_accept accept (s.readClock env.now) task
  | scheduled inv schedule =>
    -- the prepare loop, the recording of the run actions, the run loop
    have h₀ : Step scheduler E s _ := .scheduled ev env hpc hchk
    obtain ⟨s₁, hrun₁, hpc₁, hctrl₁, -, hjobs₁, hlog₁, hstore₁⟩ := prewarm_run scheduler E accept
      { s.readClock env.now with
        pc := .prewarm inv schedule s.nextFrame schedule.prepareTasks,
        nextFrame := s.nextFrame + 1 } rfl
    have h₂ : Step scheduler E s₁ _ := .record hpc₁
    obtain ⟨s₃, hrun₃, hpc₃, hctrl₃, -, hjobs₃, hlog₃, hstore₃⟩ := submitRun_run scheduler E accept
      { s₁ with pc := .submit inv schedule schedule.runTasks,
                ctrl := markScheduled s₁.ctrl schedule.runTasks } rfl
    have h₄ : Step scheduler E s₃ _ := .finish hpc₃
    refine ⟨_, (((Relation.ReflTransGen.head h₀ hrun₁).tail h₂).trans hrun₃).tail h₄, rfl, ?_,
      ?_, by simpa [hlog₃] using hlog₁, by simpa [hstore₃] using hstore₁⟩
    · simp [eval, hchk, hctrl₃, hctrl₁]
    · simp [eval, hchk, hjobs₃, hjobs₁]

theorem eval_run_init :
    (Sys.init "inv" ⟨fun _ => none⟩ : Sys Unit).pc = .idle ∧
      ∃ s', Relation.ReflTransGen (Step runAllScheduler identityEngine)
          (Sys.init "inv" ⟨fun _ => none⟩) s' ∧ s'.pc = .idle ∧
        s'.ctrl = (eval runAllScheduler (fun _ => true) 0 (newInvocationController "inv")
          (refresh (sampleInvocation "inv")) sampleEnv).controller ∧
        s'.jobs = [] ++ acceptedJobs (fun _ => true) (eval runAllScheduler (fun _ => true) 0
          (newInvocationController "inv") (refresh (sampleInvocation "inv")) sampleEnv).submitted ∧
        s'.log = [] ∧ s'.store = ⟨fun _ => none⟩ :=
  ⟨rfl, eval_run runAllScheduler identityEngine (fun _ => true) rfl
    (refresh (sampleInvocation "inv")) sampleEnv⟩

end FissionWorkflows.Controller
