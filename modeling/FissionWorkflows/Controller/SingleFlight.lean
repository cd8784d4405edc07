import FissionWorkflows.Controller.System

/-!
# At most one run job per task

Each task of an invocation is to have at most one runtime invocation in
flight.  The controller gets there through `sheduledTasks`:
`Eval` records a run action there before it submits the job, hands the set
to the scheduler as the tasks to skip, and `execTask` deletes the task only
after its `Invoke` has returned.  Under serialized `Eval` calls and a
scheduler that hands out only fresh, distinct tasks (`DispatchesFresh`), no
interleaving of `Eval`'s loops with the jobs breaks this.  `SkipsScheduled`
is the freshness half of that assumption alone.

`SingleFlight` is the invariant: the run jobs in the executor are for
distinct tasks, each of them in `sheduledTasks`, and the run actions of the
call of `Eval` in progress are fresh (`PendingFresh`).  `singleFlight_step`
shows that every step keeps it, and `reachable_singleFlight` that every
reachable state has it.  `runningTasks_count_le_one` is the promise.

The converse inclusion fails: a task can stay in `sheduledTasks` with no job
for it.  `rejected_run_stays_scheduled` is a run of the controller in which
the executor rejects the only run job, after which the task is scheduled for
good and no call of `Eval` hands it out again.
-/

namespace FissionWorkflows.Controller

variable {Scope : Type} {scheduler : Scheduler} {E : ExprEngine Scope}

/-- The task of each run job among `jobs`, one entry per job. -/
def runningTasks (jobs : List Job) : List String :=
  jobs.filterMap fun job => job.task.apply.runTaskID

@[simp] theorem runningTasks_nil : runningTasks [] = [] := rfl

@[simp] theorem runningTasks_append (jobs jobs' : List Job) :
    runningTasks (jobs ++ jobs') = runningTasks jobs ++ runningTasks jobs' :=
  List.filterMap_append ..

@[simp] theorem runningTasks_cons (job : Job) (jobs : List Job) :
    runningTasks (job :: jobs) = job.task.apply.runTaskID.toList ++ runningTasks jobs := by
  unfold runningTasks
  cases h : job.task.apply.runTaskID <;> simp [List.filterMap_cons, h]

/-- The assumption on the scheduler: as run actions it hands out distinct
tasks, none of them in the set of scheduled tasks it is given. -/
def DispatchesFresh (scheduler : Scheduler) : Prop :=
  ∀ inv scheduled schedule, scheduler.evaluate inv scheduled = .ok schedule →
    (schedule.runTasks.map RunTaskAction.taskID).Nodup ∧
      ∀ a ∈ schedule.runTasks, a.taskID ∉ scheduled

/-- The freshness half of `DispatchesFresh`: the scheduler hands out as run
actions no task of the set of scheduled tasks it is given. -/
def SkipsScheduled (scheduler : Scheduler) : Prop :=
  ∀ inv scheduled schedule, scheduler.evaluate inv scheduled = .ok schedule →
    ∀ a ∈ schedule.runTasks, a.taskID ∉ scheduled

theorem DispatchesFresh.skipsScheduled {scheduler : Scheduler} (h : DispatchesFresh scheduler) :
    SkipsScheduled scheduler :=
  fun inv scheduled schedule heval => (h inv scheduled schedule heval).2

/-- The run actions of the call of `Eval` in progress: before they are
recorded, distinct and not scheduled; once recorded, those still to be
submitted are distinct, scheduled, and without a job. -/
def PendingFresh (pc : EvalPc) (scheduled : Finset String) (jobs : List Job) : Prop :=
  match pc with
  | .idle => True
  | .prewarm _ schedule _ _ =>
    (schedule.runTasks.map RunTaskAction.taskID).Nodup ∧
      ∀ a ∈ schedule.runTasks, a.taskID ∉ scheduled
  | .submit _ _ rest =>
    (rest.map RunTaskAction.taskID).Nodup ∧
      ∀ a ∈ rest, a.taskID ∈ scheduled ∧ a.taskID ∉ runningTasks jobs

/-- The invariant behind single flight. -/
structure SingleFlight (s : Sys Scope) : Prop where
  nodup : (runningTasks s.jobs).Nodup
  scheduled : ∀ t ∈ runningTasks s.jobs, t ∈ s.ctrl.sheduledTasks
  pending : PendingFresh s.pc s.ctrl.sheduledTasks s.jobs

/-- Dropping run jobs keeps the pending actions fresh. -/
theorem PendingFresh.of_sublist {pc : EvalPc} {scheduled : Finset String} {jobs jobs' : List Job}
    (h : PendingFresh pc scheduled jobs) (hjobs : (runningTasks jobs').Sublist (runningTasks jobs)) :
    PendingFresh pc scheduled jobs' := by
  unfold PendingFresh at h ⊢
  split at h
  · trivial
  · exact h
  · exact ⟨h.1, fun a ha => ⟨(h.2 a ha).1, fun hr => (h.2 a ha).2 (hjobs.subset hr)⟩⟩

/-- A step that keeps the scheduled tasks and the loop position and only drops
run jobs keeps the invariant. -/
theorem SingleFlight.of_sublist {s s' : Sys Scope} (h : SingleFlight s)
    (hjobs : (runningTasks s'.jobs).Sublist (runningTasks s.jobs))
    (hctrl : s'.ctrl.sheduledTasks = s.ctrl.sheduledTasks) (hpc : s'.pc = s.pc) :
    SingleFlight s' :=
  ⟨h.nodup.sublist hjobs, fun t ht => hctrl ▸ h.scheduled t (hjobs.subset ht),
    hpc ▸ hctrl ▸ h.pending.of_sublist hjobs⟩

@[simp] theorem runTaskID_prewarmTask (inv : WorkflowInvocation) (action : PrepareTaskAction)
    (frame : Nat) : (prewarmTask inv action frame).apply.runTaskID = none := rfl

@[simp] theorem runTaskID_runTask (inv : WorkflowInvocation) (taskID : String) :
    (runTask inv taskID).apply.runTaskID = some taskID := rfl

@[simp] theorem runningTasks_submit (s : Sys Scope) (task : ExecTask) (accepted : Bool) :
    runningTasks (s.submit task accepted).jobs =
      runningTasks s.jobs ++ if accepted then task.apply.runTaskID.toList else [] := by
  cases accepted <;> simp

/-- Submitting a job that is not a run job keeps the invariant. -/
theorem SingleFlight.submit_of_nonrun {s : Sys Scope} {task : ExecTask} {accepted : Bool}
    (h : SingleFlight s) (hrun : task.apply.runTaskID = none) :
    SingleFlight (s.submit task accepted) :=
  h.of_sublist (by cases accepted <;> simp [hrun]) (by simp) (by simp)

/-- Submitting the run job of the first pending action keeps the invariant:
its task is scheduled, has no job yet, and is none of the actions still
pending. -/
theorem SingleFlight.submitRun {s : Sys Scope} {inv : WorkflowInvocation} {schedule : Schedule}
    {action : RunTaskAction} {rest : List RunTaskAction} (accepted : Bool) (h : SingleFlight s)
    (hpc : s.pc = .submit inv schedule (action :: rest)) :
    SingleFlight (Sys.submit { s with pc := .submit inv schedule rest,
                                      ctrl := submitRun accepted s.ctrl action.taskID }
      (runTask inv action.taskID) accepted) := by
  have hp := h.pending
  rw [hpc] at hp
  obtain ⟨hnodup, hfresh⟩ := hp
  rw [List.map_cons, List.nodup_cons] at hnodup
  obtain ⟨hnew, hnotrun⟩ := hfresh action (List.mem_cons_self _ _)
  have hrest : ∀ a ∈ rest, a.taskID ≠ action.taskID := fun a ha he =>
    hnodup.1 (he ▸ List.mem_map_of_mem _ ha)
  cases accepted
  · -- the executor rejects the job: only the pending list shrinks
    refine ⟨by simpa using h.nodup, fun t ht => ?_, hnodup.2, fun a ha => ?_⟩
    · simpa using h.scheduled t (by simpa using ht)
    · simpa using hfresh a (List.mem_cons_of_mem _ ha)
  · -- the job for the fresh, scheduled task joins the running ones
    refine ⟨?_, fun t ht => ?_, hnodup.2, fun a ha => ?_⟩
    · simpa [List.nodup_append] using ⟨h.nodup, hnotrun⟩
    · simp only [runningTasks_submit, runTaskID_runTask, if_true, Option.toList_some,
        List.mem_append, List.mem_singleton] at ht
      rcases ht with ht | rfl
      · simpa using h.scheduled t ht
      · simpa using hnew
    · obtain ⟨ha1, ha2⟩ := hfresh a (List.mem_cons_of_mem _ ha)
      simpa [ha2] using ⟨ha1, hrest a ha⟩

/-- A run job that returns from `Invoke` keeps the invariant: it takes at most
its own task out of `sheduledTasks`, and no other running job and no pending
action is for that task. -/
theorem SingleFlight.of_finish {s s' : Sys Scope} {pre post : List Job} {task : ExecTask}
    {spec : TaskInvocationSpec} {inv : WorkflowInvocation} {taskID : String} {succeeded : Bool}
    (h : SingleFlight s) (hjobs : s.jobs = pre ++ ⟨task, some spec⟩ :: post)
    (happly : task.apply = .run inv taskID) (hjobs' : s'.jobs = pre ++ post)
    (hctrl : s'.ctrl = execTaskFinish s.ctrl taskID succeeded) (hpc : s'.pc = s.pc) :
    SingleFlight s' := by
  have hrt : runningTasks s.jobs = runningTasks pre ++ taskID :: runningTasks post := by
    simp [hjobs, happly, Apply.runTaskID]
  have hnd := h.nodup
  rw [hrt, List.nodup_middle, List.nodup_cons] at hnd
  have hsub : (runningTasks (pre ++ post)).Sublist (runningTasks s.jobs) := by
    rw [hrt, runningTasks_append]
    exact List.Sublist.append_left (List.sublist_cons_self _ _) _
  rw [← hjobs'] at hsub
  refine ⟨by simpa [hjobs'] using hnd.2, fun t ht => ?_, ?_⟩
  · have hne : t ≠ taskID := fun he => hnd.1 (he ▸ by simpa [hjobs'] using ht)
    exact hctrl ▸ mem_execTaskFinish_sheduledTasks succeeded (h.scheduled t (hsub.subset ht)) hne
  · have hp := h.pending.of_sublist hsub
    rw [hpc, hctrl]
    unfold PendingFresh at hp ⊢
    split at hp
    · trivial
    · exact ⟨hp.1, fun a ha hs => hp.2 a ha (execTaskFinish_sheduledTasks_subset _ _ _ hs)⟩
    · refine ⟨hp.1, fun a ha => ⟨mem_execTaskFinish_sheduledTasks succeeded (hp.2 a ha).1
        fun he => ?_, (hp.2 a ha).2⟩⟩
      have := h.pending
      rename_i heq
      rw [heq] at this
      exact (this.2 a ha).2 (by rw [hrt, he]; simp)

/-- Every step keeps the invariant. -/
theorem singleFlight_step (hsched : DispatchesFresh scheduler) {s s' : Sys Scope}
    (h : SingleFlight s) (hstep : Step scheduler E s s') : SingleFlight s' := by
  cases hstep with
  | @returned ev env accepted _ result job hpc hchk =>
    have hsound := @evalChecks_sound scheduler s.ctrl ev env
    rw [hchk] at hsound
    have h' : SingleFlight (s.readClock env.now) := ⟨h.nodup, h.scheduled, h.pending⟩
    cases job with
    | none => exact h'
    | some task => exact h'.submit_of_nonrun (hsound task rfl).1
  | @scheduled ev env _ inv schedule hpc hchk =>
    have hsound := @evalChecks_sound scheduler s.ctrl ev env
    rw [hchk] at hsound
    exact ⟨h.nodup, h.scheduled, hsched _ _ _ hsound.2⟩
  | @prewarm accepted _ inv schedule frame action rest hpc =>
    have hp := h.pending
    rw [hpc] at hp
    exact SingleFlight.submit_of_nonrun ⟨h.nodup, h.scheduled, hp⟩ rfl
  | @record _ inv schedule frame hpc =>
    have hp := h.pending
    rw [hpc] at hp
    obtain ⟨hnodup, hfresh⟩ := hp
    exact ⟨h.nodup, fun t ht => mem_markScheduled.mpr (.inl (h.scheduled t ht)), hnodup,
      fun a ha => ⟨mem_markScheduled.mpr (.inr (List.mem_map_of_mem _ ha)),
        fun hr => hfresh a ha (h.scheduled _ hr)⟩⟩
  | @submitRun accepted _ inv schedule action rest hpc => exact h.submitRun accepted hpc
  | finish hpc => exact ⟨h.nodup, h.scheduled, trivial⟩
  | apply pre post hjobs hrun =>
    exact h.of_sublist (by simp [hjobs, hrun]) rfl rfl
  | @execStart pre post _ task inv taskID hjobs happly =>
    rcases Sys.execStart_cases E s pre post task inv taskID with ⟨store, he⟩ | ⟨spec, store, he⟩ <;>
      rw [he] <;> exact h.of_sublist (by simp [hjobs]) rfl rfl
  | @execFinish pre post succeeded transformed _ task spec inv taskID hjobs happly =>
    exact h.of_finish hjobs happly rfl rfl rfl
  | other id scope hid => exact h.of_sublist (List.Sublist.refl _) rfl rfl

/-- Every reachable state has the invariant. -/
theorem reachable_singleFlight (hsched : DispatchesFresh scheduler) {s : Sys Scope}
    (hs : Reachable scheduler E s) : SingleFlight s := by
  induction hs with
  | init invocationID store => exact ⟨List.nodup_nil, by simp [Sys.init], trivial⟩
  | step _ hstep ih => exact singleFlight_step hsched ih hstep

/-- With serialized `Eval` calls and a scheduler that hands out fresh,
distinct run actions, no task ever has two run jobs in the executor at once,
whatever the executor accepts and whenever the jobs run. -/
theorem runningTasks_count_le_one (hsched : DispatchesFresh scheduler) {s : Sys Scope}
    (hs : Reachable scheduler E s) (taskID : String) :
    (runningTasks s.jobs).count taskID ≤ 1 :=
  List.nodup_iff_count_le_one.mp (reachable_singleFlight hsched hs).nodup taskID

theorem dispatchesFresh_runAllScheduler : DispatchesFresh runAllScheduler := by
  intro inv scheduled schedule h
  simp only [runAllScheduler, Except.ok.injEq] at h
  subst h
  simp only [List.map_map, List.mem_map, List.mem_filter, decide_eq_true_eq]
  refine ⟨?_, ?_⟩
  · simpa [Function.comp_def] using (List.nodup_dedup _).filter _
  · rintro _ ⟨id, ⟨-, hid⟩, rfl⟩
    exact hid

theorem runningTasks_count_le_one_invoking :
    DispatchesFresh runAllScheduler ∧
      ∃ s : Sys Unit, Reachable runAllScheduler identityEngine s ∧
        runningTasks s.jobs = ["a"] ∧ (runningTasks s.jobs).count "a" ≤ 1 := by
  obtain ⟨s, hs, -, -, -, hjobs, -⟩ := reachable_invokingA
  exact ⟨dispatchesFresh_runAllScheduler, s, hs, by simp [hjobs, runTask, Apply.runTaskID],
    runningTasks_count_le_one dispatchesFresh_runAllScheduler hs "a"⟩

/-- The executor rejects the only run job of an evaluation, and the task stays
in `sheduledTasks` with no job for it.  The scheduler is told it is scheduled,
so no later evaluation hands it out again. -/
theorem rejected_run_stays_scheduled :
    ∃ s : Sys Unit, Reachable runAllScheduler identityEngine s ∧ s.pc = .idle ∧
      "a" ∈ s.ctrl.sheduledTasks ∧ runningTasks s.jobs = [] ∧
      runAllScheduler.evaluate (sampleInvocation "inv") s.ctrl.sheduledTasks =
        .ok ⟨none, [], []⟩ := by
  have hchk : evalChecks runAllScheduler (newInvocationController "inv")
      (refresh (sampleInvocation "inv")) sampleEnv =
      .scheduled (sampleInvocation "inv") ⟨none, [], [⟨"a"⟩]⟩ := by decide
  exact ⟨_, .step (.step (.step (.step (.init "inv" ⟨fun _ => none⟩)
    (.scheduled _ _ rfl hchk)) (.record rfl)) (.submitRun false rfl)) (.finish rfl),
    rfl, by decide, rfl, rfl⟩

end FissionWorkflows.Controller
