import FissionWorkflows.Controller.SingleFlight
import FissionWorkflows.Controller.OwnInvocation
import FissionWorkflows.Controller.Outputs

/-!
# What every run of a controller keeps

Properties of whole runs of `FissionWorkflows.Controller.System`, each proved
as a step lemma and then, by induction, over a run.  No step takes anything
out of the log (`step_log`), so the log is the record of what has happened,
and the results below name the entry that must stand behind a change.

* `reachable_invokeBalance`: every `Invoke` a run job calls is answered once
  or is still waited on.  The calls in the log are the returns in the log
  plus the run jobs waiting in `Invoke`, so no return is logged twice or
  without its call.
* `sheduledTasks_leave_of_steps`: a task leaves `sheduledTasks` only when a
  run job of that task returns from `Invoke` without error, the `delete` of
  `execTask`.
* `stuck_of_steps`: a task that is scheduled, has no run job, and has no run
  action pending in the call of `Eval` in progress (`Stuck`) stays so on
  every run, under a scheduler that hands out no task it is told is
  scheduled (`SkipsScheduled`): the scheduler is told to skip it and nothing
  else takes it out.  `reachable_failedInvoke_stuck`: under a scheduler that
  also hands out distinct tasks (`DispatchesFresh`), once an `Invoke` of a
  task has returned an error, the task is stuck, so it is never run again.
* `reachable_foreign_scope`: the controller and its jobs write no scope of
  the shared store but the controller's own; any other scope changes only by
  a write of another controller.
* `reachable_completion`: every `Complete` that the jobs call is what a call
  of `Eval` made of some snapshot of the invocation, at the clock reading of
  that call: one with its workflow, not terminal, within its deadline, in
  which every task has a succeeded run, with the output and output headers
  of the run of its output task.  `reachable_fail`: every `Fail` carries one
  of the reasons of `FailReason`, found in some snapshot at the clock
  reading of the call that decided, so a deadline is given as the reason
  only once a call of `Eval` has read a time past it.  The error budget is
  never a reason, since `errorCount` stays `0`.  `Decided` is the invariant
  behind both: the fail and success jobs carry their decision from the
  snapshot to the call, and nothing else calls `Fail` or `Complete`.
* `reachable_invoke_scheduled`: the jobs invoke a function only for a task
  the scheduler scheduled.  Every `Invoke` is of the task some snapshot holds
  under the key of a run action of a schedule the scheduler answered for that
  snapshot, with the task's resolved function.  `Scheduled` is the invariant
  behind it: the call of `Eval` in progress and every run job carry their
  schedule, and a run job invokes the task of its run.
* `step_finishRun`: a run job's return from `Invoke`, with the
  post-transformer of `FissionWorkflows.Controller.Outputs` run on its
  result, is an `execFinish` step.  The store the transformer leaves is one
  that step allows, so each run property here holds of the controller with
  its transformer.
-/

namespace FissionWorkflows.Controller

variable {Scope : Type} {scheduler : Scheduler} {E : ExprEngine Scope}

/-! ## The log -/

/-- A call of `Invoke`. -/
def Effect.isInvoke : Effect → Bool
  | .invoke _ => true
  | _ => false

/-- A return from `Invoke`. -/
def Effect.isInvoked : Effect → Bool
  | .invoked _ _ => true
  | _ => false

/-- A fail, success or prewarm closure neither calls `Invoke` nor returns
from it. -/
theorem applyEffects_not_invoke (frames : Nat → Option PrepareTaskAction) (a : Apply) :
    ∀ e ∈ applyEffects frames a, e.isInvoke = false ∧ e.isInvoked = false := by
  intro e he
  cases a with
  | fail | complete => simp_all [applyEffects, Effect.isInvoke, Effect.isInvoked]
  | prewarm inv frame =>
    simp only [applyEffects] at he
    split at he
    · split_ifs at he <;> simp_all [Effect.isInvoke, Effect.isInvoked]
    · cases he
  | run => cases he

/-- No step takes a call out of the log. -/
theorem step_log {s s' : Sys Scope} (hstep : Step scheduler E s s') : s.log <+: s'.log := by
  cases hstep with
  | returned ev env accepted hpc hchk => rename_i job; cases job <;> simp
  | apply | execFinish => exact List.prefix_append _ _
  | @execStart pre post _ task inv taskID hjobs happly =>
    rcases Sys.execStart_cases E s pre post task inv taskID with ⟨_, he⟩ | ⟨_, _, he⟩ <;>
      simp [he]
  | scheduled | prewarm | record | submitRun | finish | other => simp

theorem log_prefix_of_steps {s s' : Sys Scope}
    (hrun : Relation.ReflTransGen (Step scheduler E) s s') : s.log <+: s'.log := by
  induction hrun with
  | refl => exact List.prefix_refl _
  | tail _ hstep ih => exact ih.trans (step_log hstep)

/-- A return from `Invoke` enters the log only in the `execFinish` step of a
run job of that task, with that outcome. -/
theorem step_invoked {s s' : Sys Scope} (hstep : Step scheduler E s s') {t : String} {b : Bool}
    (h : Effect.invoked t b ∈ s'.log) :
    Effect.invoked t b ∈ s.log ∨
      ∃ pre post task spec inv, ∃ transformed : Option Scope,
        s.jobs = pre ++ ⟨task, some spec⟩ :: post ∧ task.apply = .run inv t ∧
        s' = { s with jobs := pre ++ post, ctrl := execTaskFinish s.ctrl t b,
                      store := transformed.elim s.store (s.store.set inv.id),
                      log := s.log ++ [.invoked t b] } := by
  cases hstep with
  | @apply pre post _ task hjobs hrun =>
    refine (List.mem_append.mp h).imp_right fun he => ?_
    simpa [Effect.isInvoked] using (applyEffects_not_invoke s.frames task.apply _ he).2
  | @execStart pre post _ task inv taskID hjobs happly =>
    rcases Sys.execStart_cases E s pre post task inv taskID with ⟨_, he⟩ | ⟨_, _, he⟩ <;>
      rw [he] at h
    · exact .inl h
    · exact .inl (by simpa using h)
  | @execFinish pre post succeeded transformed _ task spec inv taskID hjobs happly =>
    rcases List.mem_append.mp h with h | h
    · exact .inl h
    · obtain ⟨rfl, rfl⟩ : t = taskID ∧ b = succeeded := by simpa using h
      exact .inr ⟨pre, post, task, spec, inv, transformed, hjobs, happly, rfl⟩
  | returned ev env accepted hpc hchk => rename_i job; exact .inl (by cases job <;> simpa using h)
  | scheduled | prewarm | record | submitRun | finish | other => exact .inl (by simpa using h)

/-! ## Every `Invoke` is answered once -/

/-- The number of run jobs waiting in `Invoke`. -/
def invokingJobs (jobs : List Job) : Nat := jobs.countP fun job => job.invoking.isSome

@[simp] theorem invokingJobs_append (jobs jobs' : List Job) :
    invokingJobs (jobs ++ jobs') = invokingJobs jobs + invokingJobs jobs' :=
  List.countP_append ..

@[simp] theorem invokingJobs_cons (job : Job) (jobs : List Job) :
    invokingJobs (job :: jobs) = invokingJobs jobs + if job.invoking.isSome then 1 else 0 :=
  List.countP_cons ..

/-- A step that takes a task out of `sheduledTasks` is the return, without
error, of a run job of that task from `Invoke`, and logs it. -/
theorem step_sheduledTasks_leave {s s' : Sys Scope} (hstep : Step scheduler E s s') {t : String}
    (ht : t ∈ s.ctrl.sheduledTasks) (ht' : t ∉ s'.ctrl.sheduledTasks) :
    s'.log = s.log ++ [.invoked t true] := by
  cases hstep with
  | record hpc => exact absurd (mem_markScheduled.mpr (.inl ht)) ht'
  | @execFinish pre post succeeded transformed _ task spec inv taskID hjobs happly =>
    obtain rfl : t = taskID :=
      by_contra fun hne => ht' (mem_execTaskFinish_sheduledTasks succeeded ht hne)
    cases succeeded
    · exact absurd (by simpa [execTaskFinish] using ht) ht'
    · rfl
  | returned ev env accepted hpc hchk => rename_i job; cases job <;> simp_all
  | scheduled | prewarm | submitRun | finish | apply | execStart | other => simp_all

/-- Over any run, a task that leaves `sheduledTasks` does so because one of
its run jobs returned from `Invoke` without error: the run logs that return. -/
theorem sheduledTasks_leave_of_steps {s s' : Sys Scope}
    (hrun : Relation.ReflTransGen (Step scheduler E) s s') {t : String}
    (ht : t ∈ s.ctrl.sheduledTasks) (ht' : t ∉ s'.ctrl.sheduledTasks) :
    ∃ new, s'.log = s.log ++ new ∧ Effect.invoked t true ∈ new := by
  induction hrun with
  | refl => exact absurd ht ht'
  | @tail s₁ s₂ hrun₁ hstep ih =>
    by_cases h₁ : t ∈ s₁.ctrl.sheduledTasks
    · -- the task leaves in the last step
      obtain ⟨new, hnew⟩ := log_prefix_of_steps hrun₁
      refine ⟨new ++ [.invoked t true], ?_, by simp⟩
      rw [step_sheduledTasks_leave hstep h₁ ht', ← hnew, List.append_assoc]
    · -- it had left before
      obtain ⟨new, hnew, hmem⟩ := ih h₁
      obtain ⟨new₂, hnew₂⟩ := step_log hstep
      exact ⟨new ++ new₂, by rw [← hnew₂, hnew, List.append_assoc], List.mem_append_left _ hmem⟩

/-- A controller in its run loop with `a` scheduled and about to be
submitted. -/
def submittingA : Sys Unit :=
  { Sys.init "inv" ⟨fun _ => none⟩ with
    pc := .submit (sampleInvocation "inv") ⟨none, [], [⟨"a"⟩]⟩ [⟨"a"⟩]
    ctrl := { newInvocationController "inv" with sheduledTasks := {"a"} } }

theorem sheduledTasks_leave_of_steps_sample :
    ∃ s' : Sys Unit, Relation.ReflTransGen (Step runAllScheduler identityEngine) submittingA s' ∧
      "a" ∈ submittingA.ctrl.sheduledTasks ∧ "a" ∉ s'.ctrl.sheduledTasks ∧
      ∃ new, s'.log = submittingA.log ++ new ∧ Effect.invoked "a" true ∈ new := by
  have h₁ : Step runAllScheduler identityEngine submittingA _ := .submitRun true rfl
  have hrun := ((((Relation.ReflTransGen.single h₁).tail (.finish rfl)).tail
    (.execStart [] [] rfl rfl)).tail (.execFinish [] [] true none rfl rfl))
  exact ⟨_, hrun, by decide, by decide, sheduledTasks_leave_of_steps hrun (by decide) (by decide)⟩

/-! ## Stuck tasks -/

/-- The run actions that the call of `Eval` in progress has still to submit. -/
def EvalPc.runActions : EvalPc → List RunTaskAction
  | .idle => []
  | .prewarm _ schedule _ _ => schedule.runTasks
  | .submit _ _ rest => rest

/-- Nothing is left to run the task `t`: it is in `sheduledTasks`, so the
scheduler is told to skip it; no run job is for it; and the call of `Eval` in
progress has no run action for it. -/
structure Stuck (t : String) (s : Sys Scope) : Prop where
  scheduled : t ∈ s.ctrl.sheduledTasks
  noJob : t ∉ runningTasks s.jobs
  notPending : ∀ a ∈ s.pc.runActions, a.taskID ≠ t

/-- A step that keeps the scheduled tasks and the loop position and only drops
run jobs keeps a task stuck. -/
theorem Stuck.of_sublist {t : String} {s s' : Sys Scope} (h : Stuck t s)
    (hsched : s.ctrl.sheduledTasks ⊆ s'.ctrl.sheduledTasks)
    (hjobs : (runningTasks s'.jobs).Sublist (runningTasks s.jobs)) (hpc : s'.pc = s.pc) :
    Stuck t s' :=
  ⟨hsched h.scheduled, fun ht => h.noJob (hjobs.subset ht), hpc ▸ h.notPending⟩

/-- Under a scheduler that hands out no task it is told is scheduled, every
step keeps a task stuck: a new schedule leaves it out, since it is
scheduled, so no run job for it is submitted, and no run job of another task
takes it out of `sheduledTasks`. -/
theorem Stuck.step (hsched : SkipsScheduled scheduler) {t : String} {s s' : Sys Scope}
    (h : Stuck t s) (hstep : Step scheduler E s s') : Stuck t s' := by
  cases hstep with
  | @returned ev env accepted _ result job hpc hchk =>
    have hsound := @evalChecks_sound scheduler s.ctrl ev env
    rw [hchk] at hsound
    cases job with
    | none => exact h.of_sublist subset_rfl (.refl _) rfl
    | some task =>
      exact h.of_sublist (by simp) (by cases accepted <;> simp [(hsound task rfl).1]) (by simp)
  | @scheduled ev env _ inv schedule hpc hchk =>
    have hsound := @evalChecks_sound scheduler s.ctrl ev env
    rw [hchk] at hsound
    exact ⟨h.scheduled, h.noJob, fun a ha he => hsched _ _ _ hsound.2 a ha (he ▸ h.scheduled)⟩
  | prewarm accepted hpc =>
    refine ⟨by simpa using h.scheduled, by cases accepted <;> simpa using h.noJob, ?_⟩
    simpa [hpc, EvalPc.runActions] using h.notPending
  | record hpc =>
    refine ⟨mem_markScheduled.mpr (.inl h.scheduled), h.noJob, ?_⟩
    simpa [hpc, EvalPc.runActions] using h.notPending
  | @submitRun accepted _ inv schedule action rest hpc =>
    have hp := h.notPending
    simp only [hpc, EvalPc.runActions, List.mem_cons, forall_eq_or_imp] at hp
    refine ⟨by simpa using h.scheduled, ?_, by simpa [EvalPc.runActions] using hp.2⟩
    cases accepted <;> simp [h.noJob, Ne.symm hp.1]
  | finish hpc => exact ⟨h.scheduled, h.noJob, by simp [EvalPc.runActions]⟩
  | apply pre post hjobs hrun => exact h.of_sublist subset_rfl (by simp [hjobs, hrun]) rfl
  | @execStart pre post _ task inv taskID hjobs happly =>
    rcases Sys.execStart_cases E s pre post task inv taskID with ⟨_, he⟩ | ⟨_, _, he⟩ <;>
      rw [he] <;> exact h.of_sublist subset_rfl (by simp [hjobs]) rfl
  | @execFinish pre post succeeded transformed _ task spec inv taskID hjobs happly =>
    have hrt : taskID ∈ runningTasks s.jobs := by simp [hjobs, happly, Apply.runTaskID]
    refine ⟨mem_execTaskFinish_sheduledTasks succeeded h.scheduled fun he => h.noJob (he ▸ hrt),
      fun ht => h.noJob ?_, h.notPending⟩
    simp [hjobs] at ht ⊢
    tauto
  | other => exact ⟨h.scheduled, h.noJob, h.notPending⟩

/-- Under a scheduler that hands out no task it is told is scheduled, a stuck
task stays stuck on every run: no call of `Eval` schedules it again, and no
job takes it out of `sheduledTasks`. -/
theorem stuck_of_steps (hsched : SkipsScheduled scheduler) {s s' : Sys Scope}
    (hrun : Relation.ReflTransGen (Step scheduler E) s s') {t : String} (h : Stuck t s) :
    Stuck t s' := by
  induction hrun with
  | refl => exact h
  | tail _ hstep ih => exact ih.step hsched hstep

/-- A controller between two calls of `Eval` with `a` scheduled and no job. -/
def stuckA : Sys Unit :=
  { Sys.init "inv" ⟨fun _ => none⟩ with
    ctrl := { newInvocationController "inv" with sheduledTasks := {"a"} } }

theorem stuck_of_steps_sample :
    SkipsScheduled runAllScheduler ∧
      ∃ s' : Sys Unit, Relation.ReflTransGen (Step runAllScheduler identityEngine) stuckA s' ∧
        s'.pc = .idle ∧ Stuck "a" stuckA ∧ Stuck "a" s' := by
  have hchk : evalChecks runAllScheduler stuckA.ctrl (refresh (sampleInvocation "inv"))
      sampleEnv = .scheduled (sampleInvocation "inv") ⟨none, [], []⟩ := by decide
  have h₁ : Step runAllScheduler identityEngine stuckA _ := .scheduled _ _ rfl hchk
  have hrun := ((Relation.ReflTransGen.single h₁).tail (.record rfl)).tail (.finish rfl)
  have hstuck : Stuck "a" stuckA := ⟨by decide, by decide, fun _ ha => nomatch ha⟩
  have hsched := dispatchesFresh_runAllScheduler.skipsScheduled
  exact ⟨hsched, _, hrun, rfl, hstuck, stuck_of_steps hsched hrun hstuck⟩

/-- Under the single-flight invariant, a task with a run job has no run action
pending in the call of `Eval` in progress. -/
theorem SingleFlight.notPending {s : Sys Scope} (h : SingleFlight s) {t : String}
    (ht : t ∈ runningTasks s.jobs) : ∀ a ∈ s.pc.runActions, a.taskID ≠ t := by
  intro a ha hat
  have hp := h.pending
  cases hpc : s.pc with
  | idle => simp [hpc, EvalPc.runActions] at ha
  | prewarm inv schedule frame rest =>
    rw [hpc] at hp ha
    exact hp.2 a ha (hat ▸ h.scheduled t ht)
  | submit inv schedule rest =>
    rw [hpc] at hp ha
    exact (hp.2 a ha).2 (hat ▸ ht)

/-- Under the single-flight invariant, a run job whose `Invoke` returns an
error leaves its task stuck: the task stays in `sheduledTasks`, the job was
its only one, and no pending run action is for it. -/
theorem SingleFlight.stuck_of_failed {s : Sys Scope} (h : SingleFlight s) {pre post : List Job}
    {task : ExecTask} {spec : TaskInvocationSpec} {inv : WorkflowInvocation} {t : String}
    (hjobs : s.jobs = pre ++ ⟨task, some spec⟩ :: post) (happly : task.apply = .run inv t)
    (transformed : Option Scope) :
    Stuck t { s with jobs := pre ++ post, ctrl := execTaskFinish s.ctrl t false,
                     store := transformed.elim s.store (s.store.set inv.id),
                     log := s.log ++ [.invoked t false] } := by
  have hrt : runningTasks s.jobs = runningTasks pre ++ t :: runningTasks post := by
    simp [hjobs, happly, Apply.runTaskID]
  have ht : t ∈ runningTasks s.jobs := by simp [hrt]
  have hnd := h.nodup
  rw [hrt, List.nodup_middle, List.nodup_cons] at hnd
  exact ⟨by simpa [execTaskFinish] using h.scheduled t ht, by simpa using hnd.1, h.notPending ht⟩

/-- Under a scheduler that hands out only distinct tasks it is not told are
scheduled, a task whose `Invoke` has returned an error is never run again:
in every later state it is scheduled, has no run job, and has no pending run
action.  Distinct tasks matter: two run actions of one task would leave a
second run job after the first fails. -/
theorem reachable_failedInvoke_stuck (hsched : DispatchesFresh scheduler) {s : Sys Scope}
    (hs : Reachable scheduler E s) {t : String} (hfail : Effect.invoked t false ∈ s.log) :
    Stuck t s := by
  induction hs with
  | init => simp [Sys.init] at hfail
  | step hprev hstep ih =>
    rcases step_invoked hstep hfail with h | ⟨pre, post, task, spec, inv, transformed, hjobs,
      happly, rfl⟩
    · exact (ih h).step hsched.skipsScheduled hstep
    · exact (reachable_singleFlight hsched hprev).stuck_of_failed hjobs happly transformed

theorem reachable_failedInvoke_stuck_sample :
    DispatchesFresh runAllScheduler ∧
      ∃ s : Sys Unit, Reachable runAllScheduler identityEngine s ∧
        Effect.invoked "a" false ∈ s.log ∧ Stuck "a" s := by
  have hchk : evalChecks runAllScheduler (newInvocationController "inv")
      (refresh (sampleInvocation "inv")) sampleEnv =
      .scheduled (sampleInvocation "inv") ⟨none, [], [⟨"a"⟩]⟩ := by decide
  have hs : Reachable runAllScheduler identityEngine _ :=
    .step (.step (.step (.step (.step (.step (.init "inv" ⟨fun _ => none⟩)
    (.scheduled _ _ rfl hchk)) (.record rfl)) (.submitRun true rfl)) (.finish rfl))
    (.execStart [] [] rfl rfl)) (.execFinish [] [] false none rfl rfl)
  refine ⟨dispatchesFresh_runAllScheduler, _, hs, ?_,
    reachable_failedInvoke_stuck dispatchesFresh_runAllScheduler hs ?_⟩ <;>
  exact List.mem_append_right _ (List.mem_singleton_self _)

/-! ## The scopes of other invocations -/

/-- In every reachable state, a step of the controller or of one of its jobs
leaves every scope but the controller's own as it was.  Another scope
changes only by a write of another controller, which changes nothing else. -/
theorem reachable_foreign_scope {s s' : Sys Scope} (hs : Reachable scheduler E s)
    (hstep : Step scheduler E s s') {id : String} (hid : id ≠ s.ctrl.invocationID) :
    s'.store.get id = s.store.get id ∨ ∃ scope, s' = { s with store := s.store.set id scope } := by
  -- a run job acts on a snapshot of the controller's own invocation
  have hrun : ∀ {pre post : List Job} {job : Job} {inv : WorkflowInvocation} {taskID : String},
      s.jobs = pre ++ job :: post → job.task.apply = .run inv taskID → id ≠ inv.id := by
    intro pre post job inv taskID hjobs happly
    have hown := (OwnCalls.of_reachable hs).jobs job
      (hjobs ▸ List.mem_append_right pre (List.mem_cons_self _ post))
    rw [happly] at hown
    exact fun h => hid (h.trans hown)
  cases hstep with
  | @returned ev env accepted _ result job hpc hchk => cases job <;> simp
  | @execStart pre post _ task inv taskID hjobs happly =>
    refine .inl ?_
    rw [Sys.execStart_store]
    rcases execTaskStart_store E s.store inv taskID with h | ⟨scope, h⟩ <;> rw [h]
    exact Store.get_set_ne _ _ (hrun hjobs happly)
  | @execFinish pre post succeeded transformed _ task spec inv taskID hjobs happly =>
    refine .inl ?_
    cases transformed with
    | none => rfl
    | some scope => exact Store.get_set_ne _ _ (hrun hjobs happly)
  | other id' scope hid' =>
    by_cases h : id = id'
    · exact .inr ⟨scope, by rw [h]⟩
    · exact .inl (Store.get_set_ne _ _ h)
  | scheduled | prewarm | record | submitRun | finish | apply => simp

theorem reachable_foreign_scope_other :
    Reachable runAllScheduler identityEngine (Sys.init "inv" ⟨fun _ => none⟩) ∧
      Step runAllScheduler identityEngine (Sys.init "inv" ⟨fun _ => none⟩)
        { (Sys.init "inv" ⟨fun _ => none⟩ : Sys Unit) with
          store := (⟨fun _ => none⟩ : Store Unit).set "parent" () } ∧
      "parent" ≠ (Sys.init "inv" (⟨fun _ => none⟩ : Store Unit)).ctrl.invocationID ∧
      (({ (Sys.init "inv" ⟨fun _ => none⟩ : Sys Unit) with
          store := (⟨fun _ => none⟩ : Store Unit).set "parent" () } : Sys Unit).store.get
            "parent" = (Sys.init "inv" (⟨fun _ => none⟩ : Store Unit)).store.get "parent" ∨
        ∃ scope, ({ (Sys.init "inv" ⟨fun _ => none⟩ : Sys Unit) with
          store := (⟨fun _ => none⟩ : Store Unit).set "parent" () } : Sys Unit) =
          { (Sys.init "inv" ⟨fun _ => none⟩ : Sys Unit) with
            store := (Sys.init "inv" (⟨fun _ => none⟩ : Store Unit)).store.set "parent" scope }) :=
  ⟨.init _ _, .other "parent" () (by decide), by decide,
    @reachable_foreign_scope Unit runAllScheduler identityEngine _ _ (.init _ _)
      (.other "parent" () (by decide)) _ (by decide)⟩

/-! ## What the controller decides -/

/-- The deadline of `inv`, as `Eval` reads it, satisfies `p`: the deadline in
its spec, or else ten minutes after its creation. -/
def DeadlineAt (inv : WorkflowInvocation) (p : Time → Prop) : Prop :=
  (∃ deadline, inv.deadline = some deadline ∧ p deadline) ∨
    inv.deadline = none ∧
      ∃ createdAt, inv.createdAt = some createdAt ∧ p (createdAt + defaultMaxRuntime)

theorem deadlineAt_of_deadlineOf {inv : WorkflowInvocation} {deadline : Time}
    (h : deadlineOf inv = some deadline) {p : Time → Prop} (hp : p deadline) :
    DeadlineAt inv p := by
  unfold deadlineOf at h
  split at h
  · cases h
    exact .inl ⟨_, ‹_›, hp⟩
  · obtain ⟨createdAt, hc, rfl⟩ := Option.map_eq_some'.mp h
    exact .inr ⟨‹_›, createdAt, hc, hp⟩

theorem deadlineOf_eq_none {inv : WorkflowInvocation} (h : deadlineOf inv = none) :
    inv.deadline = none ∧ inv.createdAt = none := by
  unfold deadlineOf at h
  split at h
  · cases h
  · exact ⟨‹_›, Option.map_eq_none'.mp h⟩

/-- The completion `(id, output, outputHeaders)` is what `Eval`, reading the
clock at `now`, makes of the snapshot `inv`: a snapshot of invocation `id`,
with its workflow, not terminal, within its deadline at `now`, in which every
task has a succeeded run, and with the output and output headers of the run
of the workflow's output task, or nil when it sets none. -/
def Completes (now : Time) (completion : String × Option TypedValue × Option TypedValue)
    (inv : WorkflowInvocation) : Prop :=
  inv.id = completion.1 ∧ ∃ wf, inv.workflow = some wf ∧ inv.status.finished = false ∧
    DeadlineAt inv (¬ · < now) ∧ everyRun TaskStatus.successful inv = true ∧
    completion.2 = if wf.outputTask.length ≠ 0 then
        ((inv.taskRuns.lookup wf.outputTask).bind TaskRun.output,
          (inv.taskRuns.lookup wf.outputTask).bind TaskRun.outputHeaders)
      else (none, none)

/-- The reasons for which `Eval`, reading the clock at `now`, fails the
invocation of the snapshot `inv` with the error `err`, each with the checks
it passed before.  The error budget is not among them: the controller's
`errorCount` stays `0`. -/
inductive FailReason (scheduler : Scheduler) (now : Time) (inv : WorkflowInvocation) :
    String → Prop
  | noWorkflow : inv.workflow = none →
      FailReason scheduler now inv "workflow is not present in the invocation"
  | noDeadline : inv.workflow.isSome → inv.status.finished = false → inv.deadline = none →
      inv.createdAt = none → FailReason scheduler now inv "failed to read deadline and createdAt"
  | deadlineExceeded : inv.workflow.isSome → inv.status.finished = false →
      DeadlineAt inv (· < now) → FailReason scheduler now inv "deadline exceeded"
  | tasksFailed : inv.workflow.isSome → inv.status.finished = false →
      DeadlineAt inv (¬ · < now) → everyRun TaskStatus.finished inv = true →
      everyRun TaskStatus.successful inv = false →
      FailReason scheduler now inv "one or more tasks in the workflow have failed"
  | aborted (scheduled : Finset String) (schedule : Schedule) (abort : AbortAction) :
      inv.workflow.isSome → inv.status.finished = false → DeadlineAt inv (¬ · < now) →
      everyRun TaskStatus.finished inv = false →
      scheduler.evaluate inv scheduled = .ok schedule → schedule.abort = some abort →
      FailReason scheduler now inv abort.reason

/-- What a fail or success closure stands on: a snapshot of its invocation
that `Eval` fails for that reason, or completes with that output, at one of
the clock readings `times`. -/
def Apply.Backed (scheduler : Scheduler) (times : List Time) : Apply → Prop
  | .fail invocationID err =>
    ∃ inv, inv.id = invocationID ∧ ∃ now ∈ times, FailReason scheduler now inv err
  | .complete invocationID output outputHeaders =>
    ∃ inv, ∃ now ∈ times, Completes now (invocationID, output, outputHeaders) inv
  | .prewarm _ _ | .run _ _ => True

/-- What a call of `Fail` or `Complete` stands on, as for the closures. -/
def Effect.Backed (scheduler : Scheduler) (times : List Time) : Effect → Prop
  | .fail invocationID err => (Apply.fail invocationID err).Backed scheduler times
  | .complete invocationID output outputHeaders =>
    (Apply.complete invocationID output outputHeaders).Backed scheduler times
  | _ => True

/-- More clock readings back what fewer do. -/
theorem Apply.Backed.mono {times times' : List Time} {a : Apply}
    (h : a.Backed scheduler times) (hsub : times ⊆ times') : a.Backed scheduler times' := by
  cases a with
  | fail =>
    obtain ⟨inv, hid, now, hnow, hr⟩ := h
    exact ⟨inv, hid, now, hsub hnow, hr⟩
  | complete =>
    obtain ⟨inv, now, hnow, hc⟩ := h
    exact ⟨inv, now, hsub hnow, hc⟩
  | prewarm | run => trivial

theorem Effect.Backed.mono {times times' : List Time} {e : Effect}
    (h : e.Backed scheduler times) (hsub : times ⊆ times') : e.Backed scheduler times' := by
  cases e with
  | fail id err => exact Apply.Backed.mono (show (Apply.fail id err).Backed scheduler _ from h) hsub
  | complete id output outputHeaders =>
    exact Apply.Backed.mono
      (show (Apply.complete id output outputHeaders).Backed scheduler _ from h) hsub
  | prepare | invoke | invoked => trivial

/-- A job that `Eval` returns with, from a controller that has counted no
error, stands on the snapshot of the event at the clock reading of the
call. -/
theorem evalChecks_backed {ev : Event} {env : EvalEnv} {c : InvocationController}
    {result : Result} {task : ExecTask} {times : List Time} (herr : c.errorCount = 0)
    (htimes : env.now ∈ times)
    (h : evalChecks scheduler c ev env = .returned result (some task)) :
    task.apply.Backed scheduler times := by
  unfold evalChecks at h
  split at h
  · cases h
  rename_i inv _
  by_cases hid : inv.id = c.invocationID
  swap
  · rw [if_pos hid] at h
    cases h
  rw [if_neg (not_not.mpr hid)] at h
  by_cases hwf : inv.workflow.isNone
  · rw [if_pos hwf] at h
    cases h
    exact ⟨inv, rfl, _, htimes, .noWorkflow (Option.isNone_iff_eq_none.mp hwf)⟩
  rw [if_neg hwf] at h
  obtain ⟨wf, hw⟩ : ∃ wf, inv.workflow = some wf :=
    Option.isSome_iff_exists.mp (Option.isSome_iff_ne_none.mpr (by simpa using hwf))
  have hsome : inv.workflow.isSome := by simp [hw]
  by_cases hfin : inv.status.finished
  · rw [if_pos hfin] at h
    cases h
  rw [if_neg hfin] at h
  have hlive : inv.status.finished = false := by simpa using hfin
  split at h
  · cases h
    obtain ⟨hd, hc⟩ := deadlineOf_eq_none ‹_›
    exact ⟨inv, rfl, _, htimes, .noDeadline hsome hlive hd hc⟩
  rename_i deadline hdl
  split_ifs at h with hnow hcount hall
  · cases h
    exact ⟨inv, rfl, _, htimes,
      .deadlineExceeded hsome hlive (deadlineAt_of_deadlineOf hdl hnow)⟩
  · omega
  · -- every task has finished: the success job, or the fail job
    unfold onFinished at h
    rw [determineTaskOutput_eq] at h
    by_cases hsucc : everyRun TaskStatus.successful inv
    · simp only [hsucc, if_true, Checked.returned.injEq, Option.some.injEq] at h
      obtain ⟨-, rfl⟩ := h
      exact ⟨inv, _, htimes, rfl, wf, hw, hlive, deadlineAt_of_deadlineOf hdl hnow, hsucc,
        finalOutput_of_workflow hw⟩
    · rw [if_neg hsucc] at h
      cases h
      exact ⟨inv, rfl, _, htimes, .tasksFailed hsome hlive (deadlineAt_of_deadlineOf hdl hnow)
        (by rwa [allTasksFinished_eq] at hall) (by simpa using hsucc)⟩
  · -- the scheduler's answer
    unfold onSchedule at h
    split at h
    · cases h
    · rename_i schedule hsched
      split at h
      · rename_i abort habort
        cases h
        exact ⟨inv, rfl, _, htimes, .aborted _ schedule abort hsome hlive
          (deadlineAt_of_deadlineOf hdl hnow) (by simpa [allTasksFinished_eq] using hall) hsched
          habort⟩
      · cases h

/-- A closure's calls stand on what the closure stands on. -/
theorem applyEffects_backed (frames : Nat → Option PrepareTaskAction) {a : Apply}
    {times : List Time} (h : a.Backed scheduler times) :
    ∀ e ∈ applyEffects frames a, e.Backed scheduler times := by
  intro e he
  cases a with
  | fail | complete => simp_all [applyEffects, Effect.Backed]
  | prewarm inv frame =>
    simp only [applyEffects] at he
    split at he
    · split_ifs at he <;> simp_all [Effect.Backed]
    · cases he
  | run => cases he

/-- The controller has counted no error, and every fail and completion that
a job holds or that the log records stands on a snapshot at one of the
clock readings of the run. -/
structure Decided (scheduler : Scheduler) (s : Sys Scope) : Prop where
  errorCount : s.ctrl.errorCount = 0
  jobs : ∀ job ∈ s.jobs, job.task.apply.Backed scheduler s.evalTimes
  log : ∀ e ∈ s.log, e.Backed scheduler s.evalTimes

/-- A job queued after a `Submit` was queued before, or is the one submitted. -/
theorem mem_submit_jobs {s : Sys Scope} {task : ExecTask} {accepted : Bool} {job : Job}
    (h : job ∈ (s.submit task accepted).jobs) : job ∈ s.jobs ∨ job = ⟨task, none⟩ := by
  cases accepted <;> simp_all

/-- Submitting a job that stands on a snapshot keeps the invariant. -/
theorem Decided.submit {s : Sys Scope} (h : Decided scheduler s) {task : ExecTask}
    (htask : task.apply.Backed scheduler s.evalTimes) (accepted : Bool) :
    Decided scheduler (s.submit task accepted) := by
  refine ⟨by simpa using h.errorCount, fun job hjob => ?_, fun e he => ?_⟩ <;>
    rw [Sys.submit_evalTimes]
  · rcases mem_submit_jobs hjob with hjob | rfl
    · exact h.jobs job hjob
    · exact htask
  · exact h.log e (by simpa using he)

/-- A new clock reading keeps the invariant. -/
theorem Decided.readClock {s : Sys Scope} (h : Decided scheduler s) (now : Time) :
    Decided scheduler (s.readClock now) :=
  ⟨h.errorCount, fun job hjob => (h.jobs job hjob).mono (List.subset_append_left _ _),
    fun e he => (h.log e he).mono (List.subset_append_left _ _)⟩

/-- Every step keeps the invariant. -/
theorem decided_step {s s' : Sys Scope} (h : Decided scheduler s)
    (hstep : Step scheduler E s s') : Decided scheduler s' := by
  cases hstep with
  | @returned ev env accepted _ result job hpc hchk =>
    cases job with
    | none => exact h.readClock env.now
    | some task =>
      exact (h.readClock env.now).submit (evalChecks_backed h.errorCount
        (List.mem_append_right _ (List.mem_singleton_self _)) hchk) accepted
  | @scheduled ev env _ inv schedule hpc hchk =>
    exact ⟨h.errorCount, (h.readClock env.now).jobs, (h.readClock env.now).log⟩
  | prewarm accepted hpc | submitRun accepted hpc =>
    refine Decided.submit ?_ ?_ accepted
    · exact ⟨by simpa using h.errorCount, h.jobs, h.log⟩
    · trivial
  | @apply pre post _ task hjobs hrun =>
    refine ⟨h.errorCount, fun job hjob => h.jobs job (mem_of_mem_pre_post hjobs hjob),
      fun e he => ?_⟩
    rcases List.mem_append.mp he with he | he
    · exact h.log e he
    · exact applyEffects_backed s.frames
        (h.jobs _ (hjobs ▸ List.mem_append_right pre (List.mem_cons_self _ post))) e he
  | @execStart pre post _ task inv taskID hjobs happly =>
    rcases Sys.execStart_cases E s pre post task inv taskID with ⟨_, he⟩ | ⟨spec, _, he⟩ <;>
      rw [he]
    · exact ⟨h.errorCount, fun job hjob => h.jobs job (mem_of_mem_pre_post hjobs hjob), h.log⟩
    · refine ⟨h.errorCount, fun job hjob => ?_, fun e he => ?_⟩
      · rcases List.mem_cons.mp (List.perm_middle.mem_iff.mp hjob) with rfl | hjob
        · simp [happly, Apply.Backed]
        · exact h.jobs job (mem_of_mem_pre_post hjobs hjob)
      · rcases List.mem_append.mp he with he | he
        · exact h.log e he
        · simp [List.mem_singleton.mp he, Effect.Backed]
  | execFinish pre post succeeded transformed hjobs happly =>
    refine ⟨by simpa using h.errorCount,
      fun job hjob => h.jobs job (mem_of_mem_pre_post hjobs hjob), fun e he => ?_⟩
    rcases List.mem_append.mp he with he | he
    · exact h.log e he
    · simp [List.mem_singleton.mp he, Effect.Backed]
  | finish | other => exact ⟨h.errorCount, h.jobs, h.log⟩
  | record => exact ⟨by simpa using h.errorCount, h.jobs, h.log⟩

theorem Decided.of_reachable {s : Sys Scope} (hs : Reachable scheduler E s) :
    Decided scheduler s := by
  induction hs with
  | init => exact ⟨rfl, by simp [Sys.init], by simp [Sys.init]⟩
  | step _ hstep ih => exact decided_step ih hstep

/-- A run of the task `t` on the snapshot `inv` stands on a schedule: asked
about `inv`, the scheduler answered a schedule with a run action for `t`. -/
def RunScheduled (scheduler : Scheduler) (inv : WorkflowInvocation) (t : String) : Prop :=
  ∃ scheduled schedule, scheduler.evaluate inv scheduled = .ok schedule ∧
    t ∈ schedule.runTasks.map RunTaskAction.taskID

/-- The call of `Eval` in progress stands on the scheduler: its schedule is an
answer of the scheduler for its snapshot, and the run actions it has left
are the schedule's. -/
def EvalPc.Scheduled (scheduler : Scheduler) : EvalPc → Prop
  | .idle => True
  | .prewarm inv schedule _ _ => ∃ scheduled, scheduler.evaluate inv scheduled = .ok schedule
  | .submit inv schedule rest =>
    (∃ scheduled, scheduler.evaluate inv scheduled = .ok schedule) ∧
      ∀ a ∈ rest, a ∈ schedule.runTasks

/-- The call of `Eval` in progress, every run job and every `Invoke` in the
log stand on a schedule.  An `Invoke` is of the task found under the run's key
in its snapshot, with the task's resolved function. -/
structure Scheduled (scheduler : Scheduler) (s : Sys Scope) : Prop where
  pc : s.pc.Scheduled scheduler
  jobs : ∀ job ∈ s.jobs, ∀ inv t, job.task.apply = .run inv t → RunScheduled scheduler inv t
  log : ∀ spec, Effect.invoke spec ∈ s.log → ∃ inv t task, RunScheduled scheduler inv t ∧
    inv.tasks.lookup t = some task ∧ task.fnRef = some spec.fnRef ∧ spec.taskID = task.id ∧
    spec.invocationID = inv.id

/-- Queuing a job keeps the invariant when the job, if a run job, stands on a
schedule. -/
theorem Scheduled.submit {s : Sys Scope} (h : Scheduled scheduler s) {task : ExecTask}
    (htask : ∀ inv t, task.apply = .run inv t → RunScheduled scheduler inv t) (accepted : Bool) :
    Scheduled scheduler (s.submit task accepted) :=
  ⟨by simpa using h.pc,
    fun job hjob => (mem_submit_jobs hjob).elim (h.jobs job) fun he => he ▸ htask,
    by simpa using h.log⟩

/-- A step that keeps the loop position, takes jobs out, and logs no `Invoke`
keeps the invariant. -/
theorem Scheduled.of_remove {s s' : Sys Scope} (h : Scheduled scheduler s) (hpc : s'.pc = s.pc)
    (hjobs : ∀ job ∈ s'.jobs, job ∈ s.jobs) (hlog : ∀ spec, Effect.invoke spec ∈ s'.log →
      Effect.invoke spec ∈ s.log) : Scheduled scheduler s' :=
  ⟨hpc ▸ h.pc, fun job hjob => h.jobs job (hjobs job hjob),
    fun spec hspec => h.log spec (hlog spec hspec)⟩

/-- Every step keeps the invariant: `Eval` hands out only the scheduler's run
actions, and a run job invokes only the task of its run. -/
theorem scheduled_step {s s' : Sys Scope} (h : Scheduled scheduler s)
    (hstep : Step scheduler E s s') : Scheduled scheduler s' := by
  cases hstep with
  | @returned ev env accepted _ result job hpc hchk =>
    have hsound := @evalChecks_sound scheduler s.ctrl ev env
    rw [hchk] at hsound
    have h' : Scheduled scheduler (s.readClock env.now) := ⟨h.pc, h.jobs, h.log⟩
    cases job with
    | none => exact h'
    | some task =>
      refine h'.submit (fun inv t hrun => ?_) accepted
      simpa [hrun, Apply.runTaskID] using (hsound task rfl).1
  | @scheduled ev env _ inv schedule hpc hchk =>
    have hsound := @evalChecks_sound scheduler s.ctrl ev env
    rw [hchk] at hsound
    exact ⟨⟨_, hsound.2⟩, h.jobs, h.log⟩
  | @prewarm accepted _ inv schedule frame action rest hpc =>
    have hp := h.pc
    rw [hpc] at hp
    have h' : Scheduled scheduler
        { s with pc := .prewarm inv schedule frame rest,
                 frames := Function.update s.frames frame (some action) } :=
      ⟨hp, h.jobs, h.log⟩
    exact h'.submit (fun _ _ hrun => by simp [prewarmTask] at hrun) accepted
  | @record _ inv schedule frame hpc =>
    have hp := h.pc
    rw [hpc] at hp
    exact ⟨And.intro hp fun _ ha => ha, h.jobs, h.log⟩
  | @submitRun accepted _ inv schedule action rest hpc =>
    have hp := h.pc
    rw [hpc] at hp
    obtain ⟨⟨scheduled, heval⟩, hrest⟩ := hp
    have h' : Scheduled scheduler
        { s with pc := .submit inv schedule rest,
                 ctrl := submitRun accepted s.ctrl action.taskID } :=
      ⟨And.intro ⟨scheduled, heval⟩ fun a ha => hrest a (List.mem_cons_of_mem _ ha), h.jobs, h.log⟩
    refine h'.submit (fun inv' t hrun => ?_) accepted
    obtain ⟨rfl, rfl⟩ : inv = inv' ∧ action.taskID = t := by simpa [runTask] using hrun
    exact ⟨scheduled, schedule, heval,
      List.mem_map_of_mem _ (hrest action (List.mem_cons_self _ _))⟩
  | finish hpc => exact ⟨trivial, h.jobs, h.log⟩
  | @apply pre post _ task hjobs hrun =>
    refine h.of_remove rfl (fun job hjob => mem_of_mem_pre_post hjobs hjob) fun spec hspec => ?_
    refine (List.mem_append.mp hspec).resolve_right fun he => ?_
    simpa [Effect.isInvoke] using (applyEffects_not_invoke s.frames task.apply _ he).1
  | @execStart pre post _ task inv taskID hjobs happly =>
    have hjob : ⟨task, none⟩ ∈ s.jobs := hjobs ▸ List.mem_append_right pre (List.mem_cons_self _ _)
    unfold Sys.execStart
    split
    · exact h.of_remove rfl (fun job hjob => mem_of_mem_pre_post hjobs hjob) fun _ h => h
    · rename_i spec store heq
      refine ⟨h.pc, fun job hjob' => ?_, fun spec' hspec => ?_⟩
      · rcases List.mem_cons.mp (List.perm_middle.mem_iff.mp hjob') with rfl | hjob'
        · exact h.jobs ⟨task, none⟩ hjob
        · exact h.jobs job (mem_of_mem_pre_post hjobs hjob')
      · rcases List.mem_append.mp hspec with hspec | hspec
        · exact h.log spec' hspec
        · obtain rfl : spec' = spec := by simpa using hspec
          obtain ⟨task', hlookup, hfn, hid, hinv⟩ := execTaskStart_ok E (by rw [heq])
          exact ⟨inv, taskID, task', h.jobs _ hjob inv taskID happly, hlookup, hfn, hid, hinv⟩
  | execFinish pre post succeeded transformed hjobs happly =>
    exact h.of_remove rfl (fun job hjob => mem_of_mem_pre_post hjobs hjob) fun spec hspec =>
      (List.mem_append.mp hspec).resolve_right (by simp)
  | other => exact ⟨h.pc, h.jobs, h.log⟩

theorem Scheduled.of_reachable {s : Sys Scope} (hs : Reachable scheduler E s) :
    Scheduled scheduler s := by
  induction hs with
  | init => exact ⟨trivial, by simp [Sys.init], by simp [Sys.init]⟩
  | step _ hstep ih => exact scheduled_step ih hstep

/-- A run job's return from `Invoke` when the Task API has run `execTask`'s
post-transformer on the run `ti` of `task`: `execTask`'s bookkeeping, with the
store the transformer leaves. -/
def Sys.finishRun (O : OutputEngine Scope) (s : Sys Scope) (pre post : List Job)
    (inv : WorkflowInvocation) (taskID : String) (task : Task) (ti : TaskRun) (succeeded : Bool) :
    Sys Scope :=
  { s with jobs := pre ++ post, ctrl := execTaskFinish s.ctrl taskID succeeded,
           store := (transformTaskRunOutputs O s.store inv task ti).2.2,
           log := s.log ++ [.invoked taskID succeeded] }

/-- The concrete return refines the `execFinish` step: whatever the run and
the engine, the store the post-transformer leaves is one the step allows. -/
theorem step_finishRun (O : OutputEngine Scope) {s : Sys Scope} {pre post : List Job}
    {job : ExecTask} {spec : TaskInvocationSpec} {inv : WorkflowInvocation} {taskID : String}
    (hjobs : s.jobs = pre ++ ⟨job, some spec⟩ :: post) (happly : job.apply = .run inv taskID)
    (task : Task) (ti : TaskRun) (succeeded : Bool) :
    Step scheduler E s (s.finishRun O pre post inv taskID task ti succeeded) := by
  obtain ⟨transformed, h⟩ := transformTaskRunOutputs_ownWrite O s.store inv task ti
  rw [Sys.finishRun, h]
  exact .execFinish pre post succeeded transformed hjobs happly

end FissionWorkflows.Controller
