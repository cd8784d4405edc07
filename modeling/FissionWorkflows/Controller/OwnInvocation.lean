import FissionWorkflows.Controller.System

/-!
# A controller acts on its own invocation only

Two facts about every reachable state of a controller with its jobs
(`FissionWorkflows.Controller.System`).

* No step writes the controller's key or its `errorCount` (`step_ctrl`).  So
  `errorCount` is `0` in every reachable state, and the error budget check
  of `Eval` never fires (`reachable_errorCount`).
* Every call of the controller's jobs into the API layer that names an
  invocation (a fail, a completion, an `Invoke`) names the controller's own
  (`reachable_ownCalls`).  `Eval` hands out jobs only once the snapshot has
  passed its id check, and a run job invokes the spec of the snapshot it was
  made from.  `OwnCalls` is the invariant behind it, over the loop position,
  the jobs and the calls made so far.
-/

namespace FissionWorkflows.Controller

variable {Scope : Type} {scheduler : Scheduler} {E : ExprEngine Scope}

/-- The invocation a call into the API layer names, if it names one. -/
def Effect.invocationID? : Effect → Option String
  | .fail invocationID _ => some invocationID
  | .complete invocationID _ _ => some invocationID
  | .invoke spec => some spec.invocationID
  | .prepare _ _ => none
  | .invoked _ _ => none

/-- The snapshot the call of `Eval` in progress works on. -/
def EvalPc.invocation? : EvalPc → Option WorkflowInvocation
  | .idle => none
  | .prewarm inv _ _ _ => some inv
  | .submit inv _ _ => some inv

/-! ## The controller's key and error count -/

@[simp] theorem Sys.execStart_ctrl (s : Sys Scope) (pre post : List Job) (task : ExecTask)
    (inv : WorkflowInvocation) (taskID : String) :
    (s.execStart E pre post task inv taskID).ctrl = s.ctrl := by
  rcases Sys.execStart_cases E s pre post task inv taskID with ⟨_, he⟩ | ⟨_, _, he⟩ <;> rw [he]

/-- No step writes the controller's key or its error count. -/
theorem step_ctrl {s s' : Sys Scope} (hstep : Step scheduler E s s') :
    s'.ctrl.invocationID = s.ctrl.invocationID ∧ s'.ctrl.errorCount = s.ctrl.errorCount := by
  cases hstep with
  | returned ev env accepted hpc hchk => rename_i job; cases job <;> simp
  | scheduled | prewarm | record | submitRun | finish | apply | execFinish | other => simp
  | execStart => simp

/-- In every reachable state the error count is `0`: the check of `Eval`
against the error budget never fires. -/
theorem reachable_errorCount {s : Sys Scope} (hs : Reachable scheduler E s) :
    s.ctrl.errorCount = 0 := by
  induction hs with
  | init => rfl
  | step _ hstep ih => rw [(step_ctrl hstep).2, ih]

theorem reachable_errorCount_afterErr :
    ∃ s : Sys Unit, Reachable runAllScheduler identityEngine s ∧
      s.log = [.fail "inv" "deadline exceeded"] ∧ s.ctrl.errorCount = 0 := by
  obtain ⟨s, hs, -, hlog, -⟩ := reachable_deadlineFailed
  exact ⟨s, hs, hlog, reachable_errorCount hs⟩

/-! ## The calls of the jobs -/

/-- The jobs, the call of `Eval` in progress and the calls made so far all
concern the controller's own invocation. -/
structure OwnCalls (s : Sys Scope) : Prop where
  pc : ∀ inv ∈ s.pc.invocation?, inv.id = s.ctrl.invocationID
  jobs : ∀ job ∈ s.jobs, job.task.apply.invocationID = s.ctrl.invocationID
  invoking : ∀ job ∈ s.jobs, ∀ spec ∈ job.invoking, spec.invocationID = s.ctrl.invocationID
  log : ∀ e ∈ s.log, ∀ id ∈ e.invocationID?, id = s.ctrl.invocationID

theorem applyEffects_invocationID (frames : Nat → Option PrepareTaskAction) (a : Apply) :
    ∀ e ∈ applyEffects frames a, ∀ id ∈ e.invocationID?, id = a.invocationID := by
  intro e he id hid
  cases a with
  | fail invocationID err | complete invocationID output outputHeaders =>
    rw [applyEffects, List.mem_singleton] at he
    subst he
    exact (Option.some.inj hid).symm
  | prewarm inv frame =>
    rw [applyEffects] at he
    split at he
    · split_ifs at he
      · rw [List.mem_singleton.mp he] at hid
        cases hid
      · cases he
    · cases he
  | run => cases he

/-- A step that keeps the controller's key, the jobs and the calls, and
leaves the loop on a snapshot of the controller's invocation, keeps the
invariant. -/
theorem OwnCalls.of_frame {s s' : Sys Scope} (h : OwnCalls s)
    (hpc : ∀ inv ∈ s'.pc.invocation?, inv.id = s.ctrl.invocationID)
    (hctrl : s'.ctrl.invocationID = s.ctrl.invocationID) (hjobs : s'.jobs = s.jobs)
    (hlog : s'.log = s.log) : OwnCalls s' := by
  refine ⟨?_, ?_, ?_, ?_⟩ <;> rw [hctrl]
  · exact hpc
  · rw [hjobs]; exact h.jobs
  · rw [hjobs]; exact h.invoking
  · rw [hlog]; exact h.log

/-- Submitting a job for the controller's invocation keeps the invariant. -/
theorem OwnCalls.submit {s : Sys Scope} (h : OwnCalls s) (task : ExecTask)
    (htask : task.apply.invocationID = s.ctrl.invocationID) (accepted : Bool) :
    OwnCalls (s.submit task accepted) := by
  unfold Sys.submit
  split
  · refine ⟨h.pc, fun job hjob => ?_, fun job hjob => ?_, h.log⟩ <;>
      rcases List.mem_append.mp hjob with hjob | hjob
    · exact h.jobs job hjob
    · simp_all
    · exact h.invoking job hjob
    · simp_all
  · exact h

/-- The jobs left when one is taken out of the middle. -/
theorem mem_of_mem_pre_post {jobs pre post : List Job} {job' : Job}
    (hjobs : jobs = pre ++ job' :: post) {job : Job} (h : job ∈ pre ++ post) : job ∈ jobs := by
  rw [hjobs]
  exact List.perm_middle.mem_iff.mpr (List.mem_cons_of_mem _ h)

/-- A step that keeps the loop position and the controller's key, takes a
job out, and makes only calls for the controller's invocation keeps the
invariant. -/
theorem OwnCalls.of_remove {s s' : Sys Scope} (h : OwnCalls s) {pre post : List Job} {job' : Job}
    (hjobs : s.jobs = pre ++ job' :: post) (hpc : s'.pc = s.pc)
    (hctrl : s'.ctrl.invocationID = s.ctrl.invocationID) (hjobs' : s'.jobs = pre ++ post)
    (hlog : ∀ e ∈ s'.log, e ∈ s.log ∨ ∀ id ∈ e.invocationID?, id = s.ctrl.invocationID) :
    OwnCalls s' := by
  refine ⟨?_, fun job hjob => ?_, fun job hjob => ?_, fun e he => ?_⟩ <;> rw [hctrl]
  · rw [hpc]; exact h.pc
  · exact h.jobs job (mem_of_mem_pre_post hjobs (hjobs' ▸ hjob))
  · exact h.invoking job (mem_of_mem_pre_post hjobs (hjobs' ▸ hjob))
  · exact (hlog e he).elim (h.log e) id

/-- A run job that passes its checks invokes the spec built from its own
snapshot, and a job that fails them ends: either way the invariant holds
after its part up to `Invoke`. -/
theorem OwnCalls.execStart {s : Sys Scope} (h : OwnCalls s) (E : ExprEngine Scope)
    {pre post : List Job} {task : ExecTask} {inv : WorkflowInvocation} {taskID : String}
    (hjobs : s.jobs = pre ++ ⟨task, none⟩ :: post) (happly : task.apply = .run inv taskID) :
    OwnCalls (s.execStart E pre post task inv taskID) := by
  have htask := h.jobs _ (hjobs ▸ List.mem_append_right pre (List.mem_cons_self _ post))
  rw [happly] at htask
  unfold Sys.execStart
  split
  · exact h.of_remove hjobs rfl rfl rfl fun e he => .inl he
  · rename_i spec store hstart
    have hspec : spec.invocationID = s.ctrl.invocationID :=
      (execTaskStart_invocationID E (congrArg Prod.fst hstart)).trans htask
    have hmid : ∀ job ∈ pre ++ ⟨task, some spec⟩ :: post,
        job = ⟨task, some spec⟩ ∨ job ∈ pre ++ post :=
      fun _ hjob => List.mem_cons.mp (List.perm_middle.mem_iff.mp hjob)
    refine ⟨h.pc, fun job hjob => ?_, fun job hjob => ?_, fun e he id hid => ?_⟩
    · rcases hmid job hjob with rfl | hjob
      · simpa [happly] using htask
      · exact h.jobs job (mem_of_mem_pre_post hjobs hjob)
    · rcases hmid job hjob with rfl | hjob
      · simpa using hspec
      · exact h.invoking job (mem_of_mem_pre_post hjobs hjob)
    · rcases List.mem_append.mp he with he | he
      · exact h.log e he id hid
      · simp_all [Effect.invocationID?]

/-- Every step keeps the invariant. -/
theorem ownCalls_step {s s' : Sys Scope} (h : OwnCalls s) (hstep : Step scheduler E s s') :
    OwnCalls s' := by
  cases hstep with
  | @returned ev env accepted _ result job hpc hchk =>
    have hsound := @evalChecks_sound scheduler s.ctrl ev env
    rw [hchk] at hsound
    have h' : OwnCalls (s.readClock env.now) := h.of_frame h.pc rfl rfl rfl
    cases job with
    | none => exact h'
    | some task => exact h'.submit task (hsound task rfl).2 accepted
  | @scheduled ev env _ inv schedule hpc hchk =>
    have hsound := @evalChecks_sound scheduler s.ctrl ev env
    rw [hchk] at hsound
    exact h.of_frame (by simpa [EvalPc.invocation?] using hsound.1) rfl rfl rfl
  | @prewarm accepted _ inv schedule frame action rest hpc =>
    have hinv : inv.id = s.ctrl.invocationID := h.pc inv (by simp [hpc, EvalPc.invocation?])
    refine (h.of_frame ?_ ?_ ?_ ?_).submit (prewarmTask inv action frame) ?_ accepted
    all_goals first | rfl | simpa [EvalPc.invocation?] using hinv
  | @record _ inv schedule frame hpc =>
    have hinv : inv.id = s.ctrl.invocationID := h.pc inv (by simp [hpc, EvalPc.invocation?])
    exact h.of_frame (by simpa [EvalPc.invocation?] using hinv) (by simp) rfl rfl
  | @submitRun accepted _ inv schedule action rest hpc =>
    have hinv : inv.id = s.ctrl.invocationID := h.pc inv (by simp [hpc, EvalPc.invocation?])
    refine (h.of_frame ?_ ?_ ?_ ?_).submit (runTask inv action.taskID) ?_ accepted
    all_goals first | rfl | (simp; done) |
      simpa [EvalPc.invocation?, runTask, Apply.invocationID] using hinv
  | finish hpc => exact h.of_frame (by simp [EvalPc.invocation?]) rfl rfl rfl
  | @apply pre post _ task hjobs hrun =>
    have htask := h.jobs _ (hjobs ▸ List.mem_append_right pre (List.mem_cons_self _ post))
    refine h.of_remove hjobs rfl rfl rfl fun e he => (List.mem_append.mp he).imp_right ?_
    exact fun he id hid => (applyEffects_invocationID s.frames _ e he id hid).trans htask
  | @execStart pre post _ task inv taskID hjobs happly => exact h.execStart E hjobs happly
  | @execFinish pre post succeeded transformed _ task spec inv taskID hjobs happly =>
    refine h.of_remove hjobs rfl (execTaskFinish_invocationID _ _ _) rfl fun e he =>
      (List.mem_append.mp he).imp_right fun he id hid => ?_
    rw [List.mem_singleton.mp he] at hid
    cases hid
  | other id scope hid => exact h.of_frame h.pc rfl rfl rfl

/-- Every reachable state has the invariant. -/
theorem OwnCalls.of_reachable {s : Sys Scope} (hs : Reachable scheduler E s) : OwnCalls s := by
  induction hs with
  | init => exact ⟨by simp [Sys.init, EvalPc.invocation?], by simp [Sys.init],
      by simp [Sys.init], by simp [Sys.init]⟩
  | step _ hstep ih => exact ownCalls_step ih hstep

/-- Over any run of a controller, every fail, completion and `Invoke` that
its jobs call is for the controller's own invocation. -/
theorem reachable_ownCalls {s : Sys Scope} (hs : Reachable scheduler E s) :
    ∀ e ∈ s.log, ∀ id ∈ e.invocationID?, id = s.ctrl.invocationID :=
  (OwnCalls.of_reachable hs).log

theorem reachable_ownCalls_invoking :
    ∃ s : Sys Unit, Reachable runAllScheduler identityEngine s ∧
      s.log = [.invoke invokedSpec] ∧ ∀ e ∈ s.log, ∀ id ∈ e.invocationID?, id = s.ctrl.invocationID := by
  obtain ⟨s, hs, -, -, -, -, hlog, -⟩ := reachable_invokingA
  exact ⟨s, hs, hlog, reachable_ownCalls hs⟩

end FissionWorkflows.Controller
