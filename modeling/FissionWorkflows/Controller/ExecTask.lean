import FissionWorkflows.Controller.Eval

/-!
# A run job up to the Task API

`InvocationController.execTask` and `resolveInputs` of
`pkg/controller/invocation.go`.  `execTask` looks the task up, checks that
its function reference is resolved, resolves its inputs, and only then calls
the Task API's `Invoke`; after a successful `Invoke` it deletes the task from
`sheduledTasks`.  The part before `Invoke` is `execTaskStart`, a function of
the invocation snapshot and of the shared expression store; the part after
is `execTaskFinish`.  `FissionWorkflows.Controller.System` runs the two as
separate steps, with other jobs in between.

The expression engine (`expr.NewScope`, `expr.Resolve`, the scope's task
fields) and `typedvalues.Prioritize` are not in the source; `ExprEngine`
takes them as parameters.  `resolveInputs` stores the new scope under the
invocation's id before its loop writes the resolved inputs into that scope;
the store holds a pointer, so the store ends up holding the scope as the loop
leaves it, which is what `resolveInputs` writes here.  The panic of
`typedvalues.MustUnwrap` on a value that does not unwrap is not modelled.

`CannotRun` gathers the three reasons for which `execTaskStart` gives up, and
`execTaskStart_of_cannotRun` shows that each of them ends it with an error
before `Invoke`.  `resolveEach_append_error` is the loop of `resolveInputs`
in full: the first input that fails, in priority order, gives the error,
whatever follows it.
-/

namespace FissionWorkflows.Controller

variable {Scope : Type}

/-- `expr.Store`: the process-wide map from invocation id to scope. -/
structure Store (Scope : Type) where
  get : String → Option Scope

/-- `Store.Set`. -/
def Store.set (store : Store Scope) (id : String) (scope : Scope) : Store Scope :=
  ⟨Function.update store.get id (some scope)⟩

@[simp] theorem Store.get_set_self (store : Store Scope) (id : String) (scope : Scope) :
    (store.set id scope).get id = some scope := by
  simp [Store.set]

@[simp] theorem Store.get_set_ne (store : Store Scope) {id id' : String} (scope : Scope)
    (h : id' ≠ id) : (store.set id scope).get id' = store.get id' := by
  simp [Store.set, h]

@[simp] theorem Store.set_set (store : Store Scope) (id : String) (scope scope' : Scope) :
    (store.set id scope).set id scope' = store.set id scope' := by
  simp [Store.set]

/-- The parts of the expression engine and of `typedvalues` that the
controller calls. -/
structure ExprEngine (Scope : Type) where
  /-- `expr.NewScope`: the scope of an invocation, below its parent's. -/
  newScope : Option Scope → WorkflowInvocation → Except String Scope
  /-- `expr.Resolve`: a typed value resolved in a scope, for a task. -/
  resolve : Scope → String → TypedValue → Except String TypedValue
  /-- `scope.Tasks[taskID].Inputs[key] = typedvalues.MustUnwrap(value)`. -/
  setInput : Scope → String → String → TypedValue → Scope
  /-- `typedvalues.Prioritize`: the inputs in the order they are resolved. -/
  prioritize : List (String × TypedValue) → List (String × TypedValue)

variable (E : ExprEngine Scope)

/-- The loop of `resolveInputs` over the prioritized inputs: each resolved
input goes into the result and into the scope, and the first failure ends
the loop. -/
def resolveEach (taskID : String) :
    Scope → List (String × TypedValue) → List (String × TypedValue) →
      Except String (List (String × TypedValue)) × Scope
  | scope, resolved, [] => (.ok resolved, scope)
  | scope, resolved, (key, val) :: rest =>
    match E.resolve scope taskID val with
    | .error err => (.error ("failed to resolve input field " ++ key ++ ": " ++ err), scope)
    | .ok value => resolveEach taskID (E.setInput scope taskID key value) (resolved ++ [(key, value)]) rest

/-- The scope a resolution starts from: the parent invocation's, when the
invocation has a parent and the store holds its scope. -/
def parentScope (store : Store Scope) (inv : WorkflowInvocation) : Option Scope :=
  if inv.parentId.length ≠ 0 then store.get inv.parentId else none

/-- `resolveInputs`: the resolved inputs or the first error, and the store
with the invocation's scope in it. -/
def resolveInputs (store : Store Scope) (inv : WorkflowInvocation) (taskID : String)
    (inputs : List (String × TypedValue)) :
    Except String (List (String × TypedValue)) × Store Scope :=
  match E.newScope (parentScope store inv) inv with
  | .error err => (.error ("failed to create scope for task '" ++ taskID ++ "': " ++ err), store)
  | .ok scope =>
    let loop := resolveEach E taskID scope [] (E.prioritize inputs)
    (loop.1, store.set inv.id loop.2)

/-- `types.NewTaskInvocationSpec` with the resolved inputs: what `execTask`
hands to the Task API. -/
structure TaskInvocationSpec where
  invocationID : String
  taskID : String
  fnRef : FnRef
  inputs : List (String × TypedValue)
  deriving DecidableEq

/-- `execTask` up to the call of the Task API's `Invoke`: the spec it invokes,
or the error it returns, and the store. -/
def execTaskStart (store : Store Scope) (inv : WorkflowInvocation) (taskID : String) :
    Except String TaskInvocationSpec × Store Scope :=
  match inv.tasks.lookup taskID with
  | none => (.error ("task '" ++ inv.id ++ "' could not be found"), store)
  | some task =>
    match task.fnRef with
    | none =>
      (.error ("no resolved task could be found for FunctionRef '" ++ task.spec.functionRef ++ "'"),
        store)
    | some fnRef =>
      if task.spec.inputs.length > 0 then
        match resolveInputs E store inv task.id task.spec.inputs with
        | (.error err, store') => (.error err, store')
        | (.ok inputs, store') => (.ok ⟨inv.id, task.id, fnRef, inputs⟩, store')
      else (.ok ⟨inv.id, task.id, fnRef, []⟩, store)

/-- `execTask` after `Invoke` has returned: the task leaves `sheduledTasks`
only when `Invoke` returned without error. -/
def execTaskFinish (c : InvocationController) (taskID : String) (succeeded : Bool) :
    InvocationController :=
  if succeeded then { c with sheduledTasks := c.sheduledTasks.erase taskID } else c

@[simp] theorem execTaskFinish_invocationID (c : InvocationController) (taskID : String)
    (succeeded : Bool) : (execTaskFinish c taskID succeeded).invocationID = c.invocationID := by
  unfold execTaskFinish; split <;> rfl

@[simp] theorem execTaskFinish_errorCount (c : InvocationController) (taskID : String)
    (succeeded : Bool) : (execTaskFinish c taskID succeeded).errorCount = c.errorCount := by
  unfold execTaskFinish; split <;> rfl

/-- A finished run takes at most its own task out of `sheduledTasks`. -/
theorem execTaskFinish_sheduledTasks_subset (c : InvocationController) (taskID : String)
    (succeeded : Bool) : (execTaskFinish c taskID succeeded).sheduledTasks ⊆ c.sheduledTasks := by
  unfold execTaskFinish
  split
  · exact Finset.erase_subset _ _
  · exact subset_rfl

theorem mem_execTaskFinish_sheduledTasks {c : InvocationController} {taskID t : String}
    (succeeded : Bool) (ht : t ∈ c.sheduledTasks) (hne : t ≠ taskID) :
    t ∈ (execTaskFinish c taskID succeeded).sheduledTasks := by
  unfold execTaskFinish
  split
  · exact Finset.mem_erase.mpr ⟨hne, ht⟩
  · exact ht

/-! ## The store -/

theorem Store.isSome_set {store : Store Scope} {id id' : String} (scope : Scope)
    (h : (store.get id).isSome) : ((store.set id' scope).get id).isSome := by
  by_cases hid : id = id'
  · subst hid
    simp
  · simpa [hid] using h

/-- `resolveInputs` writes at most the invocation's own scope. -/
theorem resolveInputs_store (store : Store Scope) (inv : WorkflowInvocation) (taskID : String)
    (inputs : List (String × TypedValue)) :
    (resolveInputs E store inv taskID inputs).2 = store ∨
      ∃ scope, (resolveInputs E store inv taskID inputs).2 = store.set inv.id scope := by
  unfold resolveInputs
  split
  · exact .inl rfl
  · exact .inr ⟨_, rfl⟩

/-- `execTask` up to `Invoke` writes at most the invocation's own scope. -/
theorem execTaskStart_store (store : Store Scope) (inv : WorkflowInvocation) (taskID : String) :
    (execTaskStart E store inv taskID).2 = store ∨
      ∃ scope, (execTaskStart E store inv taskID).2 = store.set inv.id scope := by
  unfold execTaskStart
  split
  · exact .inl rfl
  · rename_i task _
    split
    · exact .inl rfl
    · split
      · have h := resolveInputs_store E store inv task.id task.spec.inputs
        split <;> rename_i heq <;> simpa [heq] using h
      · exact .inl rfl

/-- The spec `execTask` invokes is that of the task it finds under its key in
the snapshot, with the task's resolved function. -/
theorem execTaskStart_ok {store : Store Scope} {inv : WorkflowInvocation} {taskID : String}
    {spec : TaskInvocationSpec} (h : (execTaskStart E store inv taskID).1 = .ok spec) :
    ∃ task, inv.tasks.lookup taskID = some task ∧ task.fnRef = some spec.fnRef ∧
      spec.taskID = task.id ∧ spec.invocationID = inv.id := by
  unfold execTaskStart at h
  split at h
  · cases h
  rename_i task htask
  split at h
  · cases h
  rename_i fnRef hfn
  split at h
  · split at h
    · cases h
    · cases h
      exact ⟨task, htask, hfn, rfl, rfl⟩
  · cases h
    exact ⟨task, htask, hfn, rfl, rfl⟩

/-- The spec `execTask` invokes is for the snapshot's invocation. -/
theorem execTaskStart_invocationID {store : Store Scope} {inv : WorkflowInvocation}
    {taskID : String} {spec : TaskInvocationSpec}
    (h : (execTaskStart E store inv taskID).1 = .ok spec) : spec.invocationID = inv.id := by
  unfold execTaskStart at h
  split at h
  · cases h
  · split at h
    · cases h
    · split at h
      · split at h
        · cases h
        · cases h
          rfl
      · cases h
        rfl

/-! ## Where `execTask` gives up -/

/-- A failure at any position of the priority order ends the loop with that
input's error, whatever follows it. -/
theorem resolveEach_append_error {taskID : String} {scope scope' : Scope}
    {resolved resolved' : List (String × TypedValue)} {pre rest : List (String × TypedValue)}
    {key err : String} {val : TypedValue}
    (hpre : resolveEach E taskID scope resolved pre = (.ok resolved', scope'))
    (hval : E.resolve scope' taskID val = .error err) :
    (resolveEach E taskID scope resolved (pre ++ (key, val) :: rest)).1 =
      .error ("failed to resolve input field " ++ key ++ ": " ++ err) := by
  induction pre generalizing scope resolved with
  | nil =>
    simp only [resolveEach, Prod.mk.injEq, Except.ok.injEq] at hpre
    obtain ⟨-, rfl⟩ := hpre
    simp [resolveEach, hval]
  | cons input pre ih =>
    obtain ⟨k, v⟩ := input
    simp only [resolveEach, List.cons_append] at hpre ⊢
    split at hpre
    · simp at hpre
    · exact ih hpre

/-- An engine over one-point scopes that resolves every static value to
itself and fails on every expression. -/
def staticEngine : ExprEngine Unit :=
  ⟨fun _ _ => .ok (),
    fun _ _ value => match value with
      | .expression source => .error ("cannot resolve " ++ source)
      | value => .ok value,
    fun _ _ _ _ => (), id⟩

theorem resolveEach_append_error_static :
    resolveEach staticEngine "a" () [] [("x", .value "string" [])] =
        (.ok [("x", .value "string" [])], ()) ∧
      staticEngine.resolve () "a" (.expression "$.y") = .error "cannot resolve $.y" ∧
      (resolveEach staticEngine "a" () [] ([("x", .value "string" [])] ++
          ("y", .expression "$.y") :: [("z", .value "string" [])])).1 =
        .error "failed to resolve input field y: cannot resolve $.y" :=
  ⟨rfl, rfl, resolveEach_append_error staticEngine rfl rfl⟩

/-- The reasons for which `execTask` gives up before the Task API: the task
is not in the invocation, its function reference is unresolved, or
`resolveInputs` fails on its inputs. -/
inductive CannotRun (store : Store Scope) (inv : WorkflowInvocation) (taskID : String) : Prop
  | missing : inv.tasks.lookup taskID = none → CannotRun store inv taskID
  | unresolved (task : Task) :
      inv.tasks.lookup taskID = some task → task.fnRef = none → CannotRun store inv taskID
  | inputFails (task : Task) (fnRef : FnRef) (err : String) (store' : Store Scope) :
      inv.tasks.lookup taskID = some task → task.fnRef = some fnRef →
      task.spec.inputs ≠ [] →
      resolveInputs E store inv task.id task.spec.inputs = (.error err, store') →
      CannotRun store inv taskID

/-- For each reason in `CannotRun`, `execTask` returns an error before it
calls the Task API. -/
theorem execTaskStart_of_cannotRun {store : Store Scope} {inv : WorkflowInvocation}
    {taskID : String} (h : CannotRun E store inv taskID) :
    ∃ err, (execTaskStart E store inv taskID).1 = .error err := by
  cases h with
  | missing hmiss => simp [execTaskStart, hmiss]
  | unresolved task htask hfn => simp [execTaskStart, htask, hfn]
  | inputFails task fnRef err store' htask hfn hin hres =>
    have hlen : task.spec.inputs.length > 0 := List.length_pos.mpr hin
    simp [execTaskStart, htask, hfn, hlen, hres]

/-- An engine over one-point scopes that resolves every value to itself and
keeps the inputs in their order. -/
def identityEngine : ExprEngine Unit :=
  ⟨fun _ _ => .ok (), fun _ _ value => .ok value, fun _ _ _ _ => (), id⟩

end FissionWorkflows.Controller
