import FissionWorkflows.Controller.ExecTask

/-!
# The output transformer

`InvocationController.transformTaskRunOutputs`, `resolveOutput` and
`resolveOutputHeaders` of `pkg/controller/invocation.go`: the post-transformer
that `execTask` hands to the Task API's `Invoke`, which runs it on the task
run the function returned.  For a successful run it replaces the run's output
by the output the task's spec sets, resolved first when it is an expression,
and then does the same for the output headers.  An expression resolves in a
new scope of the invocation into which the task's current output (or output
headers) has been written; that scope is stored under the invocation's id.

The two stages run one after the other on the same run, and the first assigns
the output before the second resolves the headers:

* `transformTaskRunOutputs_fields`: the status never changes; on an error the
  output headers are as they were, and the output is either as it was or
  already replaced by the first stage; a successful run comes back with nil
  exactly when the spec's expressions resolve (`Resolves`), and then has each
  field replaced as its spec says (`Replaced`); any other run comes back as
  it was, with nil.  `headers_error_keeps_output` is a run whose output
  expression resolves and whose header expression fails: the error comes
  back with the new output in the run.
* `transformTaskRunOutputs_idempotent`: when the spec's expressions do not
  read the value they replace (`IgnoresCurrent`) and the parent scope stays
  fixed (`ParentFixed`), a second pass leaves the run as the first left it.
  `second_pass_rereads_output` is an expression that reads the task's own
  output, which the second pass applies again.
* `transformTaskRunOutputs_store`: the transformer writes at most the
  invocation's own scope, which is the store update that the `execFinish`
  step of `FissionWorkflows.Controller.System` allows.

`scope.Tasks[taskID]` is nil for a task the scope does not hold, and
`typedvalues.MustUnwrap` panics on a value that does not unwrap; neither
panic is modelled.
-/

namespace FissionWorkflows.Controller

variable {Scope : Type}

/-- The expression engine with the two writes the post-transformer makes into
a scope. -/
structure OutputEngine (Scope : Type) extends ExprEngine Scope where
  /-- `scope.Tasks[taskID].Output = typedvalues.MustUnwrap(output)`. -/
  setOutput : Scope → String → Option TypedValue → Scope
  /-- `scope.Tasks[taskID].OutputHeaders = typedvalues.MustUnwrap(outputHeaders)`. -/
  setOutputHeaders : Scope → String → Option TypedValue → Scope

variable (O : OutputEngine Scope)

/-- The body `resolveOutput` and `resolveOutputHeaders` share: a new scope of
the invocation, below its parent's, is stored under the invocation's id;
`set` writes the task's `current` value into it, and `expr` resolves there.
The store holds a pointer to the scope, so it sees that write. -/
def resolveWith (set : Scope → String → Option TypedValue → Scope)
    (current : Option TypedValue) (store : Store Scope) (inv : WorkflowInvocation)
    (taskID : String) (expr : TypedValue) : Except String TypedValue × Store Scope :=
  match O.newScope (parentScope store inv) inv with
  | .error err => (.error ("failed to create scope for task '" ++ taskID ++ "': " ++ err), store)
  | .ok scope =>
    let scope := set scope taskID current
    (O.resolve scope taskID expr, store.set inv.id scope)

/-- `resolveOutput`: `outputExpr` resolved with the run's output in the scope.
`task` is the run's `Spec.Task`. -/
def resolveOutput (store : Store Scope) (inv : WorkflowInvocation) (task : Task) (ti : TaskRun)
    (outputExpr : TypedValue) : Except String TypedValue × Store Scope :=
  resolveWith O O.setOutput ti.output store inv task.id outputExpr

/-- `resolveOutputHeaders`: `outputHeadersExpr` resolved with the run's output
headers in the scope. -/
def resolveOutputHeaders (store : Store Scope) (inv : WorkflowInvocation) (task : Task)
    (ti : TaskRun) (outputHeadersExpr : TypedValue) : Except String TypedValue × Store Scope :=
  resolveWith O O.setOutputHeaders ti.outputHeaders store inv task.id outputHeadersExpr

/-- One stage of `transformTaskRunOutputs`: the value `specValue` the task's
spec sets replaces the run's `current` one, after `resolve` when it is an
expression; a spec that sets none leaves `current`. -/
def transformValue
    (resolve : Store Scope → TypedValue → Except String TypedValue × Store Scope)
    (store : Store Scope) (current : Option TypedValue) :
    Option TypedValue → Except String (Option TypedValue) × Store Scope
  | none => (.ok current, store)
  | some (.expression source) =>
    match resolve store (.expression source) with
    | (.error err, store) => (.error err, store)
    | (.ok tv, store) => (.ok (some tv), store)
  | some (.value valueType bytes) => (.ok (some (.value valueType bytes)), store)

/-- The first stage, on the run's output. -/
def outputStage (store : Store Scope) (inv : WorkflowInvocation) (task : Task) (ti : TaskRun) :
    Except String (Option TypedValue) × Store Scope :=
  transformValue (resolveOutput O · inv task ti) store ti.output task.spec.output

/-- The second stage, on the run's output headers. -/
def headersStage (store : Store Scope) (inv : WorkflowInvocation) (task : Task) (ti : TaskRun) :
    Except String (Option TypedValue) × Store Scope :=
  transformValue (resolveOutputHeaders O · inv task ti) store ti.outputHeaders
    task.spec.outputHeaders

/-- The headers stage does not read the run's output. -/
@[simp] theorem headersStage_output (store : Store Scope) (inv : WorkflowInvocation) (task : Task)
    (ti : TaskRun) (output : Option TypedValue) :
    headersStage O store inv task { ti with output := output } = headersStage O store inv task ti :=
  rfl

/-- `transformTaskRunOutputs`: the error or nil it returns, the run as it
leaves it (the Go code assigns into `ti`), and the store. -/
def transformTaskRunOutputs (store : Store Scope) (inv : WorkflowInvocation) (task : Task)
    (ti : TaskRun) : Except String Unit × TaskRun × Store Scope :=
  if !ti.status.successful then (.ok (), ti, store)
  else
    match outputStage O store inv task ti with
    | (.error err, store) => (.error err, ti, store)
    | (.ok output, store) =>
      let ti := { ti with output := output }
      match headersStage O store inv task ti with
      | (.error err, store) => (.error err, ti, store)
      | (.ok outputHeaders, store) => (.ok (), { ti with outputHeaders := outputHeaders }, store)

/-! ## One stage -/

/-- What a stage may leave in a field that holds `current`, for the value the
task's spec sets there (the third argument), with `resolve` for its
expression: `current` when the spec sets none, the static value itself, or
the resolution of the expression. -/
def Replaced (resolve : TypedValue → Except String TypedValue) (current : Option TypedValue) :
    Option TypedValue → Option TypedValue → Prop
  | none, new => new = current
  | some (.expression source), new =>
    ∃ tv, resolve (.expression source) = .ok tv ∧ new = some tv
  | some (.value valueType bytes), new => new = some (.value valueType bytes)

/-- A stage for the value `specValue` succeeds, with `resolve` for its
expression: a spec that sets none or a static value always does, and an
expression does when it resolves. -/
def Resolves (resolve : TypedValue → Except String TypedValue) : Option TypedValue → Prop
  | some (.expression source) => ∃ tv, resolve (.expression source) = .ok tv
  | _ => True

section Stage

variable {resolve resolve' : Store Scope → TypedValue → Except String TypedValue × Store Scope}
  {store store' : Store Scope} {current new : Option TypedValue} {specValue : Option TypedValue}

@[simp] theorem transformValue_expression_fst (resolve : Store Scope → TypedValue →
    Except String TypedValue × Store Scope) (store : Store Scope) (current : Option TypedValue)
    (source : String) :
    (transformValue resolve store current (some (.expression source))).1 =
      (resolve store (.expression source)).1.map some := by
  simp only [transformValue]
  split <;> rename_i h <;> rw [h] <;> rfl

/-- What a stage that succeeds leaves in the field is `Replaced`. -/
theorem transformValue_replaced
    (h : transformValue resolve store current specValue = (.ok new, store')) :
    Replaced (fun e => (resolve store e).1) current specValue new := by
  have hfst := congrArg Prod.fst h
  match specValue with
  | none | some (.value _ _) => exact (Except.ok.inj hfst).symm
  | some (.expression source) =>
    rw [transformValue_expression_fst] at hfst
    cases hres : (resolve store (.expression source)).1 with
    | error err => rw [hres] at hfst; cases hfst
    | ok tv => rw [hres] at hfst; exact ⟨tv, hres, (Except.ok.inj hfst).symm⟩

theorem transformValue_resolves
    (h : transformValue resolve store current specValue = (.ok new, store')) :
    Resolves (fun e => (resolve store e).1) specValue := by
  have hrep := transformValue_replaced h
  match specValue, hrep with
  | none, _ | some (.value _ _), _ => trivial
  | some (.expression _), ⟨tv, hres, _⟩ => exact ⟨tv, hres⟩

/-- A stage fails only on an expression that does not resolve. -/
theorem transformValue_not_resolves {err : String}
    (h : transformValue resolve store current specValue = (.error err, store')) :
    ¬ Resolves (fun e => (resolve store e).1) specValue := by
  have hfst := congrArg Prod.fst h
  match specValue with
  | none | some (.value _ _) => cases hfst
  | some (.expression source) =>
    rintro ⟨tv, hres⟩
    rw [transformValue_expression_fst, show (resolve store (.expression source)).1 = .ok tv
      from hres] at hfst
    cases hfst

/-- A stage's outcome depends on the resolver only through the resolution of
the spec's expression. -/
theorem transformValue_fst_congr
    (hres : ∀ source, specValue = some (.expression source) →
      (resolve' store' (.expression source)).1 = (resolve store (.expression source)).1) :
    (transformValue resolve' store' current specValue).1 =
      (transformValue resolve store current specValue).1 := by
  match specValue with
  | none | some (.value _ _) => rfl
  | some (.expression source) => simp only [transformValue_expression_fst, hres source rfl]

/-- A stage run again on the value it left leaves it: only a spec that sets
none reads the current value, and then leaves it. -/
theorem transformValue_fst_fixed
    (h : (transformValue resolve store current specValue).1 = .ok new) :
    (transformValue resolve store new specValue).1 = .ok new := by
  match specValue with
  | none => rfl
  | some (.expression _) | some (.value _ _) => exact h

end Stage

/-! ## The store and the scope -/

/-- `store'` is `store` with at most the scope of `inv` written: the store
updates that the `execFinish` step of `System` allows. -/
def OwnWrite (inv : WorkflowInvocation) (store store' : Store Scope) : Prop :=
  ∃ transformed : Option Scope, store' = transformed.elim store (store.set inv.id)

/-- The parent scope of `inv` stays fixed while the scope of `inv` is written:
it is the scope of another invocation, or there is none. -/
def ParentFixed (store : Store Scope) (inv : WorkflowInvocation) : Prop :=
  ∀ scope, parentScope (store.set inv.id scope) inv = parentScope store inv

/-- The resolution of the spec's expression for the task `taskID` does not
read the value `set` writes for the task.  A static value is not resolved,
so it is not constrained. -/
def IgnoresCurrent (set : Scope → String → Option TypedValue → Scope) (taskID : String) :
    Option TypedValue → Prop
  | some (.expression source) => ∀ scope current current',
      O.resolve (set scope taskID current) taskID (.expression source) =
        O.resolve (set scope taskID current') taskID (.expression source)
  | _ => True

section Store

variable {inv : WorkflowInvocation} {store store₁ store₂ : Store Scope}

theorem OwnWrite.refl (inv : WorkflowInvocation) (store : Store Scope) :
    OwnWrite inv store store :=
  ⟨none, rfl⟩

theorem OwnWrite.trans (h₁ : OwnWrite inv store store₁)
    (h₂ : OwnWrite inv store₁ store₂) : OwnWrite inv store store₂ := by
  obtain ⟨_ | scope₁, rfl⟩ := h₁ <;> obtain ⟨_ | scope₂, rfl⟩ := h₂
  · exact ⟨none, rfl⟩
  · exact ⟨some scope₂, rfl⟩
  · exact ⟨some scope₁, rfl⟩
  · exact ⟨some scope₂, Store.set_set ..⟩

theorem parentFixed_of_ne (store : Store Scope) (h : inv.parentId ≠ inv.id) :
    ParentFixed store inv := by
  intro scope
  unfold parentScope
  rw [Store.get_set_ne _ _ h]

theorem ParentFixed.parentScope_eq (hparent : ParentFixed store inv)
    (h : OwnWrite inv store store₁) : parentScope store₁ inv = parentScope store inv := by
  obtain ⟨_ | scope, rfl⟩ := h
  · rfl
  · exact hparent scope

/-- Both resolutions store the new scope under the invocation's id, or
nothing when the scope cannot be made. -/
theorem resolveWith_ownWrite (set : Scope → String → Option TypedValue → Scope)
    (current : Option TypedValue) (store : Store Scope) (inv : WorkflowInvocation)
    (taskID : String) (expr : TypedValue) :
    OwnWrite inv store (resolveWith O set current store inv taskID expr).2 := by
  unfold resolveWith
  split
  · exact OwnWrite.refl inv store
  · exact ⟨some _, rfl⟩

theorem transformValue_ownWrite
    {resolve : Store Scope → TypedValue → Except String TypedValue × Store Scope}
    (hres : ∀ expr, OwnWrite inv store (resolve store expr).2)
    (current specValue : Option TypedValue) :
    OwnWrite inv store (transformValue resolve store current specValue).2 := by
  match specValue with
  | none | some (.value _ _) => exact OwnWrite.refl inv store
  | some (.expression source) =>
    simp only [transformValue]
    split <;> rename_i h <;> simpa [h] using hres (.expression source)

theorem outputStage_ownWrite (store : Store Scope) (inv : WorkflowInvocation) (task : Task)
    (ti : TaskRun) : OwnWrite inv store (outputStage O store inv task ti).2 :=
  transformValue_ownWrite (fun _ => resolveWith_ownWrite O ..) _ _

theorem headersStage_ownWrite (store : Store Scope) (inv : WorkflowInvocation) (task : Task)
    (ti : TaskRun) : OwnWrite inv store (headersStage O store inv task ti).2 :=
  transformValue_ownWrite (fun _ => resolveWith_ownWrite O ..) _ _

end Store

section Resolution

variable {set : Scope → String → Option TypedValue → Scope}
  {current current' : Option TypedValue} {store store' : Store Scope} {inv : WorkflowInvocation}
  {taskID : String}

/-- A resolution reads the store only through the parent scope. -/
theorem resolveWith_fst_store (hparent : parentScope store' inv = parentScope store inv)
    (expr : TypedValue) :
    (resolveWith O set current store' inv taskID expr).1 =
      (resolveWith O set current store inv taskID expr).1 := by
  unfold resolveWith
  rw [hparent]
  split <;> rfl

/-- An expression that ignores the current value resolves the same whatever
it is. -/
theorem resolveWith_fst_current {source : String}
    (hign : IgnoresCurrent O set taskID (some (.expression source))) :
    (resolveWith O set current' store inv taskID (.expression source)).1 =
      (resolveWith O set current store inv taskID (.expression source)).1 := by
  unfold resolveWith
  cases O.newScope (parentScope store inv) inv with
  | error err => rfl
  | ok scope => exact hign scope current' current

end Resolution

/-! ## Samples -/

/-- An engine whose scopes hold only the task's output.  Every expression
appends `!` to that output, and fails in a scope without one. -/
def bangEngine : OutputEngine (Option TypedValue) :=
  { newScope := fun _ _ => .ok none
    resolve := fun scope _ value => match value, scope with
      | .expression _, some (.value valueType bytes) => .ok (.value valueType (bytes ++ [33]))
      | .expression source, _ => .error ("no output for " ++ source)
      | value, _ => .ok value
    setInput := fun scope _ _ _ => scope
    prioritize := id
    setOutput := fun _ _ output => output
    setOutputHeaders := fun scope _ _ => scope }

/-- The store before any scope is written. -/
def emptyStore : Store (Option TypedValue) := ⟨fun _ => none⟩

/-- A succeeded run with the output `hi` and no headers. -/
def hiRun : TaskRun := ⟨.succeeded, some (.value "string" [104, 105]), none⟩

/-- Task `a`, whose output is its function's output with `!` appended. -/
def bangTask : Task :=
  ⟨"a", ⟨"noop", [], some (.expression "$.Tasks.a.Output + '!'"), none⟩, none⟩

/-- Task `a` with the output of `bangTask` and headers that read the output
headers, which `bangEngine` does not write into the scope. -/
def bangHeadersTask : Task :=
  ⟨"a", ⟨"noop", [], some (.expression "$.Tasks.a.Output + '!'"),
    some (.expression "$.Tasks.a.OutputHeaders")⟩, none⟩

/-! ## What a pass does to the run -/

/-- The four ways a pass ends: a run that is not successful comes back as it
was; otherwise the output stage fails, or the headers stage fails after the
output has been assigned, or both succeed. -/
theorem transformTaskRunOutputs_cases (store : Store Scope) (inv : WorkflowInvocation)
    (task : Task) (ti : TaskRun) :
    (ti.status.successful = false ∧
        transformTaskRunOutputs O store inv task ti = (.ok (), ti, store)) ∨
      (∃ err store₁, ti.status.successful ∧
        outputStage O store inv task ti = (.error err, store₁) ∧
        transformTaskRunOutputs O store inv task ti = (.error err, ti, store₁)) ∨
      (∃ output store₁ err store₂, ti.status.successful ∧
        outputStage O store inv task ti = (.ok output, store₁) ∧
        headersStage O store₁ inv task ti = (.error err, store₂) ∧
        transformTaskRunOutputs O store inv task ti =
          (.error err, { ti with output := output }, store₂)) ∨
      (∃ output store₁ outputHeaders store₂, ti.status.successful ∧
        outputStage O store inv task ti = (.ok output, store₁) ∧
        headersStage O store₁ inv task ti = (.ok outputHeaders, store₂) ∧
        transformTaskRunOutputs O store inv task ti =
          (.ok (), { ti with output := output, outputHeaders := outputHeaders }, store₂)) := by
  cases hs : ti.status.successful
  · exact .inl ⟨rfl, by simp [transformTaskRunOutputs, hs]⟩
  · rcases ho : outputStage O store inv task ti with ⟨_ | output, store₁⟩
    · exact .inr (.inl ⟨_, _, rfl, rfl, by simp [transformTaskRunOutputs, hs, ho]⟩)
    · rcases hh : headersStage O store₁ inv task ti with ⟨_ | outputHeaders, store₂⟩
      · exact .inr (.inr (.inl ⟨_, _, _, _, rfl, rfl, hh, by
          simp [transformTaskRunOutputs, hs, ho, hh]⟩))
      · exact .inr (.inr (.inr ⟨_, _, _, _, rfl, rfl, hh, by
          simp [transformTaskRunOutputs, hs, ho, hh]⟩))

/-- The run a pass leaves a successful run, from the outcomes of its two
stages. -/
theorem transformTaskRunOutputs_run (store : Store Scope) (inv : WorkflowInvocation) (task : Task)
    (ti : TaskRun) (hs : ti.status.successful = true) :
    (transformTaskRunOutputs O store inv task ti).2.1 =
      match (outputStage O store inv task ti).1,
          (headersStage O (outputStage O store inv task ti).2 inv task ti).1 with
      | .error _, _ => ti
      | .ok output, .error _ => { ti with output := output }
      | .ok output, .ok outputHeaders =>
        { ti with output := output, outputHeaders := outputHeaders } := by
  rcases transformTaskRunOutputs_cases O store inv task ti with
    ⟨hs', -⟩ | ⟨_, _, -, ho, h⟩ | ⟨_, _, _, _, -, ho, hh, h⟩ |
      ⟨_, _, _, _, -, ho, hh, h⟩
  · rw [hs] at hs'
    cases hs'
  · simp only [h, ho]
  all_goals simp only [h, ho, hh]

/-- What `transformTaskRunOutputs` does to the run, for every run, spec and
snapshot.  The status never changes.  On an error the output headers are as
they were, and the output is as it was or already `Replaced` by the first
stage.  A successful run comes back with nil exactly when the spec's
expressions resolve, the headers in the store the first stage left, and then
has both fields `Replaced` as the spec says; any other run comes back as it
was, with nil and the store untouched. -/
theorem transformTaskRunOutputs_fields (store : Store Scope) (inv : WorkflowInvocation)
    (task : Task) (ti : TaskRun) :
    let r := transformTaskRunOutputs O store inv task ti
    r.2.1.status = ti.status ∧
      (∀ err, r.1 = .error err → r.2.1.outputHeaders = ti.outputHeaders ∧
        (r.2.1.output = ti.output ∨
          Replaced (fun e => (resolveOutput O store inv task ti e).1) ti.output task.spec.output
            r.2.1.output)) ∧
      if ti.status.successful then
        (r.1 = .ok () ↔
          Resolves (fun e => (resolveOutput O store inv task ti e).1) task.spec.output ∧
            Resolves (fun e =>
                (resolveOutputHeaders O (outputStage O store inv task ti).2 inv task ti e).1)
              task.spec.outputHeaders) ∧
        (r.1 = .ok () →
          Replaced (fun e => (resolveOutput O store inv task ti e).1) ti.output task.spec.output
              r.2.1.output ∧
            Replaced
              (fun e =>
                (resolveOutputHeaders O (outputStage O store inv task ti).2 inv task ti e).1)
              ti.outputHeaders task.spec.outputHeaders r.2.1.outputHeaders)
      else r = (.ok (), ti, store) := by
  dsimp only
  rcases transformTaskRunOutputs_cases O store inv task ti with
    ⟨hs, h⟩ | ⟨err, store₁, hs, ho, h⟩ |
      ⟨output, store₁, err, store₂, hs, ho, hh, h⟩ |
      ⟨output, store₁, outputHeaders, store₂, hs, ho, hh, h⟩ <;>
    rw [h]
  · -- a run that is not successful comes back as it was
    simp [hs]
  · -- the output stage fails: nothing is assigned
    simp [hs, transformValue_not_resolves ho]
  · -- the headers stage fails after the output has been assigned
    refine ⟨rfl, fun _ _ => ⟨rfl, .inr (transformValue_replaced ho)⟩, ?_⟩
    rw [if_pos hs, ho]
    simp [transformValue_not_resolves hh]
  · -- both stages succeed
    refine ⟨rfl, fun _ herr => (by cases herr), ?_⟩
    rw [if_pos hs, ho]
    exact ⟨iff_of_true rfl ⟨transformValue_resolves ho, transformValue_resolves hh⟩,
      fun _ => ⟨transformValue_replaced ho, transformValue_replaced hh⟩⟩

/-- A run whose output expression resolves and whose header expression fails
comes back with the error and with the new output. -/
theorem headers_error_keeps_output :
    (transformTaskRunOutputs bangEngine emptyStore (sampleInvocation "inv") bangHeadersTask
        hiRun).1 = .error "no output for $.Tasks.a.OutputHeaders" ∧
      (transformTaskRunOutputs bangEngine emptyStore (sampleInvocation "inv") bangHeadersTask
          hiRun).2.1.output = some (.value "string" [104, 105, 33]) ∧
      hiRun.output = some (.value "string" [104, 105]) :=
  ⟨rfl, rfl, rfl⟩

theorem transformTaskRunOutputs_fields_headersError :
    (transformTaskRunOutputs bangEngine emptyStore (sampleInvocation "inv") bangHeadersTask
        hiRun).1 = .error "no output for $.Tasks.a.OutputHeaders" ∧
      (transformTaskRunOutputs bangEngine emptyStore (sampleInvocation "inv") bangHeadersTask
          hiRun).2.1.outputHeaders = hiRun.outputHeaders ∧
      ((transformTaskRunOutputs bangEngine emptyStore (sampleInvocation "inv") bangHeadersTask
          hiRun).2.1.output = hiRun.output ∨
        Replaced (fun e => (resolveOutput bangEngine emptyStore (sampleInvocation "inv")
            bangHeadersTask hiRun e).1) hiRun.output bangHeadersTask.spec.output
          (transformTaskRunOutputs bangEngine emptyStore (sampleInvocation "inv") bangHeadersTask
            hiRun).2.1.output) :=
  ⟨rfl, (transformTaskRunOutputs_fields bangEngine emptyStore (sampleInvocation "inv")
    bangHeadersTask hiRun).2.1 _ rfl⟩

/-! ## A second pass -/

section Idempotence

variable {store store' : Store Scope} {inv : WorkflowInvocation} {task : Task} {ti : TaskRun}

/-- Under `ParentFixed`, the output stage has the same outcome in every store
the transformer reaches from `store`. -/
theorem outputStage_fst_store (hparent : ParentFixed store inv) (hw : OwnWrite inv store store')
    (ti : TaskRun) : (outputStage O store' inv task ti).1 = (outputStage O store inv task ti).1 :=
  transformValue_fst_congr fun _ _ => resolveWith_fst_store O (hparent.parentScope_eq hw) _

theorem headersStage_fst_store (hparent : ParentFixed store inv) (hw : OwnWrite inv store store')
    (ti : TaskRun) : (headersStage O store' inv task ti).1 = (headersStage O store inv task ti).1 :=
  transformValue_fst_congr fun _ _ => resolveWith_fst_store O (hparent.parentScope_eq hw) _

/-- In every store the transformer reaches, the output stage run again on a
run holding the output a first stage left, for an expression that ignores
the current output, leaves that output. -/
theorem outputStage_again {output : Option TypedValue} (hparent : ParentFixed store inv)
    (hout : IgnoresCurrent O O.setOutput task.id task.spec.output)
    (h : (outputStage O store inv task ti).1 = .ok output) (hw : OwnWrite inv store store')
    (ti' : TaskRun) (h' : ti'.output = output) :
    (outputStage O store' inv task ti').1 = .ok output := by
  rw [outputStage_fst_store O hparent hw, outputStage, h']
  exact (transformValue_fst_congr fun _ hspec => resolveWith_fst_current O (hspec ▸ hout)).trans
    (transformValue_fst_fixed h)

/-- The same for the headers stage, whose first run was in a store `store₁`
the transformer reached. -/
theorem headersStage_again {store₁ : Store Scope} {outputHeaders : Option TypedValue}
    (hparent : ParentFixed store inv)
    (hheaders : IgnoresCurrent O O.setOutputHeaders task.id task.spec.outputHeaders)
    (hw₁ : OwnWrite inv store store₁)
    (h : (headersStage O store₁ inv task ti).1 = .ok outputHeaders)
    (hw : OwnWrite inv store store') (ti' : TaskRun) (h' : ti'.outputHeaders = outputHeaders) :
    (headersStage O store' inv task ti').1 = .ok outputHeaders := by
  rw [headersStage_fst_store O hparent hw₁] at h
  rw [headersStage_fst_store O hparent hw, headersStage, h']
  exact (transformValue_fst_congr fun _ hspec =>
    resolveWith_fst_current O (hspec ▸ hheaders)).trans (transformValue_fst_fixed h)

end Idempotence

/-- When the parent scope stays fixed and the spec's expressions do not read
the value they replace, a second pass of the transformer, on the run and in
the store the first pass left, leaves the run as it is. -/
theorem transformTaskRunOutputs_idempotent (store : Store Scope) (inv : WorkflowInvocation)
    (task : Task) (ti : TaskRun) (hparent : ParentFixed store inv)
    (hout : IgnoresCurrent O O.setOutput task.id task.spec.output)
    (hheaders : IgnoresCurrent O O.setOutputHeaders task.id task.spec.outputHeaders) :
    (transformTaskRunOutputs O (transformTaskRunOutputs O store inv task ti).2.2 inv task
        (transformTaskRunOutputs O store inv task ti).2.1).2.1 =
      (transformTaskRunOutputs O store inv task ti).2.1 := by
  -- the stores the first pass passes through are reached from `store`
  have hwo {r store₁} (ho : outputStage O store inv task ti = (r, store₁)) :
      OwnWrite inv store store₁ := by
    simpa only [ho] using outputStage_ownWrite O store inv task ti
  have hwh {store₁ r store₂} (hh : headersStage O store₁ inv task ti = (r, store₂)) :
      OwnWrite inv store₁ store₂ := by
    simpa only [hh] using headersStage_ownWrite O store₁ inv task ti
  rcases transformTaskRunOutputs_cases O store inv task ti with
    ⟨hs, h⟩ | ⟨err, store₁, hs, ho, h⟩ |
      ⟨output, store₁, err, store₂, hs, ho, hh, h⟩ |
      ⟨output, store₁, outputHeaders, store₂, hs, ho, hh, h⟩ <;>
    rw [h]
  · -- a run that is not successful is left alone by both passes
    exact congrArg (·.2.1) h
  · -- the output stage fails again
    simp only [transformTaskRunOutputs_run O store₁ inv task ti hs,
      outputStage_fst_store O hparent (hwo ho), ho]
  · -- the output stage gives the same output, and the headers stage fails again
    have hw₂ := (hwo ho).trans (hwh hh)
    have hh₂ : (headersStage O (outputStage O store₂ inv task { ti with output := output }).2
        inv task { ti with output := output }).1 = .error err := by
      rw [headersStage_fst_store O hparent (hw₂.trans (outputStage_ownWrite ..)),
        headersStage_output, ← headersStage_fst_store O hparent (hwo ho), hh]
    simp only [transformTaskRunOutputs_run O store₂ inv task { ti with output := output } hs,
      outputStage_again O hparent hout (by rw [ho]) hw₂ { ti with output := output } rfl, hh₂]
  · -- both stages give the values they gave
    have hw₂ := (hwo ho).trans (hwh hh)
    simp only [transformTaskRunOutputs_run O store₂ inv task
        { ti with output := output, outputHeaders := outputHeaders } hs,
      outputStage_again O hparent hout (by rw [ho]) hw₂
        { ti with output := output, outputHeaders := outputHeaders } rfl,
      headersStage_again O hparent hheaders (hwo ho) (by rw [hh])
        (hw₂.trans (outputStage_ownWrite ..))
        { ti with output := output, outputHeaders := outputHeaders } rfl]

/-- Task `a` with a static output and headers that read the output headers. -/
def staticOutputTask : Task :=
  ⟨"a", ⟨"noop", [], some (.value "string" [120]),
    some (.expression "$.Tasks.a.OutputHeaders")⟩, none⟩

theorem transformTaskRunOutputs_idempotent_static :
    ParentFixed emptyStore (sampleInvocation "inv") ∧
      IgnoresCurrent bangEngine bangEngine.setOutput staticOutputTask.id
        staticOutputTask.spec.output ∧
      IgnoresCurrent bangEngine bangEngine.setOutputHeaders staticOutputTask.id
        staticOutputTask.spec.outputHeaders ∧
      (transformTaskRunOutputs bangEngine
          (transformTaskRunOutputs bangEngine emptyStore (sampleInvocation "inv") staticOutputTask
            hiRun).2.2 (sampleInvocation "inv") staticOutputTask
          (transformTaskRunOutputs bangEngine emptyStore (sampleInvocation "inv") staticOutputTask
            hiRun).2.1).2.1 =
        (transformTaskRunOutputs bangEngine emptyStore (sampleInvocation "inv") staticOutputTask
          hiRun).2.1 :=
  have hparent : ParentFixed emptyStore (sampleInvocation "inv") :=
    parentFixed_of_ne emptyStore (by decide)
  have hout : IgnoresCurrent bangEngine bangEngine.setOutput staticOutputTask.id
      staticOutputTask.spec.output := trivial
  have hheaders : IgnoresCurrent bangEngine bangEngine.setOutputHeaders staticOutputTask.id
      staticOutputTask.spec.outputHeaders := fun _ _ _ => rfl
  ⟨hparent, hout, hheaders, transformTaskRunOutputs_idempotent bangEngine emptyStore
    (sampleInvocation "inv") staticOutputTask hiRun hparent hout hheaders⟩

/-- An output expression that reads the task's own output is applied again by
a second pass: `hi!` becomes `hi!!`. -/
theorem second_pass_rereads_output :
    (transformTaskRunOutputs bangEngine emptyStore (sampleInvocation "inv") bangTask hiRun).2.1 =
        ⟨.succeeded, some (.value "string" [104, 105, 33]), none⟩ ∧
      (transformTaskRunOutputs bangEngine
          (transformTaskRunOutputs bangEngine emptyStore (sampleInvocation "inv") bangTask
            hiRun).2.2
          (sampleInvocation "inv") bangTask
          (transformTaskRunOutputs bangEngine emptyStore (sampleInvocation "inv") bangTask
            hiRun).2.1).2.1 =
        ⟨.succeeded, some (.value "string" [104, 105, 33, 33]), none⟩ :=
  ⟨rfl, rfl⟩

/-! ## The store -/

theorem transformTaskRunOutputs_ownWrite (store : Store Scope) (inv : WorkflowInvocation)
    (task : Task) (ti : TaskRun) :
    OwnWrite inv store (transformTaskRunOutputs O store inv task ti).2.2 := by
  have hw₁ := outputStage_ownWrite O store inv task ti
  rcases transformTaskRunOutputs_cases O store inv task ti with
    ⟨-, h⟩ | ⟨_, _, -, ho, h⟩ | ⟨_, store₁, _, _, -, ho, hh, h⟩ |
      ⟨_, store₁, _, _, -, ho, hh, h⟩ <;>
    rw [h]
  · exact OwnWrite.refl inv store
  all_goals rw [ho] at hw₁
  · exact hw₁
  all_goals
    exact hw₁.trans (by simpa only [hh] using headersStage_ownWrite O store₁ inv task ti)

/-- The transformer writes at most the invocation's own scope: the store it
leaves is one that the `execFinish` step of `System` allows. -/
theorem transformTaskRunOutputs_store (store : Store Scope) (inv : WorkflowInvocation)
    (task : Task) (ti : TaskRun) :
    ∃ transformed : Option Scope,
      (transformTaskRunOutputs O store inv task ti).2.2 =
        transformed.elim store (store.set inv.id) :=
  transformTaskRunOutputs_ownWrite O store inv task ti

end FissionWorkflows.Controller
