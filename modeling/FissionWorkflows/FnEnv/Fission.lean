import FissionWorkflows.Controller.ExecTask
import Mathlib.Data.List.DropRight

/-!
# The Fission runtime

`FunctionEnv` of `unnamed/part_002` (package `fission`): the function
runtime that runs a task on the Fission platform.

* `Invoke` validates the task's spec, posts its inputs to the Fission router
  at `createRouterURL` of the function reference, parses the response and
  reads its status code.
* `Notify` asks the executor for the service of the function
  (`getFnURL`, `createFunctionMeta`) and schedules a tap of that service.
* `Resolve` asks the controller whether the function exists.

The results:

* `notify_ignores_namespace`: for a function outside the default namespace,
  `Invoke` and `Resolve` address that function while `Notify` taps the
  service of the function of the same name in the default namespace;
  `functions_agree_default_namespace`: in the default namespace the three
  agree.
* `invoke_parse_error`: a response whose body `httpconv.ParseResponse`
  rejects is an engine error, whatever its status code; `invoke_of_parsed`:
  a parsed body gives a FAILED or a SUCCEEDED status by the status code;
  `invoke_error_cases`: the four ways `Invoke` fails.  Which bodies
  `ParseResponse` rejects is up to `httpconv`, which is not in the source.
* `notify_taps_after_expected`: the negative `provisionDuration` puts the tap
  after the time the task is expected.

The Fission clients (`executor.Client`, `controller.Client`, the HTTP
client) and the conversions of `validate`, `httpconv` and `typedvalues` are
not in the source; `FunctionEnv` and `HttpConv` take them as parameters.
`http.NewRequest` and `url.Parse` panic on a malformed URL; those panics are
not modelled.
-/

namespace FissionWorkflows.FnEnv

open Controller (TaskInvocationSpec)

/-! ## Go strings -/

/-- `strings.TrimLeft(s, cutset)`. -/
def trimLeft (s : String) (cutset : List Char) : String := ⟨s.data.dropWhile (· ∈ cutset)⟩

/-- `strings.TrimRight(s, cutset)`. -/
def trimRight (s : String) (cutset : List Char) : String := ⟨s.data.rdropWhile (· ∈ cutset)⟩

/-- `strings.Trim(s, cutset)`. -/
def trim (s : String) (cutset : List Char) : String := trimRight (trimLeft s cutset) cutset

/-! ## The runtime -/

/-- `metav1.NamespaceDefault`. -/
def namespaceDefault : String := "default"

/-- `metav1.ObjectMeta`, with the two fields the runtime sets. -/
structure ObjectMeta where
  name : String
  «namespace» : String
  deriving DecidableEq, Repr

/-- An HTTP request: the method and URL `Invoke` gives it, and the headers
and body `FormatRequest` writes. -/
structure HttpRequest where
  method : String
  url : String
  header : List (String × String)
  body : List UInt8
  deriving DecidableEq, Repr

/-- An HTTP response of the Fission router. -/
structure HttpResponse where
  statusCode : Nat
  header : List (String × String)
  body : List UInt8
  deriving DecidableEq, Repr

/-- `types.TaskInvocationStatus` as `Invoke` returns it. -/
structure TaskInvocationStatus where
  status : TaskStatus
  output : Option TypedValue
  outputHeaders : Option TypedValue
  error : Option String
  deriving DecidableEq, Repr

/-- `FunctionEnv`: the router URL, and the clients it calls. -/
structure FunctionEnv where
  routerURL : String
  /-- `client.Do`: the response, or the error of a failed round trip. -/
  roundTrip : HttpRequest → Except String HttpResponse
  /-- `controller.FunctionGet`: whether the function exists. -/
  functionGet : ObjectMeta → Except String Unit
  /-- `executor.GetServiceForFunction`: the address of the function's service. -/
  getServiceForFunction : ObjectMeta → Except String String

/-- The conversions `Invoke` calls. -/
structure HttpConv where
  /-- `validate.TaskInvocationSpec`. -/
  validateSpec : TaskInvocationSpec → Except String Unit
  /-- `httpconv.FormatRequest`: the request with the inputs written into it. -/
  formatRequest : List (String × TypedValue) → HttpRequest → Except String HttpRequest
  /-- `httpconv.ParseResponse`: the output the body holds. -/
  parseResponse : HttpResponse → Except String TypedValue
  /-- `httpconv.ParseResponseHeaders`. -/
  parseResponseHeaders : HttpResponse → TypedValue
  /-- What `%v` prints for `typedvalues.Unwrap` of a value. -/
  formatValue : TypedValue → String

/-- `defaultHTTPMethod`. -/
def defaultHTTPMethod : String := "POST"

/-- `defaultProtocol`. -/
def defaultProtocol : String := "http"

/-- `provisionDuration`: `time.Duration(500) - time.Millisecond`, in
nanoseconds. -/
def provisionDuration : Time := 500 - 1000000

/-- `createRouterURL`: the router's URL of a function. -/
def FunctionEnv.createRouterURL (fe : FunctionEnv) (fn : FnRef) : String :=
  let id := trimLeft fn.id ['/']
  let baseUrl := trimRight fe.routerURL ['/']
  let ns :=
    if fn.«namespace» ≠ namespaceDefault ∧ fn.«namespace».length ≠ 0 then
      trim fn.«namespace» ['/'] ++ "/"
    else ""
  baseUrl ++ "/fission-function/" ++ ns ++ id

/-- `Invoke`: the status of the run, or the error of the runtime. -/
def FunctionEnv.invoke (fe : FunctionEnv) (conv : HttpConv) (spec : TaskInvocationSpec) :
    Except String TaskInvocationStatus :=
  let fnRef := spec.fnRef
  match conv.validateSpec spec with
  | .error err => .error err
  | .ok () =>
    let fnUrl := fe.createRouterURL fnRef
    match conv.formatRequest spec.inputs ⟨defaultHTTPMethod, fnUrl, [], []⟩ with
    | .error err => .error err
    | .ok req =>
      match fe.roundTrip req with
      | .error err => .error ("error for reqUrl '" ++ fnUrl ++ "': " ++ err)
      | .ok resp =>
        match conv.parseResponse resp with
        | .error err => .error ("failed to parse output: " ++ err)
        | .ok output =>
          let outHeaders := conv.parseResponseHeaders resp
          if resp.statusCode ≥ 400 then
            .ok ⟨.failed, none, none,
              some ("fission function error: " ++ conv.formatValue output)⟩
          else .ok ⟨.succeeded, some output, some outHeaders, none⟩

/-- `createFunctionMeta`. -/
def createFunctionMeta (fn : FnRef) : ObjectMeta := ⟨fn.id, namespaceDefault⟩

/-- `getFnURL`: the URL of the function's service. -/
def FunctionEnv.getFnURL (fe : FunctionEnv) (fn : FnRef) : Except String String :=
  match fe.getServiceForFunction (createFunctionMeta fn) with
  | .error err => .error err
  | .ok serviceURL => .ok (defaultProtocol ++ "://" ++ serviceURL)

/-- `Notify`: the tap it submits to the timed executor, as the URL it taps
and the time it taps it, or the error of `getFnURL`. -/
def FunctionEnv.notify (fe : FunctionEnv) (fn : FnRef) (expectedAt : Time) :
    Except String (String × Time) :=
  match fe.getFnURL fn with
  | .error err => .error err
  | .ok reqURL =>
    let execAt := expectedAt - provisionDuration
    .ok (reqURL, execAt)

/-- The namespace `Resolve` looks a function up in: the reference's, or the
default one when the reference names none. -/
def namespaceOrDefault (ns : String) : String := if ns.length = 0 then namespaceDefault else ns

/-- `Resolve`: the function's id, once the controller has found it. -/
def FunctionEnv.resolve (fe : FunctionEnv) (ref : FnRef) : Except String String :=
  let ns := namespaceOrDefault ref.«namespace»
  match fe.functionGet ⟨ref.id, ns⟩ with
  | .error err => .error err
  | .ok () => .ok ref.id

/-- The function the Fission router serves at a route below
`/fission-function/`.  The router is not in the source; its convention is a
route `<name>` for a function of the default namespace and
`<namespace>/<name>` for any other. -/
def routerFunction (route : String) : Option ObjectMeta :=
  match route.data.splitOn '/' with
  | [name] => some ⟨⟨name⟩, namespaceDefault⟩
  | [ns, name] => some ⟨⟨name⟩, ⟨ns⟩⟩
  | _ => none

/-! ## Samples -/

/-- A 500 whose body is an HTML error page sent as JSON, as a failing proxy
may answer. -/
def errorPage : HttpResponse :=
  ⟨500, [("Content-Type", "application/json")], [60, 104, 49, 62]⟩

/-- A cluster whose executor and controller know every function, behind a
router that answers every request with `errorPage`. -/
def errorPageCluster : FunctionEnv :=
  ⟨"http://router.fission/", fun _ => .ok errorPage, fun _ => .ok (),
    fun _ => .ok "10.0.0.7:8888"⟩

/-- The run of task `a` of invocation `inv` on the function `f` of the
namespace `other`. -/
def sampleSpec : TaskInvocationSpec := ⟨"inv", "a", ⟨"fission", "other", "f"⟩, []⟩

/-! ## The function each path addresses -/

theorem trimLeft_of_not_mem {s : String} {c : Char} (h : c ∉ s.data) : trimLeft s [c] = s :=
  String.ext (List.dropWhile_eq_self_iff.mpr fun hl hc => h (by
    have : s.data.get ⟨0, hl⟩ = c := by simpa using hc
    exact this ▸ List.get_mem s.data 0 hl))

theorem trimRight_of_not_mem {s : String} {c : Char} (h : c ∉ s.data) : trimRight s [c] = s :=
  String.ext (List.rdropWhile_eq_self_iff.mpr fun hl hc => h (by
    have : s.data.getLast hl = c := by simpa using hc
    exact this ▸ List.getLast_mem hl))

theorem trim_of_not_mem {s : String} {c : Char} (h : c ∉ s.data) : trim s [c] = s := by
  rw [trim, trimLeft_of_not_mem h, trimRight_of_not_mem h]

/-- The router serves a route `<name>` as the function of that name in the
default namespace. -/
theorem routerFunction_name {name : String} (h : '/' ∉ name.data) :
    routerFunction name = some ⟨name, namespaceDefault⟩ := by
  have hsplit : name.data.splitOn '/' = [name.data] :=
    List.splitOnP_eq_single _ _ fun _ hx hsep => h (eq_of_beq hsep ▸ hx)
  rw [routerFunction, hsplit]

/-- The router serves a route `<namespace>/<name>` as the function of that
name in that namespace. -/
theorem routerFunction_namespaced {ns name : String} (hns : '/' ∉ ns.data)
    (hname : '/' ∉ name.data) : routerFunction (ns ++ "/" ++ name) = some ⟨name, ns⟩ := by
  have hsplit : (ns ++ "/" ++ name).data.splitOn '/' = [ns.data, name.data] := by
    have := List.splitOn_intercalate [ns.data, name.data] '/' (by simp [hns, hname]) (by simp)
    simpa [List.intercalate] using this
  rw [routerFunction, hsplit]

/-- For a reference free of `'/'`, `createRouterURL` is the router's URL of
the function of the reference's namespace, the default one when it names
none. -/
theorem createRouterURL_eq (fe : FunctionEnv) {fn : FnRef}
    (hslash : '/' ∉ fn.«namespace».data ∧ '/' ∉ fn.id.data) :
    ∃ route, fe.createRouterURL fn =
        trimRight fe.routerURL ['/'] ++ "/fission-function/" ++ route ∧
      routerFunction route = some ⟨fn.id, namespaceOrDefault fn.«namespace»⟩ := by
  unfold FunctionEnv.createRouterURL namespaceOrDefault
  dsimp only
  rw [trimLeft_of_not_mem hslash.2]
  by_cases hnamed : fn.«namespace» ≠ namespaceDefault ∧ fn.«namespace».length ≠ 0
  · rw [if_pos hnamed, if_neg hnamed.2, trim_of_not_mem hslash.1]
    refine ⟨fn.«namespace» ++ "/" ++ fn.id, ?_, routerFunction_namespaced hslash.1 hslash.2⟩
    simp only [String.append_assoc]
  · rw [if_neg hnamed, String.append_empty]
    refine ⟨fn.id, rfl, ?_⟩
    rw [routerFunction_name hslash.2]
    split_ifs with hempty
    · rfl
    · rw [not_not.mp fun hne => hnamed ⟨hne, hempty⟩]

/-- `Resolve` asks the controller for the function of the reference's
namespace, the default one when it names none. -/
theorem resolve_eq (fe : FunctionEnv) (ref : FnRef) :
    fe.resolve ref =
      (fe.functionGet ⟨ref.id, namespaceOrDefault ref.«namespace»⟩).map fun _ => ref.id := by
  unfold FunctionEnv.resolve
  dsimp only
  cases fe.functionGet ⟨ref.id, namespaceOrDefault ref.«namespace»⟩ <;> rfl

/-- `Notify` taps the service the executor gives for the function of the
reference's id in the default namespace, whatever the reference's
namespace. -/
theorem getFnURL_eq (fe : FunctionEnv) (fn : FnRef) :
    fe.getFnURL fn =
      (fe.getServiceForFunction ⟨fn.id, namespaceDefault⟩).map
          (defaultProtocol ++ "://" ++ ·) := by
  unfold FunctionEnv.getFnURL createFunctionMeta
  cases fe.getServiceForFunction ⟨fn.id, namespaceDefault⟩ <;> rfl

/-- For a reference free of `'/'` in a namespace other than the default one,
`Invoke` and `Resolve` address the function of the reference's namespace,
while `Notify` taps the service of the function of the same name in the
default namespace: `createFunctionMeta` drops the namespace. -/
theorem notify_ignores_namespace (fe : FunctionEnv) {fn : FnRef}
    (hns : fn.«namespace».length ≠ 0 ∧ fn.«namespace» ≠ namespaceDefault)
    (hslash : '/' ∉ fn.«namespace».data ∧ '/' ∉ fn.id.data) :
    (∃ route, fe.createRouterURL fn =
        trimRight fe.routerURL ['/'] ++ "/fission-function/" ++ route ∧
        routerFunction route = some ⟨fn.id, fn.«namespace»⟩) ∧
      fe.resolve fn = (fe.functionGet ⟨fn.id, fn.«namespace»⟩).map (fun _ => fn.id) ∧
      fe.getFnURL fn =
        (fe.getServiceForFunction ⟨fn.id, namespaceDefault⟩).map
          (defaultProtocol ++ "://" ++ ·) ∧
      (⟨fn.id, namespaceDefault⟩ : ObjectMeta) ≠ ⟨fn.id, fn.«namespace»⟩ := by
  have hdef : namespaceOrDefault fn.«namespace» = fn.«namespace» := if_neg hns.1
  refine ⟨?_, ?_, getFnURL_eq fe fn, fun h => hns.2 (congrArg ObjectMeta.«namespace» h).symm⟩
  · rw [← hdef]
    exact createRouterURL_eq fe hslash
  · rw [← hdef]
    exact resolve_eq fe fn

theorem notify_ignores_namespace_other :
    (sampleSpec.fnRef.«namespace».length ≠ 0 ∧
        sampleSpec.fnRef.«namespace» ≠ namespaceDefault) ∧
      ('/' ∉ sampleSpec.fnRef.«namespace».data ∧ '/' ∉ sampleSpec.fnRef.id.data) ∧
      (∃ route, errorPageCluster.createRouterURL sampleSpec.fnRef =
          trimRight errorPageCluster.routerURL ['/'] ++ "/fission-function/" ++ route ∧
          routerFunction route = some ⟨"f", "other"⟩) ∧
      errorPageCluster.resolve sampleSpec.fnRef =
        (errorPageCluster.functionGet ⟨"f", "other"⟩).map (fun _ => "f") ∧
      errorPageCluster.getFnURL sampleSpec.fnRef =
        (errorPageCluster.getServiceForFunction ⟨"f", namespaceDefault⟩).map
          (defaultProtocol ++ "://" ++ ·) ∧
      (⟨"f", namespaceDefault⟩ : ObjectMeta) ≠ ⟨"f", "other"⟩ :=
  ⟨by decide, by decide, notify_ignores_namespace errorPageCluster (by decide) (by decide)⟩

/-- For a reference free of `'/'` in the default namespace, named or left
empty, the three paths address one function: the reference's id in the
default namespace. -/
theorem functions_agree_default_namespace (fe : FunctionEnv) {fn : FnRef}
    (hns : fn.«namespace».length = 0 ∨ fn.«namespace» = namespaceDefault)
    (hid : '/' ∉ fn.id.data) :
    (∃ route, fe.createRouterURL fn =
        trimRight fe.routerURL ['/'] ++ "/fission-function/" ++ route ∧
        routerFunction route = some (createFunctionMeta fn)) ∧
      fe.resolve fn = (fe.functionGet (createFunctionMeta fn)).map (fun _ => fn.id) ∧
      fe.getFnURL fn =
        (fe.getServiceForFunction (createFunctionMeta fn)).map
          (defaultProtocol ++ "://" ++ ·) := by
  have hdef : namespaceOrDefault fn.«namespace» = namespaceDefault := by
    rcases hns with h | h <;> simp [namespaceOrDefault, h]
  have hslash : '/' ∉ fn.«namespace».data := by
    rcases hns with hempty | hdefault
    · simp [List.length_eq_zero.mp hempty]
    · rw [hdefault]
      decide
  refine ⟨?_, ?_, getFnURL_eq fe fn⟩
  · rw [createFunctionMeta, ← hdef]
    exact createRouterURL_eq fe ⟨hslash, hid⟩
  · rw [createFunctionMeta, ← hdef]
    exact resolve_eq fe fn

theorem functions_agree_default_namespace_empty :
    ("".length = 0 ∨ "" = namespaceDefault) ∧ '/' ∉ "f".data ∧
      (∃ route, errorPageCluster.createRouterURL ⟨"fission", "", "f"⟩ =
          trimRight errorPageCluster.routerURL ['/'] ++ "/fission-function/" ++ route ∧
          routerFunction route = some (createFunctionMeta ⟨"fission", "", "f"⟩)) ∧
      errorPageCluster.resolve ⟨"fission", "", "f"⟩ =
        (errorPageCluster.functionGet (createFunctionMeta ⟨"fission", "", "f"⟩)).map
          (fun _ => "f") ∧
      errorPageCluster.getFnURL ⟨"fission", "", "f"⟩ =
        (errorPageCluster.getServiceForFunction (createFunctionMeta ⟨"fission", "", "f"⟩)).map
          (defaultProtocol ++ "://" ++ ·) :=
  ⟨.inl rfl, by decide,
    @functions_agree_default_namespace errorPageCluster ⟨"fission", "", "f"⟩ (.inl rfl)
      (by decide)⟩

/-! ## What `Invoke` returns -/

section Invoke

variable {fe : FunctionEnv} {conv : HttpConv} {spec : TaskInvocationSpec} {req : HttpRequest}
  {resp : HttpResponse}

/-- The status code is read only after the body has parsed: a response whose
body does not parse ends `Invoke` with an engine error, whatever its status
code, also for an error of the function. -/
theorem invoke_parse_error {err : String} (hvalid : conv.validateSpec spec = .ok ())
    (hreq : conv.formatRequest spec.inputs
      ⟨defaultHTTPMethod, fe.createRouterURL spec.fnRef, [], []⟩ = .ok req)
    (hresp : fe.roundTrip req = .ok resp) (hparse : conv.parseResponse resp = .error err) :
    fe.invoke conv spec = .error ("failed to parse output: " ++ err) := by
  simp only [FunctionEnv.invoke, hvalid, hreq, hresp, hparse]

/-- A response whose body parses gives no engine error: a FAILED status with
the function's message for a status code of 400 or more, and a SUCCEEDED
status with the output and the headers otherwise. -/
theorem invoke_of_parsed {output : TypedValue} (hvalid : conv.validateSpec spec = .ok ())
    (hreq : conv.formatRequest spec.inputs
      ⟨defaultHTTPMethod, fe.createRouterURL spec.fnRef, [], []⟩ = .ok req)
    (hresp : fe.roundTrip req = .ok resp) (hparse : conv.parseResponse resp = .ok output) :
    fe.invoke conv spec = .ok (if 400 ≤ resp.statusCode then
        ⟨.failed, none, none, some ("fission function error: " ++ conv.formatValue output)⟩
      else ⟨.succeeded, some output, some (conv.parseResponseHeaders resp), none⟩) := by
  simp only [FunctionEnv.invoke, hvalid, hreq, hresp, hparse]
  split_ifs <;> rfl

/-- `Invoke` returns an engine error only when the spec does not validate,
the inputs do not format, the round trip fails or the body does not
parse. -/
theorem invoke_error_cases {err : String} (h : fe.invoke conv spec = .error err) :
    (∃ e, conv.validateSpec spec = .error e) ∨
      (∃ e, conv.formatRequest spec.inputs
        ⟨defaultHTTPMethod, fe.createRouterURL spec.fnRef, [], []⟩ = .error e) ∨
      (∃ req e, conv.formatRequest spec.inputs
        ⟨defaultHTTPMethod, fe.createRouterURL spec.fnRef, [], []⟩ = .ok req ∧
          fe.roundTrip req = .error e) ∨
      (∃ req resp e, conv.formatRequest spec.inputs
        ⟨defaultHTTPMethod, fe.createRouterURL spec.fnRef, [], []⟩ = .ok req ∧
          fe.roundTrip req = .ok resp ∧ conv.parseResponse resp = .error e) := by
  unfold FunctionEnv.invoke at h
  dsimp only at h
  split at h
  · exact .inl ⟨_, ‹_›⟩
  split at h
  · exact .inr (.inl ⟨_, ‹_›⟩)
  split at h
  · exact .inr (.inr (.inl ⟨_, _, ‹_›, ‹_›⟩))
  split at h
  · exact .inr (.inr (.inr ⟨_, _, _, ‹_›, ‹_›, ‹_›⟩))
  split_ifs at h

end Invoke

/-- `provisionDuration` is negative, 500 ns less one millisecond, so `Notify`
taps the function 999 500 ns after the time the task is expected, not before
it. -/
theorem notify_taps_after_expected (fe : FunctionEnv) (fn : FnRef) (expectedAt : Time)
    {svc : String} (hsvc : fe.getServiceForFunction (createFunctionMeta fn) = .ok svc) :
    fe.notify fn expectedAt = .ok (defaultProtocol ++ "://" ++ svc, expectedAt + 999500) := by
  simp only [FunctionEnv.notify, FunctionEnv.getFnURL, hsvc, provisionDuration, Except.ok.injEq,
    Prod.mk.injEq, true_and, Time]
  omega

end FissionWorkflows.FnEnv
