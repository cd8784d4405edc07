import FissionWorkflows.Types

/-!
# The invocation sensors

The three sensors the invocation meta-controller starts: the staleness
sensor, the store poll sensor and the notification sensor.

`StalenessPollSensor.Poll` of `pkg/controller/invocation.go`.  Every poll
walks the controller statistics of the control system
(`RangeControllerStats`, whose callback always asks to go on) and submits a
`Refresh` event for a key when four guards let it through: the key's
controller was last evaluated no later than `maxStaleness` ago, the key has
no registered controller (`GetController` finds none), its state fetches
without error, and the state is not a terminal invocation.  The clock is
read once per key.

The control system (`ctrl.System`) is not in the source.  `ControllerSystem`
is the part the sensor reads: the statistics, one entry per key, and which
keys have a registered controller.  The invocation meta-controller builds the
sensor with `invocationStateFetcher`, which fetches the invocation of the key
from the store.

A stale controller that is still registered gets no refresh: the
`GetController` guard skips exactly those. `poll_refreshes` gives, key by
key, what a poll submits with the meta-controller's fetcher, and
`poll_skips_registered` is a poll in which a stale registered controller
gets no refresh.

`InvocationStorePollSensor.Poll` walks the aggregates the invocations store
lists.  It skips an aggregate that is not an invocation, refreshes the
cache, fetches the invocation, and skips it on a fetch error or a terminal
status; every other invocation gets a `Refresh` event.  `Invocations` is the
store as one poll reads it, with `getInvocation` answering after the
refresh.  `storePoll_refreshes` gives, aggregate by aggregate, what a poll
submits.  `polls_liveRefresh` holds for both polling sensors of the
meta-controller: everything they submit is a refresh of a fetched,
non-terminal invocation, under the invocation aggregate of its key.

`InvocationNotificationSensor.Run` submits one notification per message of
the store's update channel.  A message that `ToNotification` cannot convert
is logged and its nil notification is submitted all the same
(`run_submits_nil_of_error`); `runLoop_eq_map` gives the whole stream of
submissions.
-/

namespace FissionWorkflows.Controller

/-- `ctrl.ControllerStats`. -/
structure ControllerStats where
  lastEvaluatedAt : Time
  deriving DecidableEq, Repr

/-- The part of `ctrl.System` the sensor reads: the statistics that
`RangeControllerStats` walks, keyed by controller key, and `GetController`. -/
structure ControllerSystem where
  stats : List (String × ControllerStats)
  stats_nodup : (stats.map Prod.fst).Nodup
  registered : String → Bool

/-- `StalenessPollSensor`, with the fetcher it is built with: the aggregate of
a key, and its entity or the fetch error. -/
structure StalenessPollSensor where
  maxStaleness : Time
  stateFetcher : String → Aggregate × Except String Entity

/-- The refresh event a sensor submits for an entity. -/
def refreshEvent (aggregate : Aggregate) (entity : Entity) : Event :=
  ⟨entity, entity, .refresh, aggregate⟩

/-- One call of the callback of `Poll`, for `ctrlKey` at time `now`: the event
it submits, if any. -/
def StalenessPollSensor.pollKey (sensor : StalenessPollSensor) (registered : String → Bool)
    (now : Time) (ctrlKey : String) (ctrlStats : ControllerStats) : Option Event :=
  let minLastEvaluation := now - sensor.maxStaleness
  if minLastEvaluation < ctrlStats.lastEvaluatedAt then none
  else if registered ctrlKey then none
  else
    match sensor.stateFetcher ctrlKey with
    | (_, .error _) => none
    | (aggregate, .ok entity) =>
      match entity with
      | .invocation inv => if inv.status.finished then none else some (refreshEvent aggregate entity)
      | .other _ => some (refreshEvent aggregate entity)

/-- `StalenessPollSensor.Poll`: the events it submits, in the order of the
walk.  `now` is the clock as each turn of the walk reads it. -/
def StalenessPollSensor.poll (sensor : StalenessPollSensor) (system : ControllerSystem)
    (now : String → Time) : List Event :=
  system.stats.filterMap fun entry =>
    sensor.pollKey system.registered (now entry.1) entry.1 entry.2

/-- The fetcher of `NewInvocationMetaController`: the invocation aggregate of
the key, and the invocation `getInvocation` finds for it. -/
def invocationStateFetcher (getInvocation : String → Except String WorkflowInvocation)
    (ctrlKey : String) : Aggregate × Except String Entity :=
  let aggregate : Aggregate := ⟨.invocation, ctrlKey⟩
  match getInvocation ctrlKey with
  | .error err => (aggregate, .error err)
  | .ok inv => (aggregate, .ok (.invocation inv))

section Invocations

variable (getInvocation : String → Except String WorkflowInvocation) (maxStaleness : Time)

/-- The sensor the invocation meta-controller builds. -/
def invocationSensor : StalenessPollSensor :=
  ⟨maxStaleness, invocationStateFetcher getInvocation⟩

/-- What one turn submits for the meta-controller's sensor: a refresh of the
fetched invocation exactly when the controller is stale, not registered, and
the invocation is fetched and not terminal. -/
theorem pollKey_invocationSensor (registered : String → Bool) (now : Time) (key : String)
    (ctrlStats : ControllerStats) :
    (invocationSensor getInvocation maxStaleness).pollKey registered now key ctrlStats =
      match getInvocation key with
      | .ok inv =>
        if ctrlStats.lastEvaluatedAt ≤ now - maxStaleness ∧ registered key = false ∧
            inv.status.finished = false then
          some (refreshEvent ⟨.invocation, key⟩ (.invocation inv))
        else none
      | .error _ => none := by
  unfold StalenessPollSensor.pollKey
  simp only [invocationSensor, invocationStateFetcher]
  cases getInvocation key with
  | error err => split_ifs <;> rfl
  | ok inv =>
    by_cases hs : ctrlStats.lastEvaluatedAt ≤ now - maxStaleness
    · have hfresh : ¬ now - maxStaleness < ctrlStats.lastEvaluatedAt := not_lt.mpr hs
      cases hr : registered key <;> cases hf : inv.status.finished <;> simp [hs, hfresh, hr, hf]
    · simp [hs, lt_of_not_le hs]

/-- What one turn of the meta-controller's sensor submits is a refresh of
the fetched, non-terminal invocation, under the invocation aggregate of the
key. -/
theorem pollKey_invocationSensor_eq_some {registered : String → Bool} {now : Time}
    {key : String} {ctrlStats : ControllerStats} {ev : Event}
    (h : (invocationSensor getInvocation maxStaleness).pollKey registered now key ctrlStats =
      some ev) :
    ∃ inv, getInvocation key = .ok inv ∧ inv.status.finished = false ∧
      ev = refreshEvent ⟨.invocation, key⟩ (.invocation inv) := by
  rw [pollKey_invocationSensor] at h
  split at h
  · rename_i inv hinv
    split_ifs at h with hc
    exact ⟨inv, hinv, hc.2.2, (Option.some.inj h).symm⟩
  · cases h

/-- The meta-controller's sensor refreshes a key under the key's own
aggregate. -/
theorem pollKey_invocationSensor_id {registered : String → Bool} {now : Time} {key : String}
    {ctrlStats : ControllerStats} {ev : Event}
    (h : (invocationSensor getInvocation maxStaleness).pollKey registered now key ctrlStats =
      some ev) : ev.aggregate.id = key := by
  obtain ⟨inv, -, -, rfl⟩ := pollKey_invocationSensor_eq_some getInvocation maxStaleness h
  rfl

/-- Filtering a poll by key is polling the statistics of that key. -/
theorem filter_poll_key (registered : String → Bool) (now : String → Time)
    (stats : List (String × ControllerStats)) (key : String) :
    (stats.filterMap fun entry => (invocationSensor getInvocation maxStaleness).pollKey
        registered (now entry.1) entry.1 entry.2).filter (fun ev => ev.aggregate.id = key) =
      (stats.filter (·.1 = key)).filterMap fun entry =>
        (invocationSensor getInvocation maxStaleness).pollKey registered (now entry.1) entry.1
          entry.2 := by
  rw [List.filter_filterMap, List.filterMap_filter]
  congr 1
  funext entry
  cases h : (invocationSensor getInvocation maxStaleness).pollKey registered (now entry.1)
      entry.1 entry.2 with
  | none => simp
  | some ev => simp [Option.filter_some, pollKey_invocationSensor_id getInvocation maxStaleness h]

/-- With one entry per key, the statistics of a key are the one its lookup
finds. -/
theorem filter_key_eq_lookup {stats : List (String × ControllerStats)}
    (hnodup : (stats.map Prod.fst).Nodup) (key : String) :
    stats.filter (·.1 = key) = ((stats.lookup key).map (key, ·)).toList := by
  induction stats with
  | nil => rfl
  | cons entry stats ih =>
    obtain ⟨k, st⟩ := entry
    rw [List.map_cons, List.nodup_cons] at hnodup
    by_cases hk : k = key
    · subst hk
      have hnone : stats.filter (·.1 = k) = [] :=
        List.filter_eq_nil_iff.mpr fun e he hek =>
          hnodup.1 (List.mem_map.mpr ⟨e, he, of_decide_eq_true hek⟩)
      simp [List.filter_cons, hnone]
    · have hbeq : (key == k) = false := by simpa using Ne.symm hk
      rw [List.filter_cons_of_neg (by simpa using hk), ih hnodup.2, List.lookup_cons, hbeq]

/-- Key by key, what a poll submits: one refresh event, carrying the fetched
invocation, for a key whose controller was last evaluated no later than
`now - maxStaleness`, is not registered, and whose invocation is fetched and
not terminal; nothing for any other key. -/
theorem poll_refreshes (system : ControllerSystem) (now : String → Time) (key : String) :
    ((invocationSensor getInvocation maxStaleness).poll system now).filter
        (fun ev => ev.aggregate.id = key) =
      match system.stats.lookup key, getInvocation key with
      | some ctrlStats, .ok inv =>
        if ctrlStats.lastEvaluatedAt ≤ now key - maxStaleness ∧ system.registered key = false ∧
            inv.status.finished = false then
          [refreshEvent ⟨.invocation, key⟩ (.invocation inv)]
        else []
      | _, _ => [] := by
  obtain ⟨stats, hnodup, registered⟩ := system
  rw [StalenessPollSensor.poll, filter_poll_key, filter_key_eq_lookup hnodup]
  cases stats.lookup key with
  | none => rfl
  | some st =>
    simp only [Option.map_some', Option.toList_some, List.filterMap_cons, List.filterMap_nil,
      pollKey_invocationSensor]
    cases getInvocation key with
    | error err => rfl
    | ok inv =>
      dsimp only
      by_cases hc : st.lastEvaluatedAt ≤ now key - maxStaleness ∧ registered key = false ∧
          inv.status.finished = false
      · rw [if_pos hc, if_pos hc]
      · rw [if_neg hc, if_neg hc]

end Invocations

/-- A controller last evaluated two seconds ago, with a one-second staleness
bound, still registered and running a non-terminal invocation: the poll
submits nothing for it. -/
theorem poll_skips_registered :
    (invocationSensor (fun _ => .ok ⟨"inv", some ⟨""⟩, none, "", none, .inProgress, [], []⟩)
        1000000000).poll ⟨[("inv", ⟨0⟩)], by decide, fun _ => true⟩ (fun _ => 2000000000) =
      [] := by
  decide

/-! ## The store poll -/

/-- The part of `store.Invocations` that `InvocationStorePollSensor.Poll`
reads during one poll: the aggregates `List` returns, and `GetInvocation`,
which answers after the cache has refreshed the aggregate (or could not). -/
structure Invocations where
  list : List Aggregate
  getInvocation : String → Except String WorkflowInvocation

/-- One turn of the loop of `InvocationStorePollSensor.Poll`: the event it
submits for an aggregate of the store, if any. -/
def InvocationStorePollSensor.pollAggregate
    (getInvocation : String → Except String WorkflowInvocation) (aggregate : Aggregate) :
    Option Event :=
  if aggregate.type ≠ .invocation then none
  else
    match getInvocation aggregate.id with
    | .error _ => none
    | .ok wf =>
      match wf.status with
      | .aborted | .failed | .succeeded => none
      | _ => some (refreshEvent aggregate (.invocation wf))

/-- `InvocationStorePollSensor.Poll`: the events it submits, in the order of
`List`. -/
def InvocationStorePollSensor.poll (invocations : Invocations) : List Event :=
  invocations.list.filterMap (InvocationStorePollSensor.pollAggregate invocations.getInvocation)

section StorePoll

variable (getInvocation : String → Except String WorkflowInvocation)

/-- A turn refreshes an invocation aggregate whose invocation is fetched and
not terminal, and skips any other: the switch of `Poll` skips exactly the
terminal statuses. -/
theorem pollAggregate_eq (aggregate : Aggregate) :
    InvocationStorePollSensor.pollAggregate getInvocation aggregate =
      match aggregate.type, getInvocation aggregate.id with
      | .invocation, .ok inv =>
        if inv.status.finished = false then some (refreshEvent aggregate (.invocation inv))
        else none
      | _, _ => none := by
  obtain ⟨type, id⟩ := aggregate
  unfold InvocationStorePollSensor.pollAggregate
  cases type with
  | workflow => rfl
  | invocation =>
    cases getInvocation id with
    | error err => rfl
    | ok inv =>
      dsimp only
      cases inv.status <;> rfl

variable {getInvocation}

/-- What a turn submits is a refresh of a fetched, non-terminal invocation
under the aggregate of the turn. -/
theorem pollAggregate_eq_some {aggregate : Aggregate} {ev : Event}
    (h : InvocationStorePollSensor.pollAggregate getInvocation aggregate = some ev) :
    aggregate.type = .invocation ∧ ∃ inv, getInvocation aggregate.id = .ok inv ∧
      inv.status.finished = false ∧ ev = refreshEvent aggregate (.invocation inv) := by
  rw [pollAggregate_eq] at h
  split at h
  · rename_i inv htype hinv
    split_ifs at h with hfin
    exact ⟨htype, inv, hinv, hfin, (Option.some.inj h).symm⟩
  · cases h

/-- Filtering a poll by aggregate is polling the aggregates it keeps. -/
theorem filter_poll_aggregate (aggregates : List Aggregate) (aggregate : Aggregate) :
    (aggregates.filterMap (InvocationStorePollSensor.pollAggregate getInvocation)).filter
        (fun ev => ev.aggregate = aggregate) =
      (aggregates.filter (· = aggregate)).filterMap
        (InvocationStorePollSensor.pollAggregate getInvocation) := by
  rw [List.filter_filterMap, List.filterMap_filter]
  congr 1
  funext a
  cases h : InvocationStorePollSensor.pollAggregate getInvocation a with
  | none => simp
  | some ev =>
    obtain ⟨-, inv, -, -, rfl⟩ := pollAggregate_eq_some h
    simp [Option.filter_some, refreshEvent]

end StorePoll

/-- Aggregate by aggregate, what a store poll submits: one refresh of the
fetched invocation for each time `List` returns an invocation aggregate whose
invocation is fetched and not terminal; nothing for any other aggregate. -/
theorem storePoll_refreshes (invocations : Invocations) (aggregate : Aggregate) :
    (InvocationStorePollSensor.poll invocations).filter (fun ev => ev.aggregate = aggregate) =
      match aggregate.type, invocations.getInvocation aggregate.id with
      | .invocation, .ok inv =>
        if inv.status.finished = false then
          List.replicate (invocations.list.count aggregate) (refreshEvent aggregate (.invocation inv))
        else []
      | _, _ => [] := by
  rw [InvocationStorePollSensor.poll, filter_poll_aggregate, List.filter_eq,
    List.filterMap_replicate, pollAggregate_eq]
  obtain ⟨type, id⟩ := aggregate
  cases type with
  | workflow => rfl
  | invocation =>
    cases invocations.getInvocation id with
    | error err => rfl
    | ok inv =>
      dsimp only
      cases inv.status.finished <;> rfl

/-- A refresh of an invocation that is fetched and not terminal, under the
invocation aggregate of its key. -/
def LiveRefresh (getInvocation : String → Except String WorkflowInvocation) (ev : Event) : Prop :=
  ev.aggregate.type = .invocation ∧ ∃ inv, getInvocation ev.aggregate.id = .ok inv ∧
    inv.status.finished = false ∧ ev = refreshEvent ev.aggregate (.invocation inv)

/-- The two polling sensors of the meta-controller, reading the same store,
submit only refreshes of invocations that are fetched and not terminal, each
under the invocation aggregate of its key. -/
theorem polls_liveRefresh (invocations : Invocations) (system : ControllerSystem)
    (now : String → Time) (maxStaleness : Time) :
    (∀ ev ∈ InvocationStorePollSensor.poll invocations, LiveRefresh invocations.getInvocation ev) ∧
      ∀ ev ∈ (invocationSensor invocations.getInvocation maxStaleness).poll system now,
        LiveRefresh invocations.getInvocation ev := by
  constructor
  · intro ev hev
    obtain ⟨aggregate, -, h⟩ := List.mem_filterMap.mp hev
    obtain ⟨htype, inv, hinv, hfin, rfl⟩ := pollAggregate_eq_some h
    exact ⟨htype, inv, hinv, hfin, rfl⟩
  · intro ev hev
    obtain ⟨⟨key, st⟩, -, h⟩ := List.mem_filterMap.mp hev
    obtain ⟨inv, hinv, hfin, rfl⟩ := pollKey_invocationSensor_eq_some _ _ h
    exact ⟨rfl, inv, hinv, hfin, rfl⟩

/-! ## The notification sensor -/

section Notifications

variable {Msg : Type}

/-- The loop of `InvocationNotificationSensor.Run` over the messages the
store's update channel delivers before the sensor is closed.  Each turn
converts the message with `ToNotification` and submits the notification;
a failed conversion is only logged, so the nil notification it leaves is
submitted too (`none`).  `ToNotification` is not in the source; on an error
it is taken to return nil, as Go functions returning a value and an error
do. -/
def InvocationNotificationSensor.runLoop (toNotification : Msg → Except String Event) :
    List Msg → List (Option Event)
  | [] => []
  | msg :: msgs =>
    let notification := match toNotification msg with
      | .ok notification => some notification
      | .error _ => none
    notification :: InvocationNotificationSensor.runLoop toNotification msgs

/-- `InvocationNotificationSensor.Run`: what it submits, in order.  The
subscription is `GetInvocationUpdates`, with its `ToNotification`; a store
without pubsub gives none, and `Run` returns at once. -/
def InvocationNotificationSensor.run (sub : Option (Msg → Except String Event))
    (msgs : List Msg) : List (Option Event) :=
  match sub with
  | none => []
  | some toNotification => InvocationNotificationSensor.runLoop toNotification msgs

/-- The loop submits one entry per message, in delivery order: the
notification of a message that converts, and nil for one that does not. -/
theorem runLoop_eq_map (toNotification : Msg → Except String Event) (msgs : List Msg) :
    InvocationNotificationSensor.runLoop toNotification msgs =
      msgs.map fun msg => (toNotification msg).toOption := by
  induction msgs with
  | nil => rfl
  | cons msg msgs ih =>
    rw [InvocationNotificationSensor.runLoop, ih, List.map_cons]
    cases toNotification msg <;> rfl

/-- Every message of the stream whose conversion fails makes `Run` submit a
nil notification, at the message's own position. -/
theorem run_submits_nil_of_error {toNotification : Msg → Except String Event} {msgs : List Msg}
    {i : Nat} (hi : i < msgs.length) {err : String}
    (herr : toNotification (msgs.get ⟨i, hi⟩) = .error err) :
    (InvocationNotificationSensor.run (some toNotification) msgs).get? i = some none := by
  rw [List.get_eq_getElem] at herr
  rw [InvocationNotificationSensor.run, runLoop_eq_map, List.get?_eq_getElem?, List.getElem?_map,
    List.getElem?_eq_getElem hi, Option.map_some', herr]
  rfl

end Notifications

theorem run_submits_nil_of_error_sample :
    0 < [(), ()].length ∧
      (fun _ => .error "cannot convert" : Unit → Except String Event)
          ([(), ()].get ⟨0, by decide⟩) =
        .error "cannot convert" ∧
      (InvocationNotificationSensor.run (some fun _ => .error "cannot convert") [(), ()]).get? 0 =
        some none :=
  ⟨by decide, rfl, run_submits_nil_of_error (by decide) rfl⟩

end FissionWorkflows.Controller
