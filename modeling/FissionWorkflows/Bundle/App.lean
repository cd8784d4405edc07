import Mathlib.Data.List.Perm.Basic
import Mathlib.Data.List.Nodup

/-!
# The application's closers

`App.RegisterCloser` and `App.Close` of
`cmd/fission-workflows-bundle/bundle/bundle.go`.  `Run` registers the caches
it sets up with the application, under `cache-` and the aggregate type, and
closes the application when it shuts down.

`RegisterCloser` panics on a name that is already registered, so the map
holds one closer per name.  `Close` ranges over the map in the order the Go
runtime picks, calls every closer's `Close`, logs each outcome, and returns
one error when any of them failed.

* `registerAll_cases`: registering closers one after another either succeeds
  and leaves all of them in the map, whose names are then distinct, or
  panics on a name that is already there.
* `closeLoop_eq`: the loop of `Close` calls every closer it visits, once and
  in the order visited, and its flag is set exactly when one of them failed.
* `close_registerAll`: registering a list of closers panics exactly when two
  of them share a name, with a message naming the first name registered a
  second time; otherwise `Close` calls every registered closer's `Close`
  exactly once, whatever the map order, and returns an error exactly when
  one of them failed.

The log lines of `Close` are not modelled.
-/

namespace FissionWorkflows.Bundle

/-- An `io.Closer`, by what its `Close` returns: `none` for nil, or the text
of the error. -/
structure Closer where
  close : Option String
  deriving DecidableEq, Repr

/-- `App`, by its map of closers.  A Go map holds one closer per name. -/
structure App where
  closers : List (String × Closer)
  nodup : (closers.map Prod.fst).Nodup

/-- The application `Run` starts with: `closers: map[string]io.Closer{}`. -/
def App.empty : App := ⟨[], List.nodup_nil⟩

/-- `App.RegisterCloser`.  Its panic on a name already registered is the
error. -/
def App.registerCloser (app : App) (name : String) (closer : Closer) : Except String App :=
  if h : name ∈ app.closers.map Prod.fst then .error ("duplicate registry for key " ++ name)
  else .ok ⟨app.closers ++ [(name, closer)], by
    rw [List.map_append, List.map_singleton, List.nodup_append_comm]
    exact List.nodup_cons.mpr ⟨h, app.nodup⟩⟩

/-- `RegisterCloser` called for each entry in turn, as `Run` does for its
caches; the first panic ends the sequence. -/
def App.registerAll (app : App) (entries : List (String × Closer)) : Except String App :=
  entries.foldlM (fun app entry => app.registerCloser entry.1 entry.2) app

/-- The loop of `App.Close` over the entries in the order it visits them: it
calls each closer's `Close` and sets `errorOccured` when one fails.  It
returns the flag and the names of the closers it called, in order. -/
def closeLoop : Bool → List (String × Closer) → Bool × List String
  | errorOccured, [] => (errorOccured, [])
  | errorOccured, (name, closer) :: rest =>
    let next := closeLoop (if closer.close.isSome then true else errorOccured) rest
    (next.1, name :: next.2)

/-- `App.Close`, with `order` the order in which the runtime's `range` visits
the map: what it returns, and the names of the closers it calls. -/
def App.close (app : App) (order : List (String × Closer) → List (String × Closer)) :
    Except String Unit × List String :=
  let loop := closeLoop false (order app.closers)
  (if loop.1 then .error "error(s) occurred while closing application" else .ok (), loop.2)

/-! ## Registration -/

theorem registerCloser_of_not_mem {app : App} {name : String}
    (h : name ∉ app.closers.map Prod.fst) (closer : Closer) :
    ∃ app', app.registerCloser name closer = .ok app' ∧
      app'.closers = app.closers ++ [(name, closer)] := by
  simp [App.registerCloser, h]

/-- A sequence of registrations succeeds, with every closer in the map, or
panics at the first entry whose name is already there: in the map, or among
the entries registered before it, which are all new. -/
theorem registerAll_cases (app : App) (entries : List (String × Closer)) :
    (∃ app', app.registerAll entries = .ok app' ∧ app'.closers = app.closers ++ entries ∧
      ((app.closers ++ entries).map Prod.fst).Nodup) ∨
    (∃ pre name closer post, entries = pre ++ (name, closer) :: post ∧
      ((app.closers ++ pre).map Prod.fst).Nodup ∧ name ∈ (app.closers ++ pre).map Prod.fst ∧
      app.registerAll entries = .error ("duplicate registry for key " ++ name)) := by
  induction entries generalizing app with
  | nil => exact .inl ⟨app, rfl, by simp, by simpa using app.nodup⟩
  | cons entry entries ih =>
    obtain ⟨name, closer⟩ := entry
    by_cases h : name ∈ app.closers.map Prod.fst
    · -- the name is taken: the first registration panics
      refine .inr ⟨[], name, closer, entries, rfl, by simpa using app.nodup, by simpa using h,
        ?_⟩
      simp [App.registerAll, App.registerCloser, h]
      rfl
    · -- the first registration succeeds, and the rest go on from there
      obtain ⟨app₁, hreg, hcl₁⟩ := registerCloser_of_not_mem h closer
      have hall : app.registerAll ((name, closer) :: entries) = app₁.registerAll entries := by
        simp only [App.registerAll, List.foldlM_cons, hreg]
        rfl
      rw [hall]
      rcases ih app₁ with ⟨app', hok, hcl, hnd⟩ |
          ⟨pre, name', closer', post, rfl, hnd, hmem, herr⟩ <;>
        rw [hcl₁] at *
      · exact .inl ⟨app', hok, by simp [hcl], by simpa using hnd⟩
      · exact .inr ⟨(name, closer) :: pre, name', closer', post, rfl, by simpa using hnd,
          by simpa using hmem, herr⟩

/-! ## Closing -/

/-- The loop calls the closers in the order visited, and its flag records
whether one of them failed. -/
theorem closeLoop_eq (errorOccured : Bool) (entries : List (String × Closer)) :
    closeLoop errorOccured entries =
      (errorOccured || entries.any fun entry => entry.2.close.isSome, entries.map Prod.fst) := by
  induction entries generalizing errorOccured with
  | nil => simp [closeLoop]
  | cons entry entries ih =>
    obtain ⟨name, closer⟩ := entry
    rw [closeLoop, ih]
    cases h : closer.close.isSome <;> simp [h]

/-- Registering a list of closers succeeds exactly when their names are
distinct.  It panics at the first closer whose name an earlier one has, with
the message naming it.  Otherwise `Close` calls every registered closer's
`Close` exactly once, in whatever order the runtime ranges over the map, and
returns an error exactly when one of them failed. -/
theorem close_registerAll (entries : List (String × Closer))
    (order : List (String × Closer) → List (String × Closer)) (horder : ∀ l, (order l).Perm l) :
    match App.empty.registerAll entries with
    | .ok app =>
      (entries.map Prod.fst).Nodup ∧ (app.close order).2.Perm (entries.map Prod.fst) ∧
        ((app.close order).1 = .ok () ↔ ∀ entry ∈ entries, entry.2.close = none)
    | .error err =>
      ∃ pre name closer post, entries = pre ++ (name, closer) :: post ∧
        (pre.map Prod.fst).Nodup ∧ name ∈ pre.map Prod.fst ∧
        err = "duplicate registry for key " ++ name := by
  rcases registerAll_cases App.empty entries with
    ⟨app, h, hcl, hnd⟩ | ⟨pre, name, closer, post, hentries, hnd, hmem, h⟩ <;> rw [h]
  · -- the map order is a permutation of the registration order
    have hperm : (order app.closers).Perm entries := hcl ▸ horder _
    simp only [App.close, closeLoop_eq, Bool.false_or]
    refine ⟨by simpa [App.empty] using hnd, hperm.map _, ?_⟩
    simp [List.any_eq_true, hperm.mem_iff, Option.isSome_iff_ne_none]
  · exact ⟨pre, name, closer, post, hentries, by simpa [App.empty] using hnd,
      by simpa [App.empty] using hmem, rfl⟩

/-- Three caches, the third registered under the name of the first. -/
def duplicateClosers : List (String × Closer) :=
  [("cache-invocation", ⟨none⟩), ("cache-workflow", ⟨some "connection closed"⟩),
    ("cache-invocation", ⟨none⟩)]

theorem close_registerAll_duplicate :
    App.empty.registerAll duplicateClosers =
        .error "duplicate registry for key cache-invocation" ∧
      (∀ l : List (String × Closer), (id l).Perm l) ∧
      match App.empty.registerAll duplicateClosers with
      | .ok app =>
        (duplicateClosers.map Prod.fst).Nodup ∧
          (app.close id).2.Perm (duplicateClosers.map Prod.fst) ∧
          ((app.close id).1 = .ok () ↔ ∀ entry ∈ duplicateClosers, entry.2.close = none)
      | .error err =>
        ∃ pre name closer post, duplicateClosers = pre ++ (name, closer) :: post ∧
          (pre.map Prod.fst).Nodup ∧ name ∈ pre.map Prod.fst ∧
          err = "duplicate registry for key " ++ name :=
  ⟨rfl, fun l => .refl l, close_registerAll duplicateClosers id fun l => .refl l⟩

end FissionWorkflows.Bundle
