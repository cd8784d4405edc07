import FissionWorkflows.MapReduce.GoStrings

/-!
# The map-reduce handlers

The functions of the map-reduce example, each a Fission HTTP handler that
reads the request body and writes the response body:

* `mapHandler` (`unnamed/part_000`) writes `word:1` for every comma-separated
  word of the body;
* `groupValuesHandler` and `groupOnesHandler` (the two handlers of
  `unnamed/part_001`) sort the words and gather the entries of equal keys,
  the first as `key:v1;v2;…` with the values it reads, the second as
  `key:1;1;…`;
* `reduceHandler` (`examples/map-reduce/reduce.go`) writes `key:n, ` for
  every entry, `n` the number of its `';'`-separated values, and trims the
  trailing `", "`.

The body is the bytes the handler reads; a failed read (which the handlers
report and then ignore) is not modelled.  `wordNum[i]` panics when `i` is
out of range, so the handlers that index return `Option`, `none` for that
panic.

`mapHandler_eq` and `reduceHandler_eq` say what the map and the reduce
handler compute: the map handler for every body, the reduce handler for
every body of entries `key:value` whose keys hold no `':'` and whose keys
and values hold no `','`.  `handlers_panic_iff` says on which bodies the
handlers that index panic: the first grouping handler and the reduce
handler exactly on those with an item free of `':'`, the second grouping
handler on none.
-/

namespace FissionWorkflows.MapReduce

/-- The entry `word:1` the map handler writes for a word. -/
def mapEntry (word : Bytes) : Bytes := word ++ [colon, one]

/-- The map handler of `unnamed/part_000`. -/
def mapHandler (body : Bytes) : Bytes :=
  let words := split body comma
  let mapped := words.foldl (fun mapped word => mapped ++ (word ++ [colon, one, comma])) []
  trimRight mapped [comma]

/-- A turn of the loop of the first handler of `unnamed/part_001`, on
`(combined, last)`: a word whose key is the last key adds `;value` to the
last entry, any other word starts the entry `key:value`. -/
def groupValuesStep : Bytes × Bytes → Bytes → Option (Bytes × Bytes)
  | (combined, last), word => do
    let wordNum := split word colon
    let key ← wordNum[0]?
    if key = last then
      let value ← wordNum[1]?
      pure (combined ++ ([semicolon] ++ value), last)
    else
      let combined := trimRight combined [semicolon]
      let combined := if combined.length > 0 then combined ++ [comma] else combined
      let value ← wordNum[1]?
      pure (combined ++ (key ++ [colon] ++ value), key)

/-- The first handler of `unnamed/part_001`, which collects the values. -/
def groupValuesHandler (body : Bytes) : Option Bytes :=
  ((sortStrings (split body comma)).foldlM groupValuesStep ([], [])).map Prod.fst

/-- A turn of the loop of the second handler of `unnamed/part_001`: a word
whose key is the last key adds `1;`, any other word starts the entry
`key:1;`. -/
def groupOnesStep : Bytes × Bytes → Bytes → Option (Bytes × Bytes)
  | (combined, last), word => do
    let wordNum := split word colon
    let key ← wordNum[0]?
    if key = last then
      pure (combined ++ [one, semicolon], last)
    else
      let combined := trimRight combined [semicolon]
      let combined := if combined.length > 0 then combined ++ [comma] else combined
      pure (combined ++ (key ++ [colon, one, semicolon]), key)

/-- The second handler of `unnamed/part_001`, which writes a `1` per word and
trims the trailing `';'`. -/
def groupOnesHandler (body : Bytes) : Option Bytes :=
  ((sortStrings (split body comma)).foldlM groupOnesStep ([], [])).map fun state =>
    trimRight state.1 [semicolon]

/-- A turn of the loop of `examples/map-reduce/reduce.go`. -/
def reduceStep (reduced : Bytes) (word : Bytes) : Option Bytes := do
  let wordNum := split word colon
  let value ← wordNum[1]?
  let nums := split value semicolon
  let key ← wordNum[0]?
  pure (reduced ++ (key ++ [colon] ++ itoa nums.length ++ [comma, space]))

/-- The reduce handler of `examples/map-reduce/reduce.go`. -/
def reduceHandler (body : Bytes) : Option Bytes :=
  ((split body comma).foldlM reduceStep []).map fun reduced => trimRight reduced [comma, space]

/-! ## The map handler -/

/-- The map handler writes the entries of the words joined by `','`. -/
theorem mapHandler_eq (body : Bytes) :
    mapHandler body = [comma].intercalate ((split body comma).map mapEntry) := by
  have hloop : (fun mapped word => mapped ++ (word ++ [colon, one, comma])) =
      fun acc l => acc ++ (mapEntry l ++ [comma]) := by
    funext acc l
    simp [mapEntry]
  simp only [mapHandler, hloop, foldl_append_sep mapEntry [comma] (split_ne_nil body comma),
    List.nil_append]
  obtain ⟨words, w, hw⟩ := List.eq_nil_or_concat' (split body comma) |>.resolve_left
    (split_ne_nil body comma)
  rw [hw, List.map_append, List.map_singleton, trimRight_concat_of_mem _ (by simp)]
  obtain ⟨p, hp⟩ := intercalate_concat_exists [comma] (mapEntry w) (words.map mapEntry)
  rw [hp, mapEntry, ← List.append_assoc, show [colon, one] = [colon] ++ [one] from rfl,
    ← List.append_assoc, trimRight_concat_of_not_mem _ (by decide)]

/-! ## The reduce handler -/

/-- A loop over `l.map m` whose every turn, from the image `R s` of a state
of the invariant `I`, gives the image of the turn `g` takes from `s`, which
keeps `I`, runs to its end, and ends in the image of the loop of `g`. -/
theorem foldlM_map_simulates_of_inv {σ τ α β : Type} {f : τ → β → Option τ} {g : σ → α → σ}
    (R : σ → τ) (m : α → β) (I : σ → Prop) {l : List α} (hI : ∀ s, I s → ∀ a ∈ l, I (g s a))
    (h : ∀ s, I s → ∀ a ∈ l, f (R s) (m a) = some (R (g s a))) {s : σ} (hs : I s) :
    (l.map m).foldlM f (R s) = some (R (l.foldl g s)) := by
  induction l generalizing s with
  | nil => rfl
  | cons a l ih =>
    simp only [List.map_cons, List.foldlM_cons, h s hs a (List.mem_cons_self a l),
      Option.bind_eq_bind, Option.some_bind, List.foldl_cons]
    exact ih (fun s' hs' a' ha' => hI s' hs' a' (List.mem_cons_of_mem a ha'))
      (fun s' hs' a' ha' => h s' hs' a' (List.mem_cons_of_mem a ha'))
      (hI s hs a (List.mem_cons_self a l))

/-- A loop over `l.map m` whose every turn, from the image `R s` of a state,
gives the image of the turn `g` takes from `s`, runs to its end, and ends in
the image of the loop of `g`. -/
theorem foldlM_map_simulates {σ τ α β : Type} {f : τ → β → Option τ} {g : σ → α → σ}
    (R : σ → τ) (m : α → β) {l : List α} (h : ∀ s, ∀ a ∈ l, f (R s) (m a) = some (R (g s a)))
    (s : σ) : (l.map m).foldlM f (R s) = some (R (l.foldl g s)) :=
  foldlM_map_simulates_of_inv R m (fun _ => True) (fun _ _ _ _ => trivial)
    (fun s _ a ha => h s a ha) trivial

/-- A loop whose every turn succeeds on the list's elements runs to its end. -/
theorem foldlM_isSome {σ α : Type} {f : σ → α → Option σ} {l : List α}
    (h : ∀ s, ∀ a ∈ l, (f s a).isSome) (s : σ) : (l.foldlM f s).isSome := by
  induction l generalizing s with
  | nil => rfl
  | cons a l ih =>
    obtain ⟨s', hs'⟩ := Option.isSome_iff_exists.mp (h s a (List.mem_cons_self a l))
    simp only [List.foldlM_cons, hs', Option.bind_eq_bind, Option.some_bind]
    exact ih (fun s' a' ha' => h s' a' (List.mem_cons_of_mem a ha')) s'

/-- The entry `key:value` the reduce handler reads. -/
def reduceEntry (entry : Bytes × Bytes) : Bytes := entry.1 ++ colon :: entry.2

/-- What the reduce handler writes for an entry: the key and the number of
its `';'`-separated values. -/
def reducedEntry (entry : Bytes × Bytes) : Bytes :=
  entry.1 ++ [colon] ++ itoa (split entry.2 semicolon).length

/-- An entry whose key and value hold no `':'` is written as its key and
count. -/
theorem reduceStep_reduceEntry (reduced : Bytes) {entry : Bytes × Bytes}
    (hkey : colon ∉ entry.1) (hvalue : colon ∉ entry.2) :
    reduceStep reduced (reduceEntry entry) =
      some (reduced ++ (reducedEntry entry ++ [comma, space])) := by
  simp [reduceStep, reduceEntry, reducedEntry, split_append_cons hkey, split_of_not_mem hvalue]

/-- The trailing `", "` goes, and nothing of the last entry, which ends with
a digit. -/
theorem trimRight_reducedEntry (p : Bytes) (entry : Bytes × Bytes) :
    trimRight (p ++ reducedEntry entry ++ [comma, space]) [comma, space] =
      p ++ reducedEntry entry := by
  obtain ⟨pre, hpre⟩ := itoa_eq_concat (split entry.2 semicolon).length
  have hdigit := digit_not_mem_comma_space (Nat.mod_lt (split entry.2 semicolon).length
    (by decide : 10 > 0))
  rw [show [comma, space] = [comma] ++ [space] from rfl, ← List.append_assoc,
    trimRight_concat_of_mem _ (by simp), trimRight_concat_of_mem _ (by simp), reducedEntry, hpre]
  simp only [← List.append_assoc]
  exact trimRight_concat_of_not_mem _ hdigit

/-- On the entries `key:value`, joined by `','`, with no `':'` in a key or a
value and no `','` in either, the reduce handler writes each key with the
number of its values, joined by `", "`. -/
theorem reduceHandler_eq {entries : List (Bytes × Bytes)} (hne : entries ≠ [])
    (hcolon : ∀ e ∈ entries, colon ∉ e.1 ∧ colon ∉ e.2)
    (hcomma : ∀ e ∈ entries, comma ∉ e.1 ∧ comma ∉ e.2) :
    reduceHandler ([comma].intercalate (entries.map reduceEntry)) =
      some ([comma, space].intercalate (entries.map reducedEntry)) := by
  have hsplit : split ([comma].intercalate (entries.map reduceEntry)) comma =
      entries.map reduceEntry := by
    refine List.splitOn_intercalate _ _ (fun l hl => ?_) (by simpa using hne)
    obtain ⟨e, he, rfl⟩ := List.mem_map.mp hl
    simp [reduceEntry, (hcomma e he).1, (hcomma e he).2, show comma ≠ colon by decide]
  have hloop := foldlM_map_simulates id reduceEntry
    (fun b e he => reduceStep_reduceEntry b (hcolon e he).1 (hcolon e he).2) []
  simp only [id] at hloop
  rw [reduceHandler, hsplit, hloop, Option.map_some',
    foldl_append_sep reducedEntry [comma, space] hne, List.nil_append]
  obtain ⟨es, e, rfl⟩ := (List.eq_nil_or_concat' entries).resolve_left hne
  obtain ⟨p, hp⟩ := intercalate_concat_exists [comma, space] (reducedEntry e) (es.map reducedEntry)
  rw [List.map_append, List.map_singleton, hp, trimRight_reducedEntry]

/-! ## When the handlers panic -/

/-- A loop of steps each of which fails exactly on the elements of `P`, and
goes on from any state otherwise, fails exactly when the list holds such an
element. -/
theorem foldlM_eq_none_iff {σ α : Type} {f : σ → α → Option σ} {P : α → Prop}
    (h : ∀ s a, f s a = none ↔ P a) (l : List α) (s : σ) :
    l.foldlM f s = none ↔ ∃ a ∈ l, P a := by
  induction l generalizing s with
  | nil => simp
  | cons a l ih =>
    rw [List.foldlM_cons]
    cases hf : f s a with
    | none => simp [(h s a).mp hf]
    | some s' =>
      have hP : ¬ P a := fun hP => by simp [(h s a).mpr hP] at hf
      simp [ih, hP]

/-- A turn of the first grouping loop reads `wordNum[1]` on both branches: it
panics exactly on a word without `':'`. -/
theorem groupValuesStep_eq_none_iff (state : Bytes × Bytes) (word : Bytes) :
    groupValuesStep state word = none ↔ colon ∉ word := by
  rw [← getElem?_one_split_eq_none_iff]
  obtain ⟨combined, last⟩ := state
  obtain ⟨key, rest, hsplit⟩ := List.exists_cons_of_ne_nil (split_ne_nil word colon)
  simp only [groupValuesStep, hsplit]
  by_cases hkey : key = last <;> cases rest <;> simp [hkey]

/-- A turn of the reduce loop reads `wordNum[1]`: it panics exactly on a word
without `':'`. -/
theorem reduceStep_eq_none_iff (reduced : Bytes) (word : Bytes) :
    reduceStep reduced word = none ↔ colon ∉ word := by
  rw [← getElem?_one_split_eq_none_iff]
  obtain ⟨key, rest, hsplit⟩ := List.exists_cons_of_ne_nil (split_ne_nil word colon)
  simp only [reduceStep, hsplit]
  cases rest <;> simp

/-- A turn of the second grouping loop reads only `wordNum[0]`, which every
split has. -/
theorem groupOnesStep_isSome (state : Bytes × Bytes) (word : Bytes) :
    (groupOnesStep state word).isSome := by
  obtain ⟨combined, last⟩ := state
  obtain ⟨key, rest, hsplit⟩ := List.exists_cons_of_ne_nil (split_ne_nil word colon)
  simp only [groupOnesStep, hsplit, List.getElem?_cons_zero, Option.bind_eq_bind, Option.some_bind]
  split_ifs <;> rfl

/-- On every body, the first grouping handler and the reduce handler, which
read `wordNum[1]` of every comma-separated item, panic exactly when some item
holds no `':'`; the second grouping handler, which reads only `wordNum[0]`,
never panics. -/
theorem handlers_panic_iff (body : Bytes) :
    (groupValuesHandler body = none ↔ ∃ w ∈ split body comma, colon ∉ w) ∧
      (reduceHandler body = none ↔ ∃ w ∈ split body comma, colon ∉ w) ∧
      (groupOnesHandler body).isSome := by
  have hperm := List.perm_insertionSort (· ≤ ·) (split body comma)
  refine ⟨?_, ?_, ?_⟩
  · rw [groupValuesHandler, Option.map_eq_none', foldlM_eq_none_iff groupValuesStep_eq_none_iff]
    exact exists_congr fun w => and_congr_left' hperm.mem_iff
  · rw [reduceHandler, Option.map_eq_none', foldlM_eq_none_iff reduceStep_eq_none_iff]
  · rw [groupOnesHandler, Option.isSome_map']
    exact foldlM_isSome (fun s w _ => groupOnesStep_isSome s w) _

end FissionWorkflows.MapReduce
