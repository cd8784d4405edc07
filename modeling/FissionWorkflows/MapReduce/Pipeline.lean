import FissionWorkflows.MapReduce.Handlers
import FissionWorkflows.MapReduce.Grouping

/-!
# The map-reduce pipeline counts the words

The example's functions in sequence (`pipeline`): the map handler, one of the
two grouping handlers, the reduce handler, each reading the response body of
the one before.

Both grouping loops write the runs of the sorted words found so far:
`grouped gs` is the runs `gs` (last run first) as entries `word:1;…;1`
joined by `','`, and the second handler holds the same text with one more
`';'` (`onesGrouped`).  The refinement goes turn by turn: a turn of either
loop on the map entry `word:1` does what `pushWord` does on `word`
(`groupValuesStep_mapEntry`, `groupOnesStep_mapEntry`), so both loops write
the text of the runs of the sorted words (`grouping_mapHandler`).  The runs
are those of `groupsOf_foldl`, and the reduce handler counts the `1`s of each
entry (`reduceHandler_grouped`).

`pipeline_counts` is the result: on every body whose comma-separated words
are non-empty and free of `':'`, both grouping handlers write the same text
and the pipeline answers `word:count` for each distinct word, joined by
`", "`, in ascending order of the word followed by `':'`.

The condition on the words is needed.  On the map output of every body the
grouping handlers run to their end (`grouping_mapHandler_isSome`), but an
empty word makes the reduce handler panic: `pipeline_panics_on_empty_word`
is the empty body, and the body `a,,b`, on which the reduce handler reads
`wordNum[1]` past the end of a split.
-/

namespace FissionWorkflows.MapReduce

/-- The map-reduce example: the map handler, a grouping handler and the
reduce handler, each reading the response body of the one before. -/
def pipeline (group : Bytes → Option Bytes) (body : Bytes) : Option Bytes :=
  (group (mapHandler body)).bind reduceHandler

/-- The answer the words of `words` should get: `w:k` for each word `w` of
`D`, with `k` the number of times `w` occurs in `words`, joined by `", "`. -/
def wordCounts (D words : List Bytes) : Bytes :=
  [comma, space].intercalate (D.map fun w => w ++ [colon] ++ itoa (words.count w))

/-! ## Entries -/

/-- `1;1;…;1`, a `1` for each word of a run. -/
def ones (count : Nat) : Bytes := [semicolon].intercalate (List.replicate count [one])

theorem ones_one : ones 1 = [one] := rfl

theorem ones_succ {count : Nat} (h : 0 < count) :
    ones (count + 1) = ones count ++ [semicolon, one] := by
  rw [ones, List.replicate_succ', intercalate_concat _ _ (by simpa [Nat.pos_iff_ne_zero] using h)]
  simp [ones]

theorem ones_eq_concat {count : Nat} (h : 0 < count) : ∃ p, ones count = p ++ [one] := by
  obtain ⟨k, rfl⟩ := Nat.exists_eq_add_of_lt h
  rw [ones, Nat.zero_add, List.replicate_succ']
  exact intercalate_concat_exists _ _ _

theorem not_mem_ones {b : UInt8} (hsemicolon : b ≠ semicolon) (hone : b ≠ one) (count : Nat) :
    b ∉ ones count := by
  induction count with
  | zero => simp [ones, List.intercalate]
  | succ k ih =>
    rcases Nat.eq_zero_or_pos k with rfl | hk
    · simpa [ones_one] using hone
    · simp [ones_succ hk, ih, hsemicolon, hone]

theorem split_ones {count : Nat} (h : 0 < count) :
    split (ones count) semicolon = List.replicate count [one] :=
  List.splitOn_intercalate _ _ (fun l hl => by simp [List.eq_of_mem_replicate hl]; decide)
    (by simpa [Nat.pos_iff_ne_zero] using h)

theorem mapEntry_injective : Function.Injective mapEntry :=
  fun _ _ h => List.append_cancel_right h

theorem dropLast_dropLast_mapEntry (w : Bytes) : (mapEntry w).dropLast.dropLast = w := by
  rw [mapEntry, show [colon, one] = [colon] ++ [one] from rfl, ← List.append_assoc,
    List.dropLast_concat, List.dropLast_concat]

theorem split_mapEntry {w : Bytes} (h : colon ∉ w) : split (mapEntry w) colon = [w, [one]] := by
  rw [mapEntry, split_append_cons h, split_of_not_mem (by decide)]

/-- For words free of `':'`, the map entries `word:1` are in the order of the
words followed by `':'`. -/
theorem mapEntry_lt_iff {a b : Bytes} (ha : colon ∉ a) (hb : colon ∉ b) :
    mapEntry a < mapEntry b ↔ a ++ [colon] < b ++ [colon] := by
  rw [mapEntry, mapEntry, append_colon_lt_iff ha hb]
  simp

/-- Sorting the images of a list under a map with a left inverse on it sorts
the list by the images. -/
theorem sortStrings_map {α : Type} (m : α → Bytes) (p : Bytes → α) {xs : List α}
    (hp : ∀ x ∈ xs, p (m x) = x) :
    ∃ ys : List α, sortStrings (xs.map m) = ys.map m ∧ ys.Perm xs ∧
      ys.Sorted fun a b => m a ≤ m b := by
  have hperm : (sortStrings (xs.map m)).Perm (xs.map m) := List.perm_insertionSort _ _
  have hsorted : (sortStrings (xs.map m)).Sorted (· ≤ ·) := List.sorted_insertionSort _ _
  have hentry : ∀ e ∈ sortStrings (xs.map m), m (p e) = e := by
    intro e he
    obtain ⟨x, hx, rfl⟩ := List.mem_map.mp (hperm.subset he)
    rw [hp x hx]
  refine ⟨(sortStrings (xs.map m)).map p, ?_, ?_, ?_⟩
  · rw [List.map_map]
    exact (List.map_congr_left hentry).trans (List.map_id _) |>.symm
  · simpa [Function.comp_def, List.map_congr_left hp] using hperm.map p
  · refine List.pairwise_map.mpr (hsorted.imp_of_mem fun ha hb hab => ?_)
    rwa [hentry _ ha, hentry _ hb]

/-- Sorting the map entries sorts the words by their entries. -/
theorem sortStrings_map_mapEntry (words : List Bytes) :
    ∃ ws : List Bytes, sortStrings (words.map mapEntry) = ws.map mapEntry ∧ ws.Perm words ∧
      ws.Sorted fun a b => mapEntry a ≤ mapEntry b :=
  sortStrings_map mapEntry (fun e => e.dropLast.dropLast) fun w _ => dropLast_dropLast_mapEntry w

/-! ## The text of the runs -/

/-- The entry of a run, as the reduce handler reads it: the word, and a `1`
for each time it occurs. -/
def groupKeyValue (g : Group) : Bytes × Bytes := (g.word, ones g.count)

/-- The text of the entry of a run: `word:1;…;1`. -/
def groupEntry (g : Group) : Bytes := g.word ++ colon :: ones g.count

/-- The text of the runs `gs`, last run first: their entries joined by
`','`. -/
def grouped (gs : List Group) : Bytes := [comma].intercalate (gs.reverse.map groupEntry)

/-- The text of the second grouping handler: one more `';'` after the last
entry. -/
def onesGrouped : List Group → Bytes
  | [] => []
  | g :: gs => grouped (g :: gs) ++ [semicolon]

/-- The word of the last run, or `""` before the first. -/
def lastWord (gs : List Group) : Bytes := (gs.head?.map Group.word).getD []

@[simp] theorem grouped_nil : grouped [] = [] := rfl

@[simp] theorem lastWord_nil : lastWord [] = [] := rfl

@[simp] theorem lastWord_cons (g : Group) (gs : List Group) : lastWord (g :: gs) = g.word := rfl

theorem grouped_cons (g : Group) (gs : List Group) :
    grouped (g :: gs) = [comma].intercalate (gs.reverse.map groupEntry ++ [groupEntry g]) := by
  rw [grouped, List.reverse_cons, List.map_append, List.map_singleton]

theorem grouped_eq_concat (g : Group) (gs : List Group) : ∃ p, grouped (g :: gs) = p ++ [one] := by
  obtain ⟨p, hp⟩ := intercalate_concat_exists [comma] (groupEntry g) (gs.reverse.map groupEntry)
  obtain ⟨q, hq⟩ := ones_eq_concat g.count_pos
  refine ⟨p ++ g.word ++ colon :: q, ?_⟩
  rw [grouped_cons, hp, groupEntry, hq]
  simp

theorem length_grouped_pos (g : Group) (gs : List Group) : 0 < (grouped (g :: gs)).length := by
  obtain ⟨p, hp⟩ := grouped_eq_concat g gs
  simp [hp]

@[simp] theorem trimRight_grouped (g : Group) (gs : List Group) :
    trimRight (grouped (g :: gs)) [semicolon] = grouped (g :: gs) := by
  obtain ⟨p, hp⟩ := grouped_eq_concat g gs
  rw [hp]
  exact trimRight_concat_of_not_mem _ (by decide)

/-- The first run: `word:1`. -/
@[simp] theorem grouped_singleton (w : Bytes) : grouped [⟨w, 1, Nat.one_pos⟩] = mapEntry w := by
  simp [grouped, groupEntry, ones_one, List.intercalate, mapEntry]

/-- One more word in the last run adds `;1` to its entry. -/
@[simp] theorem grouped_cons_succ (g : Group) (gs : List Group) :
    grouped (⟨g.word, g.count + 1, Nat.succ_pos _⟩ :: gs) = grouped (g :: gs) ++ [semicolon, one] := by
  rw [grouped_cons, grouped_cons, intercalate_concat_append, groupEntry, groupEntry,
    ones_succ g.count_pos]
  simp

/-- A new run adds `,word:1`. -/
@[simp] theorem grouped_cons_one (w : Bytes) (g : Group) (gs : List Group) :
    grouped (⟨w, 1, Nat.one_pos⟩ :: g :: gs) = grouped (g :: gs) ++ [comma] ++ mapEntry w := by
  rw [grouped_cons, intercalate_concat _ _ (by simp)]
  rfl

/-- The second handler's last `TrimRight` leaves the text of the runs. -/
theorem trimRight_onesGrouped (gs : List Group) :
    trimRight (onesGrouped gs) [semicolon] = grouped gs := by
  cases gs with
  | nil => rfl
  | cons g gs =>
    rw [onesGrouped, trimRight_concat_of_mem _ (List.mem_singleton_self _), trimRight_grouped]

/-! ## The grouping loops -/

/-- A turn of the first grouping loop on `word:1` is `pushWord` on the word. -/
theorem groupValuesStep_mapEntry {w : Bytes} (hw : w ≠ [] ∧ colon ∉ w) (gs : List Group) :
    groupValuesStep (grouped gs, lastWord gs) (mapEntry w) =
      some (grouped (pushWord gs w), lastWord (pushWord gs w)) := by
  simp only [groupValuesStep]
  rw [split_mapEntry hw.2]
  cases gs with
  | nil => simp [hw.1, mapEntry]
  | cons g gs =>
    by_cases hwg : w = g.word
    · subst hwg
      simp
    · simp [hwg, pushWord_cons_of_ne hwg, length_grouped_pos, mapEntry]

/-- A turn of the second grouping loop on an entry `key:value` is `pushWord`
on the key: the loop reads no value. -/
theorem groupOnesStep_reduceEntry {key : Bytes} (hkey : key ≠ [] ∧ colon ∉ key) (value : Bytes)
    (gs : List Group) :
    groupOnesStep (onesGrouped gs, lastWord gs) (reduceEntry (key, value)) =
      some (onesGrouped (pushWord gs key), lastWord (pushWord gs key)) := by
  simp only [groupOnesStep, reduceEntry]
  rw [split_append_cons hkey.2]
  cases gs with
  | nil => simp [hkey.1, onesGrouped, mapEntry]
  | cons g gs =>
    by_cases hwg : key = g.word
    · subst hwg
      simp [onesGrouped]
    · simp [hwg, pushWord_cons_of_ne hwg, onesGrouped, length_grouped_pos, mapEntry,
        trimRight_concat_of_mem (grouped (g :: gs)) (List.mem_singleton_self semicolon)]

/-- A turn of the second grouping loop on `word:1` is `pushWord` on the word. -/
theorem groupOnesStep_mapEntry {w : Bytes} (hw : w ≠ [] ∧ colon ∉ w) (gs : List Group) :
    groupOnesStep (onesGrouped gs, lastWord gs) (mapEntry w) =
      some (onesGrouped (pushWord gs w), lastWord (pushWord gs w)) :=
  groupOnesStep_reduceEntry hw [one] gs

/-- The map output splits back into the entries of the words. -/
theorem split_mapHandler (body : Bytes) :
    split (mapHandler body) comma = (split body comma).map mapEntry := by
  rw [mapHandler_eq]
  refine List.splitOn_intercalate _ _ (fun l hl => ?_) (by simpa using split_ne_nil body comma)
  obtain ⟨w, hw, rfl⟩ := List.mem_map.mp hl
  simpa [mapEntry, show comma ≠ colon by decide, show comma ≠ one by decide]
    using sep_not_mem_of_mem_split hw

/-- An entry `w:1` splits on `':'` into at least a key and a value, whatever
`':'` the word holds. -/
theorem exists_split_mapEntry (w : Bytes) :
    ∃ key value rest, split (mapEntry w) colon = key :: value :: rest := by
  have hlen := one_lt_length_split (show colon ∈ mapEntry w by simp [mapEntry])
  generalize split (mapEntry w) colon = pieces at hlen
  match pieces, hlen with
  | [], h => exact absurd h (Nat.not_lt_zero 1)
  | [_], h => exact absurd h (Nat.lt_irrefl 1)
  | key :: value :: rest, _ => exact ⟨key, value, rest, rfl⟩

/-- A turn of the first grouping loop on a map entry indexes in range. -/
theorem groupValuesStep_mapEntry_isSome (state : Bytes × Bytes) (w : Bytes) :
    (groupValuesStep state (mapEntry w)).isSome := by
  obtain ⟨key, value, rest, h⟩ := exists_split_mapEntry w
  obtain ⟨combined, last⟩ := state
  simp only [groupValuesStep, h, List.getElem?_cons_zero, List.getElem?_cons_succ,
    Option.bind_eq_bind, Option.some_bind]
  split_ifs <;> rfl

/-- A turn of the second grouping loop on a map entry indexes in range. -/
theorem groupOnesStep_mapEntry_isSome (state : Bytes × Bytes) (w : Bytes) :
    (groupOnesStep state (mapEntry w)).isSome := by
  obtain ⟨key, value, rest, h⟩ := exists_split_mapEntry w
  obtain ⟨combined, last⟩ := state
  simp only [groupOnesStep, h, List.getElem?_cons_zero, Option.bind_eq_bind, Option.some_bind]
  split_ifs <;> rfl

/-- On the map output of every body, neither grouping handler indexes past
the end of a split: every entry holds a `':'`, so `wordNum[1]` is in range,
and both loops run to their end. -/
theorem grouping_mapHandler_isSome (body : Bytes) :
    (groupValuesHandler (mapHandler body)).isSome ∧
      (groupOnesHandler (mapHandler body)).isSome := by
  -- a loop whose turn indexes in range on every map entry runs to its end
  have hloop {step : Bytes × Bytes → Bytes → Option (Bytes × Bytes)}
      (hstep : ∀ state w, (step state (mapEntry w)).isSome) :
      ((sortStrings (split (mapHandler body) comma)).foldlM step ([], [])).isSome := by
    refine foldlM_isSome (fun state e he => ?_) _
    rw [split_mapHandler] at he
    obtain ⟨w, -, rfl⟩ := List.mem_map.mp ((List.perm_insertionSort _ _).subset he)
    exact hstep state w
  rw [groupValuesHandler, groupOnesHandler, Option.isSome_map', Option.isSome_map']
  exact ⟨hloop groupValuesStep_mapEntry_isSome, hloop groupOnesStep_mapEntry_isSome⟩

/-- On the map output of a body whose words are non-empty and free of `':'`,
both grouping handlers write the text of the runs of the sorted words. -/
theorem grouping_mapHandler {body : Bytes}
    (hwords : ∀ w ∈ split body comma, w ≠ [] ∧ colon ∉ w) :
    ∃ ws : List Bytes, ws.Perm (split body comma) ∧
      (ws.Sorted fun a b => mapEntry a ≤ mapEntry b) ∧
      groupValuesHandler (mapHandler body) = some (grouped (ws.foldl pushWord [])) ∧
      groupOnesHandler (mapHandler body) = some (grouped (ws.foldl pushWord [])) := by
  obtain ⟨ws, hsort, hperm, hsorted⟩ := sortStrings_map_mapEntry (split body comma)
  have hws : ∀ w ∈ ws, w ≠ [] ∧ colon ∉ w := fun w hw => hwords w (hperm.subset hw)
  have hvalues := foldlM_map_simulates (fun gs => (grouped gs, lastWord gs)) mapEntry
    (fun gs w hw => groupValuesStep_mapEntry (hws w hw) gs) []
  have hones := foldlM_map_simulates (fun gs => (onesGrouped gs, lastWord gs)) mapEntry
    (fun gs w hw => groupOnesStep_mapEntry (hws w hw) gs) []
  refine ⟨ws, hperm, hsorted, ?_, ?_⟩
  · rw [groupValuesHandler, split_mapHandler, hsort]
    exact congrArg (Option.map Prod.fst) hvalues
  · rw [groupOnesHandler, split_mapHandler, hsort]
    exact (congrArg (Option.map _) hones).trans (congrArg some (trimRight_onesGrouped _))

/-! ## The reduce handler on the runs -/

/-- The reduce handler answers the runs of words free of `':'` and `','` with
each word and its count. -/
theorem reduceHandler_grouped {key : Bytes → Bytes} {ws : List Bytes} {gs : List Group}
    (h : GroupsOf key ws gs)
    (hne : ws ≠ []) (hws : ∀ w ∈ ws, colon ∉ w ∧ comma ∉ w) :
    reduceHandler (grouped gs) =
      some ([comma, space].intercalate ((gs.reverse.map Group.word).map fun w =>
        w ++ [colon] ++ itoa (ws.count w))) := by
  have hgs : gs ≠ [] := by
    obtain ⟨w, hw⟩ := List.exists_mem_of_ne_nil ws hne
    obtain ⟨g, hg, -⟩ := List.mem_map.mp ((h.mem_iff w).mpr hw)
    exact List.ne_nil_of_mem hg
  have hones : ∀ g : Group, colon ∉ ones g.count ∧ comma ∉ ones g.count := fun g =>
    ⟨not_mem_ones (by decide) (by decide) _, not_mem_ones (by decide) (by decide) _⟩
  have hentries : ∀ e ∈ gs.reverse.map groupKeyValue, (colon ∉ e.1 ∧ colon ∉ e.2) ∧
      (comma ∉ e.1 ∧ comma ∉ e.2) := by
    intro e he
    obtain ⟨g, hg, rfl⟩ := List.mem_map.mp he
    have hw := hws g.word (h.mem (List.mem_reverse.mp hg))
    exact ⟨⟨hw.1, (hones g).1⟩, hw.2, (hones g).2⟩
  have hform : grouped gs = [comma].intercalate ((gs.reverse.map groupKeyValue).map reduceEntry) := by
    rw [List.map_map]
    rfl
  rw [hform, reduceHandler_eq (by simpa using hgs) (fun e he => (hentries e he).1)
    (fun e he => (hentries e he).2), List.map_map, List.map_map]
  refine congrArg (fun l => some ([comma, space].intercalate l)) (List.map_congr_left fun g hg => ?_)
  show reducedEntry (groupKeyValue g) = g.word ++ [colon] ++ itoa (ws.count g.word)
  simp only [reducedEntry, groupKeyValue, split_ones g.count_pos, List.length_replicate]
  rw [← h.count_eq g (List.mem_reverse.mp hg)]

/-! ## The pipeline -/

/-- On every body whose comma-separated words are non-empty and free of
`':'`, the two grouping handlers write the same text, and the pipeline
through either answers `w:k` for each distinct word `w`, `k` the number of
times it occurs, joined by `", "` and in ascending order of `w` followed by
`':'`. -/
theorem pipeline_counts (body : Bytes) (hwords : ∀ w ∈ split body comma, w ≠ [] ∧ colon ∉ w) :
    ∃ D : List Bytes, (D.Sorted fun a b => a ++ [colon] < b ++ [colon]) ∧
      (∀ w, w ∈ D ↔ w ∈ split body comma) ∧
      groupOnesHandler (mapHandler body) = groupValuesHandler (mapHandler body) ∧
      pipeline groupValuesHandler body = some (wordCounts D (split body comma)) ∧
      pipeline groupOnesHandler body = some (wordCounts D (split body comma)) := by
  obtain ⟨ws, hperm, hsorted, hvalues, hones⟩ := grouping_mapHandler hwords
  have hG := groupsOf_foldl mapEntry_injective hsorted
  have hws : ∀ w ∈ ws, colon ∉ w ∧ comma ∉ w := fun w hw =>
    ⟨(hwords w (hperm.subset hw)).2, sep_not_mem_of_mem_split (hperm.subset hw)⟩
  have hne : ws ≠ [] := fun h => split_ne_nil body comma (List.Perm.nil_eq (h ▸ hperm)).symm
  have hreduce := reduceHandler_grouped hG hne hws
  have hcount : ∀ w, ws.count w = (split body comma).count w := fun w => hperm.countP_eq _
  refine ⟨(ws.foldl pushWord []).reverse.map Group.word, ?_, fun w => ?_, hones.trans hvalues.symm,
    ?_, ?_⟩
  · refine hG.sorted.imp_of_mem fun ha hb hab => (mapEntry_lt_iff ?_ ?_).mp hab
    · exact (hws _ ((hG.mem_iff _).mp (by simpa using ha))).1
    · exact (hws _ ((hG.mem_iff _).mp (by simpa using hb))).1
  · rw [← hperm.mem_iff, ← hG.mem_iff]
    simp
  · rw [pipeline, hvalues, Option.some_bind, hreduce, wordCounts]
    simp only [hcount]
  · rw [pipeline, hones, Option.some_bind, hreduce, wordCounts]
    simp only [hcount]

theorem pipeline_counts_sample :
    (∀ w ∈ split [98, 44, 97, 44, 98] comma, w ≠ [] ∧ colon ∉ w) ∧
      ∃ D : List Bytes, (D.Sorted fun a b => a ++ [colon] < b ++ [colon]) ∧
        (∀ w, w ∈ D ↔ w ∈ split [98, 44, 97, 44, 98] comma) ∧
        groupOnesHandler (mapHandler [98, 44, 97, 44, 98]) =
          groupValuesHandler (mapHandler [98, 44, 97, 44, 98]) ∧
        pipeline groupValuesHandler [98, 44, 97, 44, 98] =
          some (wordCounts D (split [98, 44, 97, 44, 98] comma)) ∧
        pipeline groupOnesHandler [98, 44, 97, 44, 98] =
          some (wordCounts D (split [98, 44, 97, 44, 98] comma)) :=
  ⟨by decide, pipeline_counts _ (by decide)⟩

/-- The empty body, and the body `a,,b` with an empty word: the map output
holds the entry `:1` of the empty word, which sorts first.  Both grouping
handlers take its empty key for the empty last key they start with, append
its value to an entry that does not exist, and so write first an item
without `':'`.  The split of that item has one piece, and the reduce
handler's `wordNum[1]` panics. -/
theorem pipeline_panics_on_empty_word :
    mapHandler [] = [colon, one] ∧
      groupValuesHandler [colon, one] = some [semicolon, one] ∧
      groupOnesHandler [colon, one] = some [one] ∧
      split [semicolon, one] colon = [[semicolon, one]] ∧ split [one] colon = [[one]] ∧
      pipeline groupValuesHandler [] = none ∧ pipeline groupOnesHandler [] = none ∧
      pipeline groupValuesHandler [97, 44, 44, 98] = none ∧
      pipeline groupOnesHandler [97, 44, 44, 98] = none := by
  decide

end FissionWorkflows.MapReduce
