import FissionWorkflows.MapReduce.Pipeline

/-!
# The grouping handlers on any entries

The two handlers of `unnamed/part_001` read any body of entries `key:value`
joined by `','`, not only the map handler's `word:1`.  Sorted as strings, the
entries of one key come together, in the order of their values.

`KeyGroup` is a key with the values read for it, and `pushEntry` is the walk
of the first handler on the groups, last group first, as `pushWord` is the
walk on the runs of keys.  The refinement goes as in `Pipeline`: a turn of
the first handler's loop on an entry does what `pushEntry` does
(`groupValuesStep_reduceEntry`), and a turn of the second's does what
`pushWord` does on the key (`groupOnesStep_reduceEntry`).  The groups stand
for the runs of the sorted keys (`map_toGroup_foldl`), and each holds the
values of its key in the order read (`valuesOf_foldl`).

* `groupValuesHandler_entries`: on every non-empty list of well-formed
  entries, the first handler writes each distinct key once, in ascending
  order of the key followed by `':'`, with the values of its entries sorted
  and joined by `';'`.
* `groupOnesHandler_entries`: the second handler reads no value.  On entries
  whose keys are non-empty and free of `':'` and `','`, and whose values are
  anything free of `','`, it writes each distinct key with a `1` for each of
  its entries.
* `reduce_grouping_entries`: on well-formed entries the reduce handler
  answers either handler's text with each key and the number of its
  entries, so the second handler can stand in for the first.

An entry is well formed (`EntryOk`) when its key is non-empty and free of
`':'` and `','`, and its value non-empty and free of `':'`, `','` and `';'`.
The first handler needs the conditions on the value: its `TrimRight` of the
trailing `';'` runs on the text of the last group, which ends with that
group's last value.
-/

namespace FissionWorkflows.MapReduce

/-- An entry `key:value` that both grouping handlers and the reduce handler
read as one entry: a non-empty key free of `':'` and `','`, and a non-empty
value free of `':'`, `','` and `';'`. -/
def EntryOk (entry : Bytes × Bytes) : Prop :=
  entry.1 ≠ [] ∧ colon ∉ entry.1 ∧ comma ∉ entry.1 ∧
    entry.2 ≠ [] ∧ colon ∉ entry.2 ∧ comma ∉ entry.2 ∧ semicolon ∉ entry.2

instance : DecidablePred EntryOk := fun _ => show Decidable (_ ∧ _) from inferInstance

/-- The entries of one key the first grouping handler has read: the key, and
its values in the order read. -/
structure KeyGroup where
  key : Bytes
  values : List Bytes
  values_ne : values ≠ []

/-- One more entry in the walk of the first grouping handler: its value joins
the last group when it has that group's key, and starts a group otherwise. -/
def pushEntry : List KeyGroup → Bytes × Bytes → List KeyGroup
  | g :: gs, (key, value) =>
    if key = g.key then ⟨g.key, g.values ++ [value], by simp⟩ :: gs
    else ⟨key, [value], by simp⟩ :: g :: gs
  | [], (key, value) => [⟨key, [value], by simp⟩]

/-- The text of a group: `key:v1;v2;…`. -/
def keyGroupEntry (g : KeyGroup) : Bytes := g.key ++ colon :: [semicolon].intercalate g.values

/-- The text of the groups `gs`, last group first: their entries joined by
`','`. -/
def valuesGrouped (gs : List KeyGroup) : Bytes :=
  [comma].intercalate (gs.reverse.map keyGroupEntry)

/-- The key of the last group, or `""` before the first. -/
def lastKey (gs : List KeyGroup) : Bytes := (gs.head?.map KeyGroup.key).getD []

/-- The run of keys a group stands for: its key, once for each value. -/
def KeyGroup.toGroup (g : KeyGroup) : Group :=
  ⟨g.key, g.values.length, List.length_pos.mpr g.values_ne⟩

/-- Every value of the groups is non-empty and free of `';'`. -/
def ValuesOk (gs : List KeyGroup) : Prop := ∀ g ∈ gs, ∀ v ∈ g.values, v ≠ [] ∧ semicolon ∉ v

/-- Each group holds the values of the entries `es` of its key, in the order
of `es`. -/
def ValuesOf (es : List (Bytes × Bytes)) (gs : List KeyGroup) : Prop :=
  ∀ g ∈ gs, g.values = (es.filter fun e => e.1 = g.key).map Prod.snd

/-! ## The text of the groups -/

theorem valuesGrouped_cons (g : KeyGroup) (gs : List KeyGroup) :
    valuesGrouped (g :: gs) =
      [comma].intercalate (gs.reverse.map keyGroupEntry ++ [keyGroupEntry g]) := by
  rw [valuesGrouped, List.reverse_cons, List.map_append, List.map_singleton]

/-- The text of the groups ends with the last value read. -/
theorem valuesGrouped_eq_concat (g : KeyGroup) (gs : List KeyGroup) :
    ∃ p v, v ∈ g.values ∧ valuesGrouped (g :: gs) = p ++ v := by
  obtain ⟨vs, v, hvs⟩ := (List.eq_nil_or_concat' g.values).resolve_left g.values_ne
  obtain ⟨p, hp⟩ := intercalate_concat_exists [comma] (keyGroupEntry g) (gs.reverse.map keyGroupEntry)
  obtain ⟨q, hq⟩ := intercalate_concat_exists [semicolon] v vs
  refine ⟨p ++ g.key ++ colon :: q, v, by simp [hvs], ?_⟩
  rw [valuesGrouped_cons, hp, keyGroupEntry, hvs, hq]
  simp

/-- `TrimRight` leaves the text of the groups whole when the last value read
is non-empty and free of `';'`. -/
theorem trimRight_valuesGrouped {g : KeyGroup} {gs : List KeyGroup} (hgs : ValuesOk (g :: gs)) :
    trimRight (valuesGrouped (g :: gs)) [semicolon] = valuesGrouped (g :: gs) := by
  obtain ⟨p, v, hv, hp⟩ := valuesGrouped_eq_concat g gs
  obtain ⟨hne, hsemi⟩ := hgs g (List.mem_cons_self g gs) v hv
  obtain ⟨r, b, rfl⟩ := (List.eq_nil_or_concat' v).resolve_left hne
  rw [hp, ← List.append_assoc]
  exact trimRight_concat_of_not_mem _ fun hb => hsemi (by simp [List.mem_singleton.mp hb])

theorem length_valuesGrouped_pos (g : KeyGroup) (gs : List KeyGroup) :
    0 < (valuesGrouped (g :: gs)).length := by
  obtain ⟨p, hp⟩ := intercalate_concat_exists [comma] (keyGroupEntry g) (gs.reverse.map keyGroupEntry)
  rw [valuesGrouped_cons, hp]
  exact List.length_pos.mpr (by simp [keyGroupEntry])

@[simp] theorem valuesGrouped_nil : valuesGrouped [] = [] := rfl

@[simp] theorem lastKey_nil : lastKey [] = [] := rfl

@[simp] theorem lastKey_cons (g : KeyGroup) (gs : List KeyGroup) : lastKey (g :: gs) = g.key := rfl

/-- The first group: `key:value`. -/
@[simp] theorem valuesGrouped_singleton (key value : Bytes) (h : [value] ≠ []) :
    valuesGrouped [⟨key, [value], h⟩] = key ++ colon :: value := by
  simp [valuesGrouped, keyGroupEntry, List.intercalate]

/-- One more value in the last group adds `;value` to its entry. -/
@[simp] theorem valuesGrouped_cons_concat (g : KeyGroup) (gs : List KeyGroup) (value : Bytes)
    (h : g.values ++ [value] ≠ []) :
    valuesGrouped (⟨g.key, g.values ++ [value], h⟩ :: gs) =
      valuesGrouped (g :: gs) ++ ([semicolon] ++ value) := by
  rw [valuesGrouped_cons, valuesGrouped_cons, intercalate_concat_append, keyGroupEntry,
    keyGroupEntry, intercalate_concat _ _ g.values_ne]
  simp

/-- A new group adds `,key:value`. -/
@[simp] theorem valuesGrouped_cons_cons (key value : Bytes) (h : [value] ≠ []) (g : KeyGroup)
    (gs : List KeyGroup) :
    valuesGrouped (⟨key, [value], h⟩ :: g :: gs) =
      valuesGrouped (g :: gs) ++ [comma] ++ (key ++ [colon] ++ value) := by
  rw [valuesGrouped, List.reverse_cons, List.map_append, List.map_singleton,
    intercalate_concat _ _ (by simp)]
  simp [keyGroupEntry, List.intercalate, valuesGrouped]

/-! ## The loop of the first handler -/

/-- A turn of the first grouping loop on a well-formed entry is `pushEntry`
on the entry. -/
theorem groupValuesStep_reduceEntry {entry : Bytes × Bytes} (he : EntryOk entry)
    {gs : List KeyGroup} (hgs : ValuesOk gs) :
    groupValuesStep (valuesGrouped gs, lastKey gs) (reduceEntry entry) =
      some (valuesGrouped (pushEntry gs entry), lastKey (pushEntry gs entry)) := by
  obtain ⟨key, value⟩ := entry
  obtain ⟨hkey, hkc, -, -, hvc, -, -⟩ := he
  simp only [groupValuesStep, reduceEntry]
  rw [split_append_cons hkc, split_of_not_mem hvc]
  cases gs with
  | nil => simp [hkey, pushEntry]
  | cons g gs =>
    by_cases h : key = g.key
    · subst h
      simp [pushEntry]
    · simp [pushEntry, h, trimRight_valuesGrouped hgs, length_valuesGrouped_pos]

/-- `pushEntry` keeps the values non-empty and free of `';'`. -/
theorem ValuesOk.pushEntry {gs : List KeyGroup} (hgs : ValuesOk gs) {entry : Bytes × Bytes}
    (he : EntryOk entry) : ValuesOk (pushEntry gs entry) := by
  obtain ⟨key, value⟩ := entry
  have hv : value ≠ [] ∧ semicolon ∉ value := ⟨he.2.2.2.1, he.2.2.2.2.2.2⟩
  cases gs with
  | nil => simpa [ValuesOk, MapReduce.pushEntry] using hv
  | cons g gs =>
    by_cases h : key = g.key
    · subst h
      intro g' hg' v hv'
      simp only [MapReduce.pushEntry, if_pos, List.mem_cons] at hg'
      rcases hg' with rfl | hg'
      · rcases List.mem_append.mp hv' with hv' | hv'
        · exact hgs g (List.mem_cons_self g gs) v hv'
        · rwa [List.mem_singleton.mp hv']
      · exact hgs g' (List.mem_cons_of_mem g hg') v hv'
    · intro g' hg' v hv'
      simp only [MapReduce.pushEntry, h, if_false, List.mem_cons] at hg'
      rcases hg' with rfl | hg'
      · rwa [List.mem_singleton.mp hv']
      · exact hgs g' (List.mem_cons.mpr hg') v hv'

/-! ## The groups are the runs of the keys -/

theorem map_toGroup_pushEntry (gs : List KeyGroup) (entry : Bytes × Bytes) :
    (pushEntry gs entry).map KeyGroup.toGroup = pushWord (gs.map KeyGroup.toGroup) entry.1 := by
  obtain ⟨key, value⟩ := entry
  cases gs with
  | nil => rfl
  | cons g gs =>
    by_cases h : key = g.key
    · subst h
      simp [pushEntry, KeyGroup.toGroup, pushWord]
    · simp [pushEntry, h, KeyGroup.toGroup, pushWord]

theorem map_toGroup_foldl (es : List (Bytes × Bytes)) (gs : List KeyGroup) :
    (es.foldl pushEntry gs).map KeyGroup.toGroup =
      (es.map Prod.fst).foldl pushWord (gs.map KeyGroup.toGroup) := by
  induction es generalizing gs with
  | nil => rfl
  | cons e es ih => rw [List.foldl_cons, ih, map_toGroup_pushEntry, List.map_cons, List.foldl_cons]

section Values

variable {key : Bytes → Bytes}

/-- An entry whose key is no smaller than those before it joins the last
group or starts one, and each group keeps the values of its key. -/
theorem ValuesOf.push {es : List (Bytes × Bytes)} {gs : List KeyGroup} {entry : Bytes × Bytes}
    (hV : ValuesOf es gs) (hG : GroupsOf key (es.map Prod.fst) (gs.map KeyGroup.toGroup))
    (hw : ∀ k ∈ es.map Prod.fst, key k ≤ key entry.1) :
    ValuesOf (es ++ [entry]) (pushEntry gs entry) := by
  obtain ⟨k, v⟩ := entry
  cases gs with
  | nil =>
    have hes : es = [] := List.eq_nil_iff_forall_not_mem.mpr fun e he => by
      simpa using (hG.mem_iff e.1).mpr (List.mem_map_of_mem Prod.fst he)
    subst hes
    simp [ValuesOf, pushEntry]
  | cons g gs =>
    by_cases h : k = g.key
    · -- the value joins the last group; the other groups have other keys
      subst h
      intro g' hg'
      simp only [pushEntry, if_pos, List.mem_cons] at hg'
      rcases hg' with rfl | hg'
      · simp [hV g (List.mem_cons_self g gs)]
      · have hne : g'.key ≠ g.key := fun he =>
          (hG.lt_last g'.toGroup (List.mem_map_of_mem _ hg')).ne (congrArg key he)
        simp [hV g' (List.mem_cons_of_mem g hg'), Ne.symm hne]
    · -- the key is new: it starts a group, and no group before has it
      have hk : k ∉ es.map Prod.fst := hG.not_mem_of_ne_last hw h
      intro g' hg'
      simp only [pushEntry, h, if_false, List.mem_cons] at hg'
      rcases hg' with rfl | hg'
      · have hnone : ∀ a b, (a, b) ∈ es → a ≠ k := fun a b hab hak =>
          hk (hak ▸ List.mem_map_of_mem Prod.fst hab)
        simpa using hnone
      · have hg'k : g'.key ≠ k := fun he =>
          hk (he ▸ hG.mem (List.mem_map_of_mem KeyGroup.toGroup (List.mem_cons.mpr hg')))
        simp [hV g' (List.mem_cons.mpr hg'), Ne.symm hg'k]

/-- The walk over entries sorted by key builds the groups of the keys' runs,
each with the values of its key. -/
theorem valuesOf_foldl (hkey : Function.Injective key) {es : List (Bytes × Bytes)}
    (hes : (es.map Prod.fst).Sorted fun a b => key a ≤ key b) :
    GroupsOf key (es.map Prod.fst) ((es.foldl pushEntry []).map KeyGroup.toGroup) ∧
      ValuesOf es (es.foldl pushEntry []) := by
  have hG : ∀ {es : List (Bytes × Bytes)}, (es.map Prod.fst).Sorted (fun a b => key a ≤ key b) →
      GroupsOf key (es.map Prod.fst) ((es.foldl pushEntry []).map KeyGroup.toGroup) :=
    fun hes => (map_toGroup_foldl _ []).symm ▸ groupsOf_foldl hkey hes
  refine ⟨hG hes, ?_⟩
  induction es using List.reverseRecOn with
  | nil => intro g hg; cases hg
  | append_singleton es e ih =>
    rw [List.map_append, List.map_singleton, List.Sorted, List.pairwise_append] at hes
    rw [List.foldl_append, List.foldl_cons, List.foldl_nil]
    exact (ih hes.1).push (hG hes.1) fun k hk => hes.2.2 k hk e.1 (List.mem_singleton_self _)

end Values

/-! ## Sorting the entries -/

/-- For keys free of `':'`, the entries `key:value` are in the order of the
keys followed by `':'`, and the entries of one key in the order of their
values. -/
theorem reduceEntry_lt_iff {a b : Bytes × Bytes} (ha : colon ∉ a.1) (hb : colon ∉ b.1) :
    reduceEntry a < reduceEntry b ↔ a.1 ++ [colon] < b.1 ++ [colon] ∨ a.1 = b.1 ∧ a.2 < b.2 :=
  append_colon_lt_iff ha hb a.2 b.2

theorem append_colon_injective : Function.Injective fun k : Bytes => k ++ [colon] :=
  fun _ _ h => List.append_cancel_right h

/-- A body of entries whose keys are free of `':'` and `','` and whose values
are free of `','`, split and sorted: the entries, in the order of their
texts, and so of their keys. -/
theorem sortStrings_split_entries {entries : List (Bytes × Bytes)} (hne : entries ≠ [])
    (hkeys : ∀ e ∈ entries, colon ∉ e.1 ∧ comma ∉ e.1) (hvalues : ∀ e ∈ entries, comma ∉ e.2) :
    ∃ es : List (Bytes × Bytes),
      sortStrings (split ([comma].intercalate (entries.map reduceEntry)) comma) =
        es.map reduceEntry ∧ es.Perm entries ∧
      (es.Sorted fun a b => reduceEntry a ≤ reduceEntry b) ∧
      (es.map Prod.fst).Sorted fun a b => a ++ [colon] ≤ b ++ [colon] := by
  have hsplit : split ([comma].intercalate (entries.map reduceEntry)) comma =
      entries.map reduceEntry := by
    refine List.splitOn_intercalate _ _ (fun l hl => ?_) (by simpa using hne)
    obtain ⟨e, he, rfl⟩ := List.mem_map.mp hl
    simp [reduceEntry, (hkeys e he).2, hvalues e he, show comma ≠ colon by decide]
  -- an entry's text splits back into the entry at its first `':'`
  obtain ⟨es, hsort, hperm, hsorted⟩ := @sortStrings_map _ reduceEntry
    (fun s => ((split s colon).headD [], [colon].intercalate (split s colon).tail)) entries
    fun e he => by
      dsimp only [reduceEntry]
      rw [split_append_cons (hkeys e he).1]
      simp [split, List.intercalate_splitOn]
  refine ⟨es, hsplit.symm ▸ hsort, hperm, hsorted, ?_⟩
  refine List.pairwise_map.mpr (hsorted.imp_of_mem fun ha hb hab => not_lt.mp fun hlt => ?_)
  exact not_lt.mpr hab ((reduceEntry_lt_iff (hkeys _ (hperm.subset hb)).1
    (hkeys _ (hperm.subset ha)).1).mpr (.inl hlt))

/-- The values of one key, in the order of the entries sorted by their
texts, are that key's values sorted. -/
theorem map_snd_filter_eq_sortStrings {es entries : List (Bytes × Bytes)} (hperm : es.Perm entries)
    (hsorted : es.Sorted fun a b => reduceEntry a ≤ reduceEntry b)
    (hkeys : ∀ e ∈ es, colon ∉ e.1) (k : Bytes) :
    (es.filter fun e => e.1 = k).map Prod.snd =
      sortStrings ((entries.filter fun e => e.1 = k).map Prod.snd) := by
  refine List.eq_of_perm_of_sorted (((hperm.filter _).map _).trans (List.perm_insertionSort _ _).symm)
    ?_ (List.sorted_insertionSort _ _)
  refine List.pairwise_map.mpr ((hsorted.filter _).imp_of_mem fun ha hb hab => not_lt.mp fun hlt => ?_)
  simp only [List.mem_filter, decide_eq_true_eq] at ha hb
  exact not_lt.mpr hab ((reduceEntry_lt_iff (hkeys _ hb.1) (hkeys _ ha.1)).mpr
    (.inr ⟨hb.2.trans ha.2.symm, hlt⟩))

/-! ## The handlers -/

/-- On well-formed entries sorted by their texts, the first grouping handler
writes the text of the groups. -/
theorem groupValuesHandler_eq {body : Bytes} {es : List (Bytes × Bytes)}
    (hsort : sortStrings (split body comma) = es.map reduceEntry) (hes : ∀ e ∈ es, EntryOk e) :
    groupValuesHandler body = some (valuesGrouped (es.foldl pushEntry [])) := by
  have hloop := foldlM_map_simulates_of_inv (fun gs => (valuesGrouped gs, lastKey gs)) reduceEntry
    ValuesOk (fun _ hgs e he => hgs.pushEntry (hes e he))
    (fun _ hgs e he => groupValuesStep_reduceEntry (hes e he) hgs)
    (show ValuesOk [] from fun _ hg => by cases hg)
  rw [groupValuesHandler, hsort]
  exact congrArg (Option.map Prod.fst) hloop

/-- On entries sorted by their texts, with keys non-empty and free of `':'`,
the second grouping handler writes the text of the runs of the keys. -/
theorem groupOnesHandler_eq {body : Bytes} {es : List (Bytes × Bytes)}
    (hsort : sortStrings (split body comma) = es.map reduceEntry)
    (hes : ∀ e ∈ es, e.1 ≠ [] ∧ colon ∉ e.1) :
    groupOnesHandler body = some (grouped ((es.map Prod.fst).foldl pushWord [])) := by
  have hloop := foldlM_map_simulates (fun gs => (onesGrouped gs, lastWord gs)) reduceEntry
    (fun gs (e : Bytes × Bytes) he => (groupOnesStep_reduceEntry (hes e he) e.2 gs :
      groupOnesStep (onesGrouped gs, lastWord gs) (reduceEntry e) =
        some (onesGrouped (pushWord gs e.1), lastWord (pushWord gs e.1)))) []
  rw [groupOnesHandler, hsort, List.foldl_map]
  exact (congrArg (Option.map _) hloop).trans (congrArg some (trimRight_onesGrouped _))

/-- The reduce handler answers the text of the groups with each key and the
number of its values. -/
theorem reduceHandler_valuesGrouped {gs : List KeyGroup} (hne : gs ≠ [])
    (hkeys : ∀ g ∈ gs, colon ∉ g.key ∧ comma ∉ g.key)
    (hvalues : ∀ g ∈ gs, ∀ v ∈ g.values, colon ∉ v ∧ comma ∉ v ∧ semicolon ∉ v) :
    reduceHandler (valuesGrouped gs) = some ([comma, space].intercalate
      (gs.reverse.map fun g => g.key ++ [colon] ++ itoa g.values.length)) := by
  have hentries : ∀ e ∈ gs.reverse.map fun g => (g.key, [semicolon].intercalate g.values),
      (colon ∉ e.1 ∧ colon ∉ e.2) ∧ (comma ∉ e.1 ∧ comma ∉ e.2) := by
    intro e he
    obtain ⟨g, hg, rfl⟩ := List.mem_map.mp he
    have hg := List.mem_reverse.mp hg
    exact ⟨⟨(hkeys g hg).1, not_mem_intercalate (by decide) fun v hv => (hvalues g hg v hv).1⟩,
      (hkeys g hg).2, not_mem_intercalate (by decide) fun v hv => (hvalues g hg v hv).2.1⟩
  have hform : valuesGrouped gs = [comma].intercalate
      ((gs.reverse.map fun g => (g.key, [semicolon].intercalate g.values)).map reduceEntry) := by
    rw [List.map_map]
    rfl
  rw [hform, reduceHandler_eq (by simpa using hne) (fun e he => (hentries e he).1)
    (fun e he => (hentries e he).2), List.map_map]
  refine congrArg (fun l => some ([comma, space].intercalate l)) (List.map_congr_left fun g hg => ?_)
  have hsplit : split ([semicolon].intercalate g.values) semicolon = g.values :=
    List.splitOn_intercalate _ _ (fun v hv => (hvalues g (List.mem_reverse.mp hg) v hv).2.2)
      g.values_ne
  simp only [Function.comp_apply, reducedEntry, hsplit]

/-! ## The handlers on well-formed entries -/

@[simp] theorem KeyGroup.toGroup_word (g : KeyGroup) : g.toGroup.word = g.key := rfl

@[simp] theorem KeyGroup.toGroup_count (g : KeyGroup) : g.toGroup.count = g.values.length := rfl

theorem map_word_reverse_map_toGroup (gs : List KeyGroup) :
    (gs.map KeyGroup.toGroup).reverse.map Group.word = gs.reverse.map KeyGroup.key := by
  rw [← List.map_reverse, List.map_map]
  rfl

/-- The words of the runs of keys sorted by the key followed by `':'` ascend
strictly in that order, and they are the keys. -/
theorem GroupsOf.words_sorted_mem {ws ws' : List Bytes} {gs : List Group}
    (h : GroupsOf (· ++ [colon]) ws gs) (hperm : ws.Perm ws') :
    ((gs.reverse.map Group.word).Sorted fun a b => a ++ [colon] < b ++ [colon]) ∧
      ∀ k, k ∈ gs.reverse.map Group.word ↔ k ∈ ws' :=
  ⟨h.sorted, fun k => by rw [List.map_reverse, List.mem_reverse, h.mem_iff, hperm.mem_iff]⟩

/-- The first grouping handler on a non-empty list of well-formed entries:
it writes each distinct key once, in ascending order of the key followed by
`':'`, with the values of its entries sorted and joined by `';'`. -/
theorem groupValuesHandler_entries {entries : List (Bytes × Bytes)} (hne : entries ≠ [])
    (hok : ∀ e ∈ entries, EntryOk e) :
    ∃ D : List Bytes, (D.Sorted fun a b => a ++ [colon] < b ++ [colon]) ∧
      (∀ k, k ∈ D ↔ k ∈ entries.map Prod.fst) ∧
      groupValuesHandler ([comma].intercalate (entries.map reduceEntry)) =
        some ([comma].intercalate (D.map fun k => k ++ colon :: [semicolon].intercalate
          (sortStrings ((entries.filter fun e => e.1 = k).map Prod.snd)))) := by
  obtain ⟨es, hsort, hperm, hsorted, hkeys⟩ := sortStrings_split_entries hne
    (fun e he => ⟨(hok e he).2.1, (hok e he).2.2.1⟩) fun e he => (hok e he).2.2.2.2.2.1
  have hes : ∀ e ∈ es, EntryOk e := fun e he => hok e (hperm.subset he)
  obtain ⟨hG, hV⟩ := valuesOf_foldl append_colon_injective hkeys
  obtain ⟨hD, hmem⟩ := hG.words_sorted_mem (hperm.map Prod.fst)
  rw [map_word_reverse_map_toGroup] at hD hmem
  refine ⟨_, hD, hmem, ?_⟩
  rw [groupValuesHandler_eq hsort hes, valuesGrouped, List.map_map]
  refine congrArg (fun l => some ([comma].intercalate l)) (List.map_congr_left fun g hg => ?_)
  rw [Function.comp_apply, keyGroupEntry, hV g (List.mem_reverse.mp hg),
    map_snd_filter_eq_sortStrings hperm hsorted (fun e he => (hes e he).2.1)]

/-- Three entries, two of them of the key `b`, whose values come in reverse
order. -/
def sampleEntries : List (Bytes × Bytes) := [([98], [50]), ([97], [49]), ([98], [49])]

theorem groupValuesHandler_entries_sample :
    sampleEntries ≠ [] ∧ (∀ e ∈ sampleEntries, EntryOk e) ∧
      ∃ D : List Bytes, (D.Sorted fun a b => a ++ [colon] < b ++ [colon]) ∧
        (∀ k, k ∈ D ↔ k ∈ sampleEntries.map Prod.fst) ∧
        groupValuesHandler ([comma].intercalate (sampleEntries.map reduceEntry)) =
          some ([comma].intercalate (D.map fun k => k ++ colon :: [semicolon].intercalate
            (sortStrings ((sampleEntries.filter fun e => e.1 = k).map Prod.snd)))) :=
  ⟨by decide, by decide, groupValuesHandler_entries (by decide) (by decide)⟩

/-- The second grouping handler reads no value: on a non-empty list of
entries whose keys are non-empty and free of `':'` and `','` and whose values
are free of `','`, it writes each distinct key once, in ascending order of
the key followed by `':'`, with a `1` for each of its entries. -/
theorem groupOnesHandler_entries {entries : List (Bytes × Bytes)} (hne : entries ≠ [])
    (hkeys : ∀ e ∈ entries, e.1 ≠ [] ∧ colon ∉ e.1 ∧ comma ∉ e.1)
    (hvalues : ∀ e ∈ entries, comma ∉ e.2) :
    ∃ D : List Bytes, (D.Sorted fun a b => a ++ [colon] < b ++ [colon]) ∧
      (∀ k, k ∈ D ↔ k ∈ entries.map Prod.fst) ∧
      groupOnesHandler ([comma].intercalate (entries.map reduceEntry)) =
        some ([comma].intercalate
          (D.map fun k => k ++ colon :: ones ((entries.map Prod.fst).count k))) := by
  obtain ⟨es, hsort, hperm, -, hsorted⟩ :=
    sortStrings_split_entries hne (fun e he => (hkeys e he).2) hvalues
  have hG := groupsOf_foldl append_colon_injective hsorted
  have hcount : ∀ k, (es.map Prod.fst).count k = (entries.map Prod.fst).count k :=
    fun _ => (hperm.map Prod.fst).countP_eq _
  obtain ⟨hD, hmem⟩ := hG.words_sorted_mem (hperm.map Prod.fst)
  refine ⟨_, hD, hmem, ?_⟩
  rw [groupOnesHandler_eq hsort fun e he => ⟨(hkeys e (hperm.subset he)).1,
    (hkeys e (hperm.subset he)).2.1⟩, grouped, List.map_map]
  refine congrArg (fun l => some ([comma].intercalate l)) (List.map_congr_left fun g hg => ?_)
  rw [Function.comp_apply, groupEntry, hG.count_eq g (List.mem_reverse.mp hg), hcount]

/-- A value with `':'` and one with `';'`, which the second handler does not
read. -/
def sampleOnesEntries : List (Bytes × Bytes) := [([98], [58]), ([97], [59]), ([98], [])]

theorem groupOnesHandler_entries_sample :
    sampleOnesEntries ≠ [] ∧ (∀ e ∈ sampleOnesEntries, e.1 ≠ [] ∧ colon ∉ e.1 ∧ comma ∉ e.1) ∧
      (∀ e ∈ sampleOnesEntries, comma ∉ e.2) ∧
      ∃ D : List Bytes, (D.Sorted fun a b => a ++ [colon] < b ++ [colon]) ∧
        (∀ k, k ∈ D ↔ k ∈ sampleOnesEntries.map Prod.fst) ∧
        groupOnesHandler ([comma].intercalate (sampleOnesEntries.map reduceEntry)) =
          some ([comma].intercalate
            (D.map fun k => k ++ colon :: ones ((sampleOnesEntries.map Prod.fst).count k))) :=
  ⟨by decide, by decide, by decide, groupOnesHandler_entries (by decide) (by decide) (by decide)⟩

/-- On a non-empty list of well-formed entries the reduce handler answers
the text of either grouping handler with each distinct key and the number of
its entries, in ascending order of the key followed by `':'`: the second
handler, which writes a `1` for each value, stands in for the first before
the reduce handler. -/
theorem reduce_grouping_entries {entries : List (Bytes × Bytes)} (hne : entries ≠ [])
    (hok : ∀ e ∈ entries, EntryOk e) :
    ∃ D : List Bytes, (D.Sorted fun a b => a ++ [colon] < b ++ [colon]) ∧
      (∀ k, k ∈ D ↔ k ∈ entries.map Prod.fst) ∧
      (groupValuesHandler ([comma].intercalate (entries.map reduceEntry))).bind reduceHandler =
        some (wordCounts D (entries.map Prod.fst)) ∧
      (groupOnesHandler ([comma].intercalate (entries.map reduceEntry))).bind reduceHandler =
        some (wordCounts D (entries.map Prod.fst)) := by
  obtain ⟨es, hsort, hperm, -, hsorted⟩ := sortStrings_split_entries hne
    (fun e he => ⟨(hok e he).2.1, (hok e he).2.2.1⟩) fun e he => (hok e he).2.2.2.2.2.1
  have hes : ∀ e ∈ es, EntryOk e := fun e he => hok e (hperm.subset he)
  obtain ⟨hG, hV⟩ := valuesOf_foldl append_colon_injective hsorted
  have hcount : ∀ k, (es.map Prod.fst).count k = (entries.map Prod.fst).count k :=
    fun _ => (hperm.map Prod.fst).countP_eq _
  -- every key and every value of the groups is that of a well-formed entry
  have hkey : ∀ g ∈ es.foldl pushEntry [], colon ∉ g.key ∧ comma ∉ g.key := fun g hg => by
    obtain ⟨e, he, heq⟩ : ∃ e ∈ es, e.1 = g.key := by
      simpa using hG.mem (List.mem_map_of_mem KeyGroup.toGroup hg)
    exact heq ▸ ⟨(hes e he).2.1, (hes e he).2.2.1⟩
  have hvalue : ∀ g ∈ es.foldl pushEntry [], ∀ v ∈ g.values,
      colon ∉ v ∧ comma ∉ v ∧ semicolon ∉ v := fun g hg v hv => by
    rw [hV g hg] at hv
    obtain ⟨e, he, rfl⟩ := List.mem_map.mp hv
    exact (hes e (List.mem_filter.mp he).1).2.2.2.2
  have hes_ne : es ≠ [] := fun h => hne (List.perm_nil.mp (h ▸ hperm.symm))
  have hgs : es.foldl pushEntry [] ≠ [] := fun h => by
    obtain ⟨e, he⟩ := List.exists_mem_of_ne_nil es hes_ne
    simpa [h] using (hG.mem_iff e.1).mpr (List.mem_map_of_mem Prod.fst he)
  obtain ⟨hD, hmem⟩ := hG.words_sorted_mem (hperm.map Prod.fst)
  rw [map_word_reverse_map_toGroup] at hD hmem
  refine ⟨_, hD, hmem, ?_, ?_⟩
  · -- the first handler's text: the count of a key is the number of its values
    rw [groupValuesHandler_eq hsort hes, Option.some_bind,
      reduceHandler_valuesGrouped hgs hkey hvalue, wordCounts, List.map_map]
    refine congrArg (fun l => some ([comma, space].intercalate l)) (List.map_congr_left fun g hg => ?_)
    rw [Function.comp_apply, ← KeyGroup.toGroup_count, hG.count_eq _
      (List.mem_map_of_mem _ (List.mem_reverse.mp hg)), KeyGroup.toGroup_word, hcount]
  · -- the second handler's text: the runs of the keys
    have hws : ∀ k ∈ es.map Prod.fst, colon ∉ k ∧ comma ∉ k := fun k hk => by
      obtain ⟨e, he, rfl⟩ := List.mem_map.mp hk
      exact ⟨(hes e he).2.1, (hes e he).2.2.1⟩
    have hruns : (es.map Prod.fst).foldl pushWord [] = (es.foldl pushEntry []).map KeyGroup.toGroup :=
      (map_toGroup_foldl es []).symm
    rw [groupOnesHandler_eq hsort fun e he => ⟨(hes e he).1, (hes e he).2.1⟩, hruns,
      Option.some_bind, reduceHandler_grouped hG (by simpa using hes_ne) hws,
      map_word_reverse_map_toGroup, wordCounts]
    simp only [hcount]

/-- Two keys with two values each and one key with one. -/
def sampleReduceEntries : List (Bytes × Bytes) :=
  [([98], [50]), ([97], [49]), ([98], [49]), ([99], [51]), ([97], [50])]

theorem reduce_grouping_entries_sample :
    sampleReduceEntries ≠ [] ∧ (∀ e ∈ sampleReduceEntries, EntryOk e) ∧
      ∃ D : List Bytes, (D.Sorted fun a b => a ++ [colon] < b ++ [colon]) ∧
        (∀ k, k ∈ D ↔ k ∈ sampleReduceEntries.map Prod.fst) ∧
        (groupValuesHandler ([comma].intercalate (sampleReduceEntries.map reduceEntry))).bind
            reduceHandler = some (wordCounts D (sampleReduceEntries.map Prod.fst)) ∧
        (groupOnesHandler ([comma].intercalate (sampleReduceEntries.map reduceEntry))).bind
            reduceHandler = some (wordCounts D (sampleReduceEntries.map Prod.fst)) :=
  ⟨by decide, by decide, reduce_grouping_entries (by decide) (by decide)⟩

end FissionWorkflows.MapReduce
