import FissionWorkflows.MapReduce.GoStrings

/-!
# Runs of equal words

What the grouping handlers are for.  Both walk a sorted list of words and
keep, besides the text they write, the word of the last run; a word equal to
it lengthens that run and any other word starts a new one.  `pushWord` is
that walk on runs, the last run first, and a `Group` is a run, which holds a
word at least once.

`GroupsOf key ws gs` says what the runs `gs` of the words `ws` are, for words
sorted by `key`: their words ascend strictly by `key`, they are the words of
`ws`, each run counts its word as often as `ws` holds it, and the last run is
that of the last word.  `GroupsOf.push` is the step (one more word, no
smaller than the others) and `groupsOf_foldl` the whole walk over a sorted
list.  `key` is any injective map: the handlers sort the words by their map
entries `word:1`.
-/

namespace FissionWorkflows.MapReduce

/-- A run of equal words: the word, and how many times it occurs. -/
structure Group where
  word : Bytes
  count : Nat
  count_pos : 0 < count

/-- One more word in the walk over a sorted list: it lengthens the last run
when it is that run's word, and starts a run otherwise. -/
def pushWord : List Group → Bytes → List Group
  | g :: gs, w =>
    if w = g.word then ⟨g.word, g.count + 1, Nat.succ_pos _⟩ :: gs
    else ⟨w, 1, Nat.one_pos⟩ :: g :: gs
  | [], w => [⟨w, 1, Nat.one_pos⟩]

@[simp] theorem pushWord_nil (w : Bytes) : pushWord [] w = [⟨w, 1, Nat.one_pos⟩] := rfl

@[simp] theorem pushWord_cons_word (g : Group) (gs : List Group) :
    pushWord (g :: gs) g.word = ⟨g.word, g.count + 1, Nat.succ_pos _⟩ :: gs := by
  simp [pushWord]

theorem pushWord_cons_of_ne {g : Group} {w : Bytes} (h : w ≠ g.word) (gs : List Group) :
    pushWord (g :: gs) w = ⟨w, 1, Nat.one_pos⟩ :: g :: gs := by
  simp [pushWord, h]

section Runs

variable (key : Bytes → Bytes)

/-- The runs `gs`, last run first, of the words `ws`. -/
structure GroupsOf (ws : List Bytes) (gs : List Group) : Prop where
  sorted : (gs.reverse.map Group.word).Sorted fun a b => key a < key b
  mem_iff : ∀ w, w ∈ gs.map Group.word ↔ w ∈ ws
  count_eq : ∀ g ∈ gs, g.count = ws.count g.word
  last_eq : gs.head?.map Group.word = ws.getLast?

variable {key}

theorem groupsOf_nil : GroupsOf key [] [] :=
  ⟨List.sorted_nil, by simp, by simp, rfl⟩

/-- The last run holds the greatest word. -/
theorem GroupsOf.lt_last {ws : List Bytes} {g : Group} {gs : List Group}
    (h : GroupsOf key ws (g :: gs)) : ∀ g' ∈ gs, key g'.word < key g.word := by
  have hs := h.sorted
  simp only [List.reverse_cons, List.map_append, List.map_reverse, List.map_cons, List.map_nil,
    List.Sorted, List.pairwise_append, List.mem_reverse, List.mem_map, List.mem_singleton] at hs
  exact fun g' hg' => hs.2.2 _ ⟨g', hg', rfl⟩ _ rfl

/-- A word of the runs is a word of the list. -/
theorem GroupsOf.mem {ws : List Bytes} {gs : List Group} (h : GroupsOf key ws gs) {g : Group}
    (hg : g ∈ gs) : g.word ∈ ws :=
  (h.mem_iff g.word).mp (List.mem_map_of_mem _ hg)

/-- The word of the last run lengthens that run. -/
theorem GroupsOf.push_same {ws : List Bytes} {g : Group} {gs : List Group}
    (h : GroupsOf key ws (g :: gs)) :
    GroupsOf key (ws ++ [g.word]) (pushWord (g :: gs) g.word) := by
  have hgw : g.word ∈ ws := h.mem (List.mem_cons_self g gs)
  rw [pushWord_cons_word]
  refine ⟨by simpa using h.sorted, fun v => ?_, fun g' hg' => ?_, by simp⟩
  · rw [List.mem_append, List.mem_singleton, or_iff_left_of_imp fun hv => hv ▸ hgw,
      ← h.mem_iff]
    simp
  · rcases List.mem_cons.mp hg' with rfl | hg'
    · simp [h.count_eq g (List.mem_cons_self g gs)]
    · have hne : g'.word ≠ g.word := (h.lt_last g' hg').ne ∘ congrArg key
      simp [h.count_eq g' (List.mem_cons_of_mem g hg'), hne]

/-- A word no smaller than all before it and other than the last run's is
new. -/
theorem GroupsOf.not_mem_of_ne_last {ws : List Bytes} {g : Group} {gs : List Group} {w : Bytes}
    (h : GroupsOf key ws (g :: gs)) (hw : ∀ v ∈ ws, key v ≤ key w) (hwg : w ≠ g.word) :
    w ∉ ws := fun hmem => by
  obtain ⟨g', hg', rfl⟩ := List.mem_map.mp ((h.mem_iff w).mpr hmem)
  rcases List.mem_cons.mp hg' with rfl | hg'
  · exact hwg rfl
  · exact absurd (hw g.word (h.mem (List.mem_cons_self g gs))) (not_le.mpr (h.lt_last g' hg'))

/-- A word no smaller than all before it and other than the last run's
starts a run: it is new, and it is greater than every word before it. -/
theorem GroupsOf.push_new (hkey : Function.Injective key) {ws : List Bytes} {g : Group}
    {gs : List Group} {w : Bytes} (h : GroupsOf key ws (g :: gs))
    (hw : ∀ v ∈ ws, key v ≤ key w) (hwg : w ≠ g.word) :
    GroupsOf key (ws ++ [w]) (pushWord (g :: gs) w) := by
  have hwws : w ∉ ws := h.not_mem_of_ne_last hw hwg
  rw [pushWord_cons_of_ne hwg]
  refine ⟨?_, fun v => ?_, fun g' hg' => ?_, by simp⟩
  · rw [List.reverse_cons, List.map_append]
    refine List.pairwise_append.mpr ⟨h.sorted, List.pairwise_singleton _ _, fun v hv b hb => ?_⟩
    obtain rfl : b = w := by simpa using hb
    have hvws : v ∈ ws := (h.mem_iff v).mp (by simpa [or_comm] using hv)
    exact lt_of_le_of_ne (hw v hvws) fun he => hwws (hkey he ▸ hvws)
  · rw [List.map_cons, List.mem_cons, h.mem_iff, List.mem_append, List.mem_singleton, or_comm]
  · rcases List.mem_cons.mp hg' with rfl | hg'
    · simp [List.count_eq_zero_of_not_mem hwws]
    · have hne : g'.word ≠ w := fun he => hwws (he ▸ h.mem hg')
      simp [h.count_eq g' hg', hne]

/-- A word no smaller than all before it lengthens the last run or starts
one, and the runs stay the runs of the longer list. -/
theorem GroupsOf.push (hkey : Function.Injective key) {ws : List Bytes} {gs : List Group}
    {w : Bytes} (h : GroupsOf key ws gs) (hw : ∀ v ∈ ws, key v ≤ key w) :
    GroupsOf key (ws ++ [w]) (pushWord gs w) := by
  cases gs with
  | nil =>
    have hws : ws = [] := List.eq_nil_iff_forall_not_mem.mpr fun v hv => by
      simpa using (h.mem_iff v).mpr hv
    subst hws
    exact ⟨List.sorted_singleton _, by simp, by simp, rfl⟩
  | cons g gs =>
    by_cases hwg : w = g.word
    · subst hwg
      exact h.push_same
    · exact h.push_new hkey hw hwg

/-- The walk over a list sorted by `key` builds its runs. -/
theorem groupsOf_foldl (hkey : Function.Injective key) {ws : List Bytes}
    (hws : ws.Sorted fun a b => key a ≤ key b) : GroupsOf key ws (ws.foldl pushWord []) := by
  induction ws using List.reverseRecOn with
  | nil => exact groupsOf_nil
  | append_singleton ws w ih =>
    rw [List.Sorted, List.pairwise_append] at hws
    rw [List.foldl_append, List.foldl_cons, List.foldl_nil]
    exact (ih hws.1).push hkey fun v hv => hws.2.2 v hv w (List.mem_singleton_self w)

end Runs

end FissionWorkflows.MapReduce
