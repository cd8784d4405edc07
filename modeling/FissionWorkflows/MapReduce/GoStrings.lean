import Mathlib.Data.List.Lex
import Mathlib.Data.List.Sort
import Mathlib.Data.List.DropRight

/-!
# Go strings as bytes

The map-reduce example functions (`unnamed/part_000`, the two handlers of
`unnamed/part_001` and `examples/map-reduce/reduce.go`) read and write Go
strings with `strings.Split`, `strings.TrimRight`, `sort.Strings` and
`strconv.Itoa`.  A Go string is its bytes, and Go orders strings byte by
byte, a proper prefix first: `List.Lex` over `UInt8`, which is Mathlib's
order on lists once `UInt8` has its `LinearOrder`.

The lemmas are the facts about these functions that the handlers need:

* `split` never returns an empty list, no piece holds the separator, and a
  piece free of the separator followed by it is split off whole;
* `trimRight` drops a trailing byte of the cutset and keeps any other;
* a loop that appends a piece and a separator on every turn builds the
  pieces joined by the separator, plus one separator;
* `itoa` ends with a decimal digit;
* two words free of `':'`, each followed by `':'` and anything, compare as
  the words followed by `':'` do, unless the words are equal.
-/

namespace FissionWorkflows.MapReduce

/-- A Go string: the bytes it holds. -/
abbrev Bytes := List UInt8

/- `UInt8` has its computational `≤` and `<` but no bundled `LinearOrder`;
`sort.Strings` and the byte-wise order of the results both use this one. -/
instance uint8LinearOrder : LinearOrder UInt8 where
  le_refl := UInt8.le_refl
  le_trans _ _ _ := UInt8.le_trans
  le_antisymm _ _ hab hba := UInt8.eq_of_toBitVec_eq (BitVec.le_antisymm hab hba)
  lt_iff_le_not_le _ _ := by
    rw [UInt8.not_le]
    exact ⟨fun h => ⟨UInt8.not_lt.mp (UInt8.lt_asymm h), h⟩, fun h => h.2⟩
  le_total := UInt8.le_total
  decidableLE := inferInstance
  decidableEq := inferInstance
  decidableLT := inferInstance

/-! ## The bytes the handlers split and join on -/

/-- `','`. -/
def comma : UInt8 := 44

/-- `':'`. -/
def colon : UInt8 := 58

/-- `';'`. -/
def semicolon : UInt8 := 59

/-- `' '`. -/
def space : UInt8 := 32

/-- `'1'`. -/
def one : UInt8 := 49

/-! ## The library functions -/

/-- `strings.Split(s, sep)` for a one-byte separator: the pieces between the
separators, `[""]` for the empty string. -/
def split (s : Bytes) (sep : UInt8) : List Bytes := s.splitOn sep

/-- `strings.TrimRight(s, cutset)` for an ASCII cutset: `s` without the bytes
of `cutset` at its end. -/
def trimRight (s : Bytes) (cutset : List UInt8) : Bytes := s.rdropWhile (· ∈ cutset)

/-- `sort.Strings`: the strings in ascending byte order.  Go's sort is not
stable, but equal strings cannot be told apart, so every sorting algorithm
gives the one sorted permutation; insertion sort computes it. -/
def sortStrings (a : List Bytes) : List Bytes := a.insertionSort (· ≤ ·)

/-- `strconv.Itoa`: the decimal digits of `n`. -/
def itoa (n : Nat) : Bytes := (Nat.toDigits 10 n).map fun c => c.toNat.toUInt8

/-! ## `split` -/

theorem split_ne_nil (s : Bytes) (sep : UInt8) : split s sep ≠ [] :=
  List.splitOnP_ne_nil _ _

/-- No piece of a split holds the separator. -/
theorem sep_not_mem_of_mem_split {s w : Bytes} {sep : UInt8} (h : w ∈ split s sep) :
    sep ∉ w := by
  induction s generalizing w with
  | nil =>
    simp only [split, List.splitOn_nil, List.mem_singleton] at h
    simp [h]
  | cons x xs ih =>
    simp only [split, List.splitOn, List.splitOnP_cons] at h ih
    split_ifs at h with hx
    · rcases List.mem_cons.mp h with rfl | h
      · simp
      · exact ih h
    · obtain ⟨p, ps, hps⟩ := List.exists_cons_of_ne_nil (List.splitOnP_ne_nil (· == sep) xs)
      rw [hps] at h ih
      rcases List.mem_cons.mp h with rfl | h
      · simp only [beq_iff_eq] at hx
        simpa [Ne.symm hx] using ih (List.mem_cons_self p ps)
      · exact ih (List.mem_cons_of_mem p h)

/-- A string that holds the separator splits into at least two pieces. -/
theorem one_lt_length_split {s : Bytes} {sep : UInt8} (h : sep ∈ s) :
    1 < (split s sep).length := by
  induction s with
  | nil => cases h
  | cons x xs ih =>
    simp only [split, List.splitOn, List.splitOnP_cons] at ih ⊢
    split_ifs with hx
    · have := List.length_pos.mpr (List.splitOnP_ne_nil (· == sep) xs)
      simp only [List.length_cons]
      omega
    · rw [List.length_modifyHead]
      exact ih ((List.mem_cons.mp h).resolve_left fun he => hx (by simp [he]))

/-- A string free of the separator is its own only piece. -/
theorem split_of_not_mem {s : Bytes} {sep : UInt8} (h : sep ∉ s) : split s sep = [s] :=
  List.splitOnP_eq_single _ _ fun _ hx hsep => h (eq_of_beq hsep ▸ hx)

/-- A split has a second piece exactly when the separator occurs. -/
theorem getElem?_one_split_eq_none_iff {s : Bytes} {sep : UInt8} :
    (split s sep)[1]? = none ↔ sep ∉ s := by
  by_cases h : sep ∈ s
  · have hlen := one_lt_length_split h
    simp only [h, not_true_eq_false, iff_false, List.getElem?_eq_none_iff]
    omega
  · simp [h, split_of_not_mem h]

/-- A first piece free of the separator is split off whole. -/
theorem split_append_cons {a : Bytes} {sep : UInt8} (h : sep ∉ a) (b : Bytes) :
    split (a ++ sep :: b) sep = a :: split b sep :=
  List.splitOnP_first (· == sep) _ (fun _ hx hsep => h (eq_of_beq hsep ▸ hx)) _ (by simp) _

/-! ## `trimRight` -/

@[simp] theorem trimRight_nil (cutset : List UInt8) : trimRight [] cutset = [] :=
  List.rdropWhile_nil _

theorem trimRight_concat_of_mem (s : Bytes) {b : UInt8} {cutset : List UInt8}
    (h : b ∈ cutset) : trimRight (s ++ [b]) cutset = trimRight s cutset :=
  List.rdropWhile_concat_pos _ _ _ (decide_eq_true h)

theorem trimRight_concat_of_not_mem (s : Bytes) {b : UInt8} {cutset : List UInt8}
    (h : b ∉ cutset) : trimRight (s ++ [b]) cutset = s ++ [b] :=
  List.rdropWhile_concat_neg _ _ _ (by simpa using h)

/-! ## Joining -/

theorem intercalate_cons_cons (sep a b : Bytes) (ls : List Bytes) :
    sep.intercalate (a :: b :: ls) = a ++ sep ++ sep.intercalate (b :: ls) := by
  simp [List.intercalate]

/-- Joining one more piece adds the separator and the piece. -/
theorem intercalate_concat (sep l : Bytes) {ls : List Bytes} (h : ls ≠ []) :
    sep.intercalate (ls ++ [l]) = sep.intercalate ls ++ sep ++ l := by
  induction ls with
  | nil => exact absurd rfl h
  | cons a ls ih =>
    cases ls with
    | nil => simp [List.intercalate]
    | cons b ls =>
      have ih := ih (List.cons_ne_nil b ls)
      simp only [List.cons_append] at ih ⊢
      rw [intercalate_cons_cons, ih, intercalate_cons_cons]
      simp

/-- A join ends with its last piece. -/
theorem intercalate_concat_exists (sep l : Bytes) (ls : List Bytes) :
    ∃ p, sep.intercalate (ls ++ [l]) = p ++ l := by
  by_cases h : ls = []
  · exact ⟨[], by simp [h, List.intercalate]⟩
  · exact ⟨sep.intercalate ls ++ sep, intercalate_concat sep l h⟩

/-- Bytes appended to a join land in its last piece. -/
theorem intercalate_concat_append (sep l x : Bytes) (ls : List Bytes) :
    sep.intercalate (ls ++ [l]) ++ x = sep.intercalate (ls ++ [l ++ x]) := by
  by_cases h : ls = []
  · simp [h, List.intercalate]
  · rw [intercalate_concat sep _ h, intercalate_concat sep _ h, List.append_assoc]

/-- A byte in neither the separator nor any piece is not in the join. -/
theorem not_mem_intercalate {b : UInt8} {sep : Bytes} (hsep : b ∉ sep) {ls : List Bytes}
    (hls : ∀ l ∈ ls, b ∉ l) : b ∉ sep.intercalate ls := by
  induction ls with
  | nil => simp [List.intercalate]
  | cons a ls ih =>
    cases ls with
    | nil => simpa [List.intercalate] using hls a (List.mem_cons_self a [])
    | cons c ls =>
      rw [intercalate_cons_cons]
      simp only [List.mem_append, not_or]
      exact ⟨⟨hls a (List.mem_cons_self _ _), hsep⟩, ih fun l hl => hls l (List.mem_cons_of_mem a hl)⟩

/-- A loop that appends `f piece` and the separator on every turn builds the
pieces joined by the separator, followed by one separator. -/
theorem foldl_append_sep {α : Type} (f : α → Bytes) (sep : Bytes) {ls : List α} (h : ls ≠ [])
    (init : Bytes) :
    ls.foldl (fun acc l => acc ++ (f l ++ sep)) init = init ++ sep.intercalate (ls.map f) ++ sep := by
  induction ls generalizing init with
  | nil => exact absurd rfl h
  | cons a ls ih =>
    cases ls with
    | nil => simp [List.intercalate]
    | cons b ls =>
      rw [List.foldl_cons, ih (List.cons_ne_nil b ls)]
      simp only [List.map_cons, intercalate_cons_cons, List.append_assoc]

/-! ## `itoa` -/

theorem toDigitsCore_eq_append (base fuel n : Nat) (ds : List Char) :
    ∃ pre, Nat.toDigitsCore base fuel n ds = pre ++ ds := by
  induction fuel generalizing n ds with
  | zero => exact ⟨[], rfl⟩
  | succ fuel ih =>
    show ∃ pre, (if n / base = 0 then Nat.digitChar (n % base) :: ds
      else Nat.toDigitsCore base fuel (n / base) (Nat.digitChar (n % base) :: ds)) = pre ++ ds
    split
    · exact ⟨[_], rfl⟩
    · obtain ⟨pre, hpre⟩ := ih (n / base) (Nat.digitChar (n % base) :: ds)
      exact ⟨pre ++ [Nat.digitChar (n % base)], by simp [hpre]⟩

/-- `Itoa` ends with the digit of the units. -/
theorem itoa_eq_concat (n : Nat) :
    ∃ pre, itoa n = pre ++ [(Nat.digitChar (n % 10)).toNat.toUInt8] := by
  show ∃ pre, (if n / 10 = 0 then [Nat.digitChar (n % 10)]
    else Nat.toDigitsCore 10 n (n / 10) [Nat.digitChar (n % 10)]).map _ = _
  split
  · exact ⟨[], rfl⟩
  · obtain ⟨pre, hpre⟩ := toDigitsCore_eq_append 10 n (n / 10) [Nat.digitChar (n % 10)]
    exact ⟨pre.map fun c => c.toNat.toUInt8, by simp [hpre]⟩

theorem digit_not_mem_comma_space {d : Nat} (h : d < 10) :
    (Nat.digitChar d).toNat.toUInt8 ∉ [comma, space] := by
  revert d
  decide

/-! ## The order of words followed by `':'` -/

theorem cons_lt_cons_iff {c d : UInt8} {l l' : Bytes} :
    c :: l < d :: l' ↔ c < d ∨ c = d ∧ l < l' := by
  constructor
  · rintro (_ | h | h)
    · exact .inr ⟨rfl, ‹_›⟩
    · exact .inl h
  · rintro (h | ⟨rfl, h⟩)
    · exact .rel h
    · exact .cons h

/-- Words free of `':'`, each followed by `':'` and anything, compare as the
words followed by `':'`; only equal words go on to compare what follows. -/
theorem append_colon_lt_iff {a b : Bytes} (ha : colon ∉ a) (hb : colon ∉ b) (s t : Bytes) :
    a ++ colon :: s < b ++ colon :: t ↔ a ++ [colon] < b ++ [colon] ∨ a = b ∧ s < t := by
  induction a generalizing b with
  | nil =>
    cases b with
    | nil => simp [cons_lt_cons_iff]
    | cons d b =>
      have hd : colon ≠ d := fun h => hb (h ▸ List.mem_cons_self _ _)
      simp [cons_lt_cons_iff, hd]
  | cons c a ih =>
    have hc : c ≠ colon := fun h => ha (h ▸ List.mem_cons_self _ _)
    cases b with
    | nil => simp [cons_lt_cons_iff, hc]
    | cons d b =>
      simp only [List.cons_append, cons_lt_cons_iff, List.cons.injEq]
      by_cases hcd : c = d
      · subst hcd
        simpa using ih (fun h => ha (List.mem_cons_of_mem c h))
          (fun h => hb (List.mem_cons_of_mem c h))
      · simp [hcd]

end FissionWorkflows.MapReduce
