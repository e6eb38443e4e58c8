import Mathlib.Data.List.TakeDrop
import Mathlib.Data.List.Range
import Mathlib.Tactic.Ring

/-!
# Cutting a list into blocks of a fixed size

* `block n l i`: the `i`-th block of `n` elements; `fullBlocks n l`: all full blocks, in order;
  `blockRest n l`: the fewer than `n` elements behind them. `block_induction`.
* `chunks n l`: the full blocks and then the remainder, if there is one;
  **`chunks_flatten`**, `mem_chunks`.
-/

namespace Lib

variable {α : Type}

/-- The `i`-th block of `n` elements of `l`. -/
def block (n : ℕ) (l : List α) (i : ℕ) : List α := (l.drop (n * i)).take n

/-- The full blocks of `l`, in order. -/
def fullBlocks (n : ℕ) (l : List α) : List (List α) := (List.range (l.length / n)).map (block n l)

/-- What stands behind the full blocks. -/
def blockRest (n : ℕ) (l : List α) : List α := l.drop (n * (l.length / n))

/-- The full blocks, then the remainder if it is not empty. -/
def chunks (n : ℕ) (l : List α) : List (List α) :=
  fullBlocks n l ++ if blockRest n l = [] then [] else [blockRest n l]

variable {n : ℕ}

@[simp] theorem fullBlocks_length (l : List α) : (fullBlocks n l).length = l.length / n := by
  simp [fullBlocks]

theorem blockRest_length (l : List α) : (blockRest n l).length = l.length % n := by
  rw [blockRest, List.length_drop, Nat.mod_eq_sub]

theorem blockRest_length_lt (hn : 0 < n) (l : List α) : (blockRest n l).length < n := by
  rw [blockRest_length]
  exact Nat.mod_lt _ hn

theorem block_length {l : List α} {i : ℕ} (h : i < l.length / n) : (block n l i).length = n := by
  have h1 : n * (i + 1) ≤ l.length :=
    le_trans (Nat.mul_le_mul_left n h) (Nat.mul_div_le l.length n)
  rw [mul_add, mul_one] at h1
  rw [block, List.length_take, List.length_drop]
  omega

/-- Blocks that are there already do not change when the list grows. -/
theorem block_append {l : List α} {i : ℕ} (h : n * (i + 1) ≤ l.length) (s : List α) :
    block n (l ++ s) i = block n l i := by
  rw [mul_add, mul_one] at h
  rw [block, block, List.drop_append_of_le_length (by omega),
    List.take_append_of_le_length (by rw [List.length_drop]; omega)]

theorem mem_fullBlocks_length {l b : List α} (h : b ∈ fullBlocks n l) : b.length = n := by
  obtain ⟨i, hi, rfl⟩ := List.mem_map.mp h
  exact block_length (List.mem_range.mp hi)

/-! ## The cut, block by block -/

theorem fullBlocks_of_lt {l : List α} (h : l.length < n) : fullBlocks n l = [] := by
  simp [fullBlocks, Nat.div_eq_of_lt h]

theorem blockRest_of_lt {l : List α} (h : l.length < n) : blockRest n l = l := by
  simp [blockRest, Nat.div_eq_of_lt h]

theorem length_div_append (hn : 0 < n) {b : List α} (hb : b.length = n) (l : List α) :
    (b ++ l).length / n = l.length / n + 1 := by
  rw [List.length_append, hb, Nat.add_comm, Nat.add_div_right _ hn]

theorem block_append_zero {b : List α} (hb : b.length = n) (l : List α) : block n (b ++ l) 0 = b := by
  simp [block, ← hb]

theorem block_append_succ {b : List α} (hb : b.length = n) (l : List α) (i : ℕ) :
    block n (b ++ l) (i + 1) = block n l i := by
  have h : n * (i + 1) = b.length + n * i := by rw [hb]; ring
  rw [block, block, h, List.drop_length_add_append]

theorem fullBlocks_cons (hn : 0 < n) {b : List α} (hb : b.length = n) (l : List α) :
    fullBlocks n (b ++ l) = b :: fullBlocks n l := by
  rw [fullBlocks, length_div_append hn hb, List.range_succ_eq_map, List.map_cons, List.map_map,
    block_append_zero hb]
  congr 1
  exact List.map_congr_left fun i _ => block_append_succ hb l i

theorem blockRest_cons (hn : 0 < n) {b : List α} (hb : b.length = n) (l : List α) :
    blockRest n (b ++ l) = blockRest n l := by
  have h : n * (l.length / n + 1) = b.length + n * (l.length / n) := by rw [hb]; ring
  rw [blockRest, length_div_append hn hb, h, List.drop_length_add_append, blockRest]

/-- Induction on a list by full blocks. -/
theorem block_induction (hn : 0 < n) {P : List α → Prop} (short : ∀ l, l.length < n → P l)
    (step : ∀ b l, b.length = n → P l → P (b ++ l)) (l : List α) : P l := by
  induction h : l.length using Nat.strong_induction_on generalizing l with
  | _ m ih =>
    by_cases hl : l.length < n
    · exact short l hl
    · rw [← List.take_append_drop n l]
      refine step _ _ (by rw [List.length_take]; omega) (ih (l.drop n).length ?_ _ rfl)
      rw [List.length_drop]
      omega

/-- **Blocks and remainder make up the list.** -/
theorem fullBlocks_flatten_append (hn : 0 < n) (l : List α) :
    (fullBlocks n l).flatten ++ blockRest n l = l := by
  induction l using block_induction hn with
  | short l h => rw [fullBlocks_of_lt h, blockRest_of_lt h]; rfl
  | step b l hb ih =>
    rw [fullBlocks_cons hn hb, blockRest_cons hn hb, List.flatten_cons, List.append_assoc, ih]

/-! ## Chunks -/

/-- **The chunks make up the list.** -/
theorem chunks_flatten (hn : 0 < n) (l : List α) : (chunks n l).flatten = l := by
  rw [chunks, List.flatten_append]
  split_ifs with h
  · have := fullBlocks_flatten_append hn l
    rwa [h] at this
  · rw [List.flatten_singleton, fullBlocks_flatten_append hn]

/-- A chunk is never empty and never longer than `n`. -/
theorem mem_chunks (hn : 0 < n) {l b : List α} (h : b ∈ chunks n l) : 1 ≤ b.length ∧ b.length ≤ n := by
  rw [chunks, List.mem_append] at h
  rcases h with h | h
  · rw [mem_fullBlocks_length h]
    exact ⟨hn, le_rfl⟩
  · split_ifs at h with hr
    · simp at h
    · rw [List.mem_singleton] at h
      subst h
      exact ⟨List.length_pos_iff.mpr hr, (blockRest_length_lt hn l).le⟩

end Lib
