import Mathlib.Data.List.Nodup
import Mathlib.Data.Option.Basic
import Mathlib.Logic.Function.Basic

/-!
# Tables with a primary key

A table is the list of its rows in the order of their row ids; no two rows have one key.

* `lastEntry`: what a list of entries has for a key, and **`foldl_update`**: what its entries leave
  when they are set one after the other.
* `insertOrReplace`, `insertOrIgnore`, `upsert`, `deleteWhere`: the statements that write, by what
  they do on a conflict of keys. `get`: the row of a key.
* `get_insertOrReplace_self` and its companions: what a statement leaves at a key. `select_key`: a
  selection by key.
* `Represents`: a table stands for a map, whose keys are encoded. **`Represents.insertOrReplace`**,
  **`Represents.deleteWhere`** and companions: what a statement does to the map.
-/

namespace Lib

section entries

variable {κ β : Type} [DecidableEq κ]

/-- **The last entry wins**: what a list of entries has for a key. -/
def lastEntry (entries : List (κ × β)) (k : κ) : Option β :=
  (entries.reverse.find? fun entry => entry.1 = k).map Prod.snd

@[simp] theorem lastEntry_nil (k : κ) : lastEntry ([] : List (κ × β)) k = none := rfl

theorem lastEntry_cons (entry : κ × β) (entries : List (κ × β)) (k : κ) :
    lastEntry (entry :: entries) k =
      (lastEntry entries k).or (if entry.1 = k then some entry.2 else none) := by
  rw [lastEntry, List.reverse_cons, List.find?_append, Option.map_or]
  by_cases hk : entry.1 = k
  · rw [List.find?_singleton, if_pos (decide_eq_true hk), if_pos hk]
    rfl
  · rw [List.find?_singleton, if_neg (by simpa using hk), if_neg hk]
    rfl

/-- One key set after the other: the entries, over what was there. -/
theorem foldl_update (entries : List (κ × β)) (m : κ → Option β) :
    entries.foldl (fun (m : κ → Option β) entry => Function.update m entry.1 (some entry.2)) m =
      fun k => (lastEntry entries k).or (m k) := by
  induction entries generalizing m with
  | nil => rfl
  | cons entry entries ih =>
    rw [List.foldl_cons, ih]
    funext k
    rw [lastEntry_cons, Option.or_assoc]
    by_cases hk : entry.1 = k
    · subst hk
      rw [Function.update_self, if_pos rfl]
      rfl
    · rw [Function.update_of_ne (Ne.symm hk), if_neg hk]
      rfl

end entries

/-- **A table.** -/
@[ext]
structure Table (ρ : Type) {κ : Type} (key : ρ → κ) where
  rows : List ρ
  nodup : (rows.map key).Nodup

namespace Table

variable {ρ κ : Type} {key : ρ → κ}

def empty : Table ρ key where
  rows := []
  nodup := List.nodup_nil

/-- `DELETE ... WHERE`. -/
def deleteWhere (p : ρ → Bool) (t : Table ρ key) : Table ρ key where
  rows := t.rows.filter fun row => !p row
  nodup := t.nodup.sublist (List.filter_sublist.map key)

variable [DecidableEq κ]

/-- The row of a key. -/
def get (t : Table ρ key) (k : κ) : Option ρ := t.rows.find? fun row => key row = k

/-- `INSERT OR REPLACE`: a row with the same key goes, the new row gets a new row id. -/
def insertOrReplace (row : ρ) (t : Table ρ key) : Table ρ key where
  rows := t.rows.filter (fun old => key old ≠ key row) ++ [row]
  nodup := by
    rw [List.map_append, List.map_singleton, List.nodup_append]
    refine ⟨t.nodup.sublist (List.filter_sublist.map key), List.nodup_singleton _, ?_⟩
    rintro k hk k' hk' rfl
    obtain ⟨old, hold, rfl⟩ := List.mem_map.mp hk
    exact (of_decide_eq_true (List.mem_filter.mp hold).2) (List.mem_singleton.mp hk')

/-- `INSERT OR IGNORE`: a row with the same key stays. -/
def insertOrIgnore (row : ρ) (t : Table ρ key) : Table ρ key :=
  if h : key row ∈ t.rows.map key then t
  else
    { rows := t.rows ++ [row]
      nodup := by
        rw [List.map_append, List.map_singleton, ← List.concat_eq_append]
        exact t.nodup.concat h }

/-- `INSERT ... ON CONFLICT DO UPDATE ... WHERE`: a row with the same key is overwritten in its
place, if `guard` holds of it. -/
def upsert (guard : ρ → Bool) (row : ρ) (t : Table ρ key) : Table ρ key :=
  if h : key row ∈ t.rows.map key then
    { rows := t.rows.map fun old => if key old = key row ∧ guard old then row else old
      nodup := by
        have hkeys : ∀ old, key (if key old = key row ∧ guard old then row else old) = key old := by
          intro old
          split_ifs with hold
          · exact hold.1.symm
          · rfl
        rw [List.map_map, show key ∘ _ = key from funext hkeys]
        exact t.nodup }
  else
    { rows := t.rows ++ [row]
      nodup := by
        rw [List.map_append, List.map_singleton, ← List.concat_eq_append]
        exact t.nodup.concat h }

/-! ## The row of a key -/

variable {t : Table ρ key} {row : ρ} {k : κ}

theorem get_eq_some_iff : t.get k = some row ↔ row ∈ t.rows ∧ key row = k := by
  constructor
  · intro h
    exact ⟨List.mem_of_find?_eq_some h, by simpa using List.find?_some h⟩
  · rintro ⟨hmem, rfl⟩
    cases hget : t.get (key row) with
    | none =>
      have := List.find?_eq_none.mp hget row hmem
      simp at this
    | some old =>
      have hold : key old = key row := by simpa using List.find?_some hget
      rw [List.inj_on_of_nodup_map t.nodup (List.mem_of_find?_eq_some hget) hmem hold]

theorem get_eq_none_iff : t.get k = none ↔ k ∉ t.rows.map key := by
  simp [get, List.find?_eq_none]

theorem mem_rows_iff : row ∈ t.rows ↔ t.get (key row) = some row := by
  rw [get_eq_some_iff]
  exact ⟨fun h => ⟨h, rfl⟩, fun h => h.1⟩

@[simp] theorem get_empty : (empty : Table ρ key).get k = none := rfl

theorem get_insertOrReplace_self : (t.insertOrReplace row).get (key row) = some row :=
  get_eq_some_iff.mpr ⟨List.mem_append_right _ (List.mem_singleton_self row), rfl⟩

theorem get_insertOrReplace_of_ne (h : k ≠ key row) :
    (t.insertOrReplace row).get k = t.get k := by
  ext old
  rw [get_eq_some_iff, get_eq_some_iff, insertOrReplace, List.mem_append, List.mem_filter,
    List.mem_singleton]
  constructor
  · rintro ⟨hmem | rfl, hk⟩
    · exact ⟨hmem.1, hk⟩
    · exact absurd hk.symm h
  · rintro ⟨hmem, rfl⟩
    exact ⟨.inl ⟨hmem, decide_eq_true h⟩, rfl⟩

theorem insertOrIgnore_of_mem {old : ρ} (h : t.get (key row) = some old) :
    t.insertOrIgnore row = t := by
  obtain ⟨hmem, hkey⟩ := get_eq_some_iff.mp h
  exact dif_pos (hkey ▸ List.mem_map_of_mem hmem)

theorem insertOrIgnore_rows_of_not_mem (h : t.get (key row) = none) :
    (t.insertOrIgnore row).rows = t.rows ++ [row] := by
  rw [insertOrIgnore, dif_neg (get_eq_none_iff.mp h)]

theorem mem_insertOrIgnore {old : ρ} (h : old ∈ (t.insertOrIgnore row).rows) :
    old ∈ t.rows ∨ old = row := by
  cases hget : t.get (key row) with
  | some _ =>
    rw [insertOrIgnore_of_mem hget] at h
    exact .inl h
  | none =>
    rw [insertOrIgnore_rows_of_not_mem hget, List.mem_append, List.mem_singleton] at h
    exact h

theorem get_insertOrIgnore_self :
    (t.insertOrIgnore row).get (key row) = some ((t.get (key row)).getD row) := by
  cases h : t.get (key row) with
  | some old => rw [insertOrIgnore_of_mem h, h, Option.getD_some]
  | none =>
    rw [get_eq_some_iff, insertOrIgnore_rows_of_not_mem h]
    exact ⟨List.mem_append_right _ (List.mem_singleton_self row), rfl⟩

theorem get_append_of_ne {t' : Table ρ key} (hrows : t'.rows = t.rows ++ [row])
    (h : k ≠ key row) : t'.get k = t.get k := by
  ext old
  rw [get_eq_some_iff, get_eq_some_iff, hrows, List.mem_append, List.mem_singleton]
  constructor
  · rintro ⟨hmem | rfl, hk⟩
    · exact ⟨hmem, hk⟩
    · exact absurd hk.symm h
  · exact fun hold => ⟨.inl hold.1, hold.2⟩

theorem get_insertOrIgnore_of_ne (h : k ≠ key row) : (t.insertOrIgnore row).get k = t.get k := by
  cases hget : t.get (key row) with
  | some old => rw [insertOrIgnore_of_mem hget]
  | none => exact get_append_of_ne (insertOrIgnore_rows_of_not_mem hget) h

theorem upsert_rows_of_mem {guard : ρ → Bool} {old : ρ} (h : t.get (key row) = some old) :
    (t.upsert guard row).rows =
      t.rows.map fun old => if key old = key row ∧ guard old then row else old := by
  obtain ⟨hmem, hkey⟩ := get_eq_some_iff.mp h
  rw [upsert, dif_pos (hkey ▸ List.mem_map_of_mem hmem)]

theorem upsert_rows_of_not_mem {guard : ρ → Bool} (h : t.get (key row) = none) :
    (t.upsert guard row).rows = t.rows ++ [row] := by
  rw [upsert, dif_neg (get_eq_none_iff.mp h)]

theorem get_upsert_of_ne {guard : ρ → Bool} (h : k ≠ key row) :
    (t.upsert guard row).get k = t.get k := by
  cases hget : t.get (key row) with
  | none => exact get_append_of_ne (upsert_rows_of_not_mem hget) h
  | some _ =>
    ext old
    rw [get_eq_some_iff, get_eq_some_iff, upsert_rows_of_mem hget, List.mem_map]
    constructor
    · rintro ⟨⟨old', hmem, rfl⟩, hk⟩
      split_ifs at hk ⊢ with hold
      · exact absurd hk.symm h
      · exact ⟨hmem, hk⟩
    · rintro ⟨hmem, rfl⟩
      exact ⟨⟨old, hmem, if_neg fun hold => h hold.1⟩, rfl⟩

/-- A row that is in the way is overwritten if the guard allows it. -/
theorem get_upsert_self {guard : ρ → Bool} (h : ∀ old, t.get (key row) = some old → guard old) :
    (t.upsert guard row).get (key row) = some row := by
  rw [get_eq_some_iff]
  cases hget : t.get (key row) with
  | none =>
    rw [upsert_rows_of_not_mem hget]
    exact ⟨List.mem_append_right _ (List.mem_singleton_self row), rfl⟩
  | some old =>
    obtain ⟨hmem, hkey⟩ := get_eq_some_iff.mp hget
    rw [upsert_rows_of_mem hget]
    exact ⟨List.mem_map.mpr ⟨old, hmem, if_pos ⟨hkey, h old hget⟩⟩, rfl⟩

theorem get_deleteWhere (p : ρ → Bool) :
    (t.deleteWhere p).get k = (t.get k).filter fun row => !p row := by
  ext row
  rw [get_eq_some_iff, Option.filter_eq_some_iff, get_eq_some_iff, deleteWhere, List.mem_filter]
  tauto

theorem get_deleteWhere_of_kept {p : ρ → Bool} (h : ∀ row, key row = k → p row = false) :
    (t.deleteWhere p).get k = t.get k := by
  ext row
  rw [get_deleteWhere, Option.filter_eq_some_iff]
  refine and_iff_left_of_imp fun hrow => ?_
  rw [h row (get_eq_some_iff.mp hrow).2]
  rfl

theorem get_deleteWhere_of_gone {p : ρ → Bool} (h : ∀ row, key row = k → p row = true) :
    (t.deleteWhere p).get k = none := by
  rw [get_deleteWhere, Option.filter_eq_none_iff]
  intro row hrow
  rw [h row (get_eq_some_iff.mp hrow).2]
  exact Bool.false_ne_true

/-- One row has a key. -/
theorem filter_key (h : t.get k = some row) : t.rows.filter (fun old => key old = k) = [row] := by
  obtain ⟨hkey, before, after, hrows, hbefore⟩ := List.find?_eq_some_iff_append.mp h
  have hnodup := t.nodup
  rw [hrows, List.map_append, List.map_cons, List.nodup_append, List.nodup_cons] at hnodup
  rw [hrows, List.filter_append, List.filter_cons, if_pos hkey]
  have hnil : before.filter (fun old => key old = k) = [] := by
    rw [List.filter_eq_nil_iff]
    intro old hold
    simpa using hbefore old hold
  have hnil' : after.filter (fun old => key old = k) = [] := by
    rw [List.filter_eq_nil_iff]
    intro old hold hk
    refine hnodup.2.1.1 ?_
    rw [of_decide_eq_true hkey, ← of_decide_eq_true hk]
    exact List.mem_map_of_mem hold
  rw [hnil, hnil']
  rfl

/-- **A selection by key**: the row of the key, if the other conditions hold of it. -/
theorem select_key {p : ρ → Bool} (q : ρ → Bool)
    (hp : ∀ row, p row = (decide (key row = k) && q row)) :
    t.rows.filter p = ((t.get k).filter q).toList := by
  rw [show p = fun row => decide (key row = k) && q row from funext hp, ← List.filter_filter,
    List.filter_comm]
  cases hget : t.get k with
  | none =>
    have hnil : t.rows.filter (fun row => decide (key row = k)) = [] := by
      refine List.filter_eq_nil_iff.mpr fun row hrow hk => get_eq_none_iff.mp hget ?_
      rw [← of_decide_eq_true hk]
      exact List.mem_map_of_mem hrow
    rw [hnil]
    rfl
  | some row =>
    rw [filter_key hget]
    cases hq : q row <;> simp [Option.filter_some, hq]

theorem any_key {p : ρ → Bool} (q : ρ → Bool)
    (hp : ∀ row, p row = (decide (key row = k) && q row)) :
    t.rows.any p = ((t.get k).filter q).isSome := by
  rw [Bool.eq_iff_iff, List.any_eq_true, Option.isSome_iff_exists]
  simp only [← Option.mem_toList, ← select_key q hp, List.mem_filter]

/-! ## Tables for maps -/

/-- **The table stands for the map**: the row of an encoded key is the one that `rel` says of the
value. -/
def Represents {K : Type} {V : K → Type} (enc : K → Option κ) (rel : (k : K) → ρ → V k → Prop)
    (t : Table ρ key) (m : (k : K) → Option (V k)) : Prop :=
  ∀ k k', enc k = some k' → Option.Rel (rel k) (t.get k') (m k)

namespace Represents

variable {K : Type} {V : K → Type} {enc : K → Option κ} {rel : (k : K) → ρ → V k → Prop}
  {m m' : (k : K) → Option (V k)}

theorem empty : Represents enc rel (Table.empty : Table ρ key) fun _ => none := fun _ _ _ => .none

/-- What a row that was found says. -/
theorem of_get_eq (h : Represents enc rel t m) {k₀ : K} (hk₀ : enc k₀ = some k) :
    (t.get k = none ∧ m k₀ = none) ∨ ∃ row v, t.get k = some row ∧ m k₀ = some v ∧ rel k₀ row v := by
  have hrel := h k₀ k hk₀
  generalize t.get k = r, m k₀ = o at hrel ⊢
  cases hrel with
  | none => exact .inl ⟨rfl, rfl⟩
  | some hrow => exact .inr ⟨_, _, rfl, rfl, hrow⟩

/-- A statement that writes one key. -/
theorem of_get {t' : Table ρ key} {k₀ : K}
    (henc : ∀ {k₁ k₂ k'}, enc k₁ = some k' → enc k₂ = some k' → k₁ = k₂)
    (h : Represents enc rel t m) (hk₀ : enc k₀ = some k)
    (hself : Option.Rel (rel k₀) (t'.get k) (m' k₀))
    (hne : ∀ k', k' ≠ k → t'.get k' = t.get k') (hne' : ∀ k, k ≠ k₀ → m' k = m k) :
    Represents enc rel t' m' := by
  intro k₁ k' hk₁
  by_cases hk : k₁ = k₀
  · subst hk
    obtain rfl := Option.some.inj (hk₀.symm.trans hk₁)
    exact hself
  · have hk' : k' ≠ k := fun heq => hk (henc hk₁ (heq ▸ hk₀))
    rw [hne k' hk', hne' k₁ hk]
    exact h k₁ k' hk₁

section write

variable (henc : ∀ {k₁ k₂ k'}, enc k₁ = some k' → enc k₂ = some k' → k₁ = k₂)
  {dec : DecidableEq K} {k₀ : K} {v : V k₀}

include henc

/-- **The last write wins.** -/
theorem insertOrReplace (h : Represents enc rel t m) (hk₀ : enc k₀ = some (key row))
    (hrow : rel k₀ row v) :
    Represents enc rel (t.insertOrReplace row) (Function.update m k₀ (some v)) := by
  refine of_get henc h hk₀ ?_ (fun k' => get_insertOrReplace_of_ne)
    fun k hk => Function.update_of_ne hk _ m
  rw [get_insertOrReplace_self, Function.update_self]
  exact .some hrow

theorem upsert (h : Represents enc rel t m) {guard : ρ → Bool} (hk₀ : enc k₀ = some (key row))
    (hrow : rel k₀ row v) (hguard : ∀ old, t.get (key row) = some old → guard old) :
    Represents enc rel (t.upsert guard row) (Function.update m k₀ (some v)) := by
  refine of_get henc h hk₀ ?_ (fun k' => get_upsert_of_ne)
    fun k hk => Function.update_of_ne hk _ m
  rw [get_upsert_self hguard, Function.update_self]
  exact .some hrow

/-- The first write wins. -/
theorem insertOrIgnore (h : Represents enc rel t m) (hk₀ : enc k₀ = some (key row))
    (hrow : rel k₀ row v) : Represents enc rel (t.insertOrIgnore row)
      (Function.update m k₀ (some ((m k₀).getD v))) := by
  refine of_get henc h hk₀ ?_ (fun k' => get_insertOrIgnore_of_ne)
    fun k hk => Function.update_of_ne hk _ m
  rw [get_insertOrIgnore_self, Function.update_self]
  have hold := h k₀ _ hk₀
  generalize t.get (key row) = r, m k₀ = o at hold ⊢
  cases hold with
  | some hold => exact .some hold
  | none => exact .some hrow

omit dec in
/-- **A deletion by key.** -/
theorem deleteKey {dec : DecidablePred (· = k₀)} (h : Represents enc rel t m)
    (hk₀ : enc k₀ = some k) {p q : ρ → Bool} (hp : ∀ row, p row = (decide (key row = k) && q row))
    (hrel : ∀ row v, rel k₀ row v → key row = k → q row = true) :
    Represents enc rel (t.deleteWhere p) fun k => if k = k₀ then none else m k := by
  refine of_get henc h hk₀ ?_ (fun k' hk' => ?_) fun k hk => if_neg hk
  · rw [get_deleteWhere, if_pos rfl]
    rcases h.of_get_eq hk₀ with ⟨hget, -⟩ | ⟨row, v, hget, -, hrow⟩
    · rw [hget]
      exact .none
    · have hkey := (get_eq_some_iff.mp hget).2
      rw [hget, Option.filter_some, hp, decide_eq_true hkey, hrel row v hrow hkey]
      exact .none
  · rw [get_deleteWhere]
    cases hget : t.get k' with
    | none => rfl
    | some row =>
      have hkey : key row ≠ k := fun heq => hk' ((get_eq_some_iff.mp hget).2.symm.trans heq)
      rw [Option.filter_some, hp, decide_eq_false hkey]
      rfl

end write

/-- **A deletion** of the keys that `q` says. -/
theorem deleteWhere (h : Represents enc rel t m) {p : ρ → Bool} {q : K → Prop}
    {dec : DecidablePred q}
    (hp : ∀ {k k' row v}, enc k = some k' → key row = k' → rel k row v → (p row ↔ q k)) :
    Represents enc rel (t.deleteWhere p) fun k => if q k then none else m k := by
  intro k k' hk
  rw [get_deleteWhere]
  dsimp only
  rcases h.of_get_eq hk with ⟨hget, hm⟩ | ⟨row, v, hget, hm, hrel⟩
  · rw [hget, hm, ite_self]
    exact .none
  · have hpq := hp hk (get_eq_some_iff.mp hget).2 hrel
    rw [hget, Option.filter_some]
    by_cases hq : q k
    · rw [if_pos hq, hpq.mpr hq]
      exact .none
    · have hp' : p row = false := Bool.eq_false_iff.mpr fun h => hq (hpq.mp h)
      rw [if_neg hq, hm, hp']
      exact .some hrel

end Represents

end Table

end Lib
