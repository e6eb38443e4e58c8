import Mathlib.Data.List.Basic
import Mathlib.Order.Basic

/-!
# Delivery of a log

A message of a log takes effect in its own epoch only, and ends it. In any other state it is
ignored.

* `EpochLog`: messages that take effect. `EpochLog.Delivered`: what a list of messages does.
* `Delivered.append`, `Delivered.functional`, `exists_delivered`.
* `EpochLog.InOrder`: the epochs do not go down. **`Delivered.spent`**: behind a log in order none
  of its messages takes effect again.
* `Redelivers`: batches that bring a log, each of which may bring again what came before;
  **`Redelivers.delivered`**: they do what the log does.
-/

namespace Lib

/-- **Messages that take effect**, each in its epoch, which it ends. -/
structure EpochLog (μ σ : Type) where
  Merges : μ → σ → σ → Prop
  epoch : σ → ℕ
  of : μ → ℕ
  functional : ∀ {m s t u}, Merges m s t → Merges m s u → t = u
  sequenced : ∀ {m s t}, Merges m s t → of m = epoch s ∧ epoch t = epoch s + 1

/-- **Batches that bring a log** behind what came before: a batch begins with old messages, in any
order and any number, and goes on with new ones. -/
inductive Redelivers {μ : Type} : List μ → List (List μ) → List μ → Prop
  | nil {past : List μ} : Redelivers past [] []
  | cons {past old new log : List μ} {batches : List (List μ)} (hold : ∀ m ∈ old, m ∈ past)
    (hrest : Redelivers (past ++ new) batches log) :
    Redelivers past ((old ++ new) :: batches) (new ++ log)

namespace EpochLog

variable {μ σ : Type} (L : EpochLog μ σ)

/-- A message has no effect. -/
def Ignored (m : μ) (s : σ) : Prop := ∀ t, ¬L.Merges m s t

/-- **What a list of messages does.** -/
inductive Delivered : List μ → σ → σ → Prop
  | nil {s : σ} : Delivered [] s s
  | merge {m : μ} {log : List μ} {s t u : σ} (h : L.Merges m s t) (hrest : Delivered log t u) :
    Delivered (m :: log) s u
  | ignore {m : μ} {log : List μ} {s u : σ} (h : L.Ignored m s) (hrest : Delivered log s u) :
    Delivered (m :: log) s u

/-- The epochs of the messages do not go down. -/
def InOrder (log : List μ) : Prop := log.Pairwise fun m m' => L.of m ≤ L.of m'

variable {L} {m : μ} {log log' : List μ} {s t u : σ}

theorem Delivered.append (h : L.Delivered log s t) (h' : L.Delivered log' t u) :
    L.Delivered (log ++ log') s u := by
  induction h with
  | nil => exact h'
  | merge hm _ ih => exact .merge hm (ih h')
  | ignore hm _ ih => exact .ignore hm (ih h')

theorem exists_of_delivered_append (h : L.Delivered (log ++ log') s u) :
    ∃ t, L.Delivered log s t ∧ L.Delivered log' t u := by
  induction log generalizing s with
  | nil => exact ⟨s, .nil, h⟩
  | cons m log ih =>
    cases h with
    | merge hm hrest =>
      obtain ⟨t, ht, hu⟩ := ih hrest
      exact ⟨t, .merge hm ht, hu⟩
    | ignore hm hrest =>
      obtain ⟨t, ht, hu⟩ := ih hrest
      exact ⟨t, .ignore hm ht, hu⟩

theorem Delivered.functional (h : L.Delivered log s t) (h' : L.Delivered log s u) : t = u := by
  induction h with
  | nil =>
    cases h'
    rfl
  | merge hm _ ih =>
    cases h' with
    | merge hm' hrest => exact ih (L.functional hm hm' ▸ hrest)
    | ignore hm' _ => exact absurd hm (hm' _)
  | ignore hm _ ih =>
    cases h' with
    | merge hm' _ => exact absurd hm' (hm _)
    | ignore _ hrest => exact ih hrest

variable (L) in
theorem exists_delivered (log : List μ) (s : σ) : ∃ t, L.Delivered log s t := by
  induction log generalizing s with
  | nil => exact ⟨s, .nil⟩
  | cons m log ih =>
    by_cases hm : ∃ t, L.Merges m s t
    · obtain ⟨t, hm⟩ := hm
      obtain ⟨u, hu⟩ := ih t
      exact ⟨u, .merge hm hu⟩
    · obtain ⟨u, hu⟩ := ih s
      exact ⟨u, .ignore (not_exists.mp hm) hu⟩

theorem Delivered.epoch_le (h : L.Delivered log s t) : L.epoch s ≤ L.epoch t := by
  induction h with
  | nil => exact Nat.le_refl _
  | merge hm _ ih =>
    have hnext := (L.sequenced hm).2
    omega
  | ignore _ _ ih => exact ih

/-- A list of ignored messages does nothing. -/
theorem delivered_of_ignored (h : ∀ m ∈ log, L.Ignored m s) : L.Delivered log s s := by
  induction log with
  | nil => exact .nil
  | cons m log ih =>
    exact .ignore (h m List.mem_cons_self) (ih fun m' hm' => h m' (List.mem_cons_of_mem _ hm'))

/-- A list without effect, or one that ends an epoch of its messages. -/
theorem Delivered.eq_or_passes {n : ℕ} (h : L.Delivered log s t) (hlog : ∀ m ∈ log, n ≤ L.of m) :
    s = t ∨ n < L.epoch t := by
  induction h with
  | nil => exact .inl rfl
  | merge hm hrest _ =>
    obtain ⟨hof, hnext⟩ := L.sequenced hm
    have hlow := hlog _ List.mem_cons_self
    have hlater := hrest.epoch_le
    exact .inr (by omega)
  | ignore _ _ ih => exact ih fun m hm => hlog m (List.mem_cons_of_mem _ hm)

theorem ignored_of_lt (h : L.of m < L.epoch s) : L.Ignored m s := by
  intro t ht
  have hof := (L.sequenced ht).1
  omega

/-- **Behind a log in order none of its messages takes effect again.** -/
theorem Delivered.spent (h : L.Delivered log s t) (horder : L.InOrder log) :
    ∀ m ∈ log, L.Ignored m t := by
  induction h with
  | nil => exact fun m hm => absurd hm List.not_mem_nil
  | merge hm hrest ih =>
    obtain ⟨-, horder⟩ := List.pairwise_cons.mp horder
    refine List.forall_mem_cons.mpr ⟨ignored_of_lt ?_, ih horder⟩
    obtain ⟨hof, hnext⟩ := L.sequenced hm
    have hlater := hrest.epoch_le
    omega
  | ignore hm hrest ih =>
    obtain ⟨hfirst, horder⟩ := List.pairwise_cons.mp horder
    refine List.forall_mem_cons.mpr ⟨?_, ih horder⟩
    rcases hrest.eq_or_passes hfirst with rfl | hlt
    · exact hm
    · exact ignored_of_lt hlt

end EpochLog

variable {μ σ : Type} {L : EpochLog μ σ}

/-- **At least once is exactly once**: batches that bring a log in order do what the log does. -/
theorem Redelivers.delivered {past log : List μ} {batches : List (List μ)}
    (h : Redelivers past batches log) {s₀ s t : σ} (hpast : L.Delivered past s₀ s)
    (horder : L.InOrder (past ++ log)) (hlog : L.Delivered log s t) :
    L.Delivered batches.flatten s t := by
  induction h generalizing s with
  | nil => exact hlog
  | @cons past old new log batches hold hrest ih =>
    obtain ⟨v, hnew, hlog⟩ := EpochLog.exists_of_delivered_append hlog
    rw [← List.append_assoc] at horder
    have hspent := hpast.spent (horder.sublist ((List.sublist_append_left _ _).trans
      (List.sublist_append_left _ _)))
    have hold' : L.Delivered old s s :=
      EpochLog.delivered_of_ignored fun m hm => hspent m (hold m hm)
    exact (hold'.append hnew).append (ih (hpast.append hnew) horder hlog)

end Lib
