import Mathlib.Data.List.Induction

/-!
# Records of what a program does

* `Allowed P l`: every entry of the record `l` is one that `P` allows after the entries before it.
* `Allowed.concat`: one more entry; `Allowed.getLast`: the last one.
-/

namespace Lib

variable {α : Type} {P : List α → α → Prop} {l : List α} {a : α}

/-- **Every entry is allowed** after the entries before it. -/
def Allowed (P : List α → α → Prop) (l : List α) : Prop :=
  ∀ before a after, l = before ++ a :: after → P before a

theorem allowed_nil : Allowed P [] := by
  intro before a after h
  simp at h

namespace Allowed

/-- An entry is the last one or one of those before. -/
theorem concat (h : Allowed P l) (ha : P l a) : Allowed P (l ++ [a]) := by
  intro before a' after hsplit
  cases after using List.reverseRecOn with
  | nil =>
    obtain ⟨rfl, heq⟩ := List.append_inj' hsplit rfl
    obtain rfl : a = a' := by simpa using heq
    exact ha
  | append_singleton after last =>
    rw [← List.cons_append, ← List.append_assoc] at hsplit
    obtain ⟨hl, -⟩ := List.append_inj' hsplit rfl
    exact h before a' after hl

theorem getLast (h : Allowed P (l ++ [a])) : P l a := h l a [] rfl

theorem dropLast (h : Allowed P (l ++ [a])) : Allowed P l := by
  rintro before a' after rfl
  exact h before a' (after ++ [a]) (by rw [List.append_assoc, List.cons_append])

end Allowed

end Lib
