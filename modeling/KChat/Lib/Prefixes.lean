import Mathlib.Data.List.Induction
import Mathlib.Data.List.Infix

/-!
# What holds along a list

A property `Q` of the beginnings of a list, as its elements are gone through.

* `Ends Q l front a`: `Q` holds before the element `a` and not after it. `Returns Q l front`: it holds
  after some element behind `front`.
* **`holds_iff_returns`**: `Q` holds of the whole list iff whatever ends it is followed by something
  that brings it back.
-/

namespace Lib

variable {α : Type} {Q : List α → Prop} {start l : List α}

/-- `Q` holds before the element `a` and not after it. -/
def Ends (Q : List α → Prop) (l front : List α) (a : α) : Prop :=
  front ++ [a] <+: l ∧ Q front ∧ ¬ Q (front ++ [a])

/-- `Q` holds after some element behind `front`. -/
def Returns (Q : List α → Prop) (l front : List α) : Prop :=
  ∃ front' a, front <+: front' ∧ front' ++ [a] <+: l ∧ Q (front' ++ [a])

/-- A property that is lost ended at some element, and did not come back. -/
theorem exists_ends (hstart : Q start) (hbefore : start <+: l) (h : ¬ Q l) :
    ∃ front a, start <+: front ∧ Ends Q l front a ∧ ¬ Returns Q l (front ++ [a]) := by
  induction l using List.reverseRecOn with
  | nil =>
    obtain rfl := List.prefix_nil.mp hbefore
    exact absurd hstart h
  | append_singleton l b ih =>
    rcases List.prefix_concat_iff.mp hbefore with rfl | hbefore
    · exact absurd hstart h
    by_cases hl : Q l
    · refine ⟨l, b, hbefore, ⟨List.prefix_refl _, hl, h⟩, ?_⟩
      rintro ⟨front', a, hle, hle', -⟩
      have hlength := hle.length_le
      have hlength' := hle'.length_le
      simp only [List.length_append, List.length_singleton] at hlength hlength'
      omega
    · obtain ⟨front, a, hfront, ⟨hle, hQ, hnot⟩, hlost⟩ := ih hbefore hl
      refine ⟨front, a, hfront, ⟨hle.trans (List.prefix_append _ _), hQ, hnot⟩, ?_⟩
      rintro ⟨front', a', hbehind, hle', hQ'⟩
      rcases List.prefix_concat_iff.mp hle' with heq | hle'
      · rw [heq] at hQ'
        exact h hQ'
      · exact hlost ⟨front', a', hbehind, hle', hQ'⟩

/-- **A property that holds at the start holds at the end**, iff whatever ends it is followed by
something that brings it back. -/
theorem holds_iff_returns (hstart : Q start) (hbefore : start <+: l) : Q l ↔
    ∀ front a, start <+: front → Ends Q l front a → Returns Q l (front ++ [a]) := by
  constructor
  · rintro h front a - ⟨hle, -, hnot⟩
    obtain ⟨back, hback⟩ := hle
    cases back using List.reverseRecOn with
    | nil =>
      rw [List.append_nil] at hback
      rw [hback] at hnot
      exact absurd h hnot
    | append_singleton back b =>
      rw [← List.append_assoc] at hback
      refine ⟨front ++ [a] ++ back, b, List.prefix_append _ _, ?_, ?_⟩
      · rw [hback]
      · rw [hback]
        exact h
  · intro h
    by_contra hnot
    obtain ⟨front, a, hfront, hends, hlost⟩ := exists_ends hstart hbefore hnot
    exact hlost (h front a hfront hends)

end Lib
