import KChat.Lib.Effect
import Mathlib.Data.Set.Basic

/-!
# States made of regions

A computation that reads and writes in some regions of a state, and reads what is common to all,
does the same from all states that agree there, and leaves the other regions alone.

* `Regions`: the regions of a state. `AgreeOn`: two states agree on some of them.
* `Near S x₀`: two states agree on `S` and on what is common, and outside of `S` the first is `x₀`.
* `LocalTo`, `LocalMethod`: computations, and methods of an object that lies in the regions.
  **`LocalTo.sim`**, **`LocalMethod.sim`**: from near states they do the same.
-/

namespace Lib

variable {ε δ ω α : Type}

/-- The regions of a state. -/
structure Regions (δ : Type) where
  Region : Type
  View : Type
  view : Region → δ → View
  /-- what everybody may read -/
  common : Set Region

namespace Regions

variable (R : Regions δ)

/-- Two states agree on some regions. -/
def AgreeOn (S : Set R.Region) (x y : δ) : Prop := ∀ r ∈ S, R.view r x = R.view r y

/-- **Two states agree on some regions** and on what is common, and on the others the first is as
`x₀`. -/
structure Near (S : Set R.Region) (x₀ x y : δ) : Prop where
  inside : R.AgreeOn (R.common ∪ S) x y
  outside : R.AgreeOn Sᶜ x x₀

/-- **A computation that reads and writes in some regions**, and reads what is common. -/
structure LocalTo (S : Set R.Region) (x : EStateM ε δ α) : Prop where
  reads : ∀ s t, R.AgreeOn (R.common ∪ S) s t →
    Agree (R.AgreeOn S) (R.AgreeOn S) (x.run s) (x.run t)
  writes : ∀ s, R.AgreeOn Sᶜ (final (x.run s)) s

/-- **A method of an object** that reads and writes in the regions of the object, and leaves it
there. -/
structure LocalMethod (S : ω → Set R.Region) (x : EStateM ε (Owning ω δ) α) : Prop where
  reads : ∀ g s t, R.AgreeOn (R.common ∪ S g) s t →
    Agree (fun u v => u.self = v.self ∧ R.AgreeOn (S g) u.world v.world)
      (fun u v => u.self = v.self ∧ R.AgreeOn (S g) u.world v.world)
      (x.run ⟨g, s⟩) (x.run ⟨g, t⟩)
  writes : ∀ g s, R.AgreeOn (S g)ᶜ (final (x.run ⟨g, s⟩)).world s
  self : ∀ g s, S (final (x.run ⟨g, s⟩)).self = S g

variable {R} {S T : Set R.Region} {x₀ x y z : δ}

theorem AgreeOn.refl (S : Set R.Region) (x : δ) : R.AgreeOn S x x := fun _ _ => rfl

theorem AgreeOn.symm (h : R.AgreeOn S x y) : R.AgreeOn S y x := fun r hr => (h r hr).symm

theorem AgreeOn.trans (h : R.AgreeOn S x y) (h' : R.AgreeOn S y z) : R.AgreeOn S x z :=
  fun r hr => (h r hr).trans (h' r hr)

theorem AgreeOn.mono (h : R.AgreeOn T x y) (hST : S ⊆ T) : R.AgreeOn S x y :=
  fun r hr => h r (hST hr)

theorem Near.of_agreeOn (h : R.AgreeOn (R.common ∪ S) x y) : R.Near S x x y :=
  ⟨h, .refl _ _⟩

/-- From near states to near states, if nothing is written outside of a part of the regions. -/
theorem Near.of_writes (h : R.Near T x₀ x y) (hST : S ⊆ T) {x' y' : δ} (hinside : R.AgreeOn S x' y')
    (hx : R.AgreeOn Sᶜ x' x) (hy : R.AgreeOn Sᶜ y' y) : R.Near T x₀ x' y' where
  inside r hr := by
    by_cases hS : r ∈ S
    · exact hinside r hS
    · rw [hx r hS, hy r hS]
      exact h.inside r hr
  outside r hr := by
    rw [hx r fun hS => hr (hST hS)]
    exact h.outside r hr

/-- **From near states a local computation does the same.** -/
theorem LocalTo.sim {c : EStateM ε δ α} (h : R.LocalTo S c) (hST : S ⊆ T) (x₀ : δ) :
    Sim (R.Near T x₀) (R.Near T x₀) c c := by
  intro s t hst
  have hreads := h.reads s t (hst.inside.mono (Set.union_subset_union_right _ hST))
  have hs := h.writes s
  have ht := h.writes t
  generalize c.run s = r, c.run t = r' at hreads hs ht
  cases hreads with
  | ok hagree => exact .ok (hst.of_writes hST hagree hs ht)
  | error hagree => exact .error (hst.of_writes hST hagree hs ht)

/-- **From near states a local method does the same** to its object. -/
theorem LocalMethod.sim {S : ω → Set R.Region} {c : EStateM ε (Owning ω δ) α}
    (h : R.LocalMethod S c)
    {Rel : Owning ω δ → Owning ω δ → Prop} (hself : ∀ u v, Rel u v → u.self = v.self)
    (hST : ∀ u v, Rel u v → S u.self ⊆ T) (hworld : ∀ u v, Rel u v → R.Near T x₀ u.world v.world)
    (hrel : ∀ u v, u.self = v.self → S u.self ⊆ T → R.Near T x₀ u.world v.world → Rel u v) :
    Sim Rel Rel c c := by
  rintro ⟨g, s⟩ ⟨g', t⟩ huv
  obtain rfl : g = g' := hself _ _ huv
  have hg : S g ⊆ T := hST _ _ huv
  have hst : R.Near T x₀ s t := hworld _ _ huv
  have hreads := h.reads g s t (hst.inside.mono (Set.union_subset_union_right _ hg))
  have hs := h.writes g s
  have ht := h.writes g t
  have hleft := h.self g s
  generalize c.run ⟨g, s⟩ = r, c.run ⟨g, t⟩ = r' at hreads hs ht hleft
  cases hreads with
  | ok hagree =>
    refine .ok (hrel _ _ hagree.1 ?_ (hst.of_writes hg hagree.2 hs ht))
    exact hleft ▸ hg
  | error hagree =>
    refine .error (hrel _ _ hagree.1 ?_ (hst.of_writes hg hagree.2 hs ht))
    exact hleft ▸ hg

end Regions

end Lib
