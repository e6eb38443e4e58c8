import KChat.Lib.Bytes
import Mathlib.Data.Set.Function

/-!
# Deriving keys, and sealing under them

* `derive`: the key at the end of a path, one info string for each step; `Asked`: the pairs that the
  derivation function is asked for. **`derive_injOn`**: where it has no collisions and each info
  string belongs to one level, different paths lead to different keys.
* `Aead`: authenticated encryption under a nonce, as a parameter; `Aead.Inverts`, `Aead.Authentic`.
  `recordedAead known`: the one that opens the messages of `known` only.
-/

namespace Lib

/-! ## Derived keys -/

section derive

variable {κ ι : Type} {kdf : κ → ι → κ} {root : κ} {paths : Set (List ι)}

/-- The key at the end of a path. -/
def derive (kdf : κ → ι → κ) (root : κ) (path : List ι) : κ := path.foldl kdf root

@[simp] theorem derive_nil : derive kdf root [] = root := rfl

@[simp] theorem derive_append (path : List ι) (info : ι) :
    derive kdf root (path ++ [info]) = kdf (derive kdf root path) info := by
  simp [derive]

/-- What the derivation function is asked for on the way along some paths. -/
def Asked (kdf : κ → ι → κ) (root : κ) (paths : Set (List ι)) : Set (κ × ι) :=
  {pair | ∃ path info, (∃ whole ∈ paths, path ++ [info] <+: whole) ∧
    pair = (derive kdf root path, info)}

theorem mem_asked {path whole : List ι} {info : ι} (h : path ++ [info] <+: whole)
    (hwhole : whole ∈ paths) : (derive kdf root path, info) ∈ Asked kdf root paths :=
  ⟨path, info, ⟨whole, hwhole, h⟩, rfl⟩

theorem Asked.mono {paths' : Set (List ι)} (h : paths ⊆ paths') :
    Asked kdf root paths ⊆ Asked kdf root paths' := by
  rintro _ ⟨path, info, ⟨whole, hwhole, hpath⟩, rfl⟩
  exact mem_asked hpath (h hwhole)

/-- Along a path of two steps two pairs are asked for. -/
theorem eq_of_asked {path : List ι} {info x y : ι} (h : path ++ [info] <+: [x, y]) :
    (derive kdf root path, info) = (root, x) ∨ (derive kdf root path, info) = (kdf root x, y) := by
  cases path with
  | nil =>
    obtain rfl : info = x := by simpa using h
    exact .inl rfl
  | cons z path =>
    obtain ⟨rfl, h⟩ := List.cons_prefix_cons.mp h
    cases path with
    | nil =>
      obtain rfl : info = y := by simpa using h
      exact .inr rfl
    | cons z' path =>
      have hlength := h.length_le
      simp at hlength

/-- Each info string of a path says on which level of the path it stands. -/
def Leveled (level : ι → ℕ) (path : List ι) : Prop :=
  ∀ before info after, path = before ++ info :: after → level info = before.length

/-- Two paths of one length that lead to one key are the same. -/
theorem eq_of_derive_eq (hinj : (Asked kdf root paths).InjOn (Function.uncurry kdf))
    {path path' whole whole' : List ι} (hwhole : whole ∈ paths) (hwhole' : whole' ∈ paths)
    (hpath : path <+: whole) (hpath' : path' <+: whole') (hlength : path.length = path'.length)
    (h : derive kdf root path = derive kdf root path') : path = path' := by
  induction path using List.reverseRecOn generalizing path' with
  | nil => exact (List.length_eq_zero_iff.mp hlength.symm).symm
  | append_singleton path info ih =>
    cases path' using List.reverseRecOn with
    | nil => simp at hlength
    | append_singleton path' info' =>
      rw [derive_append, derive_append] at h
      have hpair := hinj (mem_asked hpath hwhole) (mem_asked hpath' hwhole') h
      obtain ⟨hkey, hinfo⟩ := Prod.mk.inj hpair
      have hshorter : path.length = path'.length := by simpa using hlength
      have hbefore := ih ((List.prefix_append _ _).trans hpath)
        ((List.prefix_append _ _).trans hpath') hshorter hkey
      rw [hbefore, hinfo]

/-- **Different paths lead to different keys.** -/
theorem derive_injOn {level : ι → ℕ} (hinj : (Asked kdf root paths).InjOn (Function.uncurry kdf))
    (hlevel : ∀ path ∈ paths, Leveled level path) (hne : [] ∉ paths) :
    paths.InjOn (derive kdf root) := by
  intro path hpath path' hpath' h
  refine eq_of_derive_eq hinj hpath hpath' (List.prefix_refl _) (List.prefix_refl _) ?_ h
  cases path using List.reverseRecOn with
  | nil => exact (hne hpath).elim
  | append_singleton before info =>
    cases path' using List.reverseRecOn with
    | nil => exact (hne hpath').elim
    | append_singleton before' info' =>
      rw [derive_append, derive_append] at h
      have hpair := hinj (mem_asked (List.prefix_refl _) hpath)
        (mem_asked (List.prefix_refl _) hpath') h
      have hinfo : info = info' := (Prod.mk.inj hpair).2
      have hlength : before.length = before'.length := by
        rw [← hlevel _ hpath before info [] rfl, hinfo, hlevel _ hpath' before' info' [] rfl]
      simp [hlength]

end derive

/-! ## Authenticated encryption -/

/-- **Authenticated encryption**: key, nonce, associated data, message. -/
structure Aead where
  encrypt : Bytes → Bytes → Bytes → Bytes → Bytes
  decrypt : Bytes → Bytes → Bytes → Bytes → Option Bytes
  encrypt_length : ∀ key nonce aad msg, (encrypt key nonce aad msg).length = msg.length + 16

namespace Aead

/-- Decryption undoes encryption. -/
def Inverts (A : Aead) : Prop :=
  ∀ key nonce aad msg, A.decrypt key nonce aad (A.encrypt key nonce aad msg) = some msg

/-- **An ideal AEAD** under one key: what decrypts is what encryption gave, and `Encrypted` lists
what was encrypted: nonce, associated data and message. -/
def Authentic (A : Aead) (key : Bytes) (Encrypted : Bytes → Bytes → Bytes → Prop) : Prop :=
  ∀ nonce aad ct msg, A.decrypt key nonce aad ct = some msg →
    Encrypted nonce aad msg ∧ ct = A.encrypt key nonce aad msg

end Aead

/-! ## A tag of zeros -/

/-- The AEAD that knows its messages: `known` says which nonce and associated data go with which
message. -/
def recordedAead (known : Bytes → Bytes → Bytes → Bool) : Aead where
  encrypt _ _ _ msg := msg ++ List.replicate 16 0
  decrypt _ nonce aad ct :=
    let msg := ct.take (ct.length - 16)
    if ct = msg ++ List.replicate 16 0 ∧ known nonce aad msg then some msg else none
  encrypt_length _ _ _ msg := by simp

/-- The one that knows all messages opens what it encrypts. -/
theorem recordedAead_inverts : (recordedAead fun _ _ _ => true).Inverts := by
  intro key nonce aad msg
  simp [recordedAead]

theorem recordedAead_authentic (known : Bytes → Bytes → Bytes → Bool) (key : Bytes) :
    (recordedAead known).Authentic key fun nonce aad msg => known nonce aad msg = true := by
  intro nonce aad ct msg h
  simp only [recordedAead] at h
  split_ifs at h with hct
  cases h
  exact ⟨hct.2, hct.1⟩

end Lib
