import KChat.Lib.Bytes

/-!
# Mnemonics and randomness

* `Bip39`: mnemonics as a parameter; `Bip39.Lawful`: a phrase is read back as the mnemonic it is of.
* `SystemRandom`: what the system's random generator fills a buffer with.
* `entropyLength`: the entropy of a mnemonic of 12, 15, 18, 21 or 24 words.
* `spelledMnemonics`: mnemonics that are their entropy, one letter for each byte.
-/

namespace Lib

/-- A byte array of a fixed size. -/
abbrev ByteArrayOf (n : ℕ) : Type := {bytes : Bytes // bytes.length = n}

/-- The bytes that the system gives for a buffer, unless it has none. -/
abbrev SystemRandom : Type := (n : ℕ) → Option (ByteArrayOf n)

/-- **Mnemonics** of one language: made from entropy, written as a phrase, read from a phrase, and
stretched to a seed without a passphrase. -/
structure Bip39 (μ : Type) where
  fromEntropy : Bytes → Option μ
  phrase : μ → String
  parse : String → Option μ
  toSeed : μ → Bytes

/-- The bytes of entropy for a number of words. -/
def entropyLength : ℕ → Option ℕ
  | 12 => some 16
  | 15 => some 20
  | 18 => some 24
  | 21 => some 28
  | 24 => some 32
  | _ => none

/-- **Entropy of a proper length makes a mnemonic**, and its phrase is read back. -/
def Bip39.Lawful {μ : Type} (B : Bip39 μ) : Prop :=
  ∀ words n entropy, entropyLength words = some n → entropy.length = n →
    ∃ mnemonic, B.fromEntropy entropy = some mnemonic ∧ B.parse (B.phrase mnemonic) = some mnemonic

/-- The mnemonics that spell their entropy, byte by byte. -/
def spelledMnemonics : Bip39 Bytes where
  fromEntropy entropy := some entropy
  phrase mnemonic := String.ofList (mnemonic.map fun b => Char.ofNat b.toNat)
  parse phrase := some (phrase.toList.map fun c => UInt8.ofNat c.toNat)
  toSeed mnemonic := mnemonic

theorem spelledMnemonics_lawful : spelledMnemonics.Lawful := by
  intro words n entropy hwords hlength
  refine ⟨entropy, rfl, ?_⟩
  have hback : ∀ b : UInt8, UInt8.ofNat (Char.ofNat b.toNat).toNat = b := by
    intro b
    have hlt := b.toNat_lt
    rw [Char.ofNat, dif_pos (Or.inl (by omega))]
    exact UInt8.ofNat_toNat
  simp only [spelledMnemonics, String.toList_ofList, List.map_map]
  congr 1
  conv_rhs => rw [← List.map_id entropy]
  exact List.map_congr_left fun b _ => hback b

end Lib
