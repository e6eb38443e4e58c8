import KChat.Backup.Compression

/-!
# The check of a frame header that is still arriving

* `checkHeaderInWords`: the check with the slices, indices, shifts and sums of the machine;
  **`checkHeaderInWords_eq`**: none of them fails, and it is the check.
* **`checkHeader_append`**: a check that has decided does not change its mind;
  **`checkHeader_take`**: it has decided by the fourteenth byte.
-/

namespace KChat.Backup

open Lib

/-! ## Machine words -/

/-- A sum in words of `w` bits; `none` where the code would stop. -/
def addIn (w x y : ℕ) : Option ℕ := if x + y < 2 ^ w then some (x + y) else none

def mulIn (w x y : ℕ) : Option ℕ := if x * y < 2 ^ w then some (x * y) else none

/-- A shift of a word of 64 bits; what is shifted out is lost. -/
def shiftLeft64 (x n : ℕ) : Option ℕ := if n < 64 then some (x <<< n % 2 ^ 64) else none

def checkedSlice (bytes : Bytes) (i j : ℕ) : Option Bytes :=
  if i ≤ j ∧ j ≤ bytes.length then some ((bytes.take j).drop i) else none

/-- The loop over the bytes of the size, from index `i` on. -/
def orShifted (i size : ℕ) : Bytes → Option ℕ
  | [] => some size
  | byte :: bytes => do
    let shifted ← shiftLeft64 byte.toNat (← mulIn 64 8 i)
    orShifted (i + 1) (size ||| shifted) bytes

def windowInWords (header : Bytes) (single : Bool) (size : ℕ) : Option ℕ :=
  if single then some size
  else do
    let base ← shiftLeft64 1 (← addIn 8 10 ((← header[5]?) >>> 3).toNat)
    addIn 64 base (← mulIn 64 (base / 8) ((← header[5]?) &&& 7).toNat)

def checkHeaderInWords (header : Bytes) : Option (Except BackupErrorCode Bool) := do
  if header.length < 5 then
    return .ok false
  if (← checkedSlice header 0 4) ≠ [0x28, 0xb5, 0x2f, 0xfd] then
    return .error .invalidCompressedData
  let descriptor ← header[4]?
  if descriptor &&& 0x1b ≠ 0 then
    return .error .invalidCompressedData
  let single : Bool := descriptor &&& 0x20 ≠ 0
  let sizeBytes :=
    match (descriptor >>> 6).toNat with
    | 0 => if single then 1 else 0
    | 1 => 2
    | 2 => 4
    | _ => 8
  let sizeOffset := if single then 5 else 6
  let sizeEnd ← addIn 64 sizeOffset sizeBytes
  if header.length < sizeEnd then
    return .ok false
  let size ← orShifted 0 0 (← checkedSlice header sizeOffset sizeEnd)
  let size ← (if sizeBytes = 2 then addIn 64 size 256 else some size)
  let window ← windowInWords header single size
  if maxZstdWindowBytesV1 < window ∨ maxPlaintextObjectBytesV1 < size then
    return .error .resourceLimitExceeded
  return .ok true

theorem addIn_of_lt {w x y : ℕ} (h : x + y < 2 ^ w) : addIn w x y = some (x + y) := if_pos h

theorem mulIn_of_lt {w x y : ℕ} (h : x * y < 2 ^ w) : mulIn w x y = some (x * y) := if_pos h

theorem checkedSlice_of_le {bytes : Bytes} {i j : ℕ} (h : i ≤ j) (h' : j ≤ bytes.length) :
    checkedSlice bytes i j = some ((bytes.drop i).take (j - i)) := by
  unfold checkedSlice
  rw [if_pos ⟨h, h'⟩, List.drop_take]

theorem shiftLeft64_byte (b : UInt8) {i : ℕ} (hi : i < 8) :
    shiftLeft64 b.toNat (8 * i) = some (b.toNat <<< (8 * i)) := by
  have hb := b.toNat_lt
  have hlt : b.toNat <<< (8 * i) < 2 ^ 64 := by
    rw [Nat.shiftLeft_eq]
    calc b.toNat * 2 ^ (8 * i) < 2 ^ 8 * 2 ^ (8 * i) := by
          exact Nat.mul_lt_mul_of_pos_right hb (Nat.two_pow_pos _)
      _ = 2 ^ (8 + 8 * i) := (pow_add 2 8 (8 * i)).symm
      _ ≤ 2 ^ 64 := Nat.pow_le_pow_right (by norm_num) (by omega)
  unfold shiftLeft64
  rw [if_pos (by omega), Nat.mod_eq_of_lt hlt]

theorem orShifted_eq (bytes : Bytes) (i size : ℕ) (h : i + bytes.length ≤ 8) :
    orShifted i size bytes = some (leFold i size bytes) := by
  induction bytes generalizing i size with
  | nil => rfl
  | cons byte bytes ih =>
    rw [List.length_cons] at h
    have hi : i < 8 := by omega
    have hmul : mulIn 64 8 i = some (8 * i) := mulIn_of_lt (by omega)
    simp only [orShifted, hmul, Option.bind_eq_bind, Option.bind_some, shiftLeft64_byte byte hi]
    rw [ih _ _ (by omega), leFold]

theorem getElem?_eq_getD {header : Bytes} {i : ℕ} (h : i < header.length) :
    header[i]? = some (header.getD i 0) := by
  rw [List.getD_eq_getElem?_getD, List.getElem?_eq_getElem h]
  rfl

/-- The window of any descriptor stays below `2 ^ 42`. -/
theorem windowInWords_eq {header : Bytes} {single : Bool} (size : ℕ)
    (h : single = false → 5 < header.length) : windowInWords header single size =
      some (if single then size
        else
          let base := 2 ^ (10 + (header.getD 5 0 >>> 3).toNat)
          base + base / 8 * (header.getD 5 0 &&& 7).toNat) := by
  cases single with
  | true => rfl
  | false =>
    have hget := getElem?_eq_getD (h rfl)
    generalize header.getD 5 0 = w at hget
    have hshift : (w >>> 3).toNat = w.toNat / 8 := shiftRight_toNat w 3 (by decide)
    have hexponent : (w >>> 3).toNat ≤ 31 := by
      have := w.toNat_lt
      omega
    have hmantissa : (w &&& 7).toNat ≤ 7 := by
      rw [and_7_toNat]
      omega
    have hbase : 2 ^ (10 + (w >>> 3).toNat) ≤ 2 ^ 41 :=
      Nat.pow_le_pow_right (by norm_num) (by omega)
    have hpart : 2 ^ (10 + (w >>> 3).toNat) / 8 * (w &&& 7).toNat ≤ 2 ^ 41 / 8 * 7 :=
      Nat.mul_le_mul (Nat.div_le_div_right hbase) hmantissa
    have hone : shiftLeft64 1 (10 + (w >>> 3).toNat) = some (2 ^ (10 + (w >>> 3).toNat)) := by
      unfold shiftLeft64
      rw [if_pos (by omega), Nat.shiftLeft_eq, one_mul, Nat.mod_eq_of_lt (by omega)]
    unfold windowInWords
    simp only [Bool.false_eq_true, if_false, hget, Option.bind_eq_bind, Option.bind_some]
    rw [addIn_of_lt (by omega), Option.bind_some, hone, Option.bind_some,
      mulIn_of_lt (by omega), Option.bind_some, addIn_of_lt (by omega)]

/-- **The check never indexes past the header and its arithmetic never overflows.** -/
theorem checkHeaderInWords_eq (header : Bytes) :
    checkHeaderInWords header = some (checkHeader header) := by
  unfold checkHeaderInWords checkHeader
  by_cases hlen : header.length < 5
  · rw [if_pos hlen, if_pos hlen]
    rfl
  rw [if_neg hlen, if_neg hlen, checkedSlice_of_le (Nat.zero_le 4) (by omega)]
  simp only [Option.bind_eq_bind, Option.bind_some, List.drop_zero, Nat.sub_zero, Option.pure_def]
  by_cases hmagic : header.take 4 ≠ [0x28, 0xb5, 0x2f, 0xfd]
  · rw [if_pos hmagic, if_pos hmagic]
  rw [if_neg hmagic, if_neg hmagic, getElem?_eq_getD (by omega), Option.bind_some]
  generalize header.getD 4 0 = descriptor
  by_cases hbits : descriptor &&& 0x1b ≠ 0
  · rw [if_pos hbits, if_pos hbits]
  rw [if_neg hbits, if_neg hbits]
  generalize hsingle : decide (descriptor &&& 0x20 ≠ 0) = single
  set sizeBytes : ℕ := match (descriptor >>> 6).toNat with
    | 0 => if single then 1 else 0
    | 1 => 2
    | 2 => 4
    | _ => 8
  -- the two definitions name the width of the size field alike
  change _ = some (
    let sizeOffset := if single then 5 else 6
    if header.length < sizeOffset + sizeBytes then Except.ok false
    else
      let size := leFold 0 0 ((header.drop sizeOffset).take sizeBytes)
      let size := if sizeBytes = 2 then size + 256 else size
      let window :=
        if single then size
        else
          let base := 2 ^ (10 + (header.getD 5 0 >>> 3).toNat)
          base + base / 8 * (header.getD 5 0 &&& 7).toNat
      if maxZstdWindowBytesV1 < window ∨ maxPlaintextObjectBytesV1 < size then
        Except.error BackupErrorCode.resourceLimitExceeded
      else Except.ok true)
  have hle : sizeBytes ≤ 8 := by
    unfold sizeBytes
    split
    · split_ifs <;> omega
    all_goals omega
  clear_value sizeBytes
  dsimp only
  generalize hoffset : (if single then 5 else 6) = sizeOffset
  have hle' : sizeOffset ≤ 6 := by
    rw [← hoffset]
    split_ifs <;> omega
  rw [addIn_of_lt (by omega), Option.bind_some]
  by_cases hshort : header.length < sizeOffset + sizeBytes
  · rw [if_pos hshort, if_pos hshort]
  rw [if_neg hshort, if_neg hshort]
  have hwidth : ((header.drop sizeOffset).take sizeBytes).length = sizeBytes := by
    rw [List.length_take, List.length_drop]
    omega
  rw [checkedSlice_of_le (by omega) (by omega), Option.bind_some,
    Nat.add_sub_cancel_left, orShifted_eq _ _ _ (by omega), Option.bind_some]
  have hsize : leFold 0 0 ((header.drop sizeOffset).take sizeBytes) < 256 ^ sizeBytes := by
    rw [leFold_eq 0 0 _ (by norm_num), pow_zero, one_mul, zero_add]
    have hlt := ofLE_lt ((header.drop sizeOffset).take sizeBytes)
    rwa [hwidth] at hlt
  generalize leFold 0 0 ((header.drop sizeOffset).take sizeBytes) = size at hsize
  have htwo : (if sizeBytes = 2 then addIn 64 size 256 else some size) =
      some (if sizeBytes = 2 then size + 256 else size) := by
    split_ifs with h
    · rw [h] at hsize
      exact addIn_of_lt (by omega)
    · rfl
  rw [htwo, Option.bind_some, windowInWords_eq, Option.bind_some]
  · split_ifs <;> rfl
  · intro hs
    rw [hs] at hoffset
    have : sizeOffset = 6 := hoffset.symm
    omega

/-! ## The check while bytes arrive -/

variable {header : Bytes}

theorem checkHeader_eq_ok_true_iff : checkHeader header = .ok true ↔
    ∃ fh, FrameHeader.parse header = some fh ∧ GoodHeader fh := by
  constructor
  · exact checkHeader_eq_ok_true
  · rintro ⟨fh, hparse, hgood⟩
    rw [checkHeader_of_isPrefix hparse hgood List.prefix_rfl, hparse]
    rfl

/-- **A check that has decided** does not change its mind. -/
theorem checkHeader_append (h : checkHeader header ≠ .ok false) (more : Bytes) :
    checkHeader (header ++ more) = checkHeader header := by
  have hlen : ¬header.length < 5 := fun hlt => h (checkHeader_of_length_lt hlt)
  have hlen' : ¬(header ++ more).length < 5 := by
    rw [List.length_append]
    omega
  by_cases hmagic : header.take 4 = [0x28, 0xb5, 0x2f, 0xfd]
  · obtain ⟨d, rest, rfl⟩ := exists_eq_cons hlen hmagic
    simp only [List.cons_append] at hlen' ⊢
    by_cases hd : d &&& 0x1b = 0
    · have hbits := (and_0x1b_eq_zero d).mp hd
      rw [checkHeader_cons hbits] at h ⊢
      rw [checkHeader_cons hbits]
      cases hparse : FrameHeader.parse (0x28 :: 0xb5 :: 0x2f :: 0xfd :: d :: rest) with
      | none =>
        rw [hparse] at h
        exact absurd rfl h
      | some fh =>
        have happend := FrameHeader.parse_append hparse more
        simp only [List.cons_append] at happend
        rw [happend]
    · unfold checkHeader
      rw [if_neg hlen, if_neg hlen']
      simp [hd]
  · unfold checkHeader
    rw [if_neg hlen, if_neg hlen', List.take_append_of_le_length (by omega), if_pos hmagic,
      if_pos hmagic]

theorem contentSizeBytes_le (d : UInt8) : FrameHeader.contentSizeBytes d ≤ 8 := by
  unfold FrameHeader.contentSizeBytes
  split
  · split_ifs <;> omega
  all_goals omega

/-- Fourteen bytes hold any header without a dictionary id. -/
theorem parse_ne_none {d : UInt8} {rest : Bytes} (hd : d.toNat % 4 = 0) (h : 9 ≤ rest.length) :
    FrameHeader.parse (0x28 :: 0xb5 :: 0x2f :: 0xfd :: d :: rest) ≠ none := by
  have hwidth := contentSizeBytes_le d
  simp only [FrameHeader.parse]
  by_cases hs : FrameHeader.singleSegment d
  · rw [if_pos hs, ofFields_eq hd, if_neg (by omega)]
    exact Option.some_ne_none _
  · rw [if_neg hs]
    cases rest with
    | nil => simp at h
    | cons w rest =>
      rw [List.length_cons] at h
      dsimp only
      rw [ofFields_eq hd, if_neg (by omega)]
      exact Option.some_ne_none _

/-- A check that waits has seen fewer bytes than a header can have. -/
theorem length_lt_of_checkHeader (h : checkHeader header = .ok false) : header.length < 14 := by
  by_contra hlong
  have hlen : ¬header.length < 5 := by omega
  by_cases hmagic : header.take 4 = [0x28, 0xb5, 0x2f, 0xfd]
  · obtain ⟨d, rest, rfl⟩ := exists_eq_cons hlen hmagic
    by_cases hd : d &&& 0x1b = 0
    · have hbits := (and_0x1b_eq_zero d).mp hd
      simp only [List.length_cons] at hlong
      obtain ⟨fh, hparse⟩ := Option.ne_none_iff_exists'.mp
        (parse_ne_none hbits.1 (show 9 ≤ rest.length by omega))
      rw [checkHeader_cons hbits, hparse] at h
      dsimp only at h
      split_ifs at h
      cases h
    · unfold checkHeader at h
      rw [if_neg hlen] at h
      simp [hd] at h
  · unfold checkHeader at h
    rw [if_neg hlen, if_pos hmagic] at h
    cases h

/-- **The check has decided by the fourteenth byte.** -/
theorem checkHeader_take (stream : Bytes) : checkHeader (stream.take 14) = checkHeader stream := by
  by_cases hlen : stream.length < 14
  · rw [List.take_of_length_le (by omega)]
  · have hdecided : checkHeader (stream.take 14) ≠ .ok false := by
      intro h
      have hlt := length_lt_of_checkHeader h
      rw [List.length_take] at hlt
      omega
    have happend := checkHeader_append hdecided (stream.drop 14)
    rw [List.take_append_drop] at happend
    exact happend.symm

end KChat.Backup
