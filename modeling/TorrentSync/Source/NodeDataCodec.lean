import TorrentSync.Source.NodeDataNumber

/-!
# Codecs of NodeData

`write`, `read` and the constructor from a buffer all agree with the big-endian
reading of twenty octets, on either host byte order.
-/
namespace TorrentSync.Source.NodeData

open Lib

/-! ## Writing -/

theorem lowByte_shift {w : Nat} (p : BitVec w) (k : Nat) (wide : 8 ≤ w) :
    BigEndian.lowByte (p >>> k &&& 0xFF) = UInt8.ofNat (p.toNat / 2 ^ k) := by
  apply UInt8.toNat_inj.mp
  have mask : (0xFF : BitVec w).toNat = 2 ^ 8 - 1 := by
    have small : 255 < 2 ^ w :=
      lt_of_lt_of_le (by decide : 255 < 2 ^ 8) (Nat.pow_le_pow_right (by decide) wide)
    exact (BitVec.toNat_ofNat 255 w).trans (Nat.mod_eq_of_lt small)
  rw [BigEndian.lowByte_toNat, BitVec.toNat_and, mask, Nat.and_two_pow_sub_one_eq_mod,
    BitVec.toNat_ushiftRight, Nat.shiftRight_eq_div_pow]
  simp

/-- `write` is the big-endian form of the three words. -/
theorem write_eq (a : NodeData) :
    a.write = BigEndian.bytes 8 a.p1.toNat ++ BigEndian.bytes 8 a.p2.toNat ++
      BigEndian.bytes 4 a.p3.toNat := by
  simp only [write, lowByte_shift _ _ (show 8 ≤ 64 by decide), lowByte_shift _ _ (show 8 ≤ 32 by decide)]
  rfl

@[simp] theorem write_length (a : NodeData) : a.write.length = 20 := rfl

theorem value_write (a : NodeData) : BigEndian.value a.write = a.number := by
  rw [write_eq, BigEndian.value_append, BigEndian.value_append, BigEndian.value_bytes,
    BigEndian.value_bytes, BigEndian.value_bytes, BigEndian.bytes_length, BigEndian.bytes_length, number]
  have word₁ : a.p1.toNat % 256 ^ 8 = a.p1.toNat := Nat.mod_eq_of_lt a.p1.isLt
  have word₂ : a.p2.toNat % 256 ^ 8 = a.p2.toNat := Nat.mod_eq_of_lt a.p2.isLt
  have word₃ : a.p3.toNat % 256 ^ 4 = a.p3.toNat := Nat.mod_eq_of_lt a.p3.isLt
  rw [word₁, word₂, word₃]
  ring

/-- Twenty octets are the written form of the identifier with their number. -/
theorem write_eq_of_number {a : NodeData} {b : Buffer} (length : b.length = 20)
    (same : a.number = BigEndian.value b) : a.write = b :=
  BigEndian.value_injective _ _ (by rw [write_length, length]) (by rw [value_write, same])

/-! ## Reading -/

theorem shiftIn_toNat {w : Nat} (octets : Buffer) (wide : 8 ≤ w) (fits : 256 ^ octets.length = 2 ^ w) :
    (shiftIn octets : BitVec w).toNat = BigEndian.value octets := by
  have whole := BigEndian.foldl_shift_or_toNat wide (0 : BitVec w) octets
  have small := BigEndian.value_lt octets
  rw [fits] at small
  have zero : (0 : BitVec w).toNat = 0 := (BitVec.toNat_ofNat 0 w).trans (Nat.zero_mod _)
  rw [shiftIn, whole, zero]
  exact Nat.mod_eq_of_lt small

private theorem value_words (b₁ b₂ b₃ : Buffer) (length₂ : b₂.length = 8) (length₃ : b₃.length = 4) :
    BigEndian.value (b₁ ++ (b₂ ++ b₃)) =
      BigEndian.value b₁ * 2 ^ 96 + BigEndian.value b₂ * 2 ^ 32 + BigEndian.value b₃ := by
  rw [BigEndian.value_append, BigEndian.value_append, List.length_append, length₂, length₃]
  ring

private theorem words_split (b : Buffer) (length : b.length = 20) :
    b = b.take 8 ++ ((b.drop 8).take 8 ++ (b.drop 16).take 4) := by
  have last : (b.drop 16).take 4 = b.drop 16 := List.take_of_length_le (by simp [length])
  have rest : b.drop 16 = (b.drop 8).drop 8 := by rw [List.drop_drop]
  rw [last, rest, List.take_append_drop, List.take_append_drop]

/-- `read` reads the first twenty octets of a long enough range. -/
theorem read_append {b : Buffer} (length : b.length = 20) (rest : Buffer) :
    ∃ a, read (b ++ rest) = .ok a ∧ a.write = b := by
  have enough : ¬ (b ++ rest).length < addressDataLength := by
    simp [addressDataLength, length]
  have first : (b ++ rest).take 8 = b.take 8 := List.take_append_of_le_length (by omega)
  have second : ((b ++ rest).drop 8).take 8 = (b.drop 8).take 8 := by
    rw [List.drop_append_of_le_length (by omega), List.take_append_of_le_length (by simp [length])]
  have third : ((b ++ rest).drop 16).take 4 = (b.drop 16).take 4 := by
    rw [List.drop_append_of_le_length (by omega), List.take_append_of_le_length (by simp [length])]
  refine ⟨⟨shiftIn (b.take 8), shiftIn ((b.drop 8).take 8), shiftIn ((b.drop 16).take 4)⟩, ?_,
    write_eq_of_number length ?_⟩
  · simp only [read, if_neg enough, first, second, third]
  · have text := value_words (b.take 8) ((b.drop 8).take 8) ((b.drop 16).take 4)
      (by simp [length]) (by simp [length])
    rw [← words_split b length] at text
    rw [number, shiftIn_toNat _ (by decide) (by simp [length]),
      shiftIn_toNat _ (by decide) (by simp [length]), shiftIn_toNat _ (by decide) (by simp [length]),
      text]

theorem read_write (a : NodeData) (rest : Buffer) : read (a.write ++ rest) = .ok a := by
  obtain ⟨c, run, same⟩ := read_append (write_length a) rest
  have equal : c = a := number_injective (by rw [← value_write, same, value_write])
  rw [run, equal]

theorem read_short {range : Buffer} (short : range.length < 20) :
    read range = .error (.invalidArgument "Wrong amount of data to parse") := by
  have tooShort : range.length < addressDataLength := short
  rw [read, if_pos tooShort]

/-! ## The constructor from a buffer -/

private theorem pair_toNat (hi lo : BitVec 32) :
    (hi.setWidth 64 <<< 32 ||| lo.setWidth 64 : BitVec 64).toNat = hi.toNat * 2 ^ 32 + lo.toNat := by
  have hiLt := hi.isLt
  have loLt := lo.isLt
  have hiFits : hi.toNat % 2 ^ 64 = hi.toNat := Nat.mod_eq_of_lt (by omega)
  have loFits : lo.toNat % 2 ^ 64 = lo.toNat := Nat.mod_eq_of_lt (by omega)
  rw [BitVec.toNat_or, BitVec.toNat_shiftLeft, BitVec.toNat_setWidth, BitVec.toNat_setWidth, hiFits,
    loFits, Nat.shiftLeft_eq, Nat.mod_eq_of_lt (by omega), Nat.mul_comm,
    ← Nat.two_pow_add_eq_or_of_lt loLt]

private theorem words32_split (b : Buffer) (length : b.length = 20) :
    b = (b.drop 0).take 4 ++ ((b.drop 4).take 4 ++ ((b.drop 8).take 4 ++
      ((b.drop 12).take 4 ++ (b.drop 16).take 4))) := by
  have last : (b.drop 16).take 4 = b.drop 16 := List.take_of_length_le (by simp [length])
  have step : ∀ n, b.drop (n + 4) = (b.drop n).drop 4 := fun n => by rw [List.drop_drop]
  rw [last, step 12, List.take_append_drop, step 8, List.take_append_drop, step 4,
    List.take_append_drop, step 0, List.take_append_drop, List.drop_zero]

/-- Twenty octets give the identifier they are the written form of. -/
theorem ofBuffer_spec (host : Host) {b : Buffer} (length : b.length = 20) :
    ∃ a, ofBuffer host b = .ok a ∧ a.write = b := by
  have exact_ : ¬ b.length ≠ addressDataLength := by simp [addressDataLength, length]
  have word : ∀ i, i < 5 → (htonl host (load32 host ((b.drop (4 * i)).take 4))).toNat =
      BigEndian.value ((b.drop (4 * i)).take 4) := by
    intro i small
    exact htonl_load32 host _ (by simp [length]; omega)
  simp only [ofBuffer, if_neg exact_]
  refine ⟨_, rfl, write_eq_of_number length ?_⟩
  have text := congrArg BigEndian.value (words32_split b length)
  simp only [BigEndian.value_append, List.length_append, List.length_take, List.length_drop,
    length] at text
  rw [text, number]
  simp only [pair_toNat, word 0 (by decide), word 1 (by decide), word 2 (by decide),
    word 3 (by decide), word 4 (by decide), Nat.mul_zero, Nat.mul_one, Nat.reduceMul]
  norm_num
  ring

theorem ofBuffer_write (host : Host) (a : NodeData) : ofBuffer host a.write = .ok a := by
  obtain ⟨c, run, same⟩ := ofBuffer_spec host (write_length a)
  have equal : c = a := number_injective (by rw [← value_write, same, value_write])
  rw [run, equal]

theorem ofBuffer_wrong_length (host : Host) {b : Buffer} (length : b.length ≠ 20) :
    ofBuffer host b = .error (.invalidArgument "NodeData expects 20 byte as address") := by
  have wrong : b.length ≠ addressDataLength := length
  rw [ofBuffer, if_pos wrong]

theorem write_injective {a c : NodeData} (same : a.write = c.write) : a = c :=
  number_injective (by rw [← value_write, same, value_write])

end TorrentSync.Source.NodeData
