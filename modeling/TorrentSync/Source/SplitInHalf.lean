import TorrentSync.Source.NodeDataNumber

/-!
# splitInHalf on aligned ranges

NodeData.cpp:75-123. On a range of identifiers sharing `n` bits the XOR of the
two bounds has exactly its low `160 - n` bits set. Every word of `mask` is then a
run of ones followed by zeros, and the shifts with carry between the words make
that run one bit longer. The termination test is right for such masks only.
-/
namespace TorrentSync.Source.NodeData

open Lib PrefixRange

/-- A word whose bits from `k` upwards are set. -/
def onesFrom (w k : Nat) : BitVec w := BitVec.allOnes w <<< k

theorem onesFrom_getLsbD (w k i : Nat) (inside : i < w) :
    (onesFrom w k).getLsbD i = decide (k ≤ i) := by
  by_cases below : k ≤ i
  · simp [onesFrom, inside, below]
  · simp [onesFrom, below, show i < k by omega]

/-- Shifting a run of ones right and setting the top bit lengthens the run. -/
theorem onesFrom_shift (w k : Nat) (positive : 0 < w) (short : k ≤ w) :
    onesFrom w k >>> 1 ||| BitVec.twoPow w (w - 1) = onesFrom w (k - 1) := by
  apply BitVec.eq_of_getLsbD_eq
  intro i inside
  rw [BitVec.getLsbD_or, BitVec.getLsbD_ushiftRight, BitVec.getLsbD_twoPow,
    onesFrom_getLsbD w (k - 1) i inside]
  by_cases last : i = w - 1
  · have reach : k - 1 ≤ i := by omega
    simp [last, positive]
    omega
  · rw [onesFrom_getLsbD w k (1 + i) (by omega)]
    have apart : w - 1 ≠ i := by omega
    simp only [apart, decide_false, Bool.and_false, Bool.or_false, decide_eq_decide]
    omega

/-- Or-ing a mask with the difference to a larger mask gives the larger mask. -/
theorem onesFrom_or_xor (w k m : Nat) (larger : m ≤ k) :
    onesFrom w k ||| (onesFrom w m ^^^ onesFrom w k) = onesFrom w m := by
  apply BitVec.eq_of_getLsbD_eq
  intro i inside
  simp only [BitVec.getLsbD_or, BitVec.getLsbD_xor, onesFrom_getLsbD _ _ _ inside]
  by_cases deep : k ≤ i
  · simp [deep, le_trans larger deep]
  · simp [deep]

theorem onesFrom_zero_of_le (w k : Nat) (past : w ≤ k) : onesFrom w k = 0 := by
  apply BitVec.eq_of_getLsbD_eq
  intro i inside
  rw [onesFrom_getLsbD w k i inside]
  simp
  omega

/-- Or-ing the complement of a mask fills the bits below it. -/
theorem fill_getLsbD {w : Nat} (x : BitVec w) (m i : Nat) (inside : i < w) :
    (x ||| ~~~onesFrom w m).getLsbD i = (x.getLsbD i || decide (i < m)) := by
  rw [BitVec.getLsbD_or, BitVec.getLsbD_not, onesFrom_getLsbD w m i inside]
  simp only [inside, decide_true, Bool.true_and, ← decide_not, Nat.not_le]

/-- One word of the new mask: lengthened when the carry arrives, kept otherwise. -/
theorem word_step (w k : Nat) (carry : Bool) (top : BitVec w) (positive : 0 < w)
    (topBit : top = BitVec.twoPow w (w - 1))
    (carries : carry = decide (k ≤ w)) :
    onesFrom w k ||| ((onesFrom w k >>> carry.toNat |||
      top * BitVec.ofNat w carry.toNat) ^^^ onesFrom w k) = onesFrom w (k - 1) := by
  subst topBit
  by_cases short : k ≤ w
  · have one : carry = true := by rw [carries, decide_eq_true short]
    simp only [one, Bool.toNat_true]
    rw [show BitVec.twoPow w (w - 1) * BitVec.ofNat w 1 = BitVec.twoPow w (w - 1) from
      BitVec.mul_one _, onesFrom_shift w k positive short]
    exact onesFrom_or_xor w k (k - 1) (Nat.sub_le _ _)
  · have zero : carry = false := by rw [carries, decide_eq_false short]
    simp only [zero, Bool.toNat_false, BitVec.ushiftRight_zero, onesFrom_zero_of_le w k (by omega),
      onesFrom_zero_of_le w (k - 1) (by omega)]
    simp

/-- The mask of an aligned range: the bits the two bounds share. -/
theorem mask_words (low high : NodeData) (k : Nat)
    (shared : ∀ j < 160, (low.number.testBit j ^^ high.number.testBit j) = decide (j < k)) :
    ~~~(low.p1 ^^^ high.p1) = onesFrom 64 (k - 96) ∧
      ~~~(low.p2 ^^^ high.p2) = onesFrom 64 (k - 32) ∧
      ~~~(low.p3 ^^^ high.p3) = onesFrom 32 k := by
  refine ⟨?_, ?_, ?_⟩ <;> apply BitVec.eq_of_getLsbD_eq <;> intro i inside
  · rw [onesFrom_getLsbD _ _ _ inside, BitVec.getLsbD_not, BitVec.getLsbD_xor, p1_getLsbD,
      p1_getLsbD, shared _ (by omega)]
    simp only [inside, decide_true, Bool.true_and, ← decide_not, decide_eq_decide]
    omega
  · rw [onesFrom_getLsbD _ _ _ inside, BitVec.getLsbD_not, BitVec.getLsbD_xor,
      p2_getLsbD _ _ inside, p2_getLsbD _ _ inside, shared _ (by omega)]
    simp only [inside, decide_true, Bool.true_and, ← decide_not, decide_eq_decide]
    omega
  · rw [onesFrom_getLsbD _ _ _ inside, BitVec.getLsbD_not, BitVec.getLsbD_xor,
      p3_getLsbD _ _ inside, p3_getLsbD _ _ inside, shared _ (by omega)]
    simp only [inside, decide_true, Bool.true_and, ← decide_not, decide_eq_decide]
    omega

/-- The bits of the two new bounds: below the new bit the lower one is filled with
ones and the upper one with zeros, everything else is kept. -/
theorem splitInHalf_bits (low high : NodeData) (k : Nat) (positive : 1 ≤ k) (depth : k ≤ 160)
    (shared : ∀ j < 160, (low.number.testBit j ^^ high.number.testBit j) = decide (j < k)) :
    ∃ half_low half_high, splitInHalf low high = some (half_low, half_high) ∧
      (∀ j < 160, half_low.number.testBit j = (low.number.testBit j || decide (j < k - 1))) ∧
      (∀ j < 160, half_high.number.testBit j = (high.number.testBit j && decide (k - 1 ≤ j))) := by
  obtain ⟨m1, m2, m3⟩ := mask_words low high k shared
  have open3 : (~~~onesFrom 32 k == 0) = false := by
    rw [beq_eq_false_iff_ne]
    intro closed
    have bit0 := congrArg (fun x => BitVec.getLsbD x 0) closed
    simp only [BitVec.getLsbD_not, onesFrom_getLsbD 32 k 0 (by decide)] at bit0
    simp at bit0
    omega
  have carry2 : (onesFrom 64 (k - 96)).getLsbD 0 = decide (k - 32 ≤ 64) := by
    rw [onesFrom_getLsbD _ _ _ (by decide), decide_eq_decide]
    omega
  have carry3 : (onesFrom 64 (k - 32)).getLsbD 0 = decide (k ≤ 32) := by
    rw [onesFrom_getLsbD _ _ _ (by decide), decide_eq_decide]
    omega
  have n1 : onesFrom 64 (k - 96) ||| ((onesFrom 64 (k - 96) >>> 1 ||| 0x8000000000000000) ^^^
      onesFrom 64 (k - 96)) = onesFrom 64 (k - 1 - 96) := by
    rw [show (0x8000000000000000 : BitVec 64) = BitVec.twoPow 64 (64 - 1) by decide,
      onesFrom_shift 64 (k - 96) (by decide) (by omega), onesFrom_or_xor _ _ _ (Nat.sub_le _ _),
      show k - 96 - 1 = k - 1 - 96 by omega]
  have n2 := word_step 64 (k - 32) _ 0x8000000000000000 (by decide) (by decide) carry2
  have n3 := word_step 32 k _ 0x80000000 (by decide) (by decide) carry3
  rw [show k - 32 - 1 = k - 1 - 32 by omega] at n2
  unfold splitInHalf
  simp only [m1, m2, m3, n1, n2, n3, open3, Bool.false_and, Bool.false_eq_true, if_false]
  refine ⟨_, _, rfl, ?_, ?_⟩ <;> intro j inside
  · rw [number_testBit, number_testBit]
    split
    · rw [fill_getLsbD _ _ _ (by omega)]
    · split
      · rw [fill_getLsbD _ _ _ (by omega)]
        congr 2
        exact propext (by omega)
      · rw [fill_getLsbD _ _ _ (by omega)]
        congr 2
        exact propext (by omega)
  · rw [number_testBit, number_testBit]
    split
    · rw [BitVec.getLsbD_and, onesFrom_getLsbD _ _ _ (by omega)]
    · split
      · rw [BitVec.getLsbD_and, onesFrom_getLsbD _ _ _ (by omega)]
        congr 2
        exact propext (by omega)
      · rw [BitVec.getLsbD_and, onesFrom_getLsbD _ _ _ (by omega)]
        congr 2
        exact propext (by omega)

private theorem testBit_block (q k b j : Nat) (fits : b < 2 ^ k) :
    (q * 2 ^ k + b).testBit j = if j < k then b.testBit j else q.testBit (j - k) := by
  rw [Nat.mul_comm, Nat.testBit_two_pow_mul_add q fits]

private theorem own_shared (t n : Nat) (low high : NodeData)
    (lowEq : low.number = (own 160 t n).1) (highEq : high.number = (own 160 t n).2) (j : Nat) :
    (low.number.testBit j ^^ high.number.testBit j) = decide (j < 160 - n) := by
  have positive : 0 < 2 ^ (160 - n) := Nat.two_pow_pos _
  rw [lowEq, highEq]
  simp only [own]
  rw [testBit_block _ _ _ _ (Nat.sub_lt positive Nat.one_pos), Nat.testBit_two_pow_sub_one]
  have lowBits := testBit_block (t / 2 ^ (160 - n)) (160 - n) 0 j positive
  rw [Nat.add_zero] at lowBits
  rw [lowBits]
  by_cases inside : j < 160 - n
  · simp [inside]
  · simp [inside]

/-- A range that is not a single identifier is cut into its two halves. -/
theorem splitInHalf_own (t n : Nat) (inside : n < 160) (low high : NodeData)
    (lowEq : low.number = (own 160 t n).1) (highEq : high.number = (own 160 t n).2) :
    ∃ half_low half_high, splitInHalf low high = some (half_low, half_high) ∧
      (low.number, half_low.number) = (halves 160 t n).1 ∧
      (half_high.number, high.number) = (halves 160 t n).2 := by
  obtain ⟨half_low, half_high, split, lowBits, highBits⟩ := splitInHalf_bits low high (160 - n)
    (by omega) (by omega) (fun j _ => own_shared t n low high lowEq highEq j)
  have double := (depth_succ 160 n inside).1
  have positive : 0 < 2 ^ (160 - 1 - n) := Nat.two_pow_pos _
  have below : high.number < 2 ^ 160 := high.number_lt
  refine ⟨half_low, half_high, split, ?_, ?_⟩
  · simp only [halves, lowEq, Prod.mk.injEq, true_and]
    rw [highEq] at below
    simp only [own] at below
    apply number_eq_of_testBit
    · simp only [own]
      omega
    · intro j range
      rw [lowBits j range, lowEq]
      simp only [own]
      have plain := testBit_block (t / 2 ^ (160 - n)) (160 - n) 0 j (Nat.two_pow_pos _)
      rw [Nat.add_zero] at plain
      rw [plain, testBit_block _ _ _ _ (by omega), Nat.testBit_two_pow_sub_one]
      by_cases deep : j < 160 - n
      · simp only [deep, if_true, Nat.zero_testBit, Bool.false_or, decide_eq_decide]
        omega
      · have shallow : ¬ j < 160 - n - 1 := by omega
        simp [deep, shallow]
  · simp only [halves, highEq, Prod.mk.injEq, and_true]
    rw [highEq] at below
    simp only [own] at below
    apply number_eq_of_testBit
    · simp only [own]
      omega
    · intro j range
      rw [highBits j range, highEq]
      simp only [own]
      rw [testBit_block _ _ _ _ (by omega), testBit_block _ _ _ _ (by omega),
        Nat.testBit_two_pow_sub_one, Nat.testBit_two_pow]
      by_cases deep : j < 160 - n
      · simp only [deep, if_true, decide_true, Bool.true_and, decide_eq_decide]
        omega
      · have shallow : 160 - n - 1 ≤ j := by omega
        simp [deep, shallow]

/-- A single identifier cannot be cut. -/
theorem splitInHalf_single (a : NodeData) : splitInHalf a a = none := by
  simp [splitInHalf]

/-! ## Ranges given by a prefix -/

/-- The identifier that begins with `bits` and goes on with `fill` to its end. -/
def ofPrefix (bits : List Bool) (fill : Bool) : NodeData :=
  ofNumber (bitString (bits ++ List.replicate (160 - bits.length) fill))

theorem number_ofPrefix (bits : List Bool) (fill : Bool) (short : bits.length ≤ 160) :
    (ofPrefix bits fill).number = bitString bits * 2 ^ (160 - bits.length) +
      if fill then 2 ^ (160 - bits.length) - 1 else 0 := by
  have fits := bitString_lt (bits ++ List.replicate (160 - bits.length) fill)
  rw [List.length_append, List.length_replicate, Nat.add_sub_cancel' short] at fits
  rw [ofPrefix, number_ofNumber fits, bitString_append, List.length_replicate]
  cases fill <;> simp

/-- The identifiers with a given prefix are an aligned range. -/
theorem own_ofPrefix (bits : List Bool) (short : bits.length ≤ 160) :
    own 160 (ofPrefix bits false).number bits.length =
      ((ofPrefix bits false).number, (ofPrefix bits true).number) := by
  have positive : 0 < 2 ^ (160 - bits.length) := Nat.two_pow_pos _
  simp only [own, number_ofPrefix _ _ short, Bool.false_eq_true, if_false, if_true, Nat.add_zero,
    Nat.mul_div_cancel _ positive]

/-- The numbers of a prefix with one more bit, against those of the prefix. -/
theorem number_ofPrefix_snoc (bits : List Bool) (bit fill : Bool) (short : bits.length < 160) :
    (ofPrefix (bits ++ [bit]) fill).number = (ofPrefix bits false).number +
      bit.toNat * 2 ^ (159 - bits.length) + if fill then 2 ^ (159 - bits.length) - 1 else 0 := by
  have double : 2 ^ (160 - bits.length) = 2 * 2 ^ (159 - bits.length) := (depth_succ 160 _ short).1
  have length : (bits ++ [bit]).length = bits.length + 1 := by simp
  have deeper : 160 - (bits.length + 1) = 159 - bits.length := by omega
  rw [number_ofPrefix _ _ (by omega), number_ofPrefix _ _ short.le, length, deeper, double,
    bitString_append]
  simp only [bitString, List.length_singleton, List.length_nil]
  simp only [Bool.false_eq_true, if_false, pow_one, pow_zero]
  ring

/-- A prefix that leaves bits free has the identifiers of two longer ones. -/
private theorem halves_ofPrefix (bits : List Bool) (inside : bits.length < 160) :
    splitInHalf (ofPrefix bits false) (ofPrefix bits true) =
      some (ofPrefix (bits ++ [false]) true, ofPrefix (bits ++ [true]) false) ∧
    (ofPrefix bits false).number ≤ (ofPrefix (bits ++ [false]) true).number ∧
    (ofPrefix (bits ++ [true]) false).number = (ofPrefix (bits ++ [false]) true).number + 1 ∧
    (ofPrefix (bits ++ [true]) false).number ≤ (ofPrefix bits true).number ∧
    (ofPrefix (bits ++ [false]) true).number - (ofPrefix bits false).number =
      (ofPrefix bits true).number - (ofPrefix (bits ++ [true]) false).number := by
  have range := own_ofPrefix bits inside.le
  obtain ⟨half_low, half_high, split, lower, upper⟩ := splitInHalf_own
    (ofPrefix bits false).number bits.length inside (ofPrefix bits false) (ofPrefix bits true)
    (by rw [range]) (by rw [range])
  simp only [halves, range, Prod.mk.injEq, true_and, and_true] at lower upper
  have first := number_ofPrefix_snoc bits false true inside
  have second := number_ofPrefix_snoc bits true false inside
  have high := number_ofPrefix bits true inside.le
  have low := number_ofPrefix bits false inside.le
  have double : 2 ^ (160 - bits.length) = 2 * 2 ^ (159 - bits.length) := (depth_succ 160 _ inside).1
  have positive : 0 < 2 ^ (159 - bits.length) := Nat.two_pow_pos _
  simp only [Bool.toNat_false, Bool.toNat_true, Nat.zero_mul, Nat.one_mul, Nat.add_zero, if_true,
    Bool.false_eq_true, if_false] at first second high low
  rw [show 160 - 1 - bits.length = 159 - bits.length by omega] at lower upper
  have lowerHalf : half_low = ofPrefix (bits ++ [false]) true :=
    number_injective (lower.trans first.symm)
  have upperHalf : half_high = ofPrefix (bits ++ [true]) false :=
    number_injective (upper.trans second.symm)
  refine ⟨by rw [split, lowerHalf, upperHalf], ?_, ?_, ?_, ?_⟩ <;> omega

/-- `splitInHalf` cuts the identifiers with a given prefix after one more bit, and gives up
exactly when the prefix is a whole identifier. -/
theorem splitInHalf_ofPrefix (bits : List Bool) (short : bits.length ≤ 160) :
    (splitInHalf (ofPrefix bits false) (ofPrefix bits true) = none ↔ bits.length = 160) ∧
    (bits.length < 160 →
      splitInHalf (ofPrefix bits false) (ofPrefix bits true) =
        some (ofPrefix (bits ++ [false]) true, ofPrefix (bits ++ [true]) false) ∧
      (ofPrefix bits false).number ≤ (ofPrefix (bits ++ [false]) true).number ∧
      (ofPrefix (bits ++ [true]) false).number = (ofPrefix (bits ++ [false]) true).number + 1 ∧
      (ofPrefix (bits ++ [true]) false).number ≤ (ofPrefix bits true).number ∧
      (ofPrefix (bits ++ [false]) true).number - (ofPrefix bits false).number =
        (ofPrefix bits true).number - (ofPrefix (bits ++ [true]) false).number) := by
  refine ⟨⟨?_, ?_⟩, halves_ofPrefix bits⟩
  · intro stopped
    by_contra unfinished
    rw [(halves_ofPrefix bits (by omega)).1] at stopped
    cases stopped
  · intro whole
    have single : ofPrefix bits false = ofPrefix bits true := by
      apply number_injective
      rw [number_ofPrefix _ _ short, number_ofPrefix _ _ short, whole]
      rfl
    rw [← single]
    exact splitInHalf_single _

/-- Behind a whole first word of ones the cut falls on the first bit of the second word. -/
theorem splitInHalf_ofPrefix_word :
    (List.replicate 64 true).length ≤ 160 ∧ (List.replicate 64 true).length < 160 ∧
      splitInHalf ⟨0xFFFFFFFFFFFFFFFF, 0, 0⟩ ⟨0xFFFFFFFFFFFFFFFF, 0xFFFFFFFFFFFFFFFF, 0xFFFFFFFF⟩ =
        some (⟨0xFFFFFFFFFFFFFFFF, 0x7FFFFFFFFFFFFFFF, 0xFFFFFFFF⟩,
          ⟨0xFFFFFFFFFFFFFFFF, 0x8000000000000000, 0⟩) := by
  have short : (List.replicate 64 true).length ≤ 160 := by decide
  have inside : (List.replicate 64 true).length < 160 := by decide
  have cut := ((splitInHalf_ofPrefix (List.replicate 64 true) short).2 inside).1
  have low : ofPrefix (List.replicate 64 true) false = ⟨0xFFFFFFFFFFFFFFFF, 0, 0⟩ := by
    decide +kernel
  have high : ofPrefix (List.replicate 64 true) true =
      ⟨0xFFFFFFFFFFFFFFFF, 0xFFFFFFFFFFFFFFFF, 0xFFFFFFFF⟩ := by decide +kernel
  have first : ofPrefix (List.replicate 64 true ++ [false]) true =
      ⟨0xFFFFFFFFFFFFFFFF, 0x7FFFFFFFFFFFFFFF, 0xFFFFFFFF⟩ := by decide +kernel
  have second : ofPrefix (List.replicate 64 true ++ [true]) false =
      ⟨0xFFFFFFFFFFFFFFFF, 0x8000000000000000, 0⟩ := by decide +kernel
  rw [low, high, first, second] at cut
  exact ⟨short, inside, cut⟩

end TorrentSync.Source.NodeData
