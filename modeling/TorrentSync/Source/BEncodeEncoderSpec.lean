import TorrentSync.Lib.Bencode
import TorrentSync.Source.BEncodeEncoder

/-!
# Specification of the BEncodeEncoder

An encoder that has written `out` holds it at the front of its buffer. One call of
`checkAndExpand` adds at most one block, so whether the next element still fits is a
condition on the used octets, the size of the buffer and the length of the element.
-/
namespace TorrentSync.Source.BEncodeEncoder

open Lib Decimal OrderedContainers

/-- The octets of `out` are what the encoder has written so far. -/
structure Encodes (enc : BEncodeEncoder) (out : Buffer) : Prop where
  used : enc.usedBytes = out.length
  written : enc.result.take out.length = out

theorem Encodes.inside {enc : BEncodeEncoder} {out : Buffer} (h : enc.Encodes out) :
    out.length ≤ enc.result.length := by
  have sizes := congrArg List.length h.written
  rw [List.length_take] at sizes
  omega

theorem new_encodes : new.Encodes [] := ⟨rfl, rfl⟩

/-! ## Buffer growth -/

/-- The size `checkAndExpand` grows a buffer of `size` octets to. -/
def nextBlock (size : Nat) : Nat := (size / 1024 + 1) * 1024

/-- The size of the buffer after `checkAndExpand add`. -/
def sizeAfter (used size add : Nat) : Nat := if used + add > size then nextBlock size else size

theorem lt_nextBlock (size : Nat) : size < nextBlock size := by
  unfold nextBlock
  omega

theorem checkAndExpand_length (add : Nat) (enc : BEncodeEncoder) :
    (enc.checkAndExpand add).result.length = sizeAfter enc.usedBytes enc.result.length add := by
  unfold checkAndExpand sizeAfter nextBlock
  split
  · exact resize_length _ _
  · rfl

theorem Encodes.checkAndExpand {enc : BEncodeEncoder} {out : Buffer} (h : enc.Encodes out)
    (add : Nat) : (enc.checkAndExpand add).Encodes out := by
  unfold BEncodeEncoder.checkAndExpand
  split
  · refine ⟨h.used, ?_⟩
    have grows := lt_nextBlock enc.result.length
    have whole : enc.result.take (nextBlock enc.result.length) = enc.result :=
      List.take_of_length_le (by omega)
    simp only [resize]
    rw [← nextBlock, whole, List.take_append_of_le_length h.inside]
    exact h.written
  · exact h

@[simp] theorem checkAndExpand_lastKey (add : Nat) (enc : BEncodeEncoder) :
    (enc.checkAndExpand add).lastKey = enc.lastKey := by
  unfold checkAndExpand
  split <;> rfl

/-- After `checkAndExpand add` there is room for `add` octets exactly when one block
more than the old size has room for them. -/
theorem room_iff (add : Nat) (enc : BEncodeEncoder) :
    enc.usedBytes + add ≤ (enc.checkAndExpand add).result.length ↔
      enc.usedBytes + add ≤ nextBlock enc.result.length := by
  have grows := lt_nextBlock enc.result.length
  rw [checkAndExpand_length, sizeAfter]
  split <;> omega

/-! ## Writing -/

theorem copyIn_spec {enc : BEncodeEncoder} {out : Buffer} (h : enc.Encodes out) (octets : Buffer)
    (room : out.length + octets.length ≤ enc.result.length) :
    ∃ enc', enc.copyIn octets = .ok enc' ∧ enc'.Encodes (out ++ octets) ∧
      enc'.result.length = enc.result.length ∧ enc'.lastKey = enc.lastKey := by
  have used := h.used
  have run : enc.copyIn octets = .ok { enc with
      result := enc.result.take enc.usedBytes ++ octets ++
        enc.result.drop (enc.usedBytes + octets.length)
      usedBytes := enc.usedBytes + octets.length } := by
    rw [copyIn, if_pos (by omega)]
  refine ⟨_, run, ⟨?_, ?_⟩, ?_, rfl⟩
  · simp [used]
  · simp only [used, h.written]
    rw [← List.length_append]
    exact List.take_left
  · simp only [used, h.written, List.length_append, List.length_drop]
    omega

theorem copyIn_outside {enc : BEncodeEncoder} (octets : Buffer)
    (overrun : enc.result.length < enc.usedBytes + octets.length) :
    enc.copyIn octets = .error outsideResult := by
  rw [copyIn, if_neg (by omega)]

/-- One structure character always fits. -/
theorem mark_spec {enc : BEncodeEncoder} {out : Buffer} (h : enc.Encodes out) (mark : Buffer)
    (single : mark.length = 1) :
    ∃ enc', (enc.checkAndExpand 1).copyIn mark = .ok enc' ∧ enc'.Encodes (out ++ mark) ∧
      enc'.result.length = sizeAfter out.length enc.result.length 1 ∧ enc'.lastKey = enc.lastKey := by
  have size := checkAndExpand_length 1 enc
  have inside := h.inside
  have grows := lt_nextBlock enc.result.length
  rw [h.used] at size
  have room : out.length + mark.length ≤ (enc.checkAndExpand 1).result.length := by
    rw [size, sizeAfter, single]
    split <;> omega
  obtain ⟨enc', run, encodes, length, lastKey⟩ := copyIn_spec (h.checkAndExpand 1) mark room
  exact ⟨enc', run, encodes, length.trans size, by rw [lastKey, checkAndExpand_lastKey]⟩

/-- Whether an element still fits after the buffer has grown by one block. -/
def ElementFits (used size : Nat) (v : Buffer) : Prop :=
  used + (Bencode.string v).length ≤ nextBlock size

instance (used size : Nat) (v : Buffer) : Decidable (ElementFits used size v) :=
  inferInstanceAs (Decidable (_ ≤ _))

/-- The size of the buffer after an element. -/
def elementSize (used size : Nat) (v : Buffer) : Nat :=
  sizeAfter used size ((Bencode.string v).length + 1)

private theorem addElement_request (v : Buffer) :
    (digits v.length).length + 1 + 1 + v.length = (Bencode.string v).length + 1 := by
  rw [Bencode.string_length]
  omega

theorem addElement_spec {enc : BEncodeEncoder} {out : Buffer} (h : enc.Encodes out) {v : Buffer}
    (nonempty : v ≠ []) (fits : ElementFits out.length enc.result.length v) :
    ∃ enc', enc.addElement v = .ok enc' ∧ enc'.Encodes (out ++ Bencode.string v) ∧
      enc'.result.length = elementSize out.length enc.result.length v ∧
      enc'.lastKey = enc.lastKey := by
  have size := checkAndExpand_length ((Bencode.string v).length + 1) enc
  have encodes := h.checkAndExpand ((Bencode.string v).length + 1)
  rw [h.used] at size
  have total := Bencode.string_length v
  have room : out.length + (Bencode.string v).length ≤
      (enc.checkAndExpand ((Bencode.string v).length + 1)).result.length := by
    rw [size, sizeAfter]
    unfold ElementFits at fits
    split <;> omega
  have sameKey := checkAndExpand_lastKey ((Bencode.string v).length + 1) enc
  have filled : (!v.isEmpty) = true := by simpa using nonempty
  simp only [addElement, filled, check_true, addElement_request, ok_bind]
  generalize enc.checkAndExpand ((Bencode.string v).length + 1) = start at *
  rw [total] at room
  obtain ⟨enc₁, run₁, encodes₁, length₁, lastKey₁⟩ :=
    copyIn_spec encodes (digits v.length) (by omega)
  obtain ⟨enc₂, run₂, encodes₂, length₂, lastKey₂⟩ :=
    copyIn_spec encodes₁ (ascii ":") (by simp [ascii]; omega)
  obtain ⟨enc₃, run₃, encodes₃, length₃, lastKey₃⟩ :=
    copyIn_spec encodes₂ v (by simp [ascii]; omega)
  refine ⟨enc₃, ?_, ?_, ?_, ?_⟩
  · simp only [run₁, run₂, run₃, ok_bind]
  · have text : Bencode.string v = digits v.length ++ (ascii ":" ++ v) := rfl
    rw [text, ← List.append_assoc, ← List.append_assoc]
    exact encodes₃
  · rw [length₃, length₂, length₁, size]
    rfl
  · rw [lastKey₃, lastKey₂, lastKey₁, sameKey]

/-- An element that does not fit is written past the end of the buffer. -/
theorem addElement_outside {enc : BEncodeEncoder} {out : Buffer} (h : enc.Encodes out) {v : Buffer}
    (nonempty : v ≠ []) (overrun : ¬ ElementFits out.length enc.result.length v) :
    enc.addElement v = .error outsideResult := by
  have size := checkAndExpand_length ((Bencode.string v).length + 1) enc
  have encodes := h.checkAndExpand ((Bencode.string v).length + 1)
  rw [h.used] at size
  have total := Bencode.string_length v
  have grows := lt_nextBlock enc.result.length
  have short : (enc.checkAndExpand ((Bencode.string v).length + 1)).result.length <
      out.length + (Bencode.string v).length := by
    rw [size, sizeAfter]
    unfold ElementFits at overrun
    split <;> omega
  have filled : (!v.isEmpty) = true := by simpa using nonempty
  simp only [addElement, filled, check_true, addElement_request, ok_bind]
  generalize enc.checkAndExpand ((Bencode.string v).length + 1) = start at encodes short ⊢
  rw [total] at short
  by_cases first : out.length + (digits v.length).length ≤ start.result.length
  · obtain ⟨enc₁, run₁, encodes₁, length₁, -⟩ := copyIn_spec encodes (digits v.length) first
    rw [run₁, ok_bind]
    by_cases second : out.length + (digits v.length).length + 1 ≤ start.result.length
    · obtain ⟨enc₂, run₂, encodes₂, length₂, -⟩ :=
        copyIn_spec encodes₁ (ascii ":") (by simp [ascii]; omega)
      rw [run₂, ok_bind]
      apply copyIn_outside
      rw [encodes₂.used, length₂, length₁]
      simp [ascii]
      omega
    · rw [copyIn_outside, error_bind]
      rw [encodes₁.used, length₁]
      simp [ascii]
      omega
  · rw [copyIn_outside, error_bind]
    rw [encodes.used]
    omega

end TorrentSync.Source.BEncodeEncoder
