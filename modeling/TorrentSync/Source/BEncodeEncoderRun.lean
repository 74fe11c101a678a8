import TorrentSync.Source.BEncodeEncoderSpec

/-!
# Runs of a BEncodeEncoder

Sequences of calls in any order, `value` included. `AllFit` follows the used octets
and the buffer size along the calls; as long as no key violates the order, it is
equivalent to every write staying inside the buffer.
-/
namespace TorrentSync.Source

open Lib

namespace EncoderCall

/-- Keys and values are not empty, as `addElement` asserts. -/
def NoEmptyElement : EncoderCall → Prop
  | .addElement v => v ≠ []
  | .addDictionaryElement _ k v => k ≠ [] ∧ v ≠ []
  | _ => True

/-- The tokens a call adds. -/
def text : EncoderCall → Buffer
  | .addElement v => Bencode.string v
  | .addDictionaryElement _ k v => Bencode.string k ++ Bencode.string v
  | .startList => ascii "l"
  | .startDictionary => ascii "d"
  | .endList | .endDictionary => ascii "e"
  | .value => []

/-- What a call returns after the tokens `out`. -/
def answer (out : Buffer) : EncoderCall → List Buffer
  | .value => [out]
  | _ => []

open BEncodeEncoder

/-- Whether a call fits, by the used octets and the buffer size before it. -/
def Fits (used size : Nat) : EncoderCall → Prop
  | .addElement v => ElementFits used size v
  | .addDictionaryElement _ k v =>
      ElementFits used size k ∧
        ElementFits (used + (Bencode.string k).length) (elementSize used size k) v
  | _ => True

instance (used size : Nat) (call : EncoderCall) : Decidable (call.Fits used size) := by
  cases call <;> unfold Fits <;> infer_instance

/-- The buffer size after a call that fits. -/
def sizeAfter (used size : Nat) : EncoderCall → Nat
  | .addElement v => elementSize used size v
  | .addDictionaryElement _ k v =>
      elementSize (used + (Bencode.string k).length) (elementSize used size k) v
  | .value => used
  | _ => BEncodeEncoder.sizeAfter used size 1

/-- The key the next one is compared with. -/
def keyAfter (last : Buffer) : EncoderCall → Buffer
  | .addDictionaryElement _ k _ => k
  | .endDictionary => []
  | _ => last

/-- The call does not violate the key order after the key `last`. -/
def KeepsOrder (host : Host) (last : Buffer) : EncoderCall → Prop
  | .addDictionaryElement keyType k _ =>
      (!last.isEmpty && OrderedContainers.lexCompare (keyType.promote host) octetValue k last) = false
  | _ => True

/-- No call of a sequence violates the key order. -/
def InOrder (host : Host) : Buffer → List EncoderCall → Prop
  | _, [] => True
  | last, call :: calls => call.KeepsOrder host last ∧ InOrder host (call.keyAfter last) calls

/-- All calls of a sequence fit, one after the other. -/
def AllFit : Nat → Nat → List EncoderCall → Prop
  | _, _, [] => True
  | used, size, call :: calls =>
      call.Fits used size ∧ AllFit (used + call.text.length) (call.sizeAfter used size) calls

instance decideAllFit : ∀ (used size : Nat) (calls : List EncoderCall), Decidable (AllFit used size calls)
  | _, _, [] => inferInstanceAs (Decidable True)
  | used, size, call :: calls =>
      have := decideAllFit (used + call.text.length) (call.sizeAfter used size) calls
      inferInstanceAs (Decidable (_ ∧ _))

/-- The tokens of all calls so far, at each call of `value`. -/
def answers : Buffer → List EncoderCall → List Buffer
  | _, [] => []
  | out, call :: calls => call.answer out ++ answers (out ++ call.text) calls

def tokens (calls : List EncoderCall) : Buffer := calls.flatMap text

/-- The buffer size after a sequence of calls that fit. -/
def sizeAfterAll : Nat → Nat → List EncoderCall → Nat
  | _, size, [] => size
  | used, size, call :: calls =>
      sizeAfterAll (used + call.text.length) (call.sizeAfter used size) calls

theorem tokens_cons (call : EncoderCall) (calls : List EncoderCall) :
    tokens (call :: calls) = call.text ++ tokens calls := rfl

theorem allFit_append (used size : Nat) (xs ys : List EncoderCall) :
    AllFit used size (xs ++ ys) ↔ AllFit used size xs ∧
      AllFit (used + (tokens xs).length) (sizeAfterAll used size xs) ys := by
  induction xs generalizing used size with
  | nil => simp [AllFit, tokens, sizeAfterAll]
  | cons call xs ih =>
    rw [List.cons_append, AllFit, AllFit, ih, sizeAfterAll, tokens_cons, List.length_append,
      Nat.add_assoc, and_assoc]

private theorem element_small (used size : Nat) (v : Buffer)
    (small : used + (Bencode.string v).length < size) :
    ElementFits used size v ∧ elementSize used size v = size := by
  have grows := lt_nextBlock size
  constructor
  · unfold ElementFits
    omega
  · rw [elementSize, BEncodeEncoder.sizeAfter, if_neg (by omega)]

/-- Calls other than `value` whose tokens leave an octet of the buffer free fit, and
the buffer keeps its size. -/
theorem allFit_small (calls : List EncoderCall) (used size : Nat)
    (noValue : ∀ call ∈ calls, call ≠ .value) (small : used + (tokens calls).length < size) :
    AllFit used size calls ∧ sizeAfterAll used size calls = size := by
  induction calls generalizing used with
  | nil => exact ⟨trivial, rfl⟩
  | cons call calls ih =>
    rw [tokens_cons, List.length_append] at small
    have unchanged : call.Fits used size ∧ call.sizeAfter used size = size := by
      cases call with
      | addElement v =>
        rw [text] at small
        exact element_small used size v (by omega)
      | addDictionaryElement keyType k v =>
        rw [text, List.length_append] at small
        obtain ⟨fitsKey, sameKey⟩ := element_small used size k (by omega)
        rw [Fits, EncoderCall.sizeAfter, sameKey]
        obtain ⟨fits, same⟩ :=
          element_small (used + (Bencode.string k).length) size v (by omega)
        exact ⟨⟨fitsKey, fits⟩, same⟩
      | value => exact absurd rfl (noValue .value List.mem_cons_self)
      | startList | endList | startDictionary | endDictionary =>
        change used + (1 + (tokens calls).length) < size at small
        exact ⟨trivial, if_neg (by omega)⟩
    obtain ⟨rest, size'⟩ := ih (used + call.text.length)
      (fun c member => noValue c (List.mem_cons_of_mem _ member)) (by omega)
    rw [AllFit, sizeAfterAll, unchanged.2]
    exact ⟨⟨unchanged.1, rest⟩, size'⟩

end EncoderCall

namespace BEncodeEncoder

open EncoderCall

/-- The state after a call that fits. -/
structure After (enc' : BEncodeEncoder) (out : Buffer) (size : Nat) (key : Buffer) : Prop where
  encodes : enc'.Encodes out
  size : enc'.result.length = size
  lastKey : enc'.lastKey = key

private theorem mark_after {enc : BEncodeEncoder} {out : Buffer} (h : enc.Encodes out)
    (mark : Buffer) (single : mark.length = 1) :
    ∃ enc', (enc.checkAndExpand 1).copyIn mark = .ok enc' ∧ After enc' (out ++ mark)
      (BEncodeEncoder.sizeAfter out.length enc.result.length 1) enc.lastKey := by
  obtain ⟨enc', run, encodes, size, lastKey⟩ := mark_spec h mark single
  exact ⟨enc', run, encodes, size, lastKey⟩

private theorem Encodes.clearKey {enc : BEncodeEncoder} {out : Buffer} (h : enc.Encodes out)
    (key : Buffer) : ({ enc with lastKey := key } : BEncodeEncoder).Encodes out := ⟨h.used, h.written⟩

/-- `value` returns the tokens written so far and shrinks the buffer to them. -/
theorem value_spec {enc : BEncodeEncoder} {out : Buffer} (h : enc.Encodes out) :
    enc.value.1 = out ∧ After enc.value.2 out out.length enc.lastKey := by
  have shrunk : resize enc.usedBytes enc.result = out := by
    rw [h.used, resize_of_le h.inside, h.written]
  have same : enc.value = (out, { enc with result := out }) := by simp only [value, shrunk]
  rw [same]
  exact ⟨rfl, ⟨h.used, List.take_length⟩, rfl, rfl⟩

/-- A dictionary element whose key keeps the order is two elements. -/
theorem addDictionaryElement_spec (promote : UInt8 → Int) {enc : BEncodeEncoder} {out : Buffer}
    (h : enc.Encodes out) {k v : Buffer} (nonemptyKey : k ≠ []) (nonempty : v ≠ [])
    (keeps : (!enc.lastKey.isEmpty &&
      OrderedContainers.lexCompare promote octetValue k enc.lastKey) = false) :
    (ElementFits out.length enc.result.length k ∧
        ElementFits (out.length + (Bencode.string k).length)
          (elementSize out.length enc.result.length k) v ∧
      ∃ enc', enc.addDictionaryElement promote k v = .ok enc' ∧
        After enc' (out ++ (Bencode.string k ++ Bencode.string v))
          (elementSize (out.length + (Bencode.string k).length)
            (elementSize out.length enc.result.length k) v) k) ∨
    (¬ (ElementFits out.length enc.result.length k ∧
        ElementFits (out.length + (Bencode.string k).length)
          (elementSize out.length enc.result.length k) v) ∧
      enc.addDictionaryElement promote k v = .error outsideResult) := by
  unfold addDictionaryElement
  rw [if_neg (by simp [keeps])]
  by_cases fitsKey : ElementFits out.length enc.result.length k
  · obtain ⟨enc₁, run₁, encodes₁, size₁, -⟩ := addElement_spec h nonemptyKey fitsKey
    rw [← size₁, ← List.length_append, run₁, ok_bind]
    by_cases fits : ElementFits (out ++ Bencode.string k).length enc₁.result.length v
    · obtain ⟨enc₂, run₂, encodes₂, size₂, -⟩ := addElement_spec encodes₁ nonempty fits
      left
      rw [List.append_assoc] at encodes₂
      exact ⟨fitsKey, fits, _, by rw [run₂, ok_bind], encodes₂.clearKey k, size₂, rfl⟩
    · right
      exact ⟨fun both => fits both.2, by rw [addElement_outside encodes₁ nonempty fits, error_bind]⟩
  · right
    exact ⟨fun both => fitsKey both.1, by rw [addElement_outside h nonemptyKey fitsKey, error_bind]⟩

/-- A call throws on a key out of order, stays inside the buffer if it fits, and else
writes past its end. -/
theorem step_spec (host : Host) {enc : BEncodeEncoder} {out : Buffer} (h : enc.Encodes out)
    (call : EncoderCall) (nonempty : call.NoEmptyElement) :
    (¬ call.KeepsOrder host enc.lastKey ∧ step host enc call = .error orderViolation) ∨
    (call.Fits out.length enc.result.length ∧
      ∃ enc', step host enc call = .ok (enc', call.answer out) ∧
        After enc' (out ++ call.text) (call.sizeAfter out.length enc.result.length)
          (call.keyAfter enc.lastKey)) ∨
    (¬ call.Fits out.length enc.result.length ∧ step host enc call = .error outsideResult) := by
  cases call with
  | addElement v =>
    right
    by_cases fits : ElementFits out.length enc.result.length v
    · obtain ⟨enc', run, encodes, size, lastKey⟩ := addElement_spec h nonempty fits
      exact .inl ⟨fits, enc', by simp only [step, run, ok_bind, answer], encodes, size, lastKey⟩
    · exact .inr ⟨fits, by simp only [step, addElement_outside h nonempty fits, error_bind]⟩
  | addDictionaryElement keyType k v =>
    by_cases keeps : (!enc.lastKey.isEmpty &&
        OrderedContainers.lexCompare (keyType.promote host) octetValue k enc.lastKey) = false
    · right
      rcases addDictionaryElement_spec (keyType.promote host) h nonempty.1 nonempty.2 keeps with
        ⟨fitsKey, fits, enc', run, after⟩ | ⟨overrun, run⟩
      · exact .inl ⟨⟨fitsKey, fits⟩, enc', by simp only [step, run, ok_bind, answer], after⟩
      · exact .inr ⟨overrun, by simp only [step, run, error_bind]⟩
    · refine .inl ⟨keeps, ?_⟩
      simp only [step, addDictionaryElement]
      rw [if_pos (by simpa using keeps), error_bind]
  | startList =>
    obtain ⟨enc', run, after⟩ := mark_after h (ascii "l") rfl
    exact .inr (.inl ⟨trivial, enc', by simp only [step, startList, run, ok_bind, answer], after⟩)
  | endList =>
    obtain ⟨enc', run, after⟩ := mark_after h (ascii "e") rfl
    exact .inr (.inl ⟨trivial, enc', by simp only [step, endList, run, ok_bind, answer], after⟩)
  | startDictionary =>
    obtain ⟨enc', run, after⟩ := mark_after h (ascii "d") rfl
    exact .inr (.inl ⟨trivial, enc', by simp only [step, startDictionary, run, ok_bind, answer], after⟩)
  | endDictionary =>
    obtain ⟨enc', run, after⟩ := mark_after (h.clearKey []) (ascii "e") rfl
    exact .inr (.inl ⟨trivial, enc', by simp only [step, endDictionary, run, ok_bind, answer], after⟩)
  | value =>
    obtain ⟨returned, after⟩ := value_spec h
    refine .inr (.inl ⟨trivial, enc.value.2, by simp only [step, returned, answer], ?_⟩)
    rw [text, List.append_nil]
    exact after

/-- A sequence of calls without order violation stays inside the buffer if all its
calls fit, and writes past its end if one does not. -/
theorem run_spec (host : Host) (calls : List EncoderCall) {enc : BEncodeEncoder} {out : Buffer}
    (h : enc.Encodes out) (nonempty : ∀ call ∈ calls, call.NoEmptyElement)
    (quiet : run host calls enc ≠ .error orderViolation) :
    (AllFit out.length enc.result.length calls ∧
      ∃ enc', run host calls enc = .ok (enc', answers out calls) ∧
        enc'.Encodes (out ++ tokens calls)) ∨
    (¬ AllFit out.length enc.result.length calls ∧ run host calls enc = .error outsideResult) := by
  induction calls generalizing enc out with
  | nil => exact .inl ⟨trivial, enc, rfl, by simpa [tokens] using h⟩
  | cons call calls ih =>
    rcases step_spec host h call (nonempty call List.mem_cons_self) with
      ⟨-, thrown⟩ | ⟨fits, enc', stepped, encodes, size, -⟩ | ⟨overrun, stepped⟩
    · exact absurd (by rw [run, thrown, error_bind]) quiet
    · have later : run host calls enc' ≠ .error orderViolation := by
        intro thrown
        exact quiet (by simp only [run, stepped, ok_bind, thrown, error_bind])
      rcases ih encodes (fun c member => nonempty c (List.mem_cons_of_mem _ member)) later with
        ⟨rest, enc'', ran, encodes'⟩ | ⟨overrun, ran⟩
      · rw [List.length_append, size] at rest
        refine .inl ⟨⟨fits, rest⟩, enc'', ?_, ?_⟩
        · simp only [run, stepped, ran, ok_bind, answers]
        · rw [tokens, List.flatMap_cons, ← List.append_assoc]
          exact encodes'
      · rw [List.length_append, size] at overrun
        exact .inr ⟨fun all => overrun all.2, by simp only [run, stepped, ran, ok_bind, error_bind]⟩
    · exact .inr ⟨fun all => overrun all.1, by simp only [run, stepped, error_bind]⟩

/-- Calls whose keys keep the order never throw. -/
theorem run_quiet (host : Host) (calls : List EncoderCall) {enc : BEncodeEncoder} {out : Buffer}
    (h : enc.Encodes out) (nonempty : ∀ call ∈ calls, call.NoEmptyElement)
    (inOrder : InOrder host enc.lastKey calls) : run host calls enc ≠ .error orderViolation := by
  induction calls generalizing enc out with
  | nil =>
    intro thrown
    cases thrown
  | cons call calls ih =>
    rcases step_spec host h call (nonempty call List.mem_cons_self) with
      ⟨violates, -⟩ | ⟨-, enc', stepped, encodes, -, lastKey⟩ | ⟨-, stepped⟩
    · exact absurd inOrder.1 violates
    · have later := ih encodes (fun c member => nonempty c (List.mem_cons_of_mem _ member))
        (lastKey ▸ inOrder.2)
      intro thrown
      cases rest : run host calls enc' with
      | ok result => simp [run, stepped, rest] at thrown
      | error fault =>
        rw [rest] at later
        simp only [run, stepped, rest, ok_bind, error_bind] at thrown
        exact later thrown
    · simp [run, stepped, outsideResult, orderViolation]

/-! ## Faults -/

theorem copyIn_noException (enc : BEncodeEncoder) (octets : Buffer) : NoException (enc.copyIn octets) := by
  unfold copyIn
  split
  · exact Raises.ok _
  · exact Raises.error rfl

theorem copyIn_lastKey {enc enc' : BEncodeEncoder} {octets : Buffer}
    (copied : enc.copyIn octets = .ok enc') : enc'.lastKey = enc.lastKey := by
  unfold copyIn at copied
  split at copied
  · cases copied
    rfl
  · cases copied

theorem addElement_noException (enc : BEncodeEncoder) (v : Buffer) : NoException (enc.addElement v) :=
  (NoException.check _ _).bind fun _ _ => (copyIn_noException _ _).bind fun _ _ =>
    (copyIn_noException _ _).bind fun _ _ => copyIn_noException _ _

theorem addElement_lastKey {enc enc' : BEncodeEncoder} {v : Buffer}
    (added : enc.addElement v = .ok enc') : enc'.lastKey = enc.lastKey := by
  obtain ⟨_, -, added⟩ := bind_eq_ok.mp added
  obtain ⟨_, first, added⟩ := bind_eq_ok.mp added
  obtain ⟨_, second, third⟩ := bind_eq_ok.mp added
  rw [copyIn_lastKey third, copyIn_lastKey second, copyIn_lastKey first, checkAndExpand_lastKey]

/-- A call whose key keeps the order throws no exception. -/
theorem step_noException (host : Host) (enc : BEncodeEncoder) (call : EncoderCall)
    (keeps : call.KeepsOrder host enc.lastKey) : NoException (step host enc call) := by
  cases call with
  | addElement v => exact (addElement_noException enc v).bind fun _ _ => Raises.ok _
  | addDictionaryElement keyType k v =>
    refine Raises.bind ?_ fun _ _ => Raises.ok _
    rw [addDictionaryElement, if_neg (by rw [keeps]; decide)]
    exact (addElement_noException _ _).bind fun _ _ => (addElement_noException _ _).bind fun _ _ =>
      Raises.ok _
  | startList | endList | startDictionary | endDictionary =>
    exact (copyIn_noException _ _).bind fun _ _ => Raises.ok _
  | value => exact Raises.ok _

theorem step_lastKey (host : Host) {enc enc' : BEncodeEncoder} {call : EncoderCall} {out : List Buffer}
    (stepped : step host enc call = .ok (enc', out)) : enc'.lastKey = call.keyAfter enc.lastKey := by
  cases call with
  | addElement v =>
    obtain ⟨_, added, same⟩ := bind_eq_ok.mp stepped
    cases same
    exact addElement_lastKey added
  | addDictionaryElement keyType k v =>
    obtain ⟨_, added, same⟩ := bind_eq_ok.mp stepped
    cases same
    unfold addDictionaryElement at added
    split at added
    · cases added
    · obtain ⟨_, -, added⟩ := bind_eq_ok.mp added
      obtain ⟨_, -, added⟩ := bind_eq_ok.mp added
      cases added
      rfl
  | startList | endList | startDictionary | endDictionary =>
    obtain ⟨_, copied, same⟩ := bind_eq_ok.mp stepped
    cases same
    exact (copyIn_lastKey copied).trans (checkAndExpand_lastKey _ _)
  | value =>
    cases stepped
    rfl

/-- A sequence of calls without order violation throws no exception. -/
theorem run_noException (host : Host) (calls : List EncoderCall) (enc : BEncodeEncoder)
    (inOrder : InOrder host enc.lastKey calls) : NoException (run host calls enc) := by
  induction calls generalizing enc with
  | nil => exact Raises.ok _
  | cons call calls ih =>
    apply (step_noException host enc call inOrder.1).bind
    rintro ⟨enc', out⟩ stepped
    have later := ih enc' (by rw [step_lastKey host stepped]; exact inOrder.2)
    exact later.bind fun _ _ => Raises.ok _

/-! ## Runs from a new encoder -/

theorem addElement_ok {enc enc' : BEncodeEncoder} {v : Buffer}
    (added : enc.addElement v = .ok enc') : v ≠ [] := by
  rintro rfl
  cases added

/-- A sequence of calls that returns added no empty element. -/
theorem run_ok_noEmptyElement (host : Host) (calls : List EncoderCall) {enc : BEncodeEncoder}
    {result : BEncodeEncoder × List Buffer} (returned : run host calls enc = .ok result) :
    ∀ call ∈ calls, call.NoEmptyElement := by
  induction calls generalizing enc result with
  | nil => simp
  | cons call calls ih =>
    obtain ⟨⟨enc', out⟩, stepped, rest⟩ := bind_eq_ok.mp returned
    obtain ⟨later, ran, -⟩ := bind_eq_ok.mp rest
    intro c member
    rcases List.mem_cons.mp member with rfl | member
    · cases c with
      | addElement v =>
        obtain ⟨_, added, -⟩ := bind_eq_ok.mp stepped
        exact addElement_ok added
      | addDictionaryElement keyType k v =>
        obtain ⟨_, added, -⟩ := bind_eq_ok.mp stepped
        unfold addDictionaryElement at added
        split at added
        · cases added
        · obtain ⟨_, key, added⟩ := bind_eq_ok.mp added
          obtain ⟨_, value, -⟩ := bind_eq_ok.mp added
          exact ⟨addElement_ok key, addElement_ok value⟩
      | startList | endList | startDictionary | endDictionary | value => trivial
    · exact ih ran c member

theorem new_length : new.result.length = 1024 := List.length_replicate

/-- Every write stays inside the buffer and every `value` returns the tokens so far,
exactly when each element fits into the buffer grown by one block. -/
theorem run_inside_iff_allFit (host : Host) (calls : List EncoderCall)
    (nonempty : ∀ call ∈ calls, call.NoEmptyElement)
    (quiet : run host calls new ≠ .error orderViolation) :
    ((∃ enc, run host calls new = .ok (enc, answers [] calls) ∧ enc.value.1 = tokens calls) ↔
      AllFit 0 1024 calls) ∧
    ∀ (enc : BEncodeEncoder) (add : Nat),
      enc.usedBytes + add ≤ (enc.checkAndExpand add).result.length ↔
        enc.usedBytes + add ≤ (enc.result.length / 1024 + 1) * 1024 := by
  refine ⟨?_, fun enc add => room_iff add enc⟩
  have outcome := run_spec host calls new_encodes nonempty quiet
  rw [new_length, List.length_nil] at outcome
  rcases outcome with ⟨fits, enc, ran, encodes⟩ | ⟨overrun, ran⟩
  · exact iff_of_true ⟨enc, ran, (value_spec encodes).1⟩ fits
  · refine iff_of_false ?_ overrun
    rintro ⟨enc, ran', -⟩
    rw [ran] at ran'
    cases ran'

/-- A single element on a new encoder, one octet too long for two blocks. -/
def longElement : List EncoderCall := [.addElement (List.replicate 2044 120)]

theorem longElement_outside :
    (∀ call ∈ longElement, call.NoEmptyElement) ∧ run Host.x86 longElement new = .error outsideResult := by
  have nonempty : (List.replicate 2044 120 : Buffer) ≠ [] := by
    rw [← List.length_pos_iff, List.length_replicate]
    decide
  have overrun : ¬ ElementFits ([] : Buffer).length new.result.length (List.replicate 2044 120) := by
    have digits := (Decimal.digits_length_le 2044 3 (by decide)).mp
    rw [new_length, ElementFits, Bencode.string_length, List.length_replicate, nextBlock]
    simp only [List.length_nil]
    omega
  refine ⟨?_, ?_⟩
  · intro call member
    rw [List.mem_singleton.mp member]
    exact nonempty
  · simp only [longElement, run, step, addElement_outside new_encodes nonempty overrun, error_bind]

theorem run_inside_iff_allFit_value :
    ((∃ enc, run Host.x86 [.startList, .addElement [120], .value, .endList] new =
        .ok (enc, [ascii "l1:x"]) ∧ enc.value.1 = ascii "l1:xe") ↔
      AllFit 0 1024 [.startList, .addElement [120], .value, .endList]) ∧
    ∀ (enc : BEncodeEncoder) (add : Nat),
      enc.usedBytes + add ≤ (enc.checkAndExpand add).result.length ↔
        enc.usedBytes + add ≤ (enc.result.length / 1024 + 1) * 1024 :=
  run_inside_iff_allFit Host.x86 [.startList, .addElement [120], .value, .endList]
    (by simp [NoEmptyElement]) (by
      intro thrown
      have returned : (run Host.x86 [.startList, .addElement [120], .value, .endList] new).isOk = true := by
        decide +kernel
      rw [thrown] at returned
      cases returned)

end BEncodeEncoder
end TorrentSync.Source
