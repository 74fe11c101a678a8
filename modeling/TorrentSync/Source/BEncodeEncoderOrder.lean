import TorrentSync.Lib.BencodeDocument
import TorrentSync.Source.BEncodeEncoderRun

/-!
# Key order in what a BEncodeEncoder writes

A document follows the calls beside the encoder and knows the previous key of every
open dictionary; the encoder remembers one key for all of them. A thrown call is caught:
the comparison precedes every write, so the encoder is the one before the call.
-/
namespace TorrentSync.Source

open Lib Bencode OrderedContainers

/-! ## The comparison -/

/-- An octet of the key from 128 on stands where the key still agrees with the other. -/
def meetsHighOctet : Buffer → Buffer → Bool
  | a :: k, b :: l => 128 ≤ a.toNat || (a == b && meetsHighOctet k l)
  | _, _ => false

/-- A `char` of the key is compared as a negative number. -/
def KeyType.readsNegative (host : Host) (k last : Buffer) : KeyType → Bool
  | .string => host.charIsSigned && meetsHighOctet k last
  | .buffer => false

/-- The comparison of a key with the remembered one. -/
def KeyType.sortsBefore (host : Host) (keyType : KeyType) (k last : Buffer) : Bool :=
  lexCompare (keyType.promote host) octetValue k last

theorem charCompare_eq (host : Host) (k last : Buffer) :
    lexCompare (charValue host) octetValue k last =
      (keyLt k last || (host.charIsSigned && meetsHighOctet k last)) := by
  induction k generalizing last with
  | nil => cases last <;> simp [lexCompare, keyLt, meetsHighOctet]
  | cons a k ih =>
    cases last with
    | nil => simp [lexCompare, keyLt, meetsHighOctet]
    | cons b last =>
      have unfolded : keyLt (a :: k) (b :: last) =
          if octetValue a < octetValue b then true
          else if octetValue b < octetValue a then false else keyLt k last := rfl
      have nonnegative : 0 ≤ octetValue b := Int.natCast_nonneg _
      rw [lexCompare, ih, unfolded, meetsHighOctet]
      by_cases high : 128 ≤ a.toNat
      · by_cases signed : host.charIsSigned = true
        · have negative : charValue host a < 0 := by
            have small := a.toNat_lt
            simp only [charValue, signed, high, decide_true, Bool.and_self, if_true, Int.ofNat_eq_natCast]
            omega
          rw [if_pos (lt_of_lt_of_le negative nonnegative)]
          simp [signed, high]
        · simp [charValue, octetValue, signed]
      · rw [charValue_of_lt host (by omega)]
        rcases lt_trichotomy (octetValue a) (octetValue b) with less | same | greater
        · simp [less]
        · obtain rfl : a = b := by simpa [octetValue, ← UInt8.toNat_inj] using same
          simp [high]
        · have differs : ¬ a = b := by
            rintro rfl
            exact lt_irrefl _ greater
          simp [greater, greater.not_gt, high, differs]

/-- The comparison is the raw order, save for a `char` that is read as negative. -/
theorem KeyType.sortsBefore_eq (host : Host) (keyType : KeyType) (k last : Buffer) :
    keyType.sortsBefore host k last = (keyLt k last || keyType.readsNegative host k last) := by
  cases keyType with
  | string => exact charCompare_eq host k last
  | buffer => exact (Bool.or_false _).symm

/-- The key test agrees with the order after the previous key of the dictionary, for the
remembered key `last`.
A first key must not meet a remembered one that sorts after it. Where none is remembered,
a nested dictionary has just been closed, the key must be in order by itself. A remembered
previous key must not be repeated, and must not meet a `char` read as negative. A remembered
key other than the previous one must lie on the same side of the key. -/
def KeyConsistent (host : Host) (keyType : KeyType) (last k : Buffer) : Option Buffer → Prop
  | none => last = [] ∨ (keyLt k last = false ∧ keyType.readsNegative host k last = false)
  | some p =>
      if last = [] then keyLt p k = true
      else if last = p then
        if k = p then keyType.readsNegative host k p = true
        else keyLt p k = true → keyType.readsNegative host k p = false
      else keyLt p k = !keyType.sortsBefore host k last

instance (host : Host) (keyType : KeyType) (last k : Buffer) :
    ∀ previous, Decidable (KeyConsistent host keyType last k previous)
  | none => inferInstanceAs (Decidable (_ ∨ _))
  | some p => inferInstanceAs (Decidable (if last = [] then keyLt p k = true else
      if last = p then if k = p then _ else (_ → _) else _))

private theorem keyOrder : StrictTotal keyLt :=
  lexCompare_strictTotal _ fun _ _ same => UInt8.toNat_inj.mp (Int.ofNat.inj same)

/-- Of two different keys one is the smaller. -/
private theorem keyLt_swap {a b : Buffer} (differ : a ≠ b) : keyLt b a = !keyLt a b := by
  cases above : keyLt b a with
  | true => rw [keyOrder.asymm above, Bool.not_false]
  | false =>
    have below : keyLt a b = true := by
      by_contra less
      exact differ (keyOrder.total a b (by simpa using less) above)
    rw [below, Bool.not_true]

/-- The key test passes exactly the keys in order, under the condition and only then. -/
theorem keyConsistent_iff (host : Host) (keyType : KeyType) (last k : Buffer) (d : Document) :
    ((!last.isEmpty && keyType.sortsBefore host k last) = true ↔ ¬ d.Ascends k) ↔
      KeyConsistent host keyType last k d.previous := by
  unfold Document.Ascends
  cases d.previous with
  | none =>
    by_cases cleared : last = []
    · simp [KeyConsistent, cleared]
    · simp [KeyConsistent, cleared, KeyType.sortsBefore_eq]
  | some p =>
    by_cases cleared : last = []
    · simp [KeyConsistent, cleared]
    · by_cases remembered : last = p
      · obtain rfl := remembered
        by_cases repeated : k = last
        · simp [KeyConsistent, cleared, repeated, KeyType.sortsBefore_eq, keyOrder.irrefl]
        · have sides := keyLt_swap repeated
          cases below : keyLt k last <;>
            simp [KeyConsistent, cleared, repeated, KeyType.sortsBefore_eq, sides, below]
      · cases above : keyLt p k <;> cases before : keyType.sortsBefore host k last <;>
          simp [KeyConsistent, cleared, remembered, above, before]

/-! ## The document beside the encoder -/

namespace EncoderCall

/-- What a call that does not throw adds to the document; none where it makes no sense. -/
def place (d : Document) : EncoderCall → Option Document
  | .addElement v => if d.takesKey then d.key v else d.put (.str v)
  | .addDictionaryElement _ k v => (d.key k).bind (Document.put (.str v))
  | .startList => d.opened (.list [])
  | .endList => d.closeList
  | .startDictionary => d.opened (.dict [] none)
  | .endDictionary => d.closeDict
  | .value => some d

/-- A call of `addDictionaryElement` whose key is not greater than the previous one. -/
def Refused (d : Document) : EncoderCall → Prop
  | .addDictionaryElement _ k _ => ¬ d.Ascends k
  | _ => False

instance (d : Document) : ∀ call : EncoderCall, Decidable (call.Refused d)
  | .addDictionaryElement _ k _ => inferInstanceAs (Decidable (¬ d.Ascends k))
  | .addElement _ | .startList | .endList | .startDictionary | .endDictionary | .value =>
      inferInstanceAs (Decidable False)

theorem place_text {d d' : Document} {call : EncoderCall} (placed : call.place d = some d') :
    d'.text = d.text ++ call.text := by
  cases call with
  | addElement v =>
    rw [place] at placed
    split at placed
    · exact Document.key_text placed
    · exact Document.put_text placed
  | addDictionaryElement keyType k v =>
    obtain ⟨keyed, key, value⟩ := Option.bind_eq_some_iff.mp placed
    rw [Document.put_text value, Document.key_text key, List.append_assoc]
    rfl
  | startList => exact Document.opened_text placed
  | endList => exact Document.closeList_text placed
  | startDictionary => exact Document.opened_text placed
  | endDictionary => exact Document.closeDict_text placed
  | value =>
    cases placed
    exact (List.append_nil _).symm

/-- A call in order: a key given by `addElement` is greater than the previous one. -/
theorem place_sorted {d d' : Document} {call : EncoderCall} (placed : call.place d = some d')
    (accepted : ¬ call.Refused d) (keyed : ∀ v, call = .addElement v → d.takesKey → d.Ascends v)
    (sorted : d.Sorted) : d'.Sorted := by
  cases call with
  | addElement v =>
    rw [place] at placed
    split at placed
    · exact Document.key_sorted placed sorted (keyed v rfl ‹_›)
    · exact Document.put_sorted placed sorted rfl
  | addDictionaryElement keyType k v =>
    obtain ⟨inner, key, value⟩ := Option.bind_eq_some_iff.mp placed
    have ascends : d.Ascends k := not_not.mp accepted
    exact Document.put_sorted value (Document.key_sorted key sorted ascends) rfl
  | startList => exact Document.opened_sorted placed sorted ⟨List.IsChain.nil, rfl⟩
  | endList => exact Document.closeList_sorted placed sorted
  | startDictionary => exact Document.opened_sorted placed sorted ⟨List.IsChain.nil, rfl⟩
  | endDictionary => exact Document.closeDict_sorted placed sorted
  | value =>
    cases placed
    exact sorted

/-- What a sequence of calls should do: which of them throw, which are kept, and the
document the kept ones write. -/
structure Written where
  refused : List Bool
  kept : List EncoderCall
  document : Document

def write (d : Document) : List EncoderCall → Option Written
  | [] => some ⟨[], [], d⟩
  | call :: calls =>
      if call.Refused d then
        (write d calls).map fun w => { w with refused := true :: w.refused }
      else
        (call.place d).bind fun d' => (write d' calls).map fun w =>
          { w with refused := false :: w.refused, kept := call :: w.kept }

/-- The condition on one call, by the remembered key and the document before it. -/
def Consistent (host : Host) (last : Buffer) (d : Document) : EncoderCall → Prop
  | .addElement v => v ≠ [] ∧ (d.takesKey = true → d.Ascends v)
  | .addDictionaryElement keyType k v =>
      k ≠ [] ∧ v ≠ [] ∧ d.takesKey = true ∧ KeyConsistent host keyType last k d.previous
  | _ => True

instance (host : Host) (last : Buffer) (d : Document) :
    ∀ call : EncoderCall, Decidable (call.Consistent host last d)
  | .addElement _ => inferInstanceAs (Decidable (_ ∧ (_ → _)))
  | .addDictionaryElement _ _ _ => inferInstanceAs (Decidable (_ ∧ _ ∧ _ ∧ _))
  | .startList | .endList | .startDictionary | .endDictionary | .value =>
      inferInstanceAs (Decidable True)

/-- Every call of a sequence makes sense where it stands and meets the condition. -/
def EachConsistent (host : Host) (last : Buffer) (d : Document) : List EncoderCall → Prop
  | [] => True
  | call :: calls =>
      call.Consistent host last d ∧
        if call.Refused d then EachConsistent host last d calls
        else match call.place d with
          | none => False
          | some d' => EachConsistent host (call.keyAfter last) d' calls

instance decideEachConsistent (host : Host) (last : Buffer) (d : Document) :
    ∀ calls : List EncoderCall, Decidable (EachConsistent host last d calls)
  | [] => inferInstanceAs (Decidable True)
  | call :: calls =>
      have := decideEachConsistent host last d calls
      have : Decidable (match call.place d with
          | none => False
          | some d' => EachConsistent host (call.keyAfter last) d' calls) :=
        match call.place d with
        | none => inferInstanceAs (Decidable False)
        | some d' => decideEachConsistent host (call.keyAfter last) d' calls
      inferInstanceAs (Decidable (_ ∧ if call.Refused d then _ else _))

/-- Consistent calls write a document whose text is theirs and whose keys ascend. -/
theorem write_spec (host : Host) (calls : List EncoderCall) {last : Buffer} {d : Document}
    (sorted : d.Sorted) (consistent : EachConsistent host last d calls) :
    ∃ w, write d calls = some w ∧ w.document.text = d.text ++ tokens w.kept ∧ w.document.Sorted := by
  induction calls generalizing last d with
  | nil => exact ⟨⟨[], [], d⟩, rfl, (List.append_nil _).symm, sorted⟩
  | cons call calls ih =>
    obtain ⟨meets, rest⟩ := consistent
    rw [write]
    by_cases refused : call.Refused d
    · rw [if_pos refused] at rest ⊢
      obtain ⟨w, written, text, sorted'⟩ := ih sorted rest
      refine ⟨{ w with refused := true :: w.refused }, ?_, text, sorted'⟩
      rw [written, Option.map_some]
    · rw [if_neg refused] at rest ⊢
      cases placed : call.place d with
      | none =>
        simp only [placed] at rest
      | some d' =>
        simp only [placed] at rest
        have keyed : ∀ v, call = .addElement v → d.takesKey → d.Ascends v := by
          rintro v rfl takesKey
          exact meets.2 takesKey
        obtain ⟨w, written, text, sorted'⟩ := ih (place_sorted placed refused keyed sorted) rest
        refine ⟨{ w with refused := false :: w.refused, kept := call :: w.kept }, ?_, ?_, sorted'⟩
        · rw [Option.bind_some, written, Option.map_some]
        · rw [text, place_text placed, tokens_cons, List.append_assoc]

end EncoderCall

namespace BEncodeEncoder

open EncoderCall

/-- One call whose exception, if any, the caller catches; with whether it threw. -/
def stepCaught (host : Host) (enc : BEncodeEncoder) (call : EncoderCall) :
    Fallible (BEncodeEncoder × List Buffer × Bool) :=
  match step host enc call with
  | .ok (enc', out) => .ok (enc', out, false)
  | .error fault => if fault = orderViolation then .ok (enc, [], true) else .error fault

def runCaught (host : Host) :
    List EncoderCall → BEncodeEncoder → Fallible (BEncodeEncoder × List Buffer × List Bool)
  | [], enc => .ok (enc, [], [])
  | call :: calls, enc => do
      let (enc, out, threw) ← stepCaught host enc call
      let (enc, later, throws) ← runCaught host calls enc
      .ok (enc, out ++ later, threw :: throws)

theorem step_orderViolation_iff (host : Host) (enc : BEncodeEncoder) (call : EncoderCall) :
    step host enc call = .error orderViolation ↔ ¬ call.KeepsOrder host enc.lastKey := by
  constructor
  · intro thrown keeps
    have quiet := step_noException host enc call keeps
    cases quiet orderViolation thrown
  · intro violates
    cases call with
    | addDictionaryElement keyType k v =>
      simp only [step, addDictionaryElement]
      rw [if_pos (by simpa [KeepsOrder] using violates), error_bind]
    | addElement | startList | endList | startDictionary | endDictionary | value =>
      exact absurd trivial violates

/-- What the key test of `addDictionaryElement` compares. -/
theorem addDictionaryElement_throws_test (host : Host) (enc : BEncodeEncoder) (keyType : KeyType)
    (k v : Buffer) :
    step host enc (.addDictionaryElement keyType k v) = .error orderViolation ↔
      (!enc.lastKey.isEmpty && keyType.sortsBefore host k enc.lastKey) = true := by
  rw [step_orderViolation_iff]
  exact (Bool.not_eq_false _).to_iff

/-- A consistent call throws exactly if its key is out of order. -/
theorem step_throws_iff (host : Host) {enc : BEncodeEncoder} {d : Document} {call : EncoderCall}
    (consistent : call.Consistent host enc.lastKey d) :
    step host enc call = .error orderViolation ↔ call.Refused d := by
  cases call with
  | addDictionaryElement keyType k v =>
    have agrees := (keyConsistent_iff host keyType enc.lastKey k d).mpr consistent.2.2.2
    exact (addDictionaryElement_throws_test host enc keyType k v).trans agrees
  | addElement | startList | endList | startDictionary | endDictionary | value =>
    rw [step_orderViolation_iff]
    exact iff_of_false (fun violates => violates trivial) id

/-- A run with caught exceptions is the run of the calls that do not throw. -/
theorem runCaught_eq (host : Host) (calls : List EncoderCall) {enc : BEncodeEncoder} {d : Document}
    {w : Written} (consistent : EachConsistent host enc.lastKey d calls) (written : write d calls = some w) :
    runCaught host calls enc = (run host w.kept enc).map fun r => (r.1, r.2, w.refused) := by
  induction calls generalizing enc d w with
  | nil =>
    cases written
    rfl
  | cons call calls ih =>
    obtain ⟨meets, rest⟩ := consistent
    have throws := step_throws_iff host meets
    rw [write] at written
    by_cases refused : call.Refused d
    · rw [if_pos refused] at rest written
      obtain ⟨w, later, rfl⟩ := Option.map_eq_some_iff.mp written
      simp only [runCaught, stepCaught, throws.mpr refused, if_true, ok_bind, ih rest later]
      cases run host w.kept enc <;> rfl
    · rw [if_neg refused] at rest written
      obtain ⟨d', placed, written⟩ := Option.bind_eq_some_iff.mp written
      obtain ⟨w, later, rfl⟩ := Option.map_eq_some_iff.mp written
      simp only [placed] at rest
      cases stepped : step host enc call with
      | ok result =>
        obtain ⟨enc', out⟩ := result
        rw [← step_lastKey host stepped] at rest
        simp only [runCaught, stepCaught, stepped, run, ok_bind, ih rest later]
        cases run host w.kept enc' <;> rfl
      | error fault =>
        have other : ¬ fault = orderViolation := by
          rintro rfl
          exact refused (throws.mp stepped)
        simp only [runCaught, stepCaught, stepped, run, if_neg other, error_bind]
        rfl

/-- `addDictionaryElement` throws exactly on the keys that are not greater than the previous
key of the same dictionary, where the condition holds and nowhere else. In a run whose calls
all meet it, the caught exceptions change nothing, and the output is the document, in which
every dictionary lists its keys in strictly ascending order. -/
theorem addDictionaryElement_throws_iff (host : Host) :
    (∀ (enc : BEncodeEncoder) (d : Document) (keyType : KeyType) (k v : Buffer),
      ((step host enc (.addDictionaryElement keyType k v) = .error orderViolation ↔ ¬ d.Ascends k) ↔
        KeyConsistent host keyType enc.lastKey k d.previous)) ∧
    ∀ calls, EachConsistent host [] Document.empty calls →
      ∃ w, write Document.empty calls = some w ∧
        runCaught host calls new = (run host w.kept new).map (fun r => (r.1, r.2, w.refused)) ∧
        w.document.Sorted ∧
        ∀ enc out, run host w.kept new = .ok (enc, out) →
          enc.value.1 = w.document.text ∧
          (w.document.frames = [] → enc.value.1 = encodeItems w.document.roots ∧
            ∀ v ∈ w.document.roots, canonical v = true) := by
  constructor
  · intro enc d keyType k v
    rw [← keyConsistent_iff, addDictionaryElement_throws_test]
  · intro calls consistent
    obtain ⟨w, written, text, sorted⟩ := write_spec host calls Document.empty_sorted consistent
    refine ⟨w, written, runCaught_eq host calls consistent written, sorted, ?_⟩
    intro enc out returned
    have output : enc.value.1 = w.document.text := by
      have quiet : run host w.kept new ≠ .error orderViolation := by
        rw [returned]
        simp
      rcases run_spec host w.kept new_encodes (run_ok_noEmptyElement host w.kept returned) quiet with
        ⟨-, enc', ran, encodes⟩ | ⟨-, overrun⟩
      · rw [returned] at ran
        cases ran
        rw [(value_spec encodes).1, text]
        rfl
      · rw [returned] at overrun
        cases overrun
    exact ⟨output, fun closed => output ▸ sorted.finished closed⟩

/-- A dictionary with a nested one between its elements, the last of them out of order. -/
def nestedInOrder : List EncoderCall :=
  [.startDictionary, .addDictionaryElement .string (ascii "a") (ascii "1"), .addElement (ascii "b"),
    .startDictionary, .addDictionaryElement .buffer (ascii "c") (ascii "2"), .endDictionary,
    .addDictionaryElement .string (ascii "c") (ascii "3"),
    .addDictionaryElement .string (ascii "b") (ascii "4"), .endDictionary]

theorem addDictionaryElement_throws_iff_nested :
    ((step Host.x86 new (.addDictionaryElement .string (ascii "a") (ascii "1")) = .error orderViolation ↔
        ¬ Document.empty.Ascends (ascii "a")) ↔
      KeyConsistent Host.x86 .string [] (ascii "a") none) ∧
    ∃ w, write Document.empty nestedInOrder = some w ∧
      runCaught Host.x86 nestedInOrder new =
        (run Host.x86 w.kept new).map (fun r => (r.1, r.2, w.refused)) ∧ w.document.Sorted := by
  obtain ⟨single, runs⟩ := addDictionaryElement_throws_iff Host.x86
  obtain ⟨w, written, ran, sorted, -⟩ := runs nestedInOrder (by decide +kernel)
  exact ⟨single new Document.empty .string (ascii "a") (ascii "1"), w, written, ran, sorted⟩

/-- The same key twice. -/
def repeatedKey : List EncoderCall :=
  [.startDictionary, .addDictionaryElement .string (ascii "a") (ascii "1"),
    .addDictionaryElement .string (ascii "a") (ascii "2"), .endDictionary]

/-- The first key of a dictionary nested after a greater key of the outer one. -/
def nestedFirst : List EncoderCall :=
  [.startDictionary, .addDictionaryElement .string (ascii "b") (ascii "1"), .addElement (ascii "c"),
    .startDictionary, .addDictionaryElement .string (ascii "a") (ascii "2"), .endDictionary, .endDictionary]

/-- Which calls throw, and which should. -/
def thrown (host : Host) (calls : List EncoderCall) : Option (List Bool) :=
  (runCaught host calls new).toOption.map fun r => r.2.2

def shouldThrow (calls : List EncoderCall) : Option (List Bool) :=
  (write Document.empty calls).map Written.refused

/-- The repeated key is written, the first key of the nested dictionary is refused. -/
theorem addDictionaryElement_misses :
    thrown Host.x86 repeatedKey = some [false, false, false, false] ∧
      shouldThrow repeatedKey = some [false, false, true, false] ∧
    thrown Host.x86 nestedFirst = some [false, false, false, false, true, false, false] ∧
      shouldThrow nestedFirst = some [false, false, false, false, false, false, false] := by
  decide +kernel

end BEncodeEncoder
end TorrentSync.Source
