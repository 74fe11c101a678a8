import Mathlib.Data.List.Chain
import TorrentSync.Lib.Bencode

/-!
# Bencoded documents under construction

A writer puts values one after the other and opens and closes containers on the way.
A document is what it has written so far: the finished values, and the open
containers, the innermost first.
-/
namespace TorrentSync.Lib.Bencode

/-- An open container; in a dictionary a key can wait for its value. -/
inductive Frame where
  | dict (entries : List (List UInt8 × Value)) (pending : Option (List UInt8))
  | list (items : List Value)

structure Document where
  roots : List Value
  frames : List Frame

/-! ## Encoded prefixes -/

theorem encodeItems_append (items later : List Value) :
    encodeItems (items ++ later) = encodeItems items ++ encodeItems later := by
  induction items with
  | nil => rfl
  | cons v rest ih => rw [List.cons_append, encodeItems, encodeItems, ih, List.append_assoc]

theorem encodeEntries_append (entries later : List (List UInt8 × Value)) :
    encodeEntries (entries ++ later) = encodeEntries entries ++ encodeEntries later := by
  induction entries with
  | nil => rfl
  | cons entry rest ih =>
    obtain ⟨k, v⟩ := entry
    rw [List.cons_append, encodeEntries, encodeEntries, ih]
    simp only [List.append_assoc]

theorem canonicalItems_append (items later : List Value) :
    canonicalItems (items ++ later) = (canonicalItems items && canonicalItems later) := by
  induction items with
  | nil => rfl
  | cons v rest ih => rw [List.cons_append, canonicalItems, canonicalItems, ih, Bool.and_assoc]

theorem canonicalEntries_append (entries later : List (List UInt8 × Value)) :
    canonicalEntries (entries ++ later) = (canonicalEntries entries && canonicalEntries later) := by
  induction entries with
  | nil => rfl
  | cons entry rest ih =>
    obtain ⟨k, v⟩ := entry
    rw [List.cons_append, canonicalEntries, canonicalEntries, ih, Bool.and_assoc]

theorem canonical_of_mem {items : List Value} (all : canonicalItems items = true) :
    ∀ v ∈ items, canonical v = true := by
  induction items with
  | nil => simp
  | cons v rest ih =>
    rw [canonicalItems, Bool.and_eq_true] at all
    exact List.forall_mem_cons.mpr ⟨all.1, ih all.2⟩

/-! ## Frames -/

namespace Frame

def text : Frame → List UInt8
  | .dict entries pending => 100 :: (encodeEntries entries ++ (pending.map string).getD [])
  | .list items => 108 :: encodeItems items

/-- The keys of a dictionary so far, a waiting one included. -/
def keys : Frame → List (List UInt8)
  | .dict entries pending => entries.map Prod.fst ++ pending.toList
  | .list _ => []

/-- The container so far is part of a canonical value. -/
structure Sorted (frame : Frame) : Prop where
  ascending : frame.keys.IsChain fun a b => keyLt a b = true
  values : match frame with
    | .dict entries _ => canonicalEntries entries = true
    | .list items => canonicalItems items = true

/-- The keys of a dictionary that waits for the next one. -/
theorem Sorted.entries {entries : List (List UInt8 × Value)} (sorted : Sorted (.dict entries none)) :
    (entries.map Prod.fst).IsChain fun a b => keyLt a b = true := by
  have chain := sorted.ascending
  rwa [keys, Option.toList_none, List.append_nil] at chain

/-- A value is expected next. -/
def takesValue : Frame → Bool
  | .dict _ pending => pending.isSome
  | .list _ => true

def put (v : Value) : Frame → Option Frame
  | .dict entries (some k) => some (.dict (entries ++ [(k, v)]) none)
  | .dict _ none => none
  | .list items => some (.list (items ++ [v]))

theorem put_text {v : Value} {frame frame' : Frame} (done : frame.put v = some frame') :
    frame'.text = frame.text ++ encode v := by
  cases frame with
  | dict entries pending =>
    cases pending with
    | none => cases done
    | some k =>
      cases done
      simp [text, encodeEntries_append, encodeEntries]
  | list items =>
    cases done
    simp [text, encodeItems_append, encodeItems]

theorem put_sorted {v : Value} {frame frame' : Frame} (done : frame.put v = some frame')
    (sorted : frame.Sorted) (value : canonical v = true) : frame'.Sorted := by
  obtain ⟨ascending, values⟩ := sorted
  cases frame with
  | dict entries pending =>
    cases pending with
    | none => cases done
    | some k =>
      cases done
      refine ⟨by simpa [keys] using ascending, ?_⟩
      simpa [canonicalEntries_append, canonicalEntries, value] using values
  | list items =>
    cases done
    refine ⟨List.IsChain.nil, ?_⟩
    simpa [canonicalItems_append, canonicalItems, value] using values

end Frame

/-! ## Documents -/

def framesText : List Frame → List UInt8
  | [] => []
  | frame :: outer => framesText outer ++ frame.text

namespace Document

def empty : Document := ⟨[], []⟩

def text (d : Document) : List UInt8 := encodeItems d.roots ++ framesText d.frames

/-- Every dictionary, open or closed, lists its keys in strictly ascending order. -/
structure Sorted (d : Document) : Prop where
  roots : canonicalItems d.roots = true
  frames : ∀ frame ∈ d.frames, frame.Sorted

/-- The innermost container is a dictionary and a key is expected next. -/
def takesKey (d : Document) : Bool :=
  match d.frames with
  | frame :: _ => !frame.takesValue
  | [] => false

/-- The last key of the innermost container. -/
def previous (d : Document) : Option (List UInt8) :=
  match d.frames with
  | frame :: _ => frame.keys.getLast?
  | [] => none

/-- The key is greater than the previous one of the same dictionary. -/
def Ascends (d : Document) (k : List UInt8) : Prop := ∀ p ∈ d.previous, keyLt p k = true

instance (d : Document) (k : List UInt8) : Decidable (d.Ascends k) :=
  inferInstanceAs (Decidable (∀ p ∈ d.previous, _))

def put (v : Value) (d : Document) : Option Document :=
  match d.frames with
  | [] => some { d with roots := d.roots ++ [v] }
  | frame :: outer => (frame.put v).map fun frame' => { d with frames := frame' :: outer }

def key (k : List UInt8) (d : Document) : Option Document :=
  match d.frames with
  | .dict entries none :: outer => some { d with frames := .dict entries (some k) :: outer }
  | _ => none

/-- Opens a container where a value is expected. -/
def opened (frame : Frame) (d : Document) : Option Document :=
  if d.takesKey then none else some { d with frames := frame :: d.frames }

def closeDict (d : Document) : Option Document :=
  match d.frames with
  | .dict entries none :: outer => put (.dict entries) { d with frames := outer }
  | _ => none

def closeList (d : Document) : Option Document :=
  match d.frames with
  | .list items :: outer => put (.list items) { d with frames := outer }
  | _ => none

/-! ## Where each operation is possible -/

theorem key_eq_some {k : List UInt8} {d d' : Document} (done : d.key k = some d') :
    ∃ entries outer, d.frames = .dict entries none :: outer ∧
      d' = { d with frames := .dict entries (some k) :: outer } := by
  unfold key at done
  split at done
  · rename_i entries outer frames
    exact ⟨entries, outer, frames, (Option.some.inj done).symm⟩
  · cases done

theorem opened_eq_some {frame : Frame} {d d' : Document} (done : d.opened frame = some d') :
    d' = { d with frames := frame :: d.frames } := by
  unfold opened at done
  split at done
  · cases done
  · exact (Option.some.inj done).symm

theorem closeDict_eq_some {d d' : Document} (done : d.closeDict = some d') :
    ∃ entries outer, d.frames = .dict entries none :: outer ∧
      put (.dict entries) { d with frames := outer } = some d' := by
  unfold closeDict at done
  split at done
  · rename_i entries outer frames
    exact ⟨entries, outer, frames, done⟩
  · cases done

theorem closeList_eq_some {d d' : Document} (done : d.closeList = some d') :
    ∃ items outer, d.frames = .list items :: outer ∧
      put (.list items) { d with frames := outer } = some d' := by
  unfold closeList at done
  split at done
  · rename_i items outer frames
    exact ⟨items, outer, frames, done⟩
  · cases done

/-! ## What each operation writes -/

theorem put_text {v : Value} {d d' : Document} (done : d.put v = some d') :
    d'.text = d.text ++ encode v := by
  obtain ⟨roots, frames⟩ := d
  cases frames with
  | nil =>
    cases done
    simp [text, framesText, encodeItems_append, encodeItems]
  | cons frame outer =>
    obtain ⟨frame', putFrame, rfl⟩ := Option.map_eq_some_iff.mp done
    simp [text, framesText, Frame.put_text putFrame]

theorem key_text {k : List UInt8} {d d' : Document} (done : d.key k = some d') :
    d'.text = d.text ++ string k := by
  obtain ⟨entries, outer, frames, rfl⟩ := key_eq_some done
  simp [text, frames, framesText, Frame.text]

theorem opened_text {frame : Frame} {d d' : Document} (done : d.opened frame = some d') :
    d'.text = d.text ++ frame.text := by
  obtain rfl := opened_eq_some done
  simp [text, framesText]

theorem closeDict_text {d d' : Document} (done : d.closeDict = some d') : d'.text = d.text ++ [101] := by
  obtain ⟨entries, outer, frames, closed⟩ := closeDict_eq_some done
  rw [put_text closed]
  simp [text, frames, framesText, Frame.text, encode]

theorem closeList_text {d d' : Document} (done : d.closeList = some d') : d'.text = d.text ++ [101] := by
  obtain ⟨items, outer, frames, closed⟩ := closeList_eq_some done
  rw [put_text closed]
  simp [text, frames, framesText, Frame.text, encode]

/-! ## Sorted documents stay sorted -/

theorem empty_sorted : empty.Sorted := ⟨rfl, by simp [empty]⟩

theorem put_sorted {v : Value} {d d' : Document} (done : d.put v = some d') (sorted : d.Sorted)
    (value : canonical v = true) : d'.Sorted := by
  obtain ⟨roots, frames⟩ := d
  cases frames with
  | nil =>
    cases done
    refine ⟨?_, sorted.frames⟩
    simpa [canonicalItems_append, canonicalItems, value] using sorted.roots
  | cons frame outer =>
    obtain ⟨frame', putFrame, rfl⟩ := Option.map_eq_some_iff.mp done
    have inner := sorted.frames frame List.mem_cons_self
    refine ⟨sorted.roots, List.forall_mem_cons.mpr ⟨Frame.put_sorted putFrame inner value, ?_⟩⟩
    exact fun f member => sorted.frames f (List.mem_cons_of_mem _ member)

/-- The innermost container and the document around it. -/
private theorem Sorted.around {d : Document} (sorted : d.Sorted) {frame : Frame} {outer : List Frame}
    (frames : d.frames = frame :: outer) : frame.Sorted ∧ Sorted { d with frames := outer } := by
  have all := sorted.frames
  rw [frames, List.forall_mem_cons] at all
  exact ⟨all.1, sorted.roots, all.2⟩

theorem key_sorted {k : List UInt8} {d d' : Document} (done : d.key k = some d') (sorted : d.Sorted)
    (ascends : d.Ascends k) : d'.Sorted := by
  obtain ⟨entries, outer, frames, rfl⟩ := key_eq_some done
  obtain ⟨inner, around⟩ := sorted.around frames
  have below : ∀ p ∈ (entries.map Prod.fst).getLast?, keyLt p k = true := by
    simpa [Ascends, previous, frames, Frame.keys] using ascends
  refine ⟨sorted.roots, List.forall_mem_cons.mpr ⟨⟨?_, inner.values⟩, around.frames⟩⟩
  refine List.isChain_append.mpr ⟨inner.entries, List.isChain_singleton k, ?_⟩
  intro p last b head
  cases head
  exact below p last

theorem opened_sorted {frame : Frame} {d d' : Document} (done : d.opened frame = some d')
    (sorted : d.Sorted) (start : frame.Sorted) : d'.Sorted := by
  obtain rfl := opened_eq_some done
  exact ⟨sorted.roots, List.forall_mem_cons.mpr ⟨start, sorted.frames⟩⟩

theorem closeDict_sorted {d d' : Document} (done : d.closeDict = some d') (sorted : d.Sorted) :
    d'.Sorted := by
  obtain ⟨entries, outer, frames, closed⟩ := closeDict_eq_some done
  obtain ⟨inner, around⟩ := sorted.around frames
  apply put_sorted closed around
  rw [canonical, Bool.and_eq_true]
  exact ⟨decide_eq_true inner.entries, inner.values⟩

theorem closeList_sorted {d d' : Document} (done : d.closeList = some d') (sorted : d.Sorted) :
    d'.Sorted := by
  obtain ⟨items, outer, frames, closed⟩ := closeList_eq_some done
  obtain ⟨inner, around⟩ := sorted.around frames
  exact put_sorted closed around inner.values

/-- A document without open containers is its values one after the other. -/
theorem Sorted.finished {d : Document} (sorted : d.Sorted) (closed : d.frames = []) :
    d.text = encodeItems d.roots ∧ ∀ v ∈ d.roots, canonical v = true := by
  refine ⟨?_, canonical_of_mem sorted.roots⟩
  rw [text, closed, framesText, List.append_nil]

end Document

/-! ## Properties of every string -/

section Each

variable {onKey onLeaf : List UInt8 → Prop}

theorem eachItem_append {items later : List Value} (first : EachItem onKey onLeaf items)
    (second : EachItem onKey onLeaf later) : EachItem onKey onLeaf (items ++ later) := by
  induction items with
  | nil => exact second
  | cons v rest ih => exact ⟨first.1, ih first.2⟩

theorem eachEntry_append {entries later : List (List UInt8 × Value)}
    (first : EachEntry onKey onLeaf entries) (second : EachEntry onKey onLeaf later) :
    EachEntry onKey onLeaf (entries ++ later) := by
  induction entries with
  | nil => exact second
  | cons entry rest ih =>
    obtain ⟨k, v⟩ := entry
    exact ⟨first.1, first.2.1, ih first.2.2⟩

/-- The property of a container that is still open. -/
def Frame.Each (onKey onLeaf : List UInt8 → Prop) : Frame → Prop
  | .dict entries pending => EachEntry onKey onLeaf entries ∧ ∀ k ∈ pending, onKey k
  | .list items => EachItem onKey onLeaf items

theorem Frame.put_each {v : Value} {frame frame' : Frame} (done : frame.put v = some frame')
    (each : frame.Each onKey onLeaf) (value : Bencode.Each onKey onLeaf v) : frame'.Each onKey onLeaf := by
  cases frame with
  | dict entries pending =>
    cases pending with
    | none => cases done
    | some k =>
      cases done
      exact ⟨eachEntry_append each.1 ⟨each.2 k rfl, value, trivial⟩, by simp⟩
  | list items =>
    cases done
    exact eachItem_append each ⟨value, trivial⟩

namespace Document

structure Each (onKey onLeaf : List UInt8 → Prop) (d : Document) : Prop where
  roots : EachItem onKey onLeaf d.roots
  frames : ∀ frame ∈ d.frames, frame.Each onKey onLeaf

variable {d d' : Document}

theorem empty_each : empty.Each onKey onLeaf := ⟨trivial, by simp [empty]⟩

private theorem Each.around (each : d.Each onKey onLeaf) {frame : Frame} {outer : List Frame}
    (frames : d.frames = frame :: outer) :
    frame.Each onKey onLeaf ∧ Each onKey onLeaf { d with frames := outer } := by
  have all := each.frames
  rw [frames, List.forall_mem_cons] at all
  exact ⟨all.1, each.roots, all.2⟩

theorem put_each {v : Value} (done : d.put v = some d') (each : d.Each onKey onLeaf)
    (value : Bencode.Each onKey onLeaf v) : d'.Each onKey onLeaf := by
  obtain ⟨roots, frames⟩ := d
  cases frames with
  | nil =>
    cases done
    exact ⟨eachItem_append each.roots ⟨value, trivial⟩, each.frames⟩
  | cons frame outer =>
    obtain ⟨frame', putFrame, rfl⟩ := Option.map_eq_some_iff.mp done
    obtain ⟨inner, around⟩ := each.around rfl
    exact ⟨each.roots, List.forall_mem_cons.mpr ⟨Frame.put_each putFrame inner value, around.frames⟩⟩

theorem key_each {k : List UInt8} (done : d.key k = some d') (each : d.Each onKey onLeaf)
    (key : onKey k) : d'.Each onKey onLeaf := by
  obtain ⟨entries, outer, frames, rfl⟩ := key_eq_some done
  obtain ⟨inner, around⟩ := each.around frames
  refine ⟨each.roots, List.forall_mem_cons.mpr ⟨⟨inner.1, ?_⟩, around.frames⟩⟩
  rintro k' ⟨⟩
  exact key

theorem opened_each {frame : Frame} (done : d.opened frame = some d') (each : d.Each onKey onLeaf)
    (start : frame.Each onKey onLeaf) : d'.Each onKey onLeaf := by
  obtain rfl := opened_eq_some done
  exact ⟨each.roots, List.forall_mem_cons.mpr ⟨start, each.frames⟩⟩

theorem closeDict_each (done : d.closeDict = some d') (each : d.Each onKey onLeaf) :
    d'.Each onKey onLeaf := by
  obtain ⟨entries, outer, frames, closed⟩ := closeDict_eq_some done
  obtain ⟨inner, around⟩ := each.around frames
  exact put_each closed around inner.1

theorem closeList_each (done : d.closeList = some d') (each : d.Each onKey onLeaf) :
    d'.Each onKey onLeaf := by
  obtain ⟨items, outer, frames, closed⟩ := closeList_eq_some done
  obtain ⟨inner, around⟩ := each.around frames
  exact put_each closed around inner

end Document
end Each
end TorrentSync.Lib.Bencode
