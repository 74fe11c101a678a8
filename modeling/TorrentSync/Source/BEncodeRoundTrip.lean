import TorrentSync.Source.BEncodeDecoderPaths
import TorrentSync.Source.BEncodeEncoderOrder

/-!
# From the encoder to the decoder

Whatever calls build a message, the decoder finds its leaves in what `value` returns. That all
strings are short enough for the decoder need not be asked: the encoder's buffer grows by one
block at a time, so a call that stays inside it adds no element of more than two blocks.
-/
namespace TorrentSync.Source

open Lib Bencode

namespace EncoderCall

/-- Every string of a call has a property. -/
def Strings (P : Buffer → Prop) : EncoderCall → Prop
  | .addElement v => P v
  | .addDictionaryElement _ k v => P k ∧ P v
  | _ => True

/-- The document of a sequence of calls none of which throws. -/
def placeAll (d : Document) : List EncoderCall → Option Document
  | [] => some d
  | call :: calls => (call.place d).bind fun d' => placeAll d' calls

theorem place_each {P : Buffer → Prop} {d d' : Document} {call : EncoderCall}
    (placed : call.place d = some d') (strings : call.Strings P) (each : d.Each P P) : d'.Each P P := by
  cases call with
  | addElement v =>
    rw [place] at placed
    split at placed
    · exact Document.key_each placed each strings
    · exact Document.put_each placed each strings
  | addDictionaryElement keyType k v =>
    obtain ⟨inner, key, value⟩ := Option.bind_eq_some_iff.mp placed
    exact Document.put_each value (Document.key_each key each strings.1) strings.2
  | startList => exact Document.opened_each placed each trivial
  | endList => exact Document.closeList_each placed each
  | startDictionary => exact Document.opened_each placed each ⟨trivial, by simp⟩
  | endDictionary => exact Document.closeDict_each placed each
  | value =>
    cases placed
    exact each

theorem placeAll_text {calls : List EncoderCall} {d d' : Document} (placed : placeAll d calls = some d') :
    d'.text = d.text ++ tokens calls := by
  induction calls generalizing d with
  | nil =>
    cases placed
    exact (List.append_nil _).symm
  | cons call calls ih =>
    obtain ⟨d₁, first, later⟩ := Option.bind_eq_some_iff.mp placed
    rw [ih later, place_text first, tokens_cons, List.append_assoc]

theorem placeAll_each {P : Buffer → Prop} {calls : List EncoderCall} {d d' : Document}
    (placed : placeAll d calls = some d') (strings : ∀ call ∈ calls, call.Strings P) (each : d.Each P P) :
    d'.Each P P := by
  induction calls generalizing d with
  | nil =>
    cases placed
    exact each
  | cons call calls ih =>
    obtain ⟨d₁, first, later⟩ := Option.bind_eq_some_iff.mp placed
    exact ih later (fun c member => strings c (List.mem_cons_of_mem _ member))
      (place_each first (strings call List.mem_cons_self) each)

/-! ## Elements that fit -/

open BEncodeEncoder

/-- An element that fits into a buffer with at most a block unused has at most two blocks, and
leaves at most a block unused. -/
theorem element_bounded {used size : Nat} {v : Buffer} (room : size ≤ used + 1024)
    (fits : ElementFits used size v) :
    (string v).length ≤ 2048 ∧ elementSize used size v ≤ used + (string v).length + 1024 := by
  unfold ElementFits at fits
  unfold elementSize BEncodeEncoder.sizeAfter
  have block : nextBlock size ≤ size + 1024 := by
    unfold nextBlock
    omega
  constructor
  · omega
  · split <;> omega

/-- The strings of calls that fit have at most two blocks in bencoded form. -/
theorem allFit_strings {calls : List EncoderCall} {used size : Nat} (fits : AllFit used size calls)
    (room : size ≤ used + 1024) : ∀ call ∈ calls, call.Strings fun s => (string s).length ≤ 2048 := by
  induction calls generalizing used size with
  | nil => simp
  | cons call calls ih =>
    obtain ⟨own, later⟩ := fits
    have block : nextBlock size ≤ size + 1024 := by
      unfold nextBlock
      omega
    have step : (call.Strings fun s => (string s).length ≤ 2048) ∧
        call.sizeAfter used size ≤ used + call.text.length + 1024 := by
      cases call with
      | addElement v => exact element_bounded room own
      | addDictionaryElement keyType k v =>
        obtain ⟨key, between⟩ := element_bounded room own.1
        obtain ⟨value, after⟩ := element_bounded between own.2
        refine ⟨⟨key, value⟩, ?_⟩
        rw [text, List.length_append, ← Nat.add_assoc]
        exact after
      | value => exact ⟨trivial, Nat.le_add_right _ _⟩
      | startList | endList | startDictionary | endDictionary =>
        refine ⟨trivial, ?_⟩
        change BEncodeEncoder.sizeAfter used size 1 ≤ used + 1 + 1024
        unfold BEncodeEncoder.sizeAfter
        split <;> omega
    exact List.forall_mem_cons.mpr ⟨step.1, ih later step.2⟩

/-- A string that is no empty element. -/
theorem strings_nonempty {calls : List EncoderCall} (nonempty : ∀ call ∈ calls, call.NoEmptyElement) :
    ∀ call ∈ calls, call.Strings fun s => s ≠ [] := by
  intro call member
  have own := nonempty call member
  cases call with
  | addElement v => exact own
  | addDictionaryElement keyType k v => exact own
  | startList | endList | startDictionary | endDictionary | value => trivial

/-! ## What a run leaves in the buffer -/

theorem run_ok_encodes {host : Host} {calls : List EncoderCall} {enc : BEncodeEncoder} {out : List Buffer}
    (returned : run host calls new = .ok (enc, out)) : AllFit 0 1024 calls ∧ enc.Encodes (tokens calls) := by
  have nonempty := run_ok_noEmptyElement host calls returned
  have quiet : run host calls new ≠ .error orderViolation := by
    rw [returned]
    exact fun impossible => by cases impossible
  have outcome := run_spec host calls new_encodes nonempty quiet
  rw [new_length, List.length_nil, List.nil_append] at outcome
  rcases outcome with ⟨fits, enc', ran, encodes⟩ | ⟨-, ran⟩
  · rw [returned] at ran
    cases ran
    exact ⟨fits, encodes⟩
  · rw [returned] at ran
    cases ran

/-- `value` returns the text of the document. -/
theorem run_ok_text {host : Host} {calls : List EncoderCall} {enc : BEncodeEncoder} {out : List Buffer}
    {d : Document} (returned : run host calls new = .ok (enc, out))
    (builds : placeAll Document.empty calls = some d) : enc.value.1 = d.text := by
  rw [(value_spec (run_ok_encodes returned).2).1, placeAll_text builds]
  rfl

end EncoderCall

namespace BEncodeDecoder

open EncoderCall BEncodeEncoder

/-- Every sequence of encoder calls that returns and builds one list or dictionary, with keys
without separator and NUL that are distinct in each dictionary and in a form the decoder keeps
track of: the decoder reads the leaves of that tree from the encoder's value, each under its
path, and nothing else. -/
theorem parseMessage_run (host : Host) (calls : List EncoderCall) {enc : BEncodeEncoder}
    {out : List Buffer} {v : Value} (returned : run host calls new = .ok (enc, out))
    (builds : placeAll Document.empty calls = some ⟨[v], []⟩)
    (keys : Each (fun k => 47 ∉ k ∧ 0 ∉ k) (fun _ => True) v) (distinct : DistinctKeys v) (tracks : Tracks v)
    (decoder : Decoder) :
    ∃ decoder', decoder.parseMessage host (Istream.ofBuffer enc.value.1) =
        .ok (decoder', ⟨[], false, false⟩) ∧
      decoder'.getData.entries = joinedLeaves v := by
  have nonempty := run_ok_noEmptyElement host calls returned
  have fits := (run_ok_encodes returned).1
  have octets : enc.value.1 = encode v := by
    have text := run_ok_text returned builds
    simpa [Document.text, encodeItems, framesText] using text
  have short : Each (fun k => (string k).length ≤ 2048) (fun s => (string s).length ≤ 2048) v :=
    (placeAll_each builds (allFit_strings fits (Nat.le_refl _)) Document.empty_each).roots.1
  have filled : Each (fun k => k ≠ []) (fun s => s ≠ []) v :=
    (placeAll_each builds (strings_nonempty nonempty) Document.empty_each).roots.1
  have clean : Clean v :=
    ⟨keys.combine (fun _ plain nonempty => ⟨nonempty, plain⟩) (fun _ _ _ => trivial) filled, distinct⟩
  have readable : Fits host v := by
    have large : 2048 ≤ grantedSize := by decide
    refine short.combine (fun k few _ => ?_) (fun s few _ => ?_) short
    · rw [string_length] at few
      exact .of_small host (by omega)
    · rw [string_length] at few
      exact .of_small host (by omega)
  obtain ⟨data, parsed, entries⟩ := parseMessage_tracked host v clean readable tracks
  rw [octets, Decoder.parseMessage_eq, parsed]
  exact ⟨_, rfl, entries⟩

/-- A nested dictionary and a list. -/
def nestedCalls : List EncoderCall :=
  [.startDictionary, .addElement (ascii "a"), .startDictionary,
    .addDictionaryElement .string (ascii "id") (ascii "x"), .endDictionary, .addElement (ascii "l"),
    .startList, .addElement (ascii "y"), .addElement (ascii "z"), .endList, .endDictionary]

theorem parseMessage_run_nested :
    ∃ enc out decoder', run Host.x86 nestedCalls new = .ok (enc, out) ∧
      Decoder.fresh.parseMessage Host.x86 (Istream.ofBuffer enc.value.1) =
        .ok (decoder', ⟨[], false, false⟩) ∧
      decoder'.getData.entries = [(ascii "a/id", ascii "x"), (ascii "l/0", ascii "y"), (ascii "l/1", ascii "z")] := by
  have alive : (run Host.x86 nestedCalls new).isOk = true := by decide +kernel
  cases ran : run Host.x86 nestedCalls new with
  | error fault =>
    rw [ran] at alive
    cases alive
  | ok result =>
    obtain ⟨enc, out⟩ := result
    have closes : (counterAfter (ascii "l") .LIST).isOk = true := rfl
    obtain ⟨decoder', parsed, entries⟩ := parseMessage_run Host.x86 nestedCalls
      (v := .dict [(ascii "a", .dict [(ascii "id", .str (ascii "x"))]),
        (ascii "l", .list [.str (ascii "y"), .str (ascii "z")])]) ran rfl
      (by simp [Each, EachEntry, EachItem, ascii])
      (by simp [DistinctKeys, DistinctKeysEntries, DistinctKeysItems, ascii])
      (by simp [Tracks, TracksEntries, TracksEntry, TracksItems, TracksItem, counterPast, closes])
      Decoder.fresh
    exact ⟨enc, out, decoder', rfl, parsed, entries⟩

end BEncodeDecoder
end TorrentSync.Source
