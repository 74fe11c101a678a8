import TorrentSync.Lib.BencodeSymbols
import TorrentSync.Source.BEncodeRoundTrip

/-!
# Octets and what they were written for

The octets an encoder has written tell the document it has built, closed or not: calls that write
the same octets have built the same, and a closed document is continued by further values only.
-/
namespace TorrentSync.Source.EncoderCall

open Lib Bencode BEncodeEncoder

/-- The symbols a call writes. -/
def symbols : EncoderCall → List Symbol
  | .addElement v => [.string v]
  | .addDictionaryElement _ k v => [.string k, .string v]
  | .startList => [.list]
  | .startDictionary => [.dict]
  | .endList | .endDictionary => [.stop]
  | .value => []

theorem place_feedAll {d d' : Document} {call : EncoderCall} (placed : call.place d = some d') :
    d.feedAll call.symbols = some d' := by
  have single : ∀ a, d.feed a = some d' → d.feedAll [a] = some d' := by
    intro a fed
    rw [Document.feedAll, fed]
    rfl
  cases call with
  | addElement v => exact single (.string v) placed
  | addDictionaryElement keyType k v =>
    obtain ⟨keyed, key, value⟩ := Option.bind_eq_some_iff.mp placed
    rw [symbols, Document.feedAll, Document.feed_key key, Option.bind_some, Document.feedAll,
      Document.feed_put value]
    rfl
  | startList => exact single .list placed
  | endList => exact single .stop (Document.feed_closeList placed)
  | startDictionary => exact single .dict placed
  | endDictionary => exact single .stop (Document.feed_closeDict placed)
  | value => exact placed

theorem placeAll_feedAll {calls : List EncoderCall} {d d' : Document} (placed : placeAll d calls = some d') :
    d.feedAll (calls.flatMap symbols) = some d' := by
  induction calls generalizing d with
  | nil => exact placed
  | cons call calls ih =>
    obtain ⟨d₁, first, later⟩ := Option.bind_eq_some_iff.mp placed
    rw [List.flatMap_cons, Document.feedAll_append, place_feedAll first, Option.bind_some, ih later]

theorem tokens_symbols (calls : List EncoderCall) :
    tokens calls = (calls.flatMap symbols).flatMap Symbol.text := by
  rw [List.flatMap_assoc, tokens]
  refine List.flatMap_congr fun call _ => ?_
  cases call with
  | addElement v => simp [text, symbols, Symbol.text]
  | addDictionaryElement keyType k v => simp [text, symbols, Symbol.text]
  | _ => rfl

/-- Octets that go on, go on from the document of the shorter calls. -/
theorem placeAll_prefix {calls calls' : List EncoderCall} {d d' : Document}
    (builds : placeAll Document.empty calls = some d) (builds' : placeAll Document.empty calls' = some d')
    (goesOn : d.text <+: d'.text) : ∃ symbols, d.feedAll symbols = some d' ∧
      d'.text = d.text ++ symbols.flatMap Symbol.text := by
  have nothing : Document.empty.text = [] := rfl
  have text := placeAll_text builds
  have text' := placeAll_text builds'
  rw [nothing, List.nil_append, tokens_symbols] at text text'
  obtain ⟨more, same⟩ := goesOn
  rw [text, text'] at same
  obtain ⟨symbols, split⟩ := symbols_prefix same
  have fed := placeAll_feedAll builds'
  rw [split, Document.feedAll_append, placeAll_feedAll builds, Option.bind_some] at fed
  exact ⟨symbols, fed, by rw [text, text', split, List.flatMap_append]⟩

/-- Two runs of the encoder, on any hosts, write the same octets exactly if they build the same
document, and octets that begin with those of a closed document are those of a document that
begins with its values. -/
theorem run_value_iff {host host' : Host} {calls calls' : List EncoderCall} {enc enc' : BEncodeEncoder}
    {out out' : List Buffer} {d d' : Document} (returned : run host calls new = .ok (enc, out))
    (returned' : run host' calls' new = .ok (enc', out'))
    (builds : placeAll Document.empty calls = some d) (builds' : placeAll Document.empty calls' = some d') :
    (enc.value.1 = enc'.value.1 ↔ d = d') ∧
      (d.frames = [] → (enc.value.1 <+: enc'.value.1 ↔ d.roots <+: d'.roots)) := by
  rw [run_ok_text returned builds, run_ok_text returned' builds']
  refine ⟨⟨fun same => ?_, fun same => by rw [same]⟩, fun closed => ⟨fun goesOn => ?_, fun more => ?_⟩⟩
  · obtain ⟨symbols, fed, text⟩ := placeAll_prefix builds builds' (by rw [same])
    cases symbols with
    | nil => exact Option.some.inj fed
    | cons a symbols => simp [same, a.text_ne_nil] at text
  · obtain ⟨symbols, fed, -⟩ := placeAll_prefix builds builds' goesOn
    exact Document.feedAll_roots fed
  · obtain ⟨values, roots⟩ := more
    refine ⟨encodeItems values ++ framesText d'.frames, ?_⟩
    rw [Document.text, Document.text, closed, framesText, List.append_nil, ← roots, encodeItems_append,
      List.append_assoc]

/-- A dictionary by one call for its entry, and by two. -/
def oneCall : List EncoderCall :=
  [.startDictionary, .addDictionaryElement .string (ascii "a") (ascii "b"), .endDictionary]

def twoElements : List EncoderCall :=
  [.startDictionary, .addElement (ascii "a"), .addElement (ascii "b"), .endDictionary]

theorem run_value_iff_oneCall :
    ∃ enc out enc' out', run Host.x86 oneCall new = .ok (enc, out) ∧
      run Host.x86 twoElements new = .ok (enc', out') ∧ enc.value.1 = enc'.value.1 := by
  have alive : (run Host.x86 oneCall new).isOk = true := by decide +kernel
  have alive' : (run Host.x86 twoElements new).isOk = true := by decide +kernel
  cases ran : run Host.x86 oneCall new with
  | error fault =>
    rw [ran] at alive
    cases alive
  | ok result =>
    cases ran' : run Host.x86 twoElements new with
    | error fault =>
      rw [ran'] at alive'
      cases alive'
    | ok result' =>
      exact ⟨result.1, result.2, result'.1, result'.2, rfl, rfl, (run_value_iff ran ran' rfl rfl).1.mpr rfl⟩

end TorrentSync.Source.EncoderCall
