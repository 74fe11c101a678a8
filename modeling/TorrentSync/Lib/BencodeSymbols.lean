import TorrentSync.Lib.BencodeDocument
import TorrentSync.Lib.ListParts

/-!
# Symbols of a bencoding

Strings, the beginnings of lists and dictionaries, and ends. The text of no symbol begins the text
of another, so that octets are the text of one sequence of symbols at most, and a document is what
its symbols make of the empty one.
-/
namespace TorrentSync.Lib.Bencode

open Decimal ListParts

inductive Symbol where
  | string (s : List UInt8)
  | list
  | dict
  | stop
  deriving DecidableEq, Repr

def Symbol.text : Symbol → List UInt8
  | .string s => Bencode.string s
  | .list => [108]
  | .dict => [100]
  | .stop => [101]

/-! ## Texts -/

/-- The digits before the colon tell where a string ends. -/
theorem string_append_inj {s t r r' : List UInt8} (same : string s ++ r = string t ++ r') : s = t ∧ r = r' := by
  have number : ∀ u v : List UInt8, (string u ++ v).takeWhile isDigit = digits u.length := by
    intro u v
    rw [string, List.append_assoc, List.takeWhile_append_of_pos (digits_isDigit _), List.cons_append,
      List.takeWhile_cons_of_neg (by decide), List.append_nil]
  have digitsSame : digits s.length = digits t.length := by rw [← number s r, same, number]
  have length : s.length = t.length := digits_inj digitsSame
  rw [string, string, digitsSame, List.append_assoc, List.append_assoc] at same
  exact List.append_inj (List.cons.inj (List.append_cancel_left same)).2 length

/-- A string begins with a digit. -/
theorem string_ne_cons {s r tail : List UInt8} {c : UInt8} (letter : isDigit c = false) :
    string s ++ r ≠ c :: tail := by
  obtain ⟨d, rest, head, digit⟩ := (isString_string s).head
  intro same
  rw [head, List.cons_append] at same
  rw [(List.cons.inj same).1, letter] at digit
  cases digit

namespace Symbol

theorem text_ne_nil (a : Symbol) : a.text ≠ [] := by
  cases a with
  | string s =>
    obtain ⟨d, rest, head, -⟩ := (isString_string s).head
    rw [text, head]
    exact List.cons_ne_nil d rest
  | _ => exact List.cons_ne_nil _ _

theorem text_append_inj {a b : Symbol} {r r' : List UInt8} (same : a.text ++ r = b.text ++ r') :
    a = b ∧ r = r' := by
  cases a with
  | string s =>
    cases b with
    | string t =>
      obtain ⟨rfl, rest⟩ := string_append_inj same
      exact ⟨rfl, rest⟩
    | _ => exact (string_ne_cons (by decide) same).elim
  | list | dict | stop =>
    cases b with
    | string t => exact (string_ne_cons (by decide) same.symm).elim
    | list | dict | stop => first | exact ⟨rfl, (List.cons.inj same).2⟩ | simp [text] at same

end Symbol

/-- Octets that go on as a text of symbols go on with symbols. -/
theorem symbols_prefix {xs ys : List Symbol} {more : List UInt8}
    (same : xs.flatMap Symbol.text ++ more = ys.flatMap Symbol.text) : ∃ zs, ys = xs ++ zs :=
  flatMap_prefix Symbol.text_ne_nil (fun _ _ _ _ => Symbol.text_append_inj) same

/-! ## The document of a text -/

namespace Document

/-- What a symbol adds to a document; none where it makes no sense. -/
def feed (d : Document) : Symbol → Option Document
  | .string s => if d.takesKey then d.key s else d.put (.str s)
  | .list => d.opened (.list [])
  | .dict => d.opened (.dict [] none)
  | .stop => d.closeDict.or d.closeList

def feedAll (d : Document) : List Symbol → Option Document
  | [] => some d
  | a :: symbols => (d.feed a).bind fun d' => feedAll d' symbols

theorem feedAll_append (d : Document) (xs ys : List Symbol) :
    d.feedAll (xs ++ ys) = (d.feedAll xs).bind fun d' => d'.feedAll ys := by
  induction xs generalizing d with
  | nil => rfl
  | cons a xs ih =>
    rw [List.cons_append, feedAll, feedAll, Option.bind_assoc]
    exact Option.bind_congr fun d' _ => ih d'

/-- A key is no value. -/
theorem feed_key {k : List UInt8} {d d' : Document} (done : d.key k = some d') :
    d.feed (.string k) = some d' := by
  obtain ⟨entries, outer, frames, -⟩ := key_eq_some done
  have waits : d.takesKey = true := by simp [takesKey, frames, Frame.takesValue]
  rw [feed, if_pos waits, done]

/-- A string where a value is expected. -/
theorem feed_put {s : List UInt8} {d d' : Document} (done : d.put (.str s) = some d') :
    d.feed (.string s) = some d' := by
  have free : ¬ d.takesKey = true := by
    unfold put at done
    split at done
    · next frames => simp [takesKey, frames]
    · next frame outer frames =>
      obtain ⟨frame', inner, -⟩ := Option.map_eq_some_iff.mp done
      rw [takesKey, frames]
      cases frame with
      | list items => simp [Frame.takesValue]
      | dict entries pending =>
        cases pending with
        | none => cases inner
        | some k => simp [Frame.takesValue]
  rw [feed, if_neg free, done]

theorem feed_closeList {d d' : Document} (done : d.closeList = some d') : d.feed .stop = some d' := by
  obtain ⟨items, outer, frames, -⟩ := closeList_eq_some done
  have other : d.closeDict = none := by simp [closeDict, frames]
  rw [feed, other, Option.none_or, done]

theorem feed_closeDict {d d' : Document} (done : d.closeDict = some d') : d.feed .stop = some d' := by
  rw [feed, done, Option.some_or]

/-! ## Finished values stay -/

theorem put_roots {v : Value} {d d' : Document} (done : d.put v = some d') : d.roots <+: d'.roots := by
  unfold put at done
  split at done
  · cases done
    exact List.prefix_append _ _
  · obtain ⟨frame', -, rfl⟩ := Option.map_eq_some_iff.mp done
    exact List.prefix_rfl

theorem feed_roots {a : Symbol} {d d' : Document} (fed : d.feed a = some d') : d.roots <+: d'.roots := by
  cases a with
  | string s =>
    rw [feed] at fed
    split at fed
    · obtain ⟨entries, outer, -, rfl⟩ := key_eq_some fed
      exact List.prefix_rfl
    · exact put_roots fed
  | list | dict =>
    obtain rfl := opened_eq_some fed
    exact List.prefix_rfl
  | stop =>
    rcases Option.or_eq_some_iff.mp fed with closed | ⟨-, closed⟩
    · obtain ⟨entries, outer, -, done⟩ := closeDict_eq_some closed
      have kept := put_roots done
      exact kept
    · obtain ⟨items, outer, -, done⟩ := closeList_eq_some closed
      have kept := put_roots done
      exact kept

theorem feedAll_roots {symbols : List Symbol} {d d' : Document} (fed : d.feedAll symbols = some d') :
    d.roots <+: d'.roots := by
  induction symbols generalizing d with
  | nil =>
    cases fed
    exact List.prefix_rfl
  | cons a symbols ih =>
    obtain ⟨d₁, first, later⟩ := Option.bind_eq_some_iff.mp fed
    exact (feed_roots first).trans (ih later)

end Document
end TorrentSync.Lib.Bencode
