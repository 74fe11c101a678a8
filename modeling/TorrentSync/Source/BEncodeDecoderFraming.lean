import TorrentSync.Source.BEncodeDecoderFaults

/-!
# Where a message ends

An accepted message is the text of the tokens that were read. What follows that text does
not matter, no shorter text is accepted, and the values that are stored stand in it.
-/
namespace TorrentSync.Source.BEncodeDecoder

open Lib

theorem DataMap.mem_insert {key value : Buffer} {d : DataMap} {e : Buffer × Buffer}
    (member : e ∈ (d.insert key value).entries) : e ∈ d.entries ∨ e = (key, value) := by
  unfold DataMap.insert at member
  split at member
  · exact .inl member
  · simpa using member

theorem Book.openStructure_data (kind : Structure) (b : Book) : (b.openStructure kind).data = b.data := by
  cases kind <;> rfl

theorem StringText.body_infix (s : StringText) : s.body <:+: s.text :=
  ⟨s.length.text, [], by simp [text]⟩

/-- A value that a token adds stands in the text of the token. -/
theorem act_stored {b b' : Book} {t : Token} (acts : b.act t = some b') {e : Buffer × Buffer}
    (member : e ∈ b'.data.entries) : e ∈ b.data.entries ∨ e.2 <:+: t.text := by
  cases (Book.act_iff.mp acts).2 with
  | message outside => exact .inl (by simpa [Book.openStructure_data] using member)
  | nested top => exact .inl (by simpa [Book.openStructure_data] using member)
  | bare top => exact .inl (by simpa [Book.openStructure_data] using member)
  | sub top => exact .inl (by simpa [Book.openStructure_data] using member)
  | @entry key value name top =>
    rcases DataMap.mem_insert member with old | rfl
    · exact .inl old
    · exact .inr (value.body_infix.trans (List.suffix_append _ _).isInfix)
  | @item value name top =>
    rcases DataMap.mem_insert member with old | rfl
    · exact .inl old
    · exact .inr value.body_infix
  | closes top counted => exact .inl member

theorem run_stored (ts : List Token) {b b' : Book} (runs : Book.run ts b = some b')
    {e : Buffer × Buffer} (member : e ∈ b'.data.entries) : e ∈ b.data.entries ∨ e.2 <:+: texts ts := by
  induction ts generalizing b with
  | nil =>
    cases runs
    exact .inl member
  | cons t ts ih =>
    obtain ⟨next, acts, later⟩ := Option.bind_eq_some_iff.mp runs
    rw [texts_cons]
    rcases ih later with old | inside
    · rcases act_stored acts old with older | inside
      · exact .inl older
      · exact .inr (inside.trans (List.prefix_append _ _).isInfix)
    · exact .inr (inside.trans (List.suffix_append _ _).isInfix)

/-- Other octets may follow an accepted message. -/
theorem Accepted.append {host : Host} {octets rest : Buffer} {ts : List Token} {b : Book}
    (h : Accepted host octets ts b rest) (more : Buffer) :
    Accepted host (octets ++ more) ts b (rest ++ more) :=
  ⟨h.toWalk.append more, h.ended⟩

theorem Accepted.refocus {host : Host} {octets rest : Buffer} {ts : List Token} {b : Book}
    (h : Accepted host octets ts b rest) (rest' : Buffer) :
    Accepted host (texts ts ++ rest') ts b rest' :=
  ⟨⟨rfl, h.readable, h.runs⟩, h.ended⟩

/-- An input that is cut off in the message is not accepted, and the exception is the
documented one. -/
theorem Accepted.cut {host : Host} {octets rest short more : Buffer} {ts : List Token} {b : Book}
    (h : Accepted host octets ts b rest) (split : texts ts = short ++ more) (proper : more ≠ []) :
    ∃ what, parseMessage host (Istream.ofBuffer short) = .error (.bencode what) := by
  have whole := (h.refocus []).parse
  rw [List.append_nil, split] at whole
  cases parsed : parseMessage host (Istream.ofBuffer short) with
  | ok result =>
    obtain ⟨data, stream⟩ := result
    obtain ⟨ts', b', accepted, -⟩ := parse_accepted parsed
    have longer := (accepted.append more).parse
    -- the longer input would be read up to `more`, but it is read to its end
    rw [whole] at longer
    simp only [Except.ok.injEq, Prod.mk.injEq, Istream.mk.injEq] at longer
    exact absurd (List.append_eq_nil_iff.mp longer.2.1.symm).2 proper
  | error fault =>
    rcases onlyBencode_or host short with orderly | leads
    · obtain ⟨what, rfl⟩ := orderly fault parsed
      exact ⟨what, rfl⟩
    · obtain ⟨fault', failed, -⟩ := (leads.append more).thrown
      rw [whole] at failed
      cases failed

/-- The octets that were consumed decide alone: whatever follows them is left unread, no
proper prefix of them is accepted, and every stored value is part of them. -/
theorem parseMessage_framing (host : Host) (octets : Buffer) (data : DataMap) (stream : Istream)
    (returned : parseMessage host (Istream.ofBuffer octets) = .ok (data, stream)) :
    ∃ consumed, octets = consumed ++ stream.rest ∧
      (∀ more, parseMessage host (Istream.ofBuffer (consumed ++ more)) =
        .ok (data, ⟨more, false, false⟩)) ∧
      (∀ short, short <+: consumed → short ≠ consumed →
        ∃ what, parseMessage host (Istream.ofBuffer short) = .error (.bencode what)) ∧
      ∀ e ∈ data.entries, e.2 <:+: consumed := by
  obtain ⟨ts, b, accepted, rfl, -⟩ := parse_accepted returned
  refine ⟨texts ts, accepted.split, fun more => (accepted.refocus more).parse, ?_, ?_⟩
  · rintro short ⟨more, split⟩ differs
    apply accepted.cut split.symm
    rintro rfl
    exact differs (by simpa using split)
  · intro e member
    rcases run_stored ts accepted.runs member with impossible | inside
    · exact absurd impossible List.not_mem_nil
    · exact inside

theorem parseMessage_framing_trailing :
    ∃ consumed, ascii "d1:a2:bbexyz" = consumed ++ ascii "xyz" ∧
      (∀ more, parseMessage .x86 (Istream.ofBuffer (consumed ++ more)) =
        .ok (⟨[(ascii "a", ascii "bb")], by decide⟩, ⟨more, false, false⟩)) ∧
      (∀ short, short <+: consumed → short ≠ consumed →
        ∃ what, parseMessage .x86 (Istream.ofBuffer short) = .error (.bencode what)) ∧
      ∀ e ∈ [(ascii "a", ascii "bb")], e.2 <:+: consumed :=
  parseMessage_framing .x86 (ascii "d1:a2:bbexyz") ⟨[(ascii "a", ascii "bb")], by decide⟩
    ⟨ascii "xyz", false, false⟩ rfl

end TorrentSync.Source.BEncodeDecoder
