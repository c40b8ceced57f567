import PeerShare.Proofs.Text.Blank
import PeerShare.Proofs.Text.Utf8
import PeerShare.Proofs.Wire.Request
import PeerShare.Proofs.Wire.Response
import PeerShare.Remote.Basic

/-!
A request on a connection of its own is dispatched once, and its answer is what the other side
reads. Requests and responses are single lines, since line feeds in their strings are escaped.
-/

namespace PeerShare

/-! ### Lines -/

namespace Text

theorem lineFeed_notMem_encodeChar {c : Char} (h : c ≠ '\n') : lineFeed ∉ encodeChar c := by
  have hn : c.toNat ≠ 10 := fun hn => h (by rw [← Char.ofNat_toNat c, hn])
  have range := toNat_char c
  have lead {n : Nat} (hb : n < 256) (ht : n ≠ 10) : lineFeed ≠ UInt8.ofNat n := fun he =>
    ht ((congrArg UInt8.toNat he).trans (toNat_ofNat hb)).symm
  have tail (n : Nat) : lineFeed ≠ cont n := fun he => by
    have := (congrArg UInt8.toNat he).trans (toNat_cont n)
    rw [show lineFeed.toNat = 10 from rfl] at this
    omega
  simp only [encodeChar]
  -- A byte below 0x80 is a character by itself.
  split_ifs <;> simp only [List.mem_cons, List.not_mem_nil, or_false, not_or]
  · exact lead (by omega) hn
  · exact ⟨lead (by omega) (by omega), tail _⟩
  · exact ⟨lead (by omega) (by omega), tail _, tail _⟩
  · exact ⟨lead (by omega) (by omega), tail _, tail _, tail _⟩

theorem lineFeed_notMem_encode {s : List Char} (h : '\n' ∉ s) : lineFeed ∉ encode s := by
  rw [encode, List.mem_flatMap]
  rintro ⟨c, hc, hm⟩
  exact lineFeed_notMem_encodeChar (fun he => h (he ▸ hc)) hm

theorem encode_append (s t : List Char) : encode (s ++ t) = encode s ++ encode t :=
  List.flatMap_append

end Text

theorem Session.splitLines_line {l : Bytes} (h : lineFeed ∉ l) (rest : Bytes) :
    splitLines (l ++ lineFeed :: rest) = (l :: (splitLines rest).1, (splitLines rest).2) := by
  induction l with
  | nil => rfl
  | cons b l ih =>
    obtain ⟨hb, hl⟩ := not_or.mp (mt List.mem_cons.mpr h)
    rw [List.cons_append, splitLines, ih hl]
    simp [Ne.symm hb]

theorem Remote.firstLine_line {l : Bytes} (h : lineFeed ∉ l) (rest : Bytes) :
    firstLine (l ++ lineFeed :: rest) = l ++ [lineFeed] := by
  have line : (l ++ lineFeed :: rest).takeWhile (· != lineFeed) = l := by
    have kept : ∀ b ∈ l, (b != lineFeed) = true := fun b hb =>
      bne_iff_ne.mpr fun he => h (he ▸ hb)
    rw [List.takeWhile_append_of_pos kept]
    simp
  rw [firstLine, line]
  simp

/-! ### The server's side -/

section Exchange
variable {s : Server} {now : Instant} {c : Remote} {a : Response}

theorem Request.exists_encode (q : Request) : ∃ t, q.encode = '\x7b' :: t ++ ['\x7d'] := by
  obtain ⟨t, ht⟩ := Json.exists_partsText '\x7d' true (q.members.map Json.memberText)
  exact ⟨t, by rw [q.encode_eq, Json.membersText, ht, List.cons_append]⟩

theorem Session.answerText_encode (s : Server) (now : Instant) (q : Request) :
    answerText s now q.encode = (some (s.dispatch now q).1, (s.dispatch now q).2) := by
  obtain ⟨t, ht⟩ := q.exists_encode
  have trimmed : Text.trim q.encode ≠ [] := by
    rw [ht, List.cons_append, Text.trim, Text.trimLeft, List.dropWhile_cons_of_neg (by decide),
      ← List.cons_append, Text.trimRight_concat rfl]
    simp
  rw [answerText, if_neg trimmed, q.decode_encode]

theorem Session.chomp_encode (q : Request) : chomp (Text.encode q.encode) = Text.encode q.encode := by
  obtain ⟨t, ht⟩ := q.exists_encode
  have brace : Text.encode ['\x7d'] = [125] := rfl
  rw [ht, Text.encode_append, brace, chomp, List.getLast?_concat, if_neg (by decide)]

theorem Session.receive_requestLine {s : Session} {q : Request} {bytes rest : Bytes}
    (ho : s.isOpen = true) (h : s.pending ++ bytes = Remote.requestLine q ++ rest) :
    receive now s bytes = receive now { s with
      pending := []
      server := (s.server.dispatch now q).2
      sent := s.sent ++ [(s.server.dispatch now q).1] } rest := by
  have line : splitLines (Text.encode q.encode ++ lineFeed :: rest) =
      (Text.encode q.encode :: (splitLines rest).1, (splitLines rest).2) :=
    splitLines_line (Text.lineFeed_notMem_encode q.lineFeed_notMem_encode) rest
  rw [Remote.requestLine, List.append_assoc, List.singleton_append] at h
  have taken (r : Bytes) : takeLine now { s with pending := r } (Text.encode q.encode) =
      { s with
        pending := r
        server := (s.server.dispatch now q).2
        sent := s.sent ++ [(s.server.dispatch now q).1] } := by
    simp [takeLine, ho, Text.decode_encode, answerText_encode]
  simp only [receive, h, line, List.nil_append, List.map_cons, List.foldl_cons, chomp_encode, taken]

theorem Session.serve_requestLine (s : Server) (now : Instant) (q : Request) :
    serve s now (Remote.requestLine q) =
      (responseLine (s.dispatch now q).1, (s.dispatch now q).2) := by
  have line : receive now { server := s } (Remote.requestLine q) = receive now
      { server := (s.dispatch now q).2, sent := [(s.dispatch now q).1] } [] :=
    receive_requestLine rfl (by rw [List.append_nil, List.nil_append])
  rw [serve, line]
  simp [receive, splitLines, finish, output]

theorem Server.exchange_eq (s : Server) (now : Instant) (q : Request) :
    s.exchange now q =
      (.received (Session.responseLine (s.dispatch now q).1), (s.dispatch now q).2) := by
  rw [exchange, Session.serve_requestLine]

/-! ### The other side -/

theorem Remote.readReply_append (c : Remote) (ha : a.Holds) (rest : Bytes) :
    c.readReply (.received (Session.responseLine a ++ rest)) = .ok a := by
  obtain ⟨t, ht⟩ := Json.exists_partsText '\x7d' true (a.members.map Json.memberText)
  have sent : Session.responseLine a ++ rest ≠ [] := by simp [Session.responseLine]
  have first : firstLine (Session.responseLine a ++ rest) = Text.encode (a.encode ++ ['\n']) := by
    rw [Session.responseLine, List.append_assoc, Text.encode_append]
    exact firstLine_line (Text.lineFeed_notMem_encode ha.lineFeed_notMem_encode) rest
  have trimmed : Text.trimRight (a.encode ++ ['\n']) = a.encode := by
    rw [Text.trimRight_lineFeed, a.encode_eq, Json.membersText, ht, ← List.cons_append,
      Text.trimRight_concat rfl]
  rw [readReply, if_neg sent, first, Text.decode_encode]
  simp only [trimmed, ha.decode_encode]
  rfl

theorem Remote.readReply_responseLine (c : Remote) (ha : a.Holds) :
    c.readReply (.received (Session.responseLine a)) = .ok a := by
  have h := c.readReply_append ha []
  rwa [List.append_nil] at h

theorem Remote.ask_responseLine (c : Remote) (q : Request) (ha : a.Holds) :
    c.ask q (.received (Session.responseLine a)) =
      if a.ok then .ok (a.data.getD .null) else .error (failureOf q a) := by
  rw [ask, c.readReply_responseLine ha]

end Exchange
end PeerShare
