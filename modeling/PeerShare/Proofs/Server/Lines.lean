import PeerShare.Proofs.Remote.Answers

/-!
What the two sides of a registry connection say to each other is heard as it was said. A request is
one line, from which the server reads that request whatever came with it; an answer is one line,
from which the client reads that answer whatever comes after it.
-/

namespace PeerShare
open Session (responseLine chomp)

theorem Request.exists_line (q : Request) : ∃ line, Remote.requestLine q = line ++ [lineFeed] ∧
    lineFeed ∉ line ∧ Text.decode (chomp line) = .ok q.encode := by
  refine ⟨_, rfl, Text.lineFeed_notMem_encode q.lineFeed_notMem_encode, ?_⟩
  rw [Session.chomp_encode, Text.decode_encode]

/-- A request is a JSON object on one line, from which it is read again; a session that has got the
line, in whatever pieces and with whatever after it, has dispatched that request, added the answer
to those before it and kept the rest. An answer is a JSON object on one line too, and whoever gets
the line, with whatever after it, reads that answer. -/
theorem messages_are_read_as_sent :
    (∀ q : Request, ∃ line, Remote.requestLine q = line ++ [lineFeed] ∧ lineFeed ∉ line ∧
      Text.decode (chomp line) = .ok q.toJson.chars ∧ Request.decode q.toJson.chars = .ok q) ∧
    (∀ (s : Session) (now : Instant) (q : Request) (bytes rest : Bytes), s.isOpen = true →
      s.pending ++ bytes = Remote.requestLine q ++ rest →
      Session.receive now s bytes = Session.receive now { s with
        pending := []
        server := (s.server.dispatch now q).2
        sent := s.sent ++ [(s.server.dispatch now q).1] } rest) ∧
    ∀ (s : Server) (now : Instant) (q : Request), ∃ line,
      responseLine (s.dispatch now q).1 = line ++ [lineFeed] ∧ lineFeed ∉ line ∧
      Text.decode line = .ok (s.dispatch now q).1.toJson.chars ∧
      ∀ (c : Remote) (rest : Bytes),
        c.readReply (.received (line ++ lineFeed :: rest)) = .ok (s.dispatch now q).1 := by
  refine ⟨fun q => ?_, fun s now q bytes rest ho h => Session.receive_requestLine ho h,
    fun s now q => ?_⟩
  · obtain ⟨line, hline, hfeed, hdecode⟩ := q.exists_line
    exact ⟨line, hline, hfeed, hdecode, q.decode_encode⟩
  · have hs := s.holds_dispatch now q
    refine ⟨_, rfl, Text.lineFeed_notMem_encode hs.lineFeed_notMem_encode, Text.decode_encode _,
      fun c rest => ?_⟩
    have h := c.readReply_append hs rest
    rwa [responseLine, List.append_assoc] at h

theorem messages_are_read_as_sent_cut :
    let q : Request := .list ⟨"\"anna\"\n"⟩ ⟨"a\r\u2028b", "\\", 65535⟩
    let server : Server :=
      { registry := {}, listen := "127.0.0.1:7700", reaperInterval := Span.second }
    let s : Session := { server := server, pending := (Remote.requestLine q).take 9 }
    let bytes := (Remote.requestLine q).drop 9 ++ [123]
    s.isOpen = true ∧ s.pending ++ bytes = Remote.requestLine q ++ [123] ∧
      (Session.receive default s bytes).sent = [(server.dispatch default q).1] ∧
      (Session.receive default s bytes).pending = [123] := by
  intro q server s bytes
  have h : s.pending ++ bytes = Remote.requestLine q ++ [123] := by
    rw [← List.append_assoc, List.take_append_drop]
  refine ⟨rfl, h, ?_⟩
  rw [messages_are_read_as_sent.2.1 s default q bytes [123] rfl h]
  exact ⟨rfl, rfl⟩

end PeerShare
