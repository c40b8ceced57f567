import PeerShare.Server.Basic
import PeerShare.Text.Basic

/-!
One connection to a registry server. The bytes that arrive are cut into lines; every line that is
not blank gets one answer, in order, from the registry that the lines before it have left. A line
that is no request is answered too and changes nothing; a line that is not UTF-8 ends the
connection.
-/

namespace PeerShare

def lineFeed : UInt8 := 10

def carriageReturn : UInt8 := 13

structure Session where
  server : Server
  /-- Bytes of a line whose end has not arrived. -/
  pending : Bytes := []
  sent : List Response := []
  isOpen : Bool := true

namespace Session

def splitLines : Bytes → List Bytes × Bytes
  | [] => ([], [])
  | b :: r =>
    let (lines, rest) := splitLines r
    if b = lineFeed then ([] :: lines, rest)
    else match lines with
      | [] => ([], b :: rest)
      | l :: ls => ((b :: l) :: ls, rest)

/-- A carriage return before the line feed belongs to the end of the line. -/
def chomp (line : Bytes) : Bytes :=
  if line.getLast? = some carriageReturn then line.dropLast else line

def refusal (f : Json.Fault) : Response :=
  .failure .badRequest ("invalid request JSON: " ++ f.message)

def answerText (s : Server) (now : Instant) (line : List Char) : Option Response × Server :=
  if Text.trim line = [] then (none, s)
  else match Request.decode line with
    | .error f => (some (refusal f), s)
    | .ok q =>
      let (a, s) := s.dispatch now q
      (some a, s)

def takeLine (now : Instant) (s : Session) (line : Bytes) : Session :=
  if ¬ s.isOpen then s
  else match Text.decode line with
    | .error _ => { s with isOpen := false }
    | .ok text =>
      let (a, server) := answerText s.server now text
      { s with server := server, sent := s.sent ++ a.toList }

def receive (now : Instant) (s : Session) (bytes : Bytes) : Session :=
  let (lines, rest) := splitLines (s.pending ++ bytes)
  (lines.map chomp).foldl (takeLine now) { s with pending := rest }

/-- The other side has sent all it will send; a last line may lack its end. -/
def finish (now : Instant) (s : Session) : Session :=
  let s := if s.pending = [] then s else takeLine now { s with pending := [] } s.pending
  { s with isOpen := false }

def responseLine (a : Response) : Bytes := Text.encode a.encode ++ [lineFeed]

def output (s : Session) : Bytes := s.sent.flatMap responseLine

def serve (s : Server) (now : Instant) (bytes : Bytes) : Bytes × Server :=
  let e := finish now (receive now { server := s } bytes)
  (e.output, e.server)

end Session

end PeerShare
