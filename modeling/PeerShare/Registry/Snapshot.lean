import PeerShare.Table
import PeerShare.Time.Rfc3339
import PeerShare.Yaml.Printer

/-!
The table as it is kept in a file: a version, the next number and the rows, without the index. A
`Format` turns snapshots into text and back; `Format.yaml` is the one in use.
-/

namespace PeerShare

structure Snapshot where
  version : Nat
  nextId : EntryId
  entries : List Listing
  deriving DecidableEq

namespace Snapshot

def currentVersion : Nat := 1

def ofTable (t : Table) : Snapshot := ⟨currentVersion, t.nextId, t.listings⟩

def addEntry (t : Table) (r : Listing) : Except Halt Table :=
  match r.id.next? with
  | none => .error .idsExhausted
  | some next => .ok { t.add r with nextId := max t.nextId next }

/-- Entries are taken one after the other; of equal numbers the last row stays, and of equal offers
the last one has the index. -/
def toTable (s : Snapshot) : Except Halt Table :=
  s.entries.foldlM addEntry { nextId := s.nextId }

/-! ### Text -/

structure Format where
  /-- The text, or why there is none. -/
  render : Snapshot → Except String (List Char)
  read : List Char → Option Snapshot

def decimal (n : Nat) : List Char := Nat.toDigits 10 n

def fieldLine (indent : Nat) (name : String) (value : List Char) : List Char :=
  List.replicate indent ' ' ++ name.toList ++ ':' :: ' ' :: value ++ ['\n']

def entryColumn : Nat := 2

def textLine (name : String) (s : String) : List Char :=
  List.replicate entryColumn ' ' ++ Yaml.memberLine entryColumn name s.toList

def renderEntry (r : Listing) : List Char :=
  '-' :: ' ' :: fieldLine 0 "id" (decimal r.id.val.toNat) ++
    textLine "file_name" r.offer.fileName ++
    textLine "owner_peer_id" r.owner.text ++
    textLine "owner_address" r.offer.address ++
    fieldLine entryColumn "owner_port" (decimal r.offer.port.toNat) ++
    textLine "last_seen" r.lastSeen.render

def render (s : Snapshot) : List Char :=
  fieldLine 0 "version" (decimal s.version) ++ fieldLine 0 "next_id" (decimal s.nextId.val.toNat) ++
    if s.entries = [] then fieldLine 0 "entries" ['[', ']']
    else "entries:\n".toList ++ s.entries.flatMap renderEntry

def field? (name : String) (fields : List (String × Yaml.Node)) : Option Yaml.Node :=
  (fields.find? (·.1 == name)).map (·.2)

def entryFields : List String :=
  ["id", "file_name", "owner_peer_id", "owner_address", "owner_port", "last_seen"]

def readEntry (d : Yaml.Document) (n : Yaml.Node) : Option Listing := do
  let fields ← d.fields? entryFields n
  let id ← (← field? "id" fields).unsigned? UInt64.size
  let fileName ← (← field? "file_name" fields).text?
  let owner ← (← field? "owner_peer_id" fields).text?
  let address ← (← field? "owner_address" fields).text?
  let port ← (← field? "owner_port" fields).unsigned? UInt16.size
  let lastSeen ← Instant.read (← (← field? "last_seen" fields).text?).toList
  return ⟨⟨UInt64.ofNat id⟩, ⟨owner⟩, ⟨fileName, address, UInt16.ofNat port⟩, lastSeen⟩

def read (text : List Char) : Option Snapshot := do
  let d ← Yaml.Document.read text
  let fields ← d.rootFields? ["version", "next_id", "entries"]
  let version ← (← field? "version" fields).unsigned? UInt32.size
  let nextId ← (← field? "next_id" fields).unsigned? UInt64.size
  let entries ← match field? "entries" fields with
    | some n => (← d.items? n).mapM (readEntry d)
    | none => some []
  return ⟨version, ⟨UInt64.ofNat nextId⟩, entries⟩

def Format.yaml : Format := ⟨fun s => .ok (Snapshot.render s), Snapshot.read⟩

end Snapshot

end PeerShare
