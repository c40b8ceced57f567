import PeerShare.Disk.Replace
import PeerShare.Registry.Error
import PeerShare.Registry.Snapshot

/-!
The store of the registry: a table in memory, and for a store with a file a snapshot of that table
on disk. A statement is applied to a copy of the table; the copy is saved if the statement changed
rows, and only a copy that has been saved takes the place of the table. So memory and file agree,
and a statement that fails leaves both as they were.
-/

namespace PeerShare

structure Store where
  table : Table := {}
  /-- The snapshot file; a store without one forgets. -/
  file : Option FilePath := none
  disk : Disk := {}
  format : Snapshot.Format := Snapshot.Format.yaml

instance : Inhabited Store := ⟨{}⟩

namespace Store

def aside (p : FilePath) : FilePath := p.withFileName (p.fileName?.getD "registry.yaml" ++ ".tmp")

def save (format : Snapshot.Format) (p : FilePath) (t : Table) (d : Disk) :
    Except StoreError Unit × Disk :=
  match format.render (Snapshot.ofTable t) with
  | .error reason => (.error (.encoding reason), d)
  | .ok text =>
    match d.replaceFile p (aside p) (Text.encode text) with
    | (none, d) => (.ok (), d)
    | (some b, d) => (.error (.io b.path b.cause), d)

def create (format : Snapshot.Format) (p : FilePath) (d : Disk) : Except StoreError Store × Disk :=
  match d.createParent p with
  | .error b => (.error (.io b.path b.cause), d)
  | .ok d =>
    match save format p Table.empty d with
    | (.ok (), d) => (.ok { file := some p, disk := d, format := format }, d)
    | (.error e, d) => (.error e, d)

/-- What stands for the words of a snapshot's syntax. -/
def syntaxReason : String := "<yaml>"

def load (format : Snapshot.Format) (p : FilePath) (d : Disk) :
    Except Halt (Except StoreError Table) :=
  match d.readText p with
  | .error e => .ok (.error (.io p e))
  | .ok text =>
    match format.read text with
    | none => .ok (.error (.parse p syntaxReason))
    | some s => s.toTable.map .ok

def openFile (format : Snapshot.Format) (p : FilePath) (d : Disk) :
    Except Halt (Except StoreError Store × Disk) :=
  if d.pathExists p then do
    match ← load format p d with
    | .ok t => return (.ok { table := t, file := some p, disk := d, format := format }, d)
    | .error e => return (.error e, d)
  else return create format p d

def commit (s : Store) (t : Table) : Except StoreError Unit × Store :=
  match s.file with
  | none => (.ok (), { s with table := t })
  | some p =>
    match save s.format p t s.disk with
    | (.ok (), d) => (.ok (), { s with table := t, disk := d })
    | (.error e, d) => (.error e, { s with disk := d })

def upsert (s : Store) (owner : PeerId) (o : Offer) (now : Instant) :
    Except Halt (Except StoreError Listing × Store) := do
  let (r, t) ← s.table.upsert owner o now
  let (done, s) := s.commit t
  return (done.map fun _ => r, s)

def change (s : Store) (statement : Table → Nat × Table) :
    Except StoreError Nat × Store :=
  let (n, t) := statement s.table
  if n = 0 then (.ok 0, s)
  else
    let (done, s) := s.commit t
    (done.map fun _ => n, s)

def deleteOwned (s : Store) (fileName : String) (owner : PeerId) :
    Except StoreError Nat × Store :=
  s.change (·.deleteOwned fileName owner)

def deleteOwner (s : Store) (owner : PeerId) :
    Except StoreError Nat × Store :=
  s.change (·.deleteOwner owner)

def deleteSeenBefore (s : Store) (cutoff : Instant) :
    Except StoreError Nat × Store :=
  s.change (·.deleteSeenBefore cutoff)

def touchOwner (s : Store) (owner : PeerId) (now : Instant) :
    Except StoreError Nat × Store :=
  s.change (·.touchOwner owner now)

end Store

end PeerShare
