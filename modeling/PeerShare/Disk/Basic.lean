import PeerShare.Collection
import PeerShare.Disk.Path
import PeerShare.Failure

/-!
Files as a program meets them: a finite map from places to files, folders and links, and the
operations that read and change it. `Faults` names operations that fail whatever they are applied
to. An operation that fails leaves the disk as it was, but for the file of a write that spills.
-/

namespace PeerShare

inductive Node
  | file (content : Bytes) (mode : Nat)
  | folder
  | link (target : FilePath)
  deriving DecidableEq

structure Faults where
  read : Option IoCause := none
  createFolders : Option IoCause := none
  write : Option IoCause := none
  /-- How many bytes a failing write puts into its file before it fails; none leaves the file. -/
  spilled : Option Nat := none
  protect : Option IoCause := none
  rename : Option IoCause := none
  deriving DecidableEq

structure Disk where
  nodes : List (List Name × Node) := []
  faults : Faults := {}
  deriving DecidableEq, Inhabited

namespace Disk

def nameLimit : Nat := 255

def pathLimit : Nat := 4095

def node? (d : Disk) (place : List Name) : Option Node :=
  if place = [] then some .folder else Keyed.get? place d.nodes

def set (d : Disk) (place : List Name) (n : Node) : Disk :=
  { d with nodes := Keyed.put place n d.nodes }

def removeTree (d : Disk) (place : List Name) : Disk :=
  { d with nodes := d.nodes.filter fun (q, _) => !place.isPrefixOf q }

/-- Where a path leads: a place, and what stands there. -/
structure Spot where
  place : List Name
  node : Option Node

def inside (name : Name) (nodes : List (List Name × Node)) : List (List Name × Node) :=
  nodes.filterMap fun (place, n) =>
    match place with
    | first :: more => if first = name then some (more, n) else none
    | [] => none

def below (d : Disk) (place : List Name) : List (List Name × Node) :=
  place.foldl (fun nodes name => inside name nodes) d.nodes

theorem get?_inside (name : Name) (place : List Name) (nodes : List (List Name × Node)) :
    Keyed.get? place (inside name nodes) = Keyed.get? (name :: place) nodes := by
  induction nodes with
  | nil => rfl
  | cons p nodes ih =>
    obtain ⟨q, n⟩ := p
    cases q with
    | nil => simpa [inside, Keyed.get?] using ih
    | cons first more =>
      by_cases h : first = name
      · by_cases hm : more = place
        · simp [inside, Keyed.get?, h, hm]
        · simpa [inside, Keyed.get?, h, hm] using ih
      · simpa [inside, Keyed.get?, h] using ih

theorem get?_below (d : Disk) (place more : List Name) :
    Keyed.get? more (d.below place) = Keyed.get? (place ++ more) d.nodes := by
  unfold below
  induction place generalizing d with
  | nil => rfl
  | cons name place ih =>
    exact (ih { d with nodes := inside name d.nodes }).trans (get?_inside name _ d.nodes)

/-- The way from `done`, below which the `nodes` stand, along the segments. Every place on it must
be a folder; a link is handed to `follow` with the way from the folder it stands in, and a link at
the end only if `last` says so. -/
def walkBy (d : Disk) (last : Bool)
    (follow : List Name → List FilePath.Segment → Except IoCause Spot) (done : List Name)
    (nodes : List (List Name × Node)) : List FilePath.Segment → Except IoCause Spot
  | [] => .ok ⟨done, if done = [] then some .folder else Keyed.get? [] nodes⟩
  | s :: rest =>
    if s = FilePath.upward then
      walkBy d last follow done.dropLast (d.below done.dropLast) rest
    else
      let name := Text.encode s
      let place := done ++ [name]
      let within := inside name nodes
      if nameLimit < name.length then .error .nameTooLong
      else match Keyed.get? [] within with
        | some .folder => walkBy d last follow place within rest
        | some (.link target) =>
          if rest = [] ∧ ¬ last then .ok ⟨place, some (.link target)⟩
          else follow (if target.isAbsolute then [] else done) (target.segments ++ rest)
        | n =>
          if rest = [] then .ok ⟨place, n⟩
          else .error (if n.isSome then .notDirectory else .notFound)

def walk (d : Disk) (last : Bool) : (links : Nat) → List Name → List FilePath.Segment →
    Except IoCause Spot
  | 0, done => walkBy d last (fun _ _ => .error .tooManyLinks) done (d.below done)
  | links + 1, done => walkBy d last (walk d last links) done (d.below done)

def linkLimit : Nat := 40

def spot (d : Disk) (last : Bool) (p : FilePath) : Except IoCause Spot :=
  if p.text.toList.contains '\x00' then .error .nulInName
  else if p.text == "" then .error .notFound
  else if pathLimit < p.text.utf8ByteSize then .error .nameTooLong
  else d.walk last linkLimit [] p.segments

def locate (d : Disk) (p : FilePath) : Except IoCause Spot := d.spot true p

def locateEntry (d : Disk) (p : FilePath) : Except IoCause Spot := d.spot false p

def isFolder (d : Disk) (p : FilePath) : Bool :=
  match d.locate p with
  | .ok ⟨_, some .folder⟩ => true
  | _ => false

def isFile (d : Disk) (p : FilePath) : Bool :=
  match d.locate p with
  | .ok ⟨_, some (.file ..)⟩ => !p.meansFolder
  | _ => false

def pathExists (d : Disk) (p : FilePath) : Bool :=
  match d.locate p with
  | .ok ⟨_, some .folder⟩ => true
  | .ok ⟨_, some _⟩ => !p.meansFolder
  | _ => false

def failIf (fault : Option IoCause) : Except IoCause Unit :=
  match fault with
  | some e => .error e
  | none => .ok ()

def readBytes (d : Disk) (p : FilePath) : Except IoCause Bytes := do
  failIf d.faults.read
  match (← d.locate p).node with
  | some (.file content _) => if p.meansFolder then throw .notDirectory else return content
  | some .folder => throw .isDirectory
  | some (.link _) | none => throw .notFound

def mayRead (mode : Nat) : Bool := mode.testBit 8

/-- Opens a file that others may have put there, with a mode that forbids it. For a program's own
files, which `readBytes` reads, that is one of the faults. -/
def openFile (d : Disk) (p : FilePath) : Except IoCause Bytes :=
  match d.locate p with
  | .ok ⟨_, some (.file _ mode)⟩ =>
    if mayRead mode then d.readBytes p else .error .permissionDenied
  | _ => d.readBytes p

def readText (d : Disk) (p : FilePath) : Except IoCause (List Char) := do
  match Text.decode (← d.readBytes p) with
  | .ok s => return s
  | .error _ => throw .notUtf8Text

def createFolder (d : Disk) (p : FilePath) : Except IoCause Disk := do
  match ← d.locateEntry p with
  | ⟨_, some _⟩ => throw .alreadyExists
  | ⟨place, none⟩ => return d.set place .folder

/-- Creates a folder after the folders on the way to it; one that exists already is no failure.
`depth` bounds how far up the way is followed. -/
def createFoldersUpTo (d : Disk) (p : FilePath) : (depth : Nat) → Except IoCause Disk
  | 0 => .error .notFound
  | depth + 1 =>
    if p.text == "" then .ok d
    else
      let orExisting (d : Disk) (e : IoCause) := if d.isFolder p then .ok d else .error e
      match d.createFolder p with
      | .ok d => .ok d
      | .error .notFound =>
        match p.parent? with
        | none => .error .notFound
        | some q => do
          let d ← d.createFoldersUpTo q depth
          match d.createFolder p with
          | .ok d => .ok d
          | .error e => orExisting d e
      | .error e => orExisting d e

def createFolders (d : Disk) (p : FilePath) : Except IoCause Disk := do
  failIf d.faults.createFolders
  d.createFoldersUpTo p (p.text.length + 1)

def defaultMode : Nat := 0o644

def privateMode : Nat := 0o600

def writeFile (d : Disk) (p : FilePath) (content : Bytes) : Except IoCause Disk := do
  failIf d.faults.write
  match ← d.locate p with
  | ⟨_, some .folder⟩ => throw .isDirectory
  | ⟨_, some (.link _)⟩ => throw .tooManyLinks
  | ⟨place, some (.file _ mode)⟩ =>
    if p.meansFolder then throw .notDirectory else return d.set place (.file content mode)
  | ⟨place, none⟩ =>
    if p.meansFolder then throw .isDirectory else return d.set place (.file content defaultMode)

def spill (d : Disk) (p : FilePath) (content : Bytes) : Disk :=
  match d.faults.spilled with
  | none => d
  | some n =>
    match ({ d with faults.write := none } : Disk).writeFile p (content.take n) with
    | .ok e => { e with faults := d.faults }
    | .error _ => d

def protectFile (d : Disk) (p : FilePath) : Except IoCause Disk := do
  failIf d.faults.protect
  match ← d.locate p with
  | ⟨place, some (.file content _)⟩ => return d.set place (.file content privateMode)
  | ⟨_, some _⟩ => return d
  | ⟨_, none⟩ => throw .notFound

def renameFile (d : Disk) (p q : FilePath) : Except IoCause Disk := do
  failIf d.faults.rename
  match ← d.locateEntry p with
  | ⟨_, none⟩ => throw .notFound
  | ⟨source, some n⟩ =>
    match ← d.locateEntry q with
    | ⟨_, some .folder⟩ => throw .isDirectory
    | ⟨target, _⟩ =>
      if p.meansFolder || q.meansFolder then throw .notDirectory
      else return (d.removeTree source).set target n

def namesIn (d : Disk) (place : List Name) : List Name :=
  d.nodes.filterMap fun (q, _) =>
    match q.getLast? with
    | some name => if q = place ++ [name] then some name else none
    | none => none

end Disk

end PeerShare
