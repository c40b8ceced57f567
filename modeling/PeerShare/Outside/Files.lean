import PeerShare.Disk.Basic

/-!
Between the disk of the machine and `Disk`: paths are looked up before a computation, and what it
has changed is written afterwards.
-/

namespace PeerShare.Outside

def pathOf (segments : List FilePath.Segment) : FilePath :=
  ⟨String.ofList (segments.flatMap fun s => '/' :: s)⟩

def nodeAt (p : FilePath) : IO (Option Node) := do
  try
    match (← ((← IO.currentDir) / p.text).metadata).type with
    | .dir => return some .folder
    | .file => return some (.file [] Disk.defaultMode)
    | _ => return none
  catch _ => return none

def contentAt (p : FilePath) : IO Bytes := do
  return (← IO.FS.readBinFile ((← IO.currentDir) / p.text)).toList

def look (d : Disk) (p : FilePath) : IO Disk := do
  let mut d := d
  let n := p.segments.length
  for i in List.range n do
    let q := pathOf (p.segments.take (i + 1))
    match ← nodeAt q with
    | some (.file _ mode) =>
      let content ← if i + 1 = n then contentAt q else pure []
      d := d.set q.parts (.file content mode)
      break
    | some node => d := d.set q.parts node
    | none => break
  return d

def lookAll (d : Disk) (ps : List FilePath) : IO Disk := ps.foldlM look d

def lookInto (d : Disk) (p : FilePath) : IO Disk := do
  let mut d ← look d p
  try
    for e in ← ((← IO.currentDir) / p.text).readDir do
      let q := p.child e.fileName
      match ← nodeAt q with
      | some node => d := d.set q.parts node
      | none => pure ()
  catch _ => pure ()
  return d

def textOf (place : List Name) : Option FilePath :=
  (place.mapM fun n => (Text.decode n).toOption).map pathOf

def writeNode (p : FilePath) : Node → IO Unit
  | .folder => do IO.FS.createDirAll ((← IO.currentDir) / p.text)
  | .link _ => pure ()
  | .file content mode => do
    let aside := (← IO.currentDir) / (p.text ++ ".new")
    IO.FS.writeBinFile aside ⟨content.toArray⟩
    if mode = Disk.privateMode then
      IO.setAccessRights aside ⟨⟨true, true, false⟩, {}, {}⟩
    IO.FS.rename aside ((← IO.currentDir) / p.text)

def writeChanges (old new : Disk) : IO Unit := do
  for (place, node) in new.nodes do
    if Keyed.get? place old.nodes ≠ some node then
      match textOf place with
      | some p => writeNode p node
      | none => pure ()

end PeerShare.Outside
