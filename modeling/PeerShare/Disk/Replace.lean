import PeerShare.Disk.Basic

/-!
Replacing a file so that a reader finds either the old content or the new: the new content is
written to a file beside it, protected, and moved over it. The first step that fails ends the
replacement, and what the steps before it did stays.
-/

namespace PeerShare.Disk

inductive Step
  | write (p : FilePath) (content : Bytes)
  | protect (p : FilePath)
  | move (p q : FilePath)
  deriving DecidableEq

def Step.place : Step → FilePath
  | .write p _ => p
  | .protect p => p
  | .move _ q => q

def Step.apply (d : Disk) : Step → Except IoCause Disk
  | .write p content => d.writeFile p content
  | .protect p => d.protectFile p
  | .move p q => d.renameFile p q

def Step.remains (d : Disk) : Step → Disk
  | .write p content => d.spill p content
  | _ => d

structure Blame where
  path : FilePath
  cause : IoCause
  deriving DecidableEq

def runSteps (d : Disk) : List Step → Option Blame × Disk
  | [] => (none, d)
  | s :: rest =>
    match s.apply d with
    | .ok d => d.runSteps rest
    | .error e => (some ⟨s.place, e⟩, s.remains d)

def createParent (d : Disk) (p : FilePath) : Except Blame Disk :=
  match p.parent? with
  | none => .ok d
  | some folder =>
    if folder.text == "" then .ok d
    else match d.createFolders folder with
      | .ok d => .ok d
      | .error e => .error ⟨folder, e⟩

def replaceSteps (p aside : FilePath) (content : Bytes) : List Step :=
  [.write aside content, .protect aside, .move aside p]

def replaceFile (d : Disk) (p aside : FilePath) (content : Bytes) : Option Blame × Disk :=
  d.runSteps (replaceSteps p aside content)

end PeerShare.Disk
