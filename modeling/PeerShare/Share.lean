import PeerShare.Collection
import PeerShare.Disk.Basic
import PeerShare.Listing

/-!
The folder whose files a peer offers. A scan lists the regular files directly in it whose names are
file names and do not begin with a point, a link to a regular file like the file. It does not try
whether they can be opened.
-/

namespace PeerShare.Share

def isHidden (name : String) : Bool := name.toList.head? == some '.'

def isListed (d : Disk) (folder : FilePath) (name : String) : Bool :=
  !isHidden name && isFileName name && d.isFile (folder.child name)

def namesIn (d : Disk) (place : List Name) : List String :=
  (d.namesIn place).filterMap fun n => (Text.decode n).toOption.map String.ofList

def scan (d : Disk) (folder : FilePath) : Except IoCause Names := do
  match ← d.locate folder with
  | ⟨place, some .folder⟩ =>
    return Names.ofList ((namesIn d place).filter (isListed d folder))
  | ⟨_, some _⟩ => throw .notDirectory
  | ⟨_, none⟩ => throw .notFound

def openOffered? (d : Disk) (folder : FilePath) (name : String) : Option Bytes :=
  if isHidden name ∨ ¬ isFileName name then none
  else if d.isFile (folder.child name) then (d.openFile (folder.child name)).toOption
  else none

end PeerShare.Share
