import PeerShare.Disk.Replace
import PeerShare.Peer.Error
import PeerShare.Text.Basic

/-!
The identity of a peer is kept in a file of its own. A file with text in it is read and never
written again; one that is missing or blank is replaced by a fresh identity.
-/

namespace PeerShare.Identity

def ofText? (text : List Char) : Option PeerId :=
  let s := Text.trim text
  if s = [] then none else some ⟨String.ofList s⟩

def aside (p : FilePath) : FilePath := p.withExtension "tmp"

def fileText (id : PeerId) : Bytes := Text.encode (id.text.toList ++ ['\n'])

def save (p : FilePath) (id : PeerId) (d : Disk) : Option Disk.Blame × Disk :=
  match d.createParent p with
  | .error b => (some b, d)
  | .ok d => d.replaceFile p (aside p) (fileText id)

def create (p : FilePath) (fresh : PeerId) (d : Disk) : Except PeerError PeerId × Disk :=
  match save p fresh d with
  | (none, d) => (.ok fresh, d)
  | (some b, d) => (.error (.io b.path b.cause), d)

def loadOrCreate (p : FilePath) (fresh : PeerId) (d : Disk) : Except PeerError PeerId × Disk :=
  match d.readText p with
  | .ok text =>
    match ofText? text with
    | some id => (.ok id, d)
    | none => create p fresh d
  | .error .notFound => create p fresh d
  | .error e => (.error (.io p e), d)

end PeerShare.Identity
