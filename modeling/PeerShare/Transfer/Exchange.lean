import PeerShare.Failure
import PeerShare.Share
import PeerShare.Transfer.Frame

/-!
Both ends of a transfer. `respond` is what the owner of a shared folder sends back for what it is
sent; `download` asks an owner for a file and keeps what comes in a folder. A content that ends too
early is kept, and the report says how much of it came.
-/

namespace PeerShare

namespace Transfer

/-- The answer to all that a requester sends: a file that is offered, or nothing. -/
def respond (d : Disk) (folder : FilePath) (request : Bytes) : Bytes :=
  match (Frame.readName request).1 with
  | .error _ => []
  | .ok name =>
    match Share.openOffered? d folder name with
    | none => []
    | some content => Frame.writeContent content

structure Report where
  fileName : String
  path : FilePath
  declared : Nat
  received : Nat
  deriving DecidableEq, Repr

def Report.isComplete (r : Report) : Bool := r.declared = r.received

def keep (name : String) (folder : FilePath) (declared : Nat) (content : Bytes) (d : Disk) :
    Except TransferError Report × Disk :=
  match d.createFolders folder with
  | .error e => (.error (.io folder e), d)
  | .ok d =>
    let path := folder.child name
    let kept := content.take declared
    match d.writeFile path kept with
    | .error e => (.error (.io path e), d)
    | .ok d => (.ok ⟨name, path, declared, kept.length⟩, d)

def download (o : Offer) (folder : FilePath) (timeout : Span) (answer : Delivery) (d : Disk) :
    Except TransferError Report × Disk :=
  if ¬ isFileName o.fileName then (.error (.invalidFileName o.fileName), d)
  else match answer with
    | .refused cause => (.error (.connect o.endpoint cause), d)
    | .unanswered => (.error (.connectTimeout o.endpoint timeout.wholeMillis), d)
    | answer =>
      match Frame.writeName o.fileName with
      | .error e => (.error e, d)
      | .ok _ =>
        match answer with
        | .received bytes =>
          match Frame.readHeader bytes with
          | none => (.error (.notOffered o.fileName), d)
          | some (declared, content) => keep o.fileName folder declared content d
        | _ => (.error (.responseTimeout o.endpoint timeout.wholeMillis), d)

def answerOf (owner : Disk) (folder : FilePath) (o : Offer) : Delivery :=
  match Frame.writeName o.fileName with
  | .ok request => .received (respond owner folder request)
  | .error _ => .silence

end Transfer

end PeerShare
