import PeerShare.Peer.Error
import PeerShare.Text.Utf8

/-!
What goes over a transfer connection. The requester sends a name: its length in two bytes, the high
one first, and its UTF-8 bytes. The owner answers with a length in eight bytes and a content, or
closes without an answer.
-/

namespace PeerShare.Frame

def bigEndian : (width : Nat) → Nat → Bytes
  | 0, _ => []
  | width + 1, n => UInt8.ofNat (n / Nat.pow 256 width % 256) :: bigEndian width n

def ofBigEndian (bytes : Bytes) : Nat := bytes.foldl (fun n b => n * 256 + b.toNat) 0

def nameLimit : Nat := 65535

def writeName (name : String) : Except TransferError Bytes :=
  let bytes := Text.bytes name
  if nameLimit < bytes.length then .error (.nameTooLong bytes.length)
  else .ok (bigEndian 2 bytes.length ++ bytes)

/-- The name at the beginning of a stream, and the bytes that are left. A stream that ends inside
the frame is used up. -/
def readName : Bytes → Except TransferError String × Bytes
  | a :: b :: r =>
    let length := ofBigEndian [a, b]
    if r.length < length then (.error (.stream .earlyEnd), [])
    else match Text.decode (r.take length) with
      | .ok name => (.ok (String.ofList name), r.drop length)
      | .error _ => (.error .nameEncoding, r.drop length)
  | _ => (.error (.stream .unexpectedEnd), [])

def writeContent (content : Bytes) : Bytes := bigEndian 8 content.length ++ content

def readHeader (bytes : Bytes) : Option (Nat × Bytes) :=
  if bytes.length < 8 then none else some (ofBigEndian (bytes.take 8), bytes.drop 8)

end PeerShare.Frame
