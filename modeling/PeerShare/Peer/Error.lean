import PeerShare.Listing
import PeerShare.Registry.Error

/-!
Failures of a file transfer between two peers, of a running peer and of fetching a file.
-/

namespace PeerShare

inductive TransferError
  | connect (address : String) (cause : IoCause)
  | connectTimeout (address : String) (millis : Nat)
  | responseTimeout (address : String) (millis : Nat)
  | requestTimeout (millis : Nat)
  /-- The other peer closed without a header. -/
  | notOffered (name : String)
  | invalidFileName (name : String)
  | nameTooLong (length : Nat)
  | nameEncoding
  | io (path : FilePath) (cause : IoCause)
  | stream (cause : IoCause)
  deriving DecidableEq, Repr

def TransferError.message : TransferError → String
  | .connect address cause => s!"cannot connect to peer at {address}: {cause.message}"
  | .connectTimeout address ms => s!"peer at {address} did not accept within {ms} ms"
  | .responseTimeout address ms => s!"peer at {address} sent no header within {ms} ms"
  | .requestTimeout ms => s!"requester sent no file name within {ms} ms"
  | .notOffered name => s!"peer does not offer '{name}'"
  | .invalidFileName name => s!"invalid file name '{name}'"
  | .nameTooLong length => s!"file name is {length} bytes; the wire limit is 65535"
  | .nameEncoding => "file name is not valid UTF-8"
  | .io path cause => s!"I/O error at {path.text}: {cause.message}"
  | .stream cause => s!"transfer stream error: {cause.message}"

def TransferError.kind : TransferError → String
  | .connect .. => "Connect"
  | .connectTimeout .. => "ConnectTimeout"
  | .responseTimeout .. => "ResponseTimeout"
  | .requestTimeout _ => "RequestTimeout"
  | .notOffered _ => "NotOffered"
  | .invalidFileName _ => "InvalidFileName"
  | .nameTooLong _ => "NameTooLong"
  | .nameEncoding => "NameEncoding"
  | .io .. => "Io"
  | .stream _ => "Stream"

inductive PeerError
  | io (path : FilePath) (cause : IoCause)
  | catalog (e : CatalogError)
  | transfer (e : TransferError)
  | notFound (id : EntryId)
  | join (task reason : String)
  deriving DecidableEq, Repr

def PeerError.message : PeerError → String
  | .io path cause => s!"I/O error at {path.text}: {cause.message}"
  | .catalog e => e.message
  | .transfer e => e.message
  | .notFound id => s!"no live listing with id {id.val.toNat}"
  | .join task reason => s!"{task} task join failure: {reason}"

def PeerError.kind : PeerError → String
  | .io .. => "Io"
  | .catalog e => "Catalog." ++ e.kind
  | .transfer e => "Transfer." ++ e.kind
  | .notFound _ => "NotFound"
  | .join .. => "Join"

end PeerShare
