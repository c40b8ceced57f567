import PeerShare.Disk.Path
import PeerShare.Failure

/-!
Failures of the store and of the operations of the registry, with their words.
-/

namespace PeerShare

inductive StoreError
  | io (path : FilePath) (cause : IoCause)
  | encoding (reason : String)
  | parse (path : FilePath) (reason : String)
  | unavailable (message : String)
  deriving DecidableEq, Repr

def StoreError.message : StoreError → String
  | .io path cause => s!"I/O error at {path.text}: {cause.message}"
  | .encoding reason => s!"YAML serialization error: {reason}"
  | .parse path reason => s!"failed to parse store snapshot at {path.text}: {reason}"
  | .unavailable message => s!"store unavailable: {message}"

def StoreError.kind : StoreError → String
  | .io .. => "Io"
  | .encoding _ => "Yaml"
  | .parse .. => "Parse"
  | .unavailable _ => "Unavailable"

inductive CatalogError
  | store (e : StoreError)
  | invalidFileName (name : String)
  | unavailable (message : String)
  deriving DecidableEq, Repr

namespace CatalogError

def message : CatalogError → String
  | .store e => s!"store error: {e.message}"
  | .invalidFileName name => s!"invalid file name '{name}'"
  | .unavailable message => s!"registry unavailable: {message}"

def kind : CatalogError → String
  | .store e => "Store." ++ e.kind
  | .invalidFileName _ => "InvalidFileName"
  | .unavailable _ => "Unavailable"

def isTransient : CatalogError → Bool
  | .store _ | .unavailable _ => true
  | .invalidFileName _ => false

end CatalogError

end PeerShare
