import PeerShare.Config.Load
import PeerShare.Json.Fault
import PeerShare.Registry.Error

/-!
Failures of a registry server and of an exchange with one.
-/

namespace PeerShare

inductive ServerError
  | io (place : String) (cause : IoCause)
  | store (e : StoreError)
  | catalog (e : CatalogError)
  | config (e : ConfigError)
  | json (f : Json.Fault)
  | protocol (message : String)
  | unreachable (address reason : String)
  | timeout (address : String) (millis : Nat)
  deriving DecidableEq, Repr

def ServerError.message : ServerError → String
  | .io place cause => s!"I/O error at {place}: {cause.message}"
  | .store e => s!"store error: {e.message}"
  | .catalog e => s!"catalog error: {e.message}"
  | .config e => s!"config error: {e.message}"
  | .json f => s!"JSON error: {f.message}"
  | .protocol message => s!"registry protocol error: {message}"
  | .unreachable address reason => s!"registry is not reachable at {address}: {reason}"
  | .timeout address millis => s!"registry at {address} did not answer within {millis} ms"

def ServerError.kind : ServerError → String
  | .io .. => "Io"
  | .store e => "Store." ++ e.kind
  | .catalog e => "Catalog." ++ e.kind
  | .config e => "Config." ++ e.kind
  | .json _ => "Json"
  | .protocol _ => "Protocol"
  | .unreachable .. => "Unreachable"
  | .timeout .. => "Timeout"

end PeerShare
