import PeerShare.Json.Value
import PeerShare.Text.Quoted

/-!
Why a text is not the JSON that was asked for: it is no JSON at all, or a value in it has the wrong
shape.
-/

namespace PeerShare.Json

inductive Found
  | null
  | bool (b : Bool)
  | num (n : Number)
  | str (s : String)
  | sequence
  | map
  deriving DecidableEq, Repr

def Found.message : Found → String
  | .null => "null"
  | .bool b => s!"boolean `{b}`"
  | .num (.float x) => s!"floating point `{x.render}`"
  | .num n => s!"integer `{String.ofList n.text}`"
  | .str s => s!"string {Text.quoted s}"
  | .sequence => "sequence"
  | .map => "map"

def found : Json → Found
  | .null => .null
  | .bool b => .bool b
  | .num n => .num n
  | .str s => .str s
  | .arr _ => .sequence
  | .obj _ => .map

inductive Fault
  | malformed
  | invalidType (found : Found) (expected : String)
  | invalidValue (found : Found) (expected : String)
  | invalidLength (length : Nat) (expected : String)
  | missingField (name : String)
  | duplicateField (name : String)
  | unknownVariant (name : String) (known : List String)
  deriving DecidableEq, Repr

def choices (known : List String) : String :=
  let marked := known.map fun k => s!"`{k}`"
  match marked with
  | [a] => a
  | [a, b] => s!"{a} or {b}"
  | _ => "one of " ++ String.intercalate ", " marked

def Fault.message : Fault → String
  | .malformed => "<syntax>"
  | .invalidType f e => s!"invalid type: {f.message}, expected {e}"
  | .invalidValue f e => s!"invalid value: {f.message}, expected {e}"
  | .invalidLength n e => s!"invalid length {n}, expected {e}"
  | .missingField n => s!"missing field `{n}`"
  | .duplicateField n => s!"duplicate field `{n}`"
  | .unknownVariant n known => s!"unknown variant `{n}`, expected {choices known}"

end PeerShare.Json
