import PeerShare.Disk.Basic
import PeerShare.Text.Basic
import PeerShare.Time.Span
import PeerShare.Yaml.Typed

/-!
Where a program keeps its files below a home directory, and reading a configuration file. A file
that is missing or blank is one in which every setting has its default, and a setting that is left
out has its default too.
-/

namespace PeerShare

namespace Home

def root (home : FilePath) : FilePath := home.child ".catalog"
def serverConfig (home : FilePath) : FilePath := (root home).child "server.yaml"
def peerConfig (home : FilePath) : FilePath := (root home).child "peer.yaml"
def store (home : FilePath) : FilePath := (root home).child "registry.yaml"
def identity (home : FilePath) : FilePath := (root home).child "peer_id"
def share (home : FilePath) : FilePath := (root home).child "share"
def downloads (home : FilePath) : FilePath := (root home).child "downloads"

def all (home : FilePath) : List (String × FilePath) :=
  [("root", root home), ("server_config", serverConfig home), ("peer_config", peerConfig home),
    ("store", store home), ("identity", identity home), ("share", share home),
    ("downloads", downloads home)]

end Home

inductive ConfigError
  | io (path : FilePath) (cause : IoCause)
  | parse (path : FilePath) (reason : String)
  | homeNotFound
  deriving DecidableEq, Repr

def ConfigError.message : ConfigError → String
  | .io path cause => s!"I/O error reading config {path.text}: {cause.message}"
  | .parse path reason => s!"failed to parse config at {path.text}: {reason}"
  | .homeNotFound => "cannot determine home directory; set $HOME or equivalent"

def ConfigError.kind : ConfigError → String
  | .io .. => "Io"
  | .parse .. => "Parse"
  | .homeNotFound => "HomeNotFound"

namespace Config

/-- What stands for the words of a configuration's syntax. -/
def syntaxReason : String := "<yaml>"

def load (read : List Char → Option α) (standard : α) (p : FilePath) (d : Disk) :
    Except ConfigError α :=
  match d.readText p with
  | .error .notFound => .ok standard
  | .error e => .error (.io p e)
  | .ok text =>
    if Text.trim text = [] then .ok standard
    else match read text with
      | some c => .ok c
      | none => .error (.parse p syntaxReason)

abbrev Settings := List (String × Yaml.Node)

def settings (names : List String) (text : List Char) : Option Settings :=
  (Yaml.Document.read text).bind (·.rootFields? names)

def setting (s : Settings) (name : String) (read : Yaml.Node → Option α) (standard : α) :
    Option α :=
  match s.find? (·.1 == name) with
  | some (_, n) => read n
  | none => some standard

def textSetting (s : Settings) (name standard : String) : Option String :=
  setting s name (·.text?) standard

def numberSetting (s : Settings) (name : String) (standard : UInt64) : Option UInt64 :=
  setting s name (fun n => (n.unsigned? UInt64.size).map UInt64.ofNat) standard

def pathSetting (s : Settings) (name : String) : Option (Option FilePath) :=
  setting s name (fun n => n.optionalText?.map (·.map FilePath.mk)) none

/-- Periods and timeouts are at least a second long. -/
def period (seconds : UInt64) : Span := max (Span.ofSeconds seconds) Span.second

def pathJson : Option FilePath → Json
  | some p => .str p.text
  | none => .null

end Config

end PeerShare
