import PeerShare.Listing
import PeerShare.Text.Basic

/-!
The arguments of the program. Options are written `--name value` or `--name=value`, flags `--name`,
and `--` ends both. An option may be given once, and a value must not look like an option.
-/

namespace PeerShare.CommandLine

inductive Invocation
  | startServer (listen : Option String) (memory : Bool)
  | serverStatus (registry : Option String)
  | runPeer (registry share advertise : Option String) (port : Option UInt16)
  | search (query : String) (registry : Option String) (json : Bool)
  | fetch (id : EntryId) (registry folder : Option String)
  deriving DecidableEq, Repr

inductive Usage
  | help
  | version
  | wrong
  deriving DecidableEq, Repr

structure Form where
  options : List (String × (String → Bool)) := []
  flags : List String := []
  operands : List (String → Bool) := []

structure Given where
  options : List (String × String) := []
  flags : List String := []
  operands : List String := []

def looksLikeOption (s : String) : Bool := s.toList.head? == some '-' && s != "-"

def splitValue (s : List Char) : List Char × Option (List Char) :=
  let name := s.takeWhile (· != '=')
  match s.drop name.length with
  | _ :: v => (name, some v)
  | [] => (name, none)

def hasLetter (c : Char) (a : String) : Bool := ['-', c].isPrefixOf a.toList

def isHelp (a : String) : Bool := a == "--help" || hasLetter 'h' a

def isVersion (a : String) : Bool := a == "--version" || hasLetter 'V' a

namespace Given

def option? (g : Given) (name : String) : Option String :=
  (g.options.find? (·.1 == name)).map (·.2)

def addOption (f : Form) (g : Given) (name value : String) : Except Usage Given :=
  let fits := f.options.any fun (n, fits) => n == name && fits value
  if fits ∧ (g.option? name).isNone then
    .ok { g with options := g.options ++ [(name, value)] }
  else .error .wrong

def addFlag (f : Form) (g : Given) (name : String) : Except Usage Given :=
  if f.flags.contains name ∧ ¬ g.flags.contains name then
    .ok { g with flags := g.flags ++ [name] }
  else .error .wrong

def addOperand (f : Form) (g : Given) (value : String) : Except Usage Given :=
  match f.operands[g.operands.length]? with
  | some fits =>
    if fits value then .ok { g with operands := g.operands ++ [value] } else .error .wrong
  | none => .error .wrong

def read (f : Form) (g : Given) : List String → Except Usage Given
  | [] => .ok g
  | a :: rest =>
    if isHelp a then .error .help
    else if a = "--" then rest.foldlM (addOperand f) g
    else if ¬ looksLikeOption a then do read f (← addOperand f g a) rest
    else
      let (name, value) := splitValue (a.toList.drop 2)
      let name := String.ofList name
      if ¬ "--".toList.isPrefixOf a.toList then .error .wrong
      else match value with
        | some v => do read f (← addOption f g name (String.ofList v)) rest
        | none =>
          if f.flags.contains name then do read f (← addFlag f g name) rest
          else match rest with
            | [] => .error .wrong
            | v :: rest =>
              if looksLikeOption v then .error .wrong
              else do read f (← addOption f g name v) rest

end Given

def anyText (_ : String) : Bool := true

def isPath (s : String) : Bool := s != ""

def id? (s : String) : Option UInt64 :=
  match Text.unsigned? s.toList with
  | some n => if n < UInt64.size then some (UInt64.ofNat n) else none
  | none => none

/-- A port; nought may have a minus sign. -/
def port? (s : String) : Option UInt16 :=
  match Text.signed? s.toList with
  | some (.ofNat n) => if n < UInt16.size then some (UInt16.ofNat n) else none
  | _ => none

def startForm : Form where
  options := [("listen", anyText)]
  flags := ["memory"]

def statusForm : Form where
  options := [("registry", anyText)]

def peerForm : Form where
  options := [("registry", anyText), ("share", isPath), ("advertise", anyText),
    ("port", fun s => (port? s).isSome)]

def searchForm : Form where
  options := [("registry", anyText)]
  flags := ["json"]
  operands := [anyText]

def fetchForm : Form where
  options := [("registry", anyText), ("out", isPath)]
  operands := [fun s => (id? s).isSome]

def readStart (args : List String) : Except Usage Invocation := do
  let g ← Given.read startForm {} args
  return .startServer (g.option? "listen") (g.flags.contains "memory")

def readStatus (args : List String) : Except Usage Invocation := do
  let g ← Given.read statusForm {} args
  return .serverStatus (g.option? "registry")

def readPeer (args : List String) : Except Usage Invocation := do
  let g ← Given.read peerForm {} args
  return .runPeer (g.option? "registry") (g.option? "share") (g.option? "advertise")
    ((g.option? "port").bind port?)

def readSearch (args : List String) : Except Usage Invocation := do
  let g ← Given.read searchForm {} args
  match g.operands with
  | [query] => return .search query (g.option? "registry") (g.flags.contains "json")
  | _ => throw .wrong

def readFetch (args : List String) : Except Usage Invocation := do
  let g ← Given.read fetchForm {} args
  match g.operands.map id? with
  | [some id] => return .fetch ⟨id⟩ (g.option? "registry") (g.option? "out")
  | _ => throw .wrong

def topics : List (List String) :=
  [[], ["server"], ["server", "start"], ["server", "status"], ["server", "help"], ["peer"],
    ["peer", "run"], ["peer", "help"], ["search"], ["fetch"], ["help"]]

def helpOn (topic : List String) : Usage := if topics.contains topic then .help else .wrong

def startUsage (a : String) : Usage :=
  if isVersion a then .version else if isHelp a then .help else .wrong

def groupUsage (args : List String) : Usage := if args.head?.any isHelp then .help else .wrong

def Invocation.read : List String → Except Usage Invocation
  | "server" :: "start" :: args => readStart args
  | "server" :: "status" :: args => readStatus args
  | "server" :: "help" :: topic => .error (helpOn ("server" :: topic))
  | "server" :: args => .error (groupUsage args)
  | "peer" :: "run" :: args => readPeer args
  | "peer" :: "help" :: topic => .error (helpOn ("peer" :: topic))
  | "peer" :: args => .error (groupUsage args)
  | "search" :: args => readSearch args
  | "fetch" :: args => readFetch args
  | "help" :: topic => .error (helpOn topic)
  | a :: _ => .error (startUsage a)
  | [] => .error .wrong

end PeerShare.CommandLine
