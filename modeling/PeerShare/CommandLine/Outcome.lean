import PeerShare.CommandLine.Arguments
import PeerShare.Config.Peer
import PeerShare.Config.Server
import PeerShare.Peer.Run
import PeerShare.Text.Width

/-!
What the program prints, and its exit code: 0 for success, 1 for a failure, which is told with all
its causes, and 2 for wrong usage. Lists are printed as tables with rounded corners: a cell may have
several lines, and every column is as wide as its widest line and a blank on either side.
-/

namespace PeerShare.CommandLine

structure Outcome where
  code : Nat := 0
  out : String := ""
  err : String := ""
  deriving DecidableEq, Repr

/-! ### Tables -/

def cellLines (s : String) : List (List Char) := go s.toList
where
  go : List Char → List (List Char)
    | [] => [[]]
    | c :: r =>
      if c = '\n' then [] :: go r
      else match go r with
        | [] => [[c]]
        | l :: ls => (c :: l) :: ls

def cellWidth (s : String) : Nat := ((cellLines s).map Text.width).foldl max 0

def padRight (width : Nat) (s : List Char) : List Char :=
  s ++ List.replicate (width - Text.width s) ' '

def rule (left cross right : Char) (widths : List Nat) : List Char :=
  left :: List.intercalate [cross] (widths.map fun w => List.replicate (w + 2) '─') ++ [right]

def rowLine (widths : List Nat) (cells : List (List Char)) : List Char :=
  let padded := (widths.zip cells).map fun (w, c) => ' ' :: padRight w c ++ [' ']
  '│' :: List.intercalate ['│'] padded ++ ['│']

def rowLines (widths : List Nat) (row : List String) : List (List Char) :=
  let cells := row.map cellLines
  let height := (cells.map List.length).foldl max 1
  (List.range height).map fun i => rowLine widths (cells.map fun ls => ls.getD i [])

def columnWidths (header : List String) (rows : List (List String)) : List Nat :=
  rows.foldl (fun ws row => ws.zipWith max (row.map cellWidth)) (header.map cellWidth)

def renderTable (header : List String) (rows : List (List String)) : String :=
  let ws := columnWidths header rows
  let lines := rule '╭' '┬' '╮' ws :: rowLines ws header ++ rule '├' '┼' '┤' ws ::
    rows.flatMap (rowLines ws) ++ [rule '╰' '┴' '╯' ws]
  String.ofList (List.intercalate ['\n'] lines)

/-! ### Failures and their causes -/

def configCauses (e : ConfigError) : List String :=
  e.message :: match e with
    | .io _ cause => [cause.message]
    | .parse _ reason => [reason]
    | .homeNotFound => []

def storeCauses (e : StoreError) : List String :=
  e.message :: match e with
    | .io _ cause => [cause.message]
    | .encoding reason => [reason]
    | .parse _ reason => [reason]
    | .unavailable _ => []

def catalogCauses (e : CatalogError) : List String :=
  e.message :: match e with
    | .store e => storeCauses e
    | _ => []

def transferCauses (e : TransferError) : List String :=
  e.message :: match e with
    | .connect _ cause => [cause.message]
    | .io _ cause => [cause.message]
    | .stream cause => [cause.message]
    | _ => []

def peerCauses (e : PeerError) : List String :=
  match e with
  | .io _ cause => [e.message, cause.message]
  | .catalog e => catalogCauses e
  | .transfer e => transferCauses e
  | _ => [e.message]

def serverCauses (e : ServerError) : List String :=
  e.message :: match e with
    | .io _ cause => [cause.message]
    | .store e => storeCauses e
    | .catalog e => catalogCauses e
    | .config e => configCauses e
    | .json f => [f.message]
    | _ => []

def indentLines (margin : String) (s : String) : String :=
  ("\n" ++ margin).intercalate (s.splitOn "\n")

def causeLines (causes : List String) : List String :=
  match causes with
  | [c] => ["    " ++ indentLines "    " c]
  | cs => cs.zipIdx.map fun (c, i) =>
      String.ofList (List.replicate (5 - (toString i).length) ' ') ++ toString i ++ ": " ++
        indentLines "       " c

def failed (doing : String) (causes : List String) : Outcome :=
  { code := 1
    err := "Error: " ++ doing ++ "\n\nCaused by:\n" ++
      "\n".intercalate (causeLines causes) ++ "\n" }

def usage : Usage → Outcome
  | .help => { out := usageText }
  | .version => { out := "catalog 0.1.0\n" }
  | .wrong => { code := 2, err := usageText }
where
  usageText : String :=
    "Usage: catalog server start [--listen ADDRESS] [--memory]\n" ++
    "       catalog server status [--registry ADDRESS]\n" ++
    "       catalog peer run [--registry ADDRESS] [--share FOLDER]" ++
    " [--advertise HOST] [--port PORT]\n" ++
    "       catalog search QUERY [--registry ADDRESS] [--json]\n" ++
    "       catalog fetch ID [--registry ADDRESS] [--out FOLDER]\n"

/-! ### Settings -/

def peerConfig (home : FilePath) (registry : Option String) (d : Disk) :
    Except Outcome PeerConfig :=
  match PeerConfig.loadAt home d with
  | .error e => .error (failed "failed to load peer config" (configCauses e))
  | .ok c => .ok { c with registry := registry.getD c.registry }

def remoteOf (c : PeerConfig) : Remote := ⟨c.registry, c.rpcTimeout⟩

def serverConfig (home : FilePath) (listen : Option String) (memory : Bool) (d : Disk) :
    Except Outcome ServerConfig :=
  match ServerConfig.loadAt home d with
  | .error e => .error (failed "failed to load server config" (configCauses e))
  | .ok c => .ok { c with
      listen := listen.getD c.listen
      store := if memory then .memory else c.store }

def hostOf (address : String) : String :=
  let reversed := address.toList.reverse
  if reversed.contains ':' then
    String.ofList ((reversed.dropWhile (· != ':')).drop 1).reverse
  else "0.0.0.0"

def withPeerOptions (c : PeerConfig) (share advertise : Option String) (port : Option UInt16) :
    PeerConfig :=
  { c with
    shareDir := (share.map FilePath.mk).or c.shareDir
    advertiseAddress := advertise.getD c.advertiseAddress
    transferListen := match port with
      | some p => hostOf c.transferListen ++ ":" ++ toString p.toNat
      | none => c.transferListen }

/-! ### Results -/

def printed (text : String) : Outcome := { out := text ++ "\n" }

def hitRow (h : Hit) : List String := [toString h.id.val.toNat, h.fileName]

def hitJson (h : Hit) : Json := .obj [("id", .nat h.id.val), ("file_name", .str h.fileName)]

def searched (query : String) (json : Bool) : Except CatalogError (List Hit) → Outcome
  | .error e => failed s!"search for '{query}' failed" (catalogCauses e)
  | .ok hits =>
    if json then printed (Json.arr (hits.map hitJson)).renderIndented
    else if hits = [] then printed s!"No files matched '{query}'."
    else printed (renderTable ["ID", "File"] (hits.map hitRow) ++ "\n" ++ toString hits.length ++
      " live file(s); download with `catalog fetch <ID>`")

def fetched (i : EntryId) : Except PeerError Transfer.Report → Outcome
  | .error e => failed s!"fetch of listing {i.val.toNat} failed" (peerCauses e)
  | .ok r =>
    if r.isComplete then printed s!"✓ {r.path.text} ({r.received} bytes)"
    else printed s!"! {r.path.text}: received {r.received} of {r.declared} bytes"

/-- A registry that cannot be asked is reported as one that does not run. -/
def statusShown (c : PeerConfig) : Except CatalogError Json → Outcome
  | .ok status => printed status.renderIndented
  | .error e =>
    if e.isTransient then
      printed (Json.obj [("error", .str e.message), ("registry", .str c.registry),
        ("running", .bool false)]).renderIndented
    else failed "failed to query registry status" (catalogCauses e)

def halted (h : Halt) : Outcome := { code := 101, err := h.message ++ "\n" }

def serverStopped : Except ServerError Unit → Outcome
  | .ok _ => {}
  | .error e => failed "registry exited with error" (serverCauses e)

def peerStopped : Except PeerError Unit → Outcome
  | .ok _ => {}
  | .error e => failed "peer exited with error" (peerCauses e)

end PeerShare.CommandLine
