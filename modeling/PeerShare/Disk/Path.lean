import PeerShare.Text.Utf8

/-!
Paths as text. Empty segments and `.` say nothing; `..` leads back to the folder above the one it
stands in. Relative paths start at the root.
-/

namespace PeerShare

/-- A name in a folder, which need not be UTF-8. -/
abbrev Name := Bytes

structure FilePath where
  text : String
  deriving DecidableEq, Repr, Inhabited

namespace FilePath

def splitSlash : List Char → List (List Char)
  | [] => [[]]
  | c :: r =>
    if c = '/' then [] :: splitSlash r
    else match splitSlash r with
      | [] => [[c]]
      | p :: ps => (c :: p) :: ps

abbrev Segment := List Char

def upward : Segment := ['.', '.']

def segments (p : FilePath) : List Segment :=
  (splitSlash p.text.toList).filter fun s => s != [] && s != ['.']

def isAbsolute (p : FilePath) : Bool := p.text.toList.head? == some '/'

def endsInSlash (p : FilePath) : Bool := p.text.toList.getLast? == some '/'

def meansFolder (p : FilePath) : Bool :=
  match (splitSlash p.text.toList).getLast? with
  | some s => s == [] || s == ['.'] || s == upward
  | none => false

def parts (p : FilePath) : List Name := p.segments.map Text.encode

def join (p q : FilePath) : FilePath :=
  if q.isAbsolute then q
  else if p.text == "" || p.endsInSlash then ⟨p.text ++ q.text⟩
  else ⟨p.text ++ "/" ++ q.text⟩

def child (p : FilePath) (name : String) : FilePath := p.join ⟨name⟩

/-- The last segment, unless it is `..`. -/
def fileName? (p : FilePath) : Option String :=
  match p.segments.getLast? with
  | some s => if s = upward then none else some (String.ofList s)
  | none => none

def dropIdle : List Char → List Char
  | '/' :: r => dropIdle r
  | '.' :: '/' :: r => dropIdle r
  | r => r

def restoreRoot (p : FilePath) (s : List Char) : FilePath :=
  ⟨String.ofList (if s = [] && p.isAbsolute then ['/'] else s)⟩

def parent? (p : FilePath) : Option FilePath :=
  if p.segments = [] then none
  else
    let s := dropIdle p.text.toList.reverse
    some (p.restoreRoot (dropIdle (s.dropWhile (· != '/'))).reverse)

def withFileName (p : FilePath) (name : String) : FilePath :=
  if p.fileName?.isSome then (p.parent?.getD ⟨""⟩).child name else p.child name

def stem (name : List Char) : List Char :=
  match name.reverse.dropWhile (· != '.') with
  | _ :: r => if r = [] then name else r.reverse
  | [] => name

def withExtension (p : FilePath) (extension : String) : FilePath :=
  match p.fileName? with
  | none => p
  | some name => p.withFileName (String.ofList (stem name.toList) ++ "." ++ extension)

end FilePath

end PeerShare
