/-!
Finite maps and sets as lists. A `Keyed` list holds pairs: `put` keeps the order of first insertion,
`putSorted` the order of the keys. `Names` are sets of file names, without repetition in the order
of their characters.
-/

namespace PeerShare.Keyed

variable {κ α : Type} [DecidableEq κ]

def get? (k : κ) : List (κ × α) → Option α
  | [] => none
  | (k', a) :: r => if k' = k then some a else get? k r

/-- The pair replaces the first one with its key, or comes last. -/
def put (k : κ) (a : α) : List (κ × α) → List (κ × α)
  | [] => [(k, a)]
  | (k', a') :: r => if k' = k then (k, a) :: r else (k', a') :: put k a r

/-- The pair replaces the one with its key, or comes before the first one with a larger key. -/
def putSorted [LT κ] [DecidableLT κ] (k : κ) (a : α) : List (κ × α) → List (κ × α)
  | [] => [(k, a)]
  | (k', a') :: r =>
    if k' = k then (k, a) :: r
    else if k < k' then (k, a) :: (k', a') :: r
    else (k', a') :: putSorted k a r

end PeerShare.Keyed

namespace PeerShare

abbrev Names := List String

namespace Names

def insert (name : String) : Names → Names
  | [] => [name]
  | n :: ns =>
    if n = name then n :: ns
    else if name < n then name :: n :: ns
    else n :: insert name ns

def ofList (ns : List String) : Names := ns.foldr insert []

def erase (name : String) (ns : Names) : Names := ns.filter (· != name)

def diff (a b : Names) : Names := a.filter fun n => !b.contains n

end Names

end PeerShare
