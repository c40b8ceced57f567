import PeerShare.Collection
import PeerShare.Failure
import PeerShare.Listing
import PeerShare.Text.LowerCase

/-!
The table of listings: rows in the order of their numbers, an index from offers to row numbers,
and the number of the next row. Every method is one statement on it. A statement that removes or
renews rows answers how many.
-/

namespace PeerShare

structure Table where
  nextId : EntryId := ⟨0⟩
  rows : List (EntryId × Listing) := []
  index : List (Offer × EntryId) := []
  deriving DecidableEq, Inhabited

namespace Table

def empty : Table := {}

def get? (t : Table) (i : EntryId) : Option Listing := Keyed.get? i t.rows

def listings (t : Table) : List Listing := t.rows.map (·.2)

def count (t : Table) : Nat := t.rows.length

def add (t : Table) (r : Listing) : Table :=
  { t with
    rows := Keyed.putSorted r.id r t.rows
    index := Keyed.put r.offer r.id t.index }

/-- The row that the index names for an offer, with its number there. -/
def indexed? (t : Table) (o : Offer) : Option (EntryId × Listing) := do
  let i ← Keyed.get? o t.index
  let r ← t.get? i
  return (i, r)

/-- Renews the row that stands for the offer, whoever owns it, or adds one under a new number. -/
def upsert (t : Table) (owner : PeerId) (o : Offer) (now : Instant) :
    Except Halt (Listing × Table) :=
  match t.indexed? o with
  | some (i, r) =>
    .ok (r.seenAt now, { t with rows := Keyed.putSorted i (r.seenAt now) t.rows })
  | none =>
    match t.nextId.next? with
    | none => .error .idsExhausted
    | some next =>
      let r : Listing := ⟨t.nextId, owner, o, now⟩
      .ok (r, { t.add r with nextId := next })

/-- Removes the doomed rows, and whatever the index holds under their offers. -/
def deleteWhere (t : Table) (doomed : Listing → Bool) : Nat × Table :=
  let gone := t.listings.filter doomed
  (gone.length,
    { t with
      rows := t.rows.filter fun (_, r) => !doomed r
      index := t.index.filter fun (o, _) => !gone.any (·.offer = o) })

def deleteOwned (t : Table) (fileName : String) (owner : PeerId) : Nat × Table :=
  t.deleteWhere fun r => r.offer.fileName = fileName && r.owner = owner

def deleteOwner (t : Table) (owner : PeerId) : Nat × Table :=
  t.deleteWhere fun r => r.owner = owner

def deleteSeenBefore (t : Table) (cutoff : Instant) : Nat × Table :=
  t.deleteWhere fun r => r.lastSeen < cutoff

def touchOwner (t : Table) (owner : PeerId) (now : Instant) : Nat × Table :=
  (t.listings.countP (·.owner = owner),
    { t with rows := t.rows.map fun (i, r) => (i, if r.owner = owner then r.seenAt now else r) })

def matchesQuery (query name : String) : Bool :=
  Text.isInfix (Text.lower query.toList) (Text.lower name.toList)

def search (t : Table) (query : String) (since : Option Instant) : List Hit :=
  (t.listings.filter fun r =>
    since.all (· ≤ r.lastSeen) && matchesQuery query r.offer.fileName).map (·.hit)

end Table

end PeerShare
