import PeerShare.Listing
import PeerShare.Registry.Store

/-!
The registry: who offers which file where. Every operation is told what the clock shows and makes
at most one statement on the store. Searches see the listings seen within the time to live; a sweep
removes those not seen for the time to live and the grace, so that a late renewal still wins.

An outage stands between the registry and its store: while there is one, no statement gets through.
-/

namespace PeerShare

structure Registry where
  store : Store := {}
  policy : Policy := Policy.standard
  outage : Option String := none

instance : Inhabited Registry := ⟨{}⟩

abbrev Answer (α : Type) := Except CatalogError α × Registry

namespace Registry

def state (r : Registry) (statement : Store → Except StoreError α × Store) : Answer α :=
  match r.outage with
  | some message => (.error (.store (.unavailable message)), r)
  | none =>
    let (a, s) := statement r.store
    (a.mapError .store, { r with store := s })

def look (r : Registry) (query : Table → α) : Except CatalogError α :=
  match r.outage with
  | some message => .error (.store (.unavailable message))
  | none => .ok (query r.store.table)

def list (r : Registry) (now : Instant) (peer : PeerId) (o : Offer) :
    Except Halt (Answer Listing) :=
  if ¬ isFileName o.fileName then .ok (.error (.invalidFileName o.fileName), r)
  else match r.outage with
    | some message => .ok (.error (.store (.unavailable message)), r)
    | none => do
      let (a, s) ← r.store.upsert peer o now
      return (a.mapError .store, { r with store := s })

def delist (r : Registry) (fileName : String) (peer : PeerId) : Answer Bool :=
  let (a, r) := r.state (·.deleteOwned fileName peer)
  (a.map (0 < ·), r)

def search (r : Registry) (now : Instant) (query : String) : Except CatalogError (List Hit) :=
  r.look (·.search query (now.sub? r.policy.ttl))

def resolveOwner (r : Registry) (now : Instant) (i : EntryId) :
    Except CatalogError (Option Offer) :=
  r.look fun t => ((t.get? i).filter (·.isAlive now r.policy.ttl)).map (·.offer)

def heartbeat (r : Registry) (now : Instant) (peer : PeerId) : Answer Bool :=
  let (a, r) := r.state (·.touchOwner peer now)
  (a.map (0 < ·), r)

def disconnect (r : Registry) (peer : PeerId) : Answer Nat := r.state (·.deleteOwner peer)

def livenessWindow (r : Registry) : Span := r.policy.ttl

def reap (r : Registry) (now : Instant) : Answer Nat :=
  match now.sub? r.policy.reapAfter with
  | none => (.ok 0, r)
  | some cutoff => r.state (·.deleteSeenBefore cutoff)

def entryCount (r : Registry) : Except CatalogError Nat := r.look (·.count)

def sweep (r : Registry) (now : Instant) : Nat × Registry :=
  match r.reap now with
  | (.ok n, r) => (n, r)
  | (.error _, r) => (0, r)

end Registry

end PeerShare
