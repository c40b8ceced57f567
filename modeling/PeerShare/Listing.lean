import PeerShare.Time.Instant

/-!
What the registry lists. An `Offer` is a file name at an endpoint, and at most one `Listing` should
stand for it: a numbered row that says who owns the offer and when it was last confirmed.
-/

namespace PeerShare

/-- The identity of a peer; whoever knows it may withdraw the peer's listings. -/
structure PeerId where
  text : String
  deriving DecidableEq, Repr, Inhabited

def PeerId.short (p : PeerId) : String := String.ofList (p.text.toList.take 8)

structure EntryId where
  val : UInt64
  deriving DecidableEq, Repr, Inhabited

namespace EntryId

instance : LT EntryId := ⟨fun a b => a.val < b.val⟩
instance : LE EntryId := ⟨fun a b => a.val ≤ b.val⟩
instance (a b : EntryId) : Decidable (a < b) := inferInstanceAs (Decidable (a.val < b.val))
instance (a b : EntryId) : Decidable (a ≤ b) := inferInstanceAs (Decidable (a.val ≤ b.val))
instance : Max EntryId := ⟨fun a b => if a ≤ b then b else a⟩

def next? (i : EntryId) : Option EntryId :=
  if i.val.toNat + 1 < UInt64.size then some ⟨i.val + 1⟩ else none

end EntryId

structure Offer where
  fileName : String
  address : String
  port : UInt16
  deriving DecidableEq, Repr, Inhabited

def Offer.endpoint (o : Offer) : String := o.address ++ ":" ++ toString o.port.toNat

structure Listing where
  id : EntryId
  owner : PeerId
  offer : Offer
  lastSeen : Instant
  deriving DecidableEq

structure Hit where
  id : EntryId
  fileName : String
  deriving DecidableEq, Repr

def Listing.hit (r : Listing) : Hit := ⟨r.id, r.offer.fileName⟩

/-- Alive at `now`: last seen at most `ttl` before. Where `now - ttl` is before all time, always. -/
def Listing.isAlive (r : Listing) (now : Instant) (ttl : Span) : Bool :=
  match now.sub? ttl with
  | some since => since ≤ r.lastSeen
  | none => true

def Listing.seenAt (r : Listing) (now : Instant) : Listing :=
  { r with lastSeen := max r.lastSeen now }

def isFileName (name : String) : Bool :=
  name != "" && name != "." && name != ".." &&
    name.toList.all fun c => c != '/' && c != '\\' && c != '\x00'

/-! ### How long a listing counts -/

structure Policy where
  ttl : Span
  grace : Span
  deriving DecidableEq

/-- A listing older than this is swept away. -/
def Policy.reapAfter (p : Policy) : Span := p.ttl.addSaturating p.grace

def Policy.standard : Policy := ⟨Span.ofSeconds 120, Span.ofSeconds 60⟩

instance : Inhabited Policy := ⟨Policy.standard⟩

/-- How often an owner renews: three quarters of the time to live, but not more often than
`floor`. -/
def heartbeatPeriod (ttl floor : Span) : Span := max ttl.threeQuarters floor

end PeerShare
