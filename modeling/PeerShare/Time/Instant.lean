import PeerShare.Time.Span

/-!
An `Instant` is a reading of a clock in UTC: whole seconds since 1970-01-01T00:00:00Z, within the
calendar years -262143 to 262142, and nanoseconds. A thousand million nanoseconds and more read a
leap second, which stands behind its second and before the next one. A shift by a span fails where
it would leave the range; spans beyond `Instant.farthest` count as that long.

Readings without a leap second are the integers `nanos`: `ofNanos?_nanos` and `le_iff_nanos_le`.
-/

namespace PeerShare

structure Instant where
  second : Int
  fraction : Nat
  lower : -8334601228800 ≤ second
  upper : second < 8210266876800
  fraction_lt : fraction < 2000000000
  deriving DecidableEq

namespace Instant

def of? (second : Int) (fraction : Nat) : Option Instant :=
  if h : (-8334601228800 ≤ second ∧ second < 8210266876800) ∧ fraction < 2000000000 then
    some ⟨second, fraction, h.1.1, h.1.2, h.2⟩
  else none

/-- The nanoseconds since 1970, a leap second counting as the one after it. -/
def nanos (t : Instant) : Int := t.second * 1000000000 + t.fraction

def ofNanos? (n : Int) : Option Instant := of? (n / 1000000000) (n % 1000000000).toNat

def IsLeap (t : Instant) : Prop := 1000000000 ≤ t.fraction

instance (t : Instant) : Decidable t.IsLeap := inferInstanceAs (Decidable (_ ≤ _))

/-- The order of readings: every second has room for a leap second behind it. -/
def rank (t : Instant) : Int := t.second * 2000000000 + t.fraction

instance : Inhabited Instant := ⟨⟨0, 0, by decide, by decide, by decide⟩⟩
instance : LE Instant := ⟨fun a b => a.rank ≤ b.rank⟩
instance : LT Instant := ⟨fun a b => a.rank < b.rank⟩
instance (a b : Instant) : Decidable (a ≤ b) := inferInstanceAs (Decidable (a.rank ≤ b.rank))
instance (a b : Instant) : Decidable (a < b) := inferInstanceAs (Decidable (a.rank < b.rank))
instance : Max Instant := ⟨fun a b => if a ≤ b then b else a⟩

def farthest : Span := ⟨9223372036854775807000000, by decide⟩

/-- A leap second that the shift does not leave goes on; one that it leaves takes no time. -/
def add? (t : Instant) (d : Span) : Option Instant :=
  let d := (min d farthest).nanos
  if t.IsLeap then
    if t.fraction + d < 2000000000 then of? t.second (t.fraction + d)
    else ofNanos? (t.nanos - 1000000000 + d)
  else ofNanos? (t.nanos + d)

/-- From a leap second its whole length leads back to the second before it. -/
def sub? (t : Instant) (d : Span) : Option Instant :=
  let d := (min d farthest).nanos
  if t.IsLeap ∧ d ≤ t.fraction - 1000000000 then of? t.second (t.fraction - d)
  else ofNanos? (t.nanos - d)

theorem eq_of? {s : Int} {f : Nat} {t : Instant} (h : of? s f = some t) :
    t.second = s ∧ t.fraction = f := by
  unfold of? at h
  split at h
  · cases h; exact ⟨rfl, rfl⟩
  · cases h

theorem ofNanos?_nanos {n : Int} {t : Instant} (h : ofNanos? n = some t) : t.nanos = n := by
  obtain ⟨hs, hf⟩ := eq_of? h
  unfold nanos
  omega

theorem not_isLeap_of_ofNanos? {n : Int} {t : Instant} (h : ofNanos? n = some t) : ¬ t.IsLeap := by
  obtain ⟨_, hf⟩ := eq_of? h
  unfold IsLeap
  omega

theorem ext_rank {a b : Instant} (h : a.rank = b.rank) : a = b := by
  have ha := a.fraction_lt
  have hb := b.fraction_lt
  unfold rank at h
  have hs : a.second = b.second := by omega
  have hf : a.fraction = b.fraction := by omega
  cases a; cases b; cases hs; cases hf; rfl

theorem max_rank (a b : Instant) : (max a b).rank = max a.rank b.rank := by
  show (if a.rank ≤ b.rank then b else a).rank = _
  split <;> omega

theorem le_iff_nanos_le {a b : Instant} (ha : ¬ a.IsLeap) (hb : ¬ b.IsLeap) :
    a ≤ b ↔ a.nanos ≤ b.nanos := by
  show a.rank ≤ b.rank ↔ _
  unfold IsLeap at ha hb
  unfold rank nanos
  omega

end Instant

end PeerShare
