/-!
A `Span` is a length of time: whole nanoseconds, fewer than 2^64 seconds. Addition stops at the
longest span instead of failing.
-/

namespace PeerShare

structure Span where
  nanos : Nat
  lt : nanos < 18446744073709551616000000000
  deriving DecidableEq

namespace Span

def clamp (n : Nat) : Span :=
  if h : n < 18446744073709551616000000000 then ⟨n, h⟩
  else ⟨18446744073709551615999999999, by decide⟩

def ofSeconds (s : UInt64) : Span :=
  ⟨s.toNat * 1000000000, by have := s.toNat_lt; omega⟩

def ofMillis (ms : UInt64) : Span :=
  ⟨ms.toNat * 1000000, by have := ms.toNat_lt; omega⟩

def zero : Span := ⟨0, by decide⟩
def second : Span := ofSeconds 1
def longest : Span := clamp 18446744073709551616000000000

instance : Inhabited Span := ⟨zero⟩
instance : LE Span := ⟨fun a b => a.nanos ≤ b.nanos⟩
instance : LT Span := ⟨fun a b => a.nanos < b.nanos⟩
instance (a b : Span) : Decidable (a ≤ b) := inferInstanceAs (Decidable (a.nanos ≤ b.nanos))
instance (a b : Span) : Decidable (a < b) := inferInstanceAs (Decidable (a.nanos < b.nanos))
instance : Max Span := ⟨fun a b => if a ≤ b then b else a⟩
instance : Min Span := ⟨fun a b => if a ≤ b then a else b⟩

def wholeSeconds (d : Span) : Nat := d.nanos / 1000000000
def subNanos (d : Span) : Nat := d.nanos % 1000000000
def wholeMillis (d : Span) : Nat := d.nanos / 1000000

def addSaturating (a b : Span) : Span := clamp (a.nanos + b.nanos)

/-- Three times the whole nanoseconds of a quarter. -/
def threeQuarters (d : Span) : Span :=
  ⟨d.nanos / 4 * 3, by have := d.lt; omega⟩

theorem clamp_nanos (n : Nat) : (clamp n).nanos = min n (18446744073709551615999999999) := by
  unfold clamp; split <;> simp <;> omega

theorem addSaturating_nanos (a b : Span) :
    (a.addSaturating b).nanos = min (a.nanos + b.nanos) (18446744073709551615999999999) :=
  clamp_nanos _

theorem max_nanos (a b : Span) : (max a b).nanos = max a.nanos b.nanos := by
  show (if a.nanos ≤ b.nanos then b else a).nanos = _
  split <;> omega

end Span

end PeerShare
