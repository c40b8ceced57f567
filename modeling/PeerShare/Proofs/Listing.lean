import Mathlib.Tactic.SplitIfs
import PeerShare.Listing

/-!
The order of row numbers and of clock readings, read as numbers, and what a renewal keeps of a
listing.
-/

namespace PeerShare

namespace EntryId

theorem lt_iff {a b : EntryId} : a < b ↔ a.val.toNat < b.val.toNat := UInt64.lt_iff_toNat_lt

theorem le_iff {a b : EntryId} : a ≤ b ↔ a.val.toNat ≤ b.val.toNat := UInt64.le_iff_toNat_le

theorem ext_toNat {a b : EntryId} (h : a.val.toNat = b.val.toNat) : a = b := by
  cases a; cases b; exact congrArg _ (UInt64.toNat_inj.mp h)

theorem ne_of_lt {a b : EntryId} (h : a < b) : a ≠ b := by
  intro he
  subst he
  exact absurd (lt_iff.mp h) (Nat.lt_irrefl _)

theorem lt_trans {a b c : EntryId} (h : a < b) (h' : b < c) : a < c :=
  lt_iff.mpr (Nat.lt_trans (lt_iff.mp h) (lt_iff.mp h'))

theorem lt_of_lt_of_le {a b c : EntryId} (h : a < b) (h' : b ≤ c) : a < c :=
  lt_iff.mpr (Nat.lt_of_lt_of_le (lt_iff.mp h) (le_iff.mp h'))

theorem lt_of_le_of_lt {a b c : EntryId} (h : a ≤ b) (h' : b < c) : a < c :=
  lt_iff.mpr (Nat.lt_of_le_of_lt (le_iff.mp h) (lt_iff.mp h'))

theorem le_of_lt {a b : EntryId} (h : a < b) : a ≤ b := le_iff.mpr (Nat.le_of_lt (lt_iff.mp h))

theorem le_refl (a : EntryId) : a ≤ a := le_iff.mpr Nat.le.refl

theorem le_trans {a b c : EntryId} (h : a ≤ b) (h' : b ≤ c) : a ≤ c :=
  le_iff.mpr (Nat.le_trans (le_iff.mp h) (le_iff.mp h'))

theorem lt_of_not_lt {a b : EntryId} (hne : a ≠ b) (h : ¬ a < b) : b < a := by
  rw [lt_iff] at h ⊢
  exact Nat.lt_of_le_of_ne (Nat.le_of_not_lt h) fun he => hne (ext_toNat he.symm)

theorem next?_toNat {a b : EntryId} (h : a.next? = some b) : b.val.toNat = a.val.toNat + 1 := by
  unfold next? at h
  split_ifs at h with hs
  cases h
  simpa using hs

theorem lt_next? {a b : EntryId} (h : a.next? = some b) : a < b := by
  rw [lt_iff, next?_toNat h]
  exact Nat.lt_succ_self _

theorem next?_le {a b c : EntryId} (h : a.next? = some b) (hc : a < c) : b ≤ c := by
  rw [le_iff, next?_toNat h]
  exact lt_iff.mp hc

theorem exists_next? {a b : EntryId} (h : a < b) : ∃ c, a.next? = some c := by
  have hb : b.val.toNat < UInt64.size := b.val.toNat_lt
  rw [lt_iff] at h
  exact ⟨_, if_pos (show a.val.toNat + 1 < UInt64.size by omega)⟩

theorem le_max_left (a b : EntryId) : a ≤ max a b := by
  show a ≤ if a ≤ b then b else a
  split_ifs with hab
  · exact hab
  · exact le_refl a

theorem le_max_right (a b : EntryId) : b ≤ max a b := by
  show b ≤ if a ≤ b then b else a
  split_ifs with hab
  · exact le_refl b
  · exact le_iff.mpr (Nat.le_of_not_le (mt le_iff.mpr hab))

theorem max_eq_left {a b : EntryId} (h : b ≤ a) : max a b = a := by
  show (if a ≤ b then b else a) = a
  split_ifs with hab
  · exact ext_toNat (Nat.le_antisymm (le_iff.mp h) (le_iff.mp hab))
  · rfl

end EntryId

namespace Instant

theorem le_iff_rank {a b : Instant} : a ≤ b ↔ a.rank ≤ b.rank := Iff.rfl

theorem le_refl (a : Instant) : a ≤ a := Int.le_refl _

theorem le_trans {a b c : Instant} (h : a ≤ b) (h' : b ≤ c) : a ≤ c := Int.le_trans h h'

theorem le_max_left (a b : Instant) : a ≤ max a b := by
  rw [le_iff_rank, max_rank]; omega

theorem le_max_right (a b : Instant) : b ≤ max a b := by
  rw [le_iff_rank, max_rank]; omega

theorem max_le {a b c : Instant} (h : a ≤ c) (h' : b ≤ c) : max a b ≤ c := by
  rw [le_iff_rank] at *; rw [max_rank]; omega

theorem max_eq_right {a b : Instant} (h : a ≤ b) : max a b = b := if_pos h

theorem max_eq_left_of_not_le {a b : Instant} (h : ¬ a ≤ b) : max a b = a := if_neg h

theorem sub?_le {t c : Instant} {d : Span} (h : t.sub? d = some c) : c ≤ t := by
  have ht := t.fraction_lt
  rw [le_iff_rank]
  unfold sub? at h
  dsimp only at h
  split_ifs at h with hl
  · obtain ⟨hs, hf⟩ := eq_of? h
    unfold rank
    omega
  · obtain ⟨hs, hf⟩ := eq_of? h
    unfold rank
    unfold nanos at hs hf
    unfold IsLeap at hl
    omega

end Instant

namespace Listing

@[simp] theorem seenAt_id (r : Listing) (now : Instant) : (r.seenAt now).id = r.id := rfl
@[simp] theorem seenAt_owner (r : Listing) (now : Instant) : (r.seenAt now).owner = r.owner := rfl
@[simp] theorem seenAt_offer (r : Listing) (now : Instant) : (r.seenAt now).offer = r.offer := rfl
@[simp] theorem seenAt_lastSeen (r : Listing) (now : Instant) :
    (r.seenAt now).lastSeen = max r.lastSeen now := rfl

end Listing

end PeerShare
