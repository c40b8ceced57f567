import PeerShare.Listing
import PeerShare.Proofs.Listing

/-!
How long ago an instant was, measured by a shift into the past. A shift that would leave the range
of instants reaches back before all of them, so every instant lies within it; and a shift that is
cut off at `Instant.farthest`, or a span that is cut off at the longest one, is longer than the whole
range. So for readings without a leap second the shift agrees with whole numbers of nanoseconds.
-/

namespace PeerShare

namespace Instant

/-- The instant lies at most so long before `now`. -/
def Within (d : Span) (now t : Instant) : Prop := ∀ since, now.sub? d = some since → since ≤ t

variable {d : Span} {now later t u : Instant}

theorem within_of_none (h : now.sub? d = none) : Within d now t := by
  intro since hs
  rw [h] at hs
  cases hs

theorem within_of_some {since : Instant} (h : now.sub? d = some since) :
    Within d now t ↔ since ≤ t := by
  constructor
  · intro hw
    exact hw since h
  · intro hle s hs
    cases h.symm.trans hs
    exact hle

theorem Within.mono (h : Within d now t) (hu : t ≤ u) : Within d now u :=
  fun since hs => le_trans (h since hs) hu

theorem within_of_le (h : now ≤ t) : Within d now t :=
  fun _ hs => le_trans (sub?_le hs) h

theorem within_iff_all : Within d now t ↔ (now.sub? d).all (· ≤ t) = true := by
  cases hs : now.sub? d with
  | none => exact iff_of_true (within_of_none hs) rfl
  | some since => rw [within_of_some hs, Option.all_some, decide_eq_true_iff]

theorem not_within_iff_any : ¬ Within d now t ↔ (now.sub? d).any (t < ·) = true := by
  cases hs : now.sub? d with
  | none => simp [within_of_none hs]
  | some since =>
    rw [within_of_some hs, Option.any_some, decide_eq_true_iff]
    exact Int.not_le

instance (d : Span) (now t : Instant) : Decidable (Within d now t) :=
  decidable_of_iff _ within_iff_all.symm

/-! ### In whole nanoseconds -/

theorem ofNanos?_eq_none_iff {n : Int} : ofNanos? n = none ↔
    n < -8334601228800000000000 ∨ 8210266876800000000000 ≤ n := by
  unfold ofNanos? of?
  split_ifs with h
  · simp only [false_iff]
    omega
  · simp only [true_iff]
    omega

theorem nanos_range (h : ¬ t.IsLeap) :
    -8334601228800000000000 ≤ t.nanos ∧ t.nanos < 8210266876800000000000 := by
  have lower := t.lower
  have upper := t.upper
  unfold IsLeap at h
  unfold nanos
  omega

theorem sub?_of_not_isLeap (h : ¬ now.IsLeap) (d : Span) :
    now.sub? d = ofNanos? (now.nanos - (min d farthest).nanos) :=
  if_neg fun hl => h hl.1

theorem min_farthest (d : Span) :
    (min d farthest).nanos = min d.nanos 9223372036854775807000000 := by
  show (if d.nanos ≤ 9223372036854775807000000 then d else farthest).nanos = _
  split_ifs with h
  · exact (Nat.min_eq_left h).symm
  · exact (Nat.min_eq_right (Nat.le_of_not_le h)).symm

theorem sub?_mono {d' : Span} (h : d ≤ d') {since' : Instant} (hs : now.sub? d' = some since') :
    ∃ since, now.sub? d = some since ∧ since' ≤ since := by
  have hle : (min d farthest).nanos ≤ (min d' farthest).nanos := by
    have hd : d.nanos ≤ d'.nanos := h
    rw [min_farthest, min_farthest]
    omega
  have hlt := now.fraction_lt
  unfold sub? at hs ⊢
  dsimp only at hs ⊢
  generalize (min d farthest).nanos = m at hle ⊢
  generalize (min d' farthest).nanos = m' at hle hs
  by_cases hstay : now.IsLeap ∧ m ≤ now.fraction - 1000000000
  · -- The shorter shift stays in the leap second.
    rw [if_pos hstay]
    obtain ⟨since, hof⟩ : ∃ since, of? now.second (now.fraction - m) = some since :=
      ⟨_, dif_pos ⟨⟨now.lower, now.upper⟩, by omega⟩⟩
    obtain ⟨hsec', hfrac'⟩ := eq_of? hof
    have hl : 1000000000 ≤ now.fraction := hstay.1
    refine ⟨since, hof, ?_⟩
    rw [le_iff_rank]
    split_ifs at hs with hl'
    · obtain ⟨hsec, hfrac⟩ := eq_of? hs
      unfold rank
      omega
    · have hm' : now.fraction - 1000000000 < m' :=
        Nat.lt_of_not_le fun hm => hl' ⟨hstay.1, hm⟩
      obtain ⟨hsec, hfrac⟩ := eq_of? hs
      unfold rank
      unfold nanos at hsec hfrac
      omega
  · rw [if_neg hstay]
    have hleave : ¬ (now.IsLeap ∧ m' ≤ now.fraction - 1000000000) :=
      fun hl => hstay ⟨hl.1, Nat.le_trans hle hl.2⟩
    rw [if_neg hleave] at hs
    have hsince := ofNanos?_nanos hs
    have hrange := nanos_range (not_isLeap_of_ofNanos? hs)
    have hupper : now.nanos - m < 8210266876800000000000 := by
      have hu := now.upper
      unfold IsLeap at hstay
      unfold nanos
      omega
    cases hof : ofNanos? (now.nanos - m) with
    | none =>
      have hout := ofNanos?_eq_none_iff.mp hof
      omega
    | some since =>
      have hnanos := ofNanos?_nanos hof
      refine ⟨since, rfl, (le_iff_nanos_le (not_isLeap_of_ofNanos? hs)
        (not_isLeap_of_ofNanos? hof)).mpr ?_⟩
      omega

theorem Within.widen {d' : Span} (h : d ≤ d') (hw : Within d now t) : Within d' now t := by
  intro since' hs'
  obtain ⟨since, hs, hle⟩ := sub?_mono h hs'
  exact le_trans hle (hw since hs)

theorem nanos_add? (ht : ¬ t.IsLeap) (h : t.add? d = some u) :
    ¬ u.IsLeap ∧ u.nanos = t.nanos + d.nanos := by
  have hadd : t.add? d = ofNanos? (t.nanos + (min d farthest).nanos) := if_neg ht
  have hof := hadd.symm.trans h
  have hleap := not_isLeap_of_ofNanos? hof
  have hsum := ofNanos?_nanos hof
  have hmin := min_farthest d
  have hrange := nanos_range ht
  have hrange' := nanos_range hleap
  refine ⟨hleap, ?_⟩
  omega

theorem age_throughout_iff {period : Span} {last : Instant} (ht : ¬ t.IsLeap)
    (hl : t.add? period = some last) (n : Nat) :
    (∀ now, ¬ now.IsLeap → t ≤ now → now ≤ last → now.nanos - t.nanos ≤ n) ↔ period.nanos ≤ n := by
  obtain ⟨hleap, hsum⟩ := nanos_add? ht hl
  constructor
  · intro h
    have hend := h last hleap ((le_iff_nanos_le ht hleap).mpr (by omega)) (le_refl _)
    omega
  · intro h now hn _ hle
    have hlast := (le_iff_nanos_le hn hleap).mp hle
    omega

theorem within_iff (hn : ¬ now.IsLeap) (ht : ¬ t.IsLeap) :
    Within d now t ↔ now.nanos - t.nanos ≤ d.nanos := by
  have hnow := nanos_range hn
  have hseen := nanos_range ht
  have hmin := min_farthest d
  have hsub := sub?_of_not_isLeap hn d
  cases hs : now.sub? d with
  | none =>
    have hout := ofNanos?_eq_none_iff.mp (hsub.symm.trans hs)
    refine iff_of_true (within_of_none hs) ?_
    omega
  | some since =>
    have hof := hsub.symm.trans hs
    have hsince := ofNanos?_nanos hof
    have hrange := nanos_range (not_isLeap_of_ofNanos? hof)
    rw [within_of_some hs, le_iff_nanos_le (not_isLeap_of_ofNanos? hof) ht]
    omega

end Instant

/-! ### Listings and policies -/

theorem Listing.isAlive_iff {r : Listing} {now : Instant} {ttl : Span} :
    r.isAlive now ttl = true ↔ Instant.Within ttl now r.lastSeen := by
  unfold isAlive
  cases hs : now.sub? ttl with
  | none => exact iff_of_true rfl (Instant.within_of_none hs)
  | some since => rw [Instant.within_of_some hs, decide_eq_true_iff]

theorem Policy.within_reapAfter_iff {policy : Policy} {now t : Instant} (hn : ¬ now.IsLeap)
    (ht : ¬ t.IsLeap) : Instant.Within policy.reapAfter now t ↔
      now.nanos - t.nanos ≤ policy.ttl.nanos + policy.grace.nanos := by
  have hnow := Instant.nanos_range hn
  have hseen := Instant.nanos_range ht
  have hsum := Span.addSaturating_nanos policy.ttl policy.grace
  rw [Instant.within_iff hn ht, reapAfter]
  omega

end PeerShare
