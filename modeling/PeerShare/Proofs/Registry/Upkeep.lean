import PeerShare.Proofs.Registry.History
import PeerShare.Proofs.Registry.Liveness
import PeerShare.Proofs.Registry.Ownership

/-!
How often an owner has to renew for its listings to stay in sight. A listing seen a period ago is
still shown if the period is at most the time to live, and it is at least spared by sweeps if the
period is at most the time to live and the grace. So an owner that renews once a period and
withdraws nothing keeps all it has listed in sight, whatever the others do. What is required of the
owner is read off the history: when it has been heard last, at every sweep and at the reading of a
search.
-/

namespace PeerShare

theorem heartbeatPeriod_nanos (ttl floor : Span) :
    (heartbeatPeriod ttl floor).nanos = max (ttl.nanos / 4 * 3) floor.nanos := Span.max_nanos _ _

theorem heartbeatPeriod_le_iff {ttl floor : Span} {n : Nat} (hn : ttl.nanos ≤ n) :
    (heartbeatPeriod ttl floor).nanos ≤ n ↔ floor.nanos ≤ n := by
  rw [heartbeatPeriod_nanos]
  omega

theorem Policy.ttl_le_reapAfter (policy : Policy) : policy.ttl ≤ policy.reapAfter := by
  have hlt := policy.ttl.lt
  have hsum := Span.addSaturating_nanos policy.ttl policy.grace
  show policy.ttl.nanos ≤ (policy.ttl.addSaturating policy.grace).nanos
  omega

namespace Registry

/-! ### One listing -/

section Row
variable {r : Registry} {now last : Instant} {q : Listing} {floor : Span}

/-- Both look-ups show the listing. -/
def Shows (r : Registry) (now : Instant) (q : Listing) : Prop :=
  r.resolveOwner now q.id = .ok (some q.offer) ∧
  ∀ query, Table.matchesQuery query q.offer.fileName = true →
    ∃ hits, r.search now query = .ok hits ∧ q.hit ∈ hits

theorem resolveOwner_row_iff (ho : r.outage = none) (hw : r.store.table.WellFormed)
    (hq : q ∈ r.store.table.listings) : r.resolveOwner now q.id = .ok (some q.offer) ↔
      Instant.Within r.policy.ttl now q.lastSeen := by
  rw [resolveOwner_eq_some_iff ho, hw.get?_id hq]
  constructor
  · intro hrow
    obtain ⟨q', hq', -, hlive⟩ := hrow
    cases hq'
    exact hlive
  · intro hlive
    exact ⟨q, rfl, rfl, hlive⟩

theorem search_row_iff (ho : r.outage = none) (hw : r.store.table.WellFormed)
    (hq : q ∈ r.store.table.listings) {query : String}
    (hm : Table.matchesQuery query q.offer.fileName = true) :
    (∃ hits, r.search now query = .ok hits ∧ q.hit ∈ hits) ↔
      Instant.Within r.policy.ttl now q.lastSeen := by
  simp only [search_of_none ho, Except.ok.injEq, exists_eq_left', mem_tableSearch]
  constructor
  · intro hrow
    obtain ⟨q', hq', hhit, hlive, -⟩ := hrow
    rwa [← hw.eq_of_id hq' hq (congrArg Hit.id hhit)]
  · intro hlive
    exact ⟨q, hq, rfl, hlive, hm⟩

theorem shows_of_within (ho : r.outage = none) (hw : r.store.table.WellFormed)
    (hq : q ∈ r.store.table.listings) (hlive : Instant.Within r.policy.ttl now q.lastSeen) :
    r.Shows now q :=
  ⟨(resolveOwner_row_iff ho hw hq).mpr hlive, fun _ hm => (search_row_iff ho hw hq hm).mpr hlive⟩

theorem Available.mem_reap (h : r.Available) (hq : q ∈ r.store.table.listings) :
    q ∈ (r.reap now).2.store.table.listings ↔
      Instant.Within r.policy.reapAfter now q.lastSeen := by
  have hd : (r.operate now .reap).1 = true := by
    rcases h.done now .reap with hd | ⟨peer, o, ho, -⟩
    · exact hd
    · cases ho
  rw [← reap_operate, Registry.mem_reap h.table hd, and_iff_right hq]

theorem within_ttl_throughout_iff (ht : ¬ q.lastSeen.IsLeap)
    (hl : q.lastSeen.add? (heartbeatPeriod r.policy.ttl floor) = some last) :
    (∀ now, ¬ now.IsLeap → q.lastSeen ≤ now → now ≤ last →
      Instant.Within r.policy.ttl now q.lastSeen) ↔ floor ≤ r.policy.ttl := by
  refine Iff.trans ?_ ((Instant.age_throughout_iff ht hl r.policy.ttl.nanos).trans
    (heartbeatPeriod_le_iff (Nat.le_refl _)))
  exact forall₂_congr fun now hn => by rw [Instant.within_iff hn ht]

theorem within_reapAfter_throughout_iff (ht : ¬ q.lastSeen.IsLeap)
    (hl : q.lastSeen.add? (heartbeatPeriod r.policy.ttl floor) = some last) :
    (∀ now, ¬ now.IsLeap → q.lastSeen ≤ now → now ≤ last →
      Instant.Within r.policy.reapAfter now q.lastSeen) ↔
      floor.nanos ≤ r.policy.ttl.nanos + r.policy.grace.nanos := by
  refine Iff.trans ?_ ((Instant.age_throughout_iff ht hl
    (r.policy.ttl.nanos + r.policy.grace.nanos)).trans
    (heartbeatPeriod_le_iff (Nat.le_add_right _ _)))
  exact forall₂_congr fun now hn => by
    rw [Policy.within_reapAfter_iff hn ht, Int.natCast_add]

end Row

/-! ### Whole runs -/

namespace Entry

def beats (e : Entry) (p : PeerId) : Bool := e.done && e.op = .heartbeat p

def listsFor (e : Entry) (p : PeerId) : Bool :=
  e.done && match e.op with
    | .list peer _ => peer = p
    | _ => false

/-- When the peer has been heard last once the entry has been made. It is heard first when it lists
something, and from then on whenever it is alive. -/
def heard (e : Entry) (p : PeerId) : Option Instant → Option Instant
  | none => if e.listsFor p then some e.now else none
  | some t => some (if e.beats p then e.now else t)

end Entry

def lastHeard (p : PeerId) (h : List Entry) : Option Instant :=
  h.foldl (fun t e => e.heard p t) none

/-- The peer withdraws nothing, the clock does not go backwards, and at every sweep the peer has
been heard no longer ago than the period. -/
structure KeepsUp (period : Span) (p : PeerId) (h : List Entry) : Prop where
  forward : (h.map (·.now)).Pairwise (· ≤ ·)
  stays : ∀ e ∈ h, (∀ fileName, e.op ≠ .delist fileName p) ∧ e.op ≠ .disconnect p
  timely : ∀ before e after t, h = before ++ e :: after → e.op = .reap →
    lastHeard p before = some t → Instant.Within period e.now t

section Runs
variable {r₀ r r' : Registry} {h before after : List Entry} {e : Entry} {p : PeerId}
  {period : Span} {t : Instant} {q q' : Listing} {policy : Policy}

theorem lastHeard_snoc (p : PeerId) (h : List Entry) (e : Entry) :
    lastHeard p (h ++ [e]) = e.heard p (lastHeard p h) := by
  simp only [lastHeard, List.foldl_append, List.foldl_cons, List.foldl_nil]

theorem KeepsUp.take (hk : KeepsUp period p (before ++ after)) : KeepsUp period p before where
  forward := by
    have hf := hk.forward
    rw [List.map_append] at hf
    exact (List.pairwise_append.mp hf).1
  stays := fun e he => hk.stays e (List.mem_append_left _ he)
  timely := fun b e a t hb => hk.timely b e (a ++ after) t (by rw [hb]; simp)

theorem KeepsUp.le (hk : KeepsUp period p (h ++ [e])) {e' : Entry} (he : e' ∈ h) :
    e'.now ≤ e.now := by
  have hf := hk.forward
  rw [List.map_append] at hf
  exact (List.pairwise_append.mp hf).2.2 _ (List.mem_map_of_mem he) _
    (List.mem_map_of_mem (List.mem_singleton_self e))

theorem heard_cases {t₀ : Option Instant} (ht : e.heard p t₀ = some t) :
    t = e.now ∨ t₀ = some t := by
  cases t₀ with
  | none =>
    have hs : (if e.listsFor p then some e.now else none) = some t := ht
    split_ifs at hs
    exact .inl (Option.some.inj hs).symm
  | some s =>
    have hs := Option.some.inj ht
    split_ifs at hs
    · exact .inl hs.symm
    · exact .inr (congrArg some hs)

theorem exists_heard (ht : lastHeard p h = some t) : ∃ e ∈ h, e.now = t := by
  induction h using List.reverseRecOn generalizing t with
  | nil => cases ht
  | append_singleton h e ih =>
    rw [lastHeard_snoc] at ht
    rcases heard_cases ht with rfl | ht
    · exact ⟨e, List.mem_append_right _ (List.mem_singleton_self e), rfl⟩
    · obtain ⟨e', he', hnow⟩ := ih ht
      exact ⟨e', List.mem_append_left _ he', hnow⟩

theorem le_lastSeen_of_beats (hf : e.fate policy q = some q') (hb : e.beats q.owner = true) :
    e.now ≤ q'.lastSeen := by
  obtain ⟨hd, ho⟩ := Bool.and_eq_true_iff.mp hb
  have hrenews : e.renews q.offer q.owner = true := by
    simp only [Entry.renews, hd, of_decide_eq_true ho, decide_true, Bool.and_self]
  unfold Entry.fate at hf
  split_ifs at hf
  cases hf
  show e.now ≤ e.seen q.offer q.owner q.lastSeen
  rw [Entry.seen, if_pos hrenews]
  exact Instant.le_max_right _ _

theorem listsFor_of_lists {k : Offer} (hl : e.lists k p = true) : e.listsFor p = true := by
  obtain ⟨hd, ho⟩ := Entry.lists_iff.mp hl
  simp only [Entry.listsFor, hd, ho, decide_true, Bool.and_self]

theorem lastHeard_le (hw : r₀.store.table.WellFormed)
    (hnew : ∀ q ∈ r₀.store.table.listings, q.owner ≠ p) (hr : r₀.Recorded h r)
    (hk : KeepsUp period p h) (hq : q ∈ r.store.table.listings) (hp : q.owner = p) :
    ∃ t, lastHeard p h = some t ∧ t ≤ q.lastSeen := by
  induction h using List.reverseRecOn generalizing r q with
  | nil =>
    cases hr
    exact absurd hp (hnew q hq)
  | append_singleton h e ih =>
    obtain ⟨r', hr', he, rfl⟩ := recorded_snoc.mp hr
    rw [mem_operate (recorded_wellFormed hr' hw), he] at hq
    rw [lastHeard_snoc]
    rcases hq with ⟨q₀, h₀, hf⟩ | ⟨hl, -, -, hs⟩
    · -- The row was there; if the peer is alive just now, it is seen just now.
      have hsame := sameListing_of_fate hf
      have hp₀ := hsame.owner.symm.trans hp
      obtain ⟨t₀, ht₀, hle⟩ := ih hr' hk.take h₀ hp₀
      rw [ht₀]
      refine ⟨_, rfl, ?_⟩
      split_ifs with hb
      · exact le_lastSeen_of_beats hf (hp₀ ▸ hb)
      · exact Instant.le_trans hle hsame.lastSeen
    · -- The row is new, so that nothing heard before is later.
      rw [hs]
      cases ht₀ : lastHeard p h with
      | none => exact ⟨e.now, if_pos (listsFor_of_lists (hp ▸ hl)), Instant.le_refl _⟩
      | some t₀ =>
        obtain ⟨e', he', rfl⟩ := exists_heard ht₀
        refine ⟨_, rfl, ?_⟩
        split_ifs
        · exact Instant.le_refl _
        · exact hk.le he'

/-- What the peer has stays, since it withdraws nothing and every sweep has heard it lately. -/
theorem fate_of_keepsUp (hperiod : period ≤ policy.reapAfter) (hk : KeepsUp period p (h ++ [e]))
    (hp : q.owner = p) (ht : lastHeard p h = some t) (hle : t ≤ q.lastSeen) :
    ∃ q', e.fate policy q = some q' := by
  have hkept : ¬ e.removes policy q.offer q.owner q.lastSeen = true := by
    obtain ⟨hdelist, hdisconnect⟩ := hk.stays e (List.mem_append_right _ (List.mem_singleton_self e))
    cases ho : e.op with
    | list peer o => simp [removes_list ho]
    | heartbeat peer => simp [removes_heartbeat ho]
    | delist fileName peer =>
      have hne : ¬ q.owner = peer := fun he => hdelist fileName (by rw [ho, ← he, hp])
      simp [Entry.removes, ho, hne]
    | disconnect peer =>
      have hne : ¬ q.owner = peer := fun he => hdisconnect (by rw [ho, ← he, hp])
      simp [Entry.removes, ho, hne]
    | reap =>
      rw [removes_reap_iff ho]
      exact fun hold => hold.2 (((hk.timely h e [] t rfl ho ht).mono hle).widen hperiod)
  exact ⟨_, if_neg hkept⟩

theorem row_stays (hw : r₀.store.table.WellFormed)
    (hnew : ∀ q ∈ r₀.store.table.listings, q.owner ≠ p)
    (hperiod : period ≤ r₀.policy.reapAfter) (hk : KeepsUp period p (before ++ after))
    (hr' : r₀.Recorded before r') (hr : r₀.Recorded (before ++ after) r)
    (hq : q ∈ r'.store.table.listings) (hp : q.owner = p) :
    ∃ q' ∈ r.store.table.listings, Table.SameListing q q' := by
  induction after using List.reverseRecOn generalizing r with
  | nil =>
    rw [List.append_nil] at hr
    exact ⟨q, recorded_unique hr' hr ▸ hq, .refl q⟩
  | append_singleton after e ih =>
    rw [← List.append_assoc] at hr hk
    obtain ⟨r₁, hr₁, he, rfl⟩ := recorded_snoc.mp hr
    obtain ⟨q₁, hq₁, hsame⟩ := ih hk.take hr₁
    have hp₁ := hsame.owner.trans hp
    obtain ⟨t, ht, hle⟩ := lastHeard_le hw hnew hr₁ hk.take hq₁ hp₁
    obtain ⟨q', hf⟩ := fate_of_keepsUp hperiod hk hp₁ ht hle
    refine ⟨q', ?_, hsame.trans (sameListing_of_fate hf)⟩
    rw [mem_operate (recorded_wellFormed hr₁ hw), he, recorded_policy hr₁]
    exact .inl ⟨q₁, hq₁, hf⟩

theorem recorded_outage (hr : r.Recorded h r') : r'.outage = r.outage := by
  induction h generalizing r with
  | nil => exact congrArg _ hr
  | cons e h ih => exact (ih hr.2).trans (outage_operate r e.now e.op)

end Runs

/-- The period between heartbeats is three quarters of the time to live or the floor, whichever is
longer. A listing is shown at every reading from when it was last seen to a period later if and only
if the floor is at most the time to live, and is spared by every sweep in that range if and only if
the floor is at most the time to live and the grace. And with such a floor an owner that withdraws
nothing and is heard once a period, as the sweeps and the search measure it, has everything in sight
that it ever had. -/
theorem listings_stay_in_sight (policy : Policy) (floor : Span) :
    ((heartbeatPeriod policy.ttl floor).nanos = max (policy.ttl.nanos / 4 * 3) floor.nanos ∧
      floor ≤ heartbeatPeriod policy.ttl floor) ∧
    (∀ (r : Registry) q last, r.Available → r.policy = policy → q ∈ r.store.table.listings →
      ¬ q.lastSeen.IsLeap → q.lastSeen.add? (heartbeatPeriod policy.ttl floor) = some last →
      ((∀ now, ¬ now.IsLeap → q.lastSeen ≤ now → now ≤ last →
        r.resolveOwner now q.id = .ok (some q.offer)) ↔ floor ≤ policy.ttl) ∧
      (∀ query, Table.matchesQuery query q.offer.fileName = true →
        ((∀ now, ¬ now.IsLeap → q.lastSeen ≤ now → now ≤ last →
          ∃ hits, r.search now query = .ok hits ∧ q.hit ∈ hits) ↔ floor ≤ policy.ttl)) ∧
      ((∀ now, ¬ now.IsLeap → q.lastSeen ≤ now → now ≤ last →
        q ∈ (r.reap now).2.store.table.listings) ↔
          floor.nanos ≤ policy.ttl.nanos + policy.grace.nanos)) ∧
    (floor ≤ policy.ttl → ∀ (r₀ r r' : Registry) p before after now, r₀.policy = policy →
      r₀.outage = none → r₀.store.table.WellFormed →
      (∀ q ∈ r₀.store.table.listings, q.owner ≠ p) →
      KeepsUp (heartbeatPeriod policy.ttl floor) p (before ++ after) →
      (∀ t, lastHeard p (before ++ after) = some t →
        Instant.Within (heartbeatPeriod policy.ttl floor) now t) →
      r₀.Recorded before r' → r₀.Recorded (before ++ after) r →
      ∀ q ∈ r'.store.table.listings, q.owner = p →
        ∃ q' ∈ r.store.table.listings, Table.SameListing q q' ∧ r.Shows now q') := by
  refine ⟨⟨heartbeatPeriod_nanos _ _, ?_⟩, ?_, ?_⟩
  · have hnanos := heartbeatPeriod_nanos policy.ttl floor
    show floor.nanos ≤ (heartbeatPeriod policy.ttl floor).nanos
    omega
  · intro r q last ha hpolicy hq ht hl
    subst hpolicy
    refine ⟨Iff.trans ?_ (within_ttl_throughout_iff ht hl),
      fun query hm => Iff.trans ?_ (within_ttl_throughout_iff ht hl),
      Iff.trans ?_ (within_reapAfter_throughout_iff ht hl)⟩
    · exact forall₄_congr fun _ _ _ _ => resolveOwner_row_iff ha.outage ha.table hq
    · exact forall₄_congr fun _ _ _ _ => search_row_iff ha.outage ha.table hq hm
    · exact forall₄_congr fun _ _ _ _ => ha.mem_reap hq
  · intro hfloor r₀ r r' p before after now hpolicy ho hw hnew hk hnow hr' hr q hq hp
    subst hpolicy
    have httl : heartbeatPeriod r₀.policy.ttl floor ≤ r₀.policy.ttl :=
      (heartbeatPeriod_le_iff (Nat.le_refl _)).mpr hfloor
    have hreap : heartbeatPeriod r₀.policy.ttl floor ≤ r₀.policy.reapAfter :=
      Nat.le_trans httl r₀.policy.ttl_le_reapAfter
    obtain ⟨q', hq', hsame⟩ := row_stays hw hnew hreap hk hr' hr hq hp
    obtain ⟨t, ht, hle⟩ := lastHeard_le hw hnew hr hk hq' (hsame.owner.trans hp)
    refine ⟨q', hq', hsame, shows_of_within ((recorded_outage hr).trans ho)
      (recorded_wellFormed hr hw) hq' ?_⟩
    rw [recorded_policy hr]
    exact ((hnow t ht).mono hle).widen httl

def upkeptHistory : List Entry :=
  [⟨sampleReading 0, .list ⟨"p"⟩ sampleOffer, true⟩,
    ⟨sampleReading 80, .heartbeat ⟨"p"⟩, true⟩,
    ⟨sampleReading 90, .delist "a.txt" ⟨"q"⟩, true⟩,
    ⟨sampleReading 160, .reap, true⟩]

def upkept : Registry := replay upkeptHistory

theorem lastHeard_upkeptHistory : lastHeard ⟨"p"⟩ upkeptHistory = some (sampleReading 80) := by
  decide +kernel

theorem keepsUp_upkeptHistory :
    KeepsUp (heartbeatPeriod Policy.standard.ttl (Span.ofSeconds 10)) ⟨"p"⟩ upkeptHistory where
  forward := by decide
  stays := by simp [upkeptHistory]
  timely := by
    intro before e after t hsplit hop ht
    -- Only the last of the four entries is a sweep.
    rcases before with _ | ⟨_, _ | ⟨_, _ | ⟨_, _ | ⟨_, before⟩⟩⟩⟩
    · cases hsplit
      cases hop
    · cases hsplit
      cases hop
    · cases hsplit
      cases hop
    · cases hsplit
      cases lastHeard_upkeptHistory.symm.trans ht
      decide +kernel
    · simp [upkeptHistory] at hsplit

theorem listings_stay_in_sight_upkept : upkept.Available ∧
    upkept.store.table.listings = [sampleRow 80] ∧
    upkept.Shows (sampleReading 170) (sampleRow 80) ∧
    ¬ (∀ now, ¬ now.IsLeap → sampleReading 80 ≤ now → now ≤ sampleReading 230 →
      upkept.resolveOwner now ⟨0⟩ = .ok (some sampleOffer)) ∧
    ∀ now, ¬ now.IsLeap → sampleReading 80 ≤ now → now ≤ sampleReading 230 →
      sampleRow 80 ∈ (upkept.reap now).2.store.table.listings := by
  have havailable : upkept.Available :=
    (((Available.default.operate _ _).operate _ _).operate _ _).operate _ _
  have hrows : upkept.store.table.listings = [sampleRow 80] := by decide +kernel
  have hrow : sampleRow 80 ∈ upkept.store.table.listings := hrows ▸ List.mem_singleton_self _
  have hrecorded : Recorded {} upkeptHistory upkept := ⟨rfl, rfl, rfl, rfl, rfl⟩
  have hrange := (listings_stay_in_sight Policy.standard (Span.ofSeconds 150)).2.1 upkept
    (sampleRow 80) (sampleReading 230) havailable rfl hrow (by decide) (by decide +kernel)
  have hnow : ∀ t, lastHeard ⟨"p"⟩ upkeptHistory = some t → Instant.Within
      (heartbeatPeriod Policy.standard.ttl (Span.ofSeconds 10)) (sampleReading 170) t := by
    intro t ht
    cases lastHeard_upkeptHistory.symm.trans ht
    decide +kernel
  obtain ⟨q, hq, -, hshown⟩ := (listings_stay_in_sight Policy.standard (Span.ofSeconds 10)).2.2
    (by decide) {} upkept upkept ⟨"p"⟩ upkeptHistory [] (sampleReading 170) rfl rfl .empty
    (by decide) keepsUp_upkeptHistory hnow hrecorded hrecorded (sampleRow 80) hrow rfl
  rw [hrows, List.mem_singleton] at hq
  subst hq
  exact ⟨havailable, hrows, hshown, fun hall => absurd (hrange.1.mp hall) (by decide),
    hrange.2.2.mpr (by decide)⟩

/-! ### A leap second -/

def leapYearEnd : Registry :=
  (operate { policy := ⟨Span.ofSeconds 60, Span.zero⟩ } (sampleReading 1483228740)
    (.list ⟨"p"⟩ sampleOffer)).2

def leapReading : Instant := (Instant.of? 1483228799 1500000000).getD default

/-- A reading in the leap second is before the one a period after the listing, and hides it: the
time to live before the reading is half a second after the listing. -/
theorem leap_reading_hides_listing :
    leapYearEnd.store.table.listings = [⟨⟨0⟩, ⟨"p"⟩, sampleOffer, sampleReading 1483228740⟩] ∧
    Span.ofSeconds 60 ≤ leapYearEnd.policy.ttl ∧
    (sampleReading 1483228740).add? (heartbeatPeriod leapYearEnd.policy.ttl (Span.ofSeconds 60)) =
      some (sampleReading 1483228800) ∧
    sampleReading 1483228740 ≤ leapReading ∧ leapReading ≤ sampleReading 1483228800 ∧
    leapYearEnd.resolveOwner leapReading ⟨0⟩ = .ok none ∧
    leapYearEnd.search leapReading "a" = .ok [] := by
  refine ⟨?_, ?_, ?_, ?_, ?_, ?_, ?_⟩ <;> decide +kernel

end Registry
end PeerShare
