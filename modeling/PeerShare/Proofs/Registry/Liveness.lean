import PeerShare.Proofs.Registry.Operation
import PeerShare.Proofs.Registry.Reach

/-!
Which listings are shown and which are swept away, by their age in whole nanoseconds. Searches and
look-ups show exactly the listings not older than the time to live, and a sweep takes exactly those
older than the time to live and the grace together, however long these are and wherever in the range
of instants clock and listings stand. So what is shown is not swept away at the same reading.
-/

namespace PeerShare

namespace Store
variable {s : Store} {f : Table → Nat × Table}

theorem change_eq (s : Store) (f : Table → Nat × Table) :
    ((f s.table).1 = 0 ∧ s.change f = (.ok 0, s)) ∨
    (∃ d, s.change f = (.ok (f s.table).1, { s with table := (f s.table).2, disk := d })) ∨
    ∃ p e d, s.file = some p ∧ save s.format p (f s.table).2 s.disk = (.error e, d) ∧
      s.change f = (.error e, { s with disk := d }) := by
  unfold change
  by_cases hn : (f s.table).1 = 0
  · exact .inl ⟨hn, by simp only [hn, if_true]⟩
  · refine .inr ?_
    simp only [hn, if_false]
    rcases Option.eq_none_or_eq_some s.file with hf | ⟨p, hf⟩
    · have hc := commit_of_none (t := (f s.table).2) hf
      exact .inl ⟨s.disk, by rw [hc]; rfl⟩
    · rcases hs : save s.format p (f s.table).2 s.disk with ⟨e | ⟨⟩, d⟩
      · have hc := commit_of_error hf hs
        exact .inr ⟨p, e, d, hf, hs, by rw [hc]; rfl⟩
      · have hc := commit_of_saved hf hs
        exact .inl ⟨d, by rw [hc]; rfl⟩

end Store

namespace Registry

section Sweep
variable {r : Registry} {now cutoff : Instant}

def kept (r : Registry) (now : Instant) : List Listing :=
  r.store.table.listings.filter fun q => Instant.Within r.policy.reapAfter now q.lastSeen

def sweptCount (r : Registry) (now : Instant) : Nat :=
  r.store.table.listings.countP fun q => ¬ Instant.Within r.policy.reapAfter now q.lastSeen

theorem reap_of_some (ho : r.outage = none) (hc : now.sub? r.policy.reapAfter = some cutoff) :
    r.reap now = ((r.store.deleteSeenBefore cutoff).1.mapError .store,
      { r with store := (r.store.deleteSeenBefore cutoff).2 }) := by
  simp only [reap, hc, state, ho]

theorem seen_before_iff (hc : now.sub? r.policy.reapAfter = some cutoff) (q : Listing) :
    decide (q.lastSeen < cutoff) = decide (¬ Instant.Within r.policy.reapAfter now q.lastSeen) := by
  have hw : ¬ Instant.Within r.policy.reapAfter now q.lastSeen ↔
      (now.sub? r.policy.reapAfter).any (q.lastSeen < ·) = true := Instant.not_within_iff_any
  rw [hc, Option.any_some, decide_eq_true_iff] at hw
  exact decide_eq_decide.mpr hw.symm

theorem count_deleteSeenBefore (hc : now.sub? r.policy.reapAfter = some cutoff) :
    (r.store.table.deleteSeenBefore cutoff).1 = r.sweptCount now := by
  unfold Table.deleteSeenBefore Table.deleteWhere sweptCount
  rw [List.countP_eq_length_filter]
  exact congrArg List.length (List.filter_congr fun q _ => seen_before_iff hc q)

theorem listings_deleteSeenBefore (hc : now.sub? r.policy.reapAfter = some cutoff) :
    (r.store.table.deleteSeenBefore cutoff).2.listings = r.kept now := by
  rw [Table.deleteSeenBefore, Table.listings_deleteWhere]
  refine List.filter_congr fun q _ => ?_
  rw [seen_before_iff hc, decide_not, Bool.not_not]

theorem kept_eq_self (h : r.sweptCount now = 0) : r.kept now = r.store.table.listings := by
  refine List.filter_eq_self.mpr fun q hq => ?_
  have hn := List.countP_eq_zero.mp h q hq
  simpa using hn

theorem reap_cases (ho : r.outage = none) (now : Instant) :
    (∃ s, r.reap now = (.ok (r.sweptCount now), { r with store := s }) ∧
      s.table.listings = r.kept now) ∨
    ∃ p t e d, r.store.file = some p ∧ t.listings = r.kept now ∧
      Store.save r.store.format p t r.store.disk = (.error e, d) ∧
      r.reap now = (.error (.store e), { r with store := { r.store with disk := d } }) := by
  cases hc : now.sub? r.policy.reapAfter with
  | none =>
    have hzero : r.sweptCount now = 0 :=
      List.countP_eq_zero.mpr fun q _ => by simp [Instant.within_of_none hc]
    refine .inl ⟨r.store, ?_, (kept_eq_self hzero).symm⟩
    simp only [reap, hc, hzero]
  | some cutoff =>
    have hcount := count_deleteSeenBefore hc
    have hlist := listings_deleteSeenBefore hc
    have hreap := reap_of_some ho hc
    rcases Store.change_eq r.store (·.deleteSeenBefore cutoff) with
      ⟨hn, he⟩ | ⟨d, he⟩ | ⟨p, e, d, hp, hs, he⟩
    · have hzero := hcount.symm.trans hn
      refine .inl ⟨r.store, ?_, (kept_eq_self hzero).symm⟩
      rw [hreap, Store.deleteSeenBefore, he, hzero]
      rfl
    · refine .inl ⟨{ r.store with table := (r.store.table.deleteSeenBefore cutoff).2, disk := d },
        ?_, hlist⟩
      rw [hreap, Store.deleteSeenBefore, he, ← hcount]
      rfl
    · refine .inr ⟨p, _, e, d, hp, hlist, hs, ?_⟩
      rw [hreap, Store.deleteSeenBefore, he]
      rfl

theorem reap_operate (r : Registry) (now : Instant) :
    (r.operate now .reap).2 = (r.reap now).2 := rfl

theorem removes_reap_iff {e : Entry} (he : e.op = .reap) {policy : Policy} {k : Offer} {p : PeerId}
    {seen : Instant} : e.removes policy k p seen = true ↔
      e.done = true ∧ ¬ Instant.Within policy.reapAfter e.now seen := by
  rw [Instant.not_within_iff_any]
  simp only [Entry.removes, he, Bool.and_eq_true]

theorem mem_reap (hw : r.store.table.WellFormed) (hd : (r.operate now .reap).1 = true)
    {q : Listing} : q ∈ (r.operate now .reap).2.store.table.listings ↔
      q ∈ r.store.table.listings ∧ Instant.Within r.policy.reapAfter now q.lastSeen := by
  have hfate (q₀ : Listing) : (r.entry now .reap).fate r.policy q₀ =
      if Instant.Within r.policy.reapAfter now q₀.lastSeen then some q₀ else none := by
    have hr : (r.entry now .reap).removes r.policy q₀.offer q₀.owner q₀.lastSeen = true ↔
        ¬ Instant.Within r.policy.reapAfter now q₀.lastSeen :=
      (removes_reap_iff rfl).trans (and_iff_right hd)
    have hs : (r.entry now .reap).seen q₀.offer q₀.owner q₀.lastSeen = q₀.lastSeen := by
      simp only [Entry.seen, Entry.renews, entry, Bool.and_false, Bool.false_eq_true, if_false]
    rw [Entry.fate, hs]
    split_ifs with hrem hin
    · exact absurd hin (hr.mp hrem)
    · rfl
    · rfl
    · exact absurd (hr.mpr ‹_›) hrem
  rw [mem_operate hw]
  constructor
  · intro hleaves
    rcases hleaves with ⟨q₀, h₀, hf⟩ | ⟨hl, -⟩
    · rw [hfate] at hf
      split_ifs at hf with hin
      cases hf
      exact ⟨h₀, hin⟩
    · cases (Entry.lists_iff.mp hl).2
  · intro hrow
    obtain ⟨hq, hin⟩ := hrow
    exact .inl ⟨q, hq, by rw [hfate, if_pos hin]⟩

/-- What is within the time to live at some reading is still looked up after a sweep at it. -/
theorem resolveOwner_reap (hw : r.store.table.WellFormed) (ho : r.outage = none) {i : EntryId}
    {o : Offer} (hr : r.resolveOwner now i = .ok (some o))
    (hk : ∀ q ∈ r.store.table.listings, Instant.Within r.policy.ttl now q.lastSeen →
      Instant.Within r.policy.reapAfter now q.lastSeen) :
    (r.reap now).2.resolveOwner now i = .ok (some o) := by
  obtain ⟨q, hq, hqo, hlive⟩ := (resolveOwner_eq_some_iff ho).mp hr
  obtain ⟨hmem, hid⟩ := hw.get?_eq_some_iff.mp hq
  have hw' := wellFormed_operate hw now .reap
  rw [reap_operate] at hw'
  rcases reap_cases ho now with ⟨s, he, hs⟩ | ⟨p, t, e, d, -, -, -, he⟩
  · rw [he] at hw' ⊢
    have hmem' : q ∈ s.table.listings := by
      rw [hs, kept, List.mem_filter, decide_eq_true_iff]
      exact ⟨hmem, hk q hmem hlive⟩
    have hq' : s.table.get? i = some q := hw'.get?_eq_some_iff.mpr ⟨hmem', hid⟩
    exact (resolveOwner_eq_some_iff (g := { r with store := s }) ho).mpr ⟨q, hq', hqo, hlive⟩
  · rw [he]
    exact (resolveOwner_eq_some_iff (g := { r with store := { r.store with disk := d } }) ho).mpr
      ⟨q, hq, hqo, hlive⟩

end Sweep

/-! ### By age -/

section Age
variable {r : Registry} {now : Instant}

theorem sweptCount_eq (hnow : ¬ now.IsLeap)
    (hrows : ∀ q ∈ r.store.table.listings, ¬ q.lastSeen.IsLeap) :
    r.sweptCount now = r.store.table.listings.countP fun q =>
      r.policy.ttl.nanos + r.policy.grace.nanos < now.nanos - q.lastSeen.nanos := by
  refine List.countP_congr fun q hq => ?_
  rw [decide_eq_true_iff, decide_eq_true_iff, Policy.within_reapAfter_iff hnow (hrows q hq),
    Int.not_le]

theorem mem_kept_iff (hnow : ¬ now.IsLeap)
    (hrows : ∀ q ∈ r.store.table.listings, ¬ q.lastSeen.IsLeap) {q : Listing} :
    q ∈ r.kept now ↔ q ∈ r.store.table.listings ∧
      now.nanos - q.lastSeen.nanos ≤ r.policy.ttl.nanos + r.policy.grace.nanos := by
  rw [kept, List.mem_filter, decide_eq_true_iff]
  refine and_congr_right fun hq => ?_
  exact Policy.within_reapAfter_iff hnow (hrows q hq)

end Age

/-- What is shown and what is swept away at a reading, by age. A number is looked up if and only if
it has a row not older than the time to live; a search has exactly what is looked up and contains the
query, in the order of numbers; a sweep leaves exactly the rows not older than the time to live and
the grace, and counts the others, or it changes no row since a snapshot of what is left is not saved;
and what is looked up before the sweep is looked up after it. -/
theorem shown_and_swept_by_age {s₀ : Store} {r : Registry} {now : Instant} (h₀ : s₀.Fresh)
    (h : s₀.Reaches r.store) (ho : r.outage = none) (hnow : ¬ now.IsLeap)
    (hrows : ∀ q ∈ r.store.table.listings, ¬ q.lastSeen.IsLeap) :
    (∀ i, ∃ found, r.resolveOwner now i = .ok found ∧ ∀ o, found = some o ↔
      ∃ q, r.store.table.get? i = some q ∧ q.offer = o ∧
        now.nanos - q.lastSeen.nanos ≤ r.policy.ttl.nanos) ∧
    (∀ query, ∃ hits, r.search now query = .ok hits ∧ hits.Pairwise (·.id < ·.id) ∧
      ∀ hit, hit ∈ hits ↔ ∃ o, r.resolveOwner now hit.id = .ok (some o) ∧
        o.fileName = hit.fileName ∧ Text.lower query.toList <:+: Text.lower o.fileName.toList) ∧
    (((r.reap now).1 = .ok (r.store.table.listings.countP fun q =>
          r.policy.ttl.nanos + r.policy.grace.nanos < now.nanos - q.lastSeen.nanos) ∧
        ∀ q, q ∈ (r.reap now).2.store.table.listings ↔ q ∈ r.store.table.listings ∧
          now.nanos - q.lastSeen.nanos ≤ r.policy.ttl.nanos + r.policy.grace.nanos) ∨
      ∃ p t e d, r.store.file = some p ∧ t.listings = r.kept now ∧
        Store.save r.store.format p t r.store.disk = (.error e, d) ∧
        (r.reap now).1 = .error (.store e) ∧
        (r.reap now).2.store.table = r.store.table) ∧
    ∀ i o, r.resolveOwner now i = .ok (some o) →
      (r.reap now).2.resolveOwner now i = .ok (some o) := by
  have hw := (h.sound h₀.sound).table
  have httl : ∀ q ∈ r.store.table.listings, Instant.Within r.policy.ttl now q.lastSeen ↔
      now.nanos - q.lastSeen.nanos ≤ r.policy.ttl.nanos :=
    fun q hq => Instant.within_iff hnow (hrows q hq)
  refine ⟨fun i => ?_, fun query => ?_, ?_, fun i o hr => ?_⟩
  · have hres := resolveOwner_of_none ho now i
    refine ⟨_, hres, fun o => ?_⟩
    have hiff : r.resolveOwner now i = .ok (some o) ↔ ∃ q, r.store.table.get? i = some q ∧
        q.offer = o ∧ Instant.Within r.policy.ttl now q.lastSeen := resolveOwner_eq_some_iff ho
    rw [hres, Except.ok.injEq] at hiff
    rw [hiff]
    constructor
    · intro hrow
      obtain ⟨q, hq, hqo, hlive⟩ := hrow
      exact ⟨q, hq, hqo, (httl q (hw.get?_eq_some_iff.mp hq).1).mp hlive⟩
    · intro hrow
      obtain ⟨q, hq, hqo, hage⟩ := hrow
      exact ⟨q, hq, hqo, (httl q (hw.get?_eq_some_iff.mp hq).1).mpr hage⟩
  · refine ⟨_, search_of_none ho now query, ?_, fun hit => ?_⟩
    · have hpair := hw.pairwise
      exact List.pairwise_map.mpr ((hpair.imp fun hlt => hlt.1).filter _)
    · rw [mem_tableSearch]
      constructor
      · intro hrow
        obtain ⟨q, hq, rfl, hlive, hmatch⟩ := hrow
        exact ⟨q.offer, (resolveOwner_eq_some_iff ho).mpr ⟨q, hw.get?_id hq, rfl, hlive⟩, rfl,
          Table.matchesQuery_iff.mp hmatch⟩
      · intro hrow
        obtain ⟨o, hres, hname, hmatch⟩ := hrow
        obtain ⟨q, hq, rfl, hlive⟩ := (resolveOwner_eq_some_iff ho).mp hres
        obtain ⟨hmem, hid⟩ := hw.get?_eq_some_iff.mp hq
        refine ⟨q, hmem, ?_, hlive, Table.matchesQuery_iff.mpr hmatch⟩
        rw [Listing.hit, hid, hname]
  · rcases reap_cases ho now with ⟨s, he, hs⟩ | ⟨p, t, e, d, hp, ht, hsave, he⟩
    · rw [he, ← sweptCount_eq hnow hrows]
      refine .inl ⟨rfl, fun q => ?_⟩
      rw [← mem_kept_iff hnow hrows, ← hs]
    · rw [he]
      exact .inr ⟨p, t, e, d, hp, ht, hsave, rfl, rfl⟩
  · refine resolveOwner_reap hw ho hr fun q hq hlive => ?_
    have hage := (httl q hq).mp hlive
    refine (Policy.within_reapAfter_iff hnow (hrows q hq)).mpr ?_
    omega

def patient : Registry :=
  { store := Store.oneRow, policy := ⟨Span.ofSeconds 120, Span.longest⟩ }

def lastReading : Instant := (Instant.of? 120 0).getD default

theorem shown_and_swept_by_age_patient : Store.newStore.Fresh ∧
    Store.newStore.Reaches patient.store ∧ patient.outage = none ∧ ¬ lastReading.IsLeap ∧
    (∀ q ∈ patient.store.table.listings, ¬ q.lastSeen.IsLeap) ∧
    patient.resolveOwner lastReading ⟨0⟩ = .ok (some ⟨"a.txt", "localhost", 80⟩) ∧
    (patient.reap lastReading).2.resolveOwner lastReading ⟨0⟩ =
      .ok (some ⟨"a.txt", "localhost", 80⟩) :=
  have rows : ∀ q ∈ patient.store.table.listings, ¬ q.lastSeen.IsLeap := by decide +kernel
  have shown : patient.resolveOwner lastReading ⟨0⟩ =
    .ok (some ⟨"a.txt", "localhost", 80⟩) := by decide +kernel
  ⟨Store.newStore_fresh, Store.reaches_oneRow, rfl, by decide, rows, shown,
    (shown_and_swept_by_age Store.newStore_fresh Store.reaches_oneRow rfl (by decide)
      rows).2.2.2 _ _ shown⟩

end Registry
end PeerShare
