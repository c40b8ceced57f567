import PeerShare.Proofs.Registry.History
import PeerShare.Proofs.Registry.Liveness
import PeerShare.Proofs.Registry.Ownership
import PeerShare.Proofs.Table.Renewal

/-!
Calls of the registry that overlap. A call reads the clock when it comes in and makes its one
statement later, with that reading; in between other calls come in and make theirs, and the clock
goes forwards and backwards. So statements are made with stale readings and in any order. A renewal
takes the later of two readings, and a sweep looks at the rows as they are when its statement is
made: rows are seen ever later, a sweep takes no row that has been renewed recently enough by its
own reading, and renewals may be made in any order.
-/

namespace PeerShare

namespace Registry

def Entry.renewed (e : Entry) (q : Listing) : Listing :=
  { q with lastSeen := e.seen q.offer q.owner q.lastSeen }

def Operation.Renews (t : Table) : Operation → Prop
  | .list _ o => ¬ t.Lacks o
  | .heartbeat _ => True
  | .delist .. | .disconnect _ | .reap => False

/-- The row, last seen at the latest of when it was and the readings of its renewals. -/
def renewedBy (l : List Entry) (q : Listing) : Listing :=
  { q with lastSeen := (readings q.offer q.owner l).foldl max q.lastSeen }

section Renewals
variable {r : Registry} {now : Instant} {op : Operation} {e : Entry} {l l' : List Entry}
  {t : Table} {k : Offer} {p : PeerId} {q : Listing}

theorem seen_of_not_done (hd : e.done = false) (s : Instant) : e.seen k p s = s := by
  simp only [Entry.seen, Entry.renews, hd, Bool.false_and, Bool.false_eq_true, if_false]

theorem renewed_of_not_done (hd : e.done = false) (q : Listing) : e.renewed q = q := by
  simp only [Entry.renewed, seen_of_not_done hd]

theorem renewed_list {e : Entry} {peer : PeerId} {o : Offer} (hd : e.done = true)
    (ho : e.op = .list peer o) (q : Listing) :
    e.renewed q = if q.offer = o then q.seenAt e.now else q := by
  simp only [Entry.renewed, Entry.seen, Entry.renews, hd, ho, Bool.true_and, decide_eq_true_eq]
  split_ifs <;> rfl

theorem renewed_heartbeat {e : Entry} {peer : PeerId} (hd : e.done = true)
    (ho : e.op = .heartbeat peer) (q : Listing) :
    e.renewed q = Table.touched peer e.now q := by
  simp only [Entry.renewed, Entry.seen, Entry.renews, hd, ho, Bool.true_and, decide_eq_true_eq,
    Table.touched]
  split_ifs <;> rfl

theorem table_renewal (hw : r.store.table.WellFormed)
    (hr : (r.operate now op).1 = true → op.Renews r.store.table) :
    (r.operate now op).2.store.table = r.store.table.mapListings (r.entry now op).renewed := by
  cases hd : (r.operate now op).1 with
  | false =>
    have hid := renewed_of_not_done (e := r.entry now op) hd
    rw [table_of_not_done hd, Table.mapListings_eq_self fun q _ => hid q]
  | true =>
    replace hr := hr hd
    cases op with
    | list peer o =>
      obtain ⟨row, hu⟩ := Table.Statement.apply_upsert.mp (apply_of_done hd rfl)
      rcases Table.upsert_cases hw hu with ⟨q, hq, rfl, -, ht⟩ | ⟨next, hfree, -⟩
      · rw [ht, Table.renew_eq_mapListings hw hq]
        exact Table.mapListings_congr fun q' _ =>
          (renewed_list (e := r.entry now _) hd rfl q').symm
      · exact absurd hfree hr
    | heartbeat peer =>
      have ha : (Table.Statement.touchOwner peer now).apply r.store.table = .ok _ :=
        apply_of_done hd rfl
      rw [← Except.ok.inj ha, Table.touchOwner_eq_mapListings]
      exact Table.mapListings_congr fun q _ =>
        (renewed_heartbeat (e := r.entry now (.heartbeat peer)) hd rfl q).symm
    | _ => exact hr.elim

theorem Available.renews (h : r.Available) (hr : op.Renews r.store.table)
    (hname : ∀ peer o, op = .list peer o → isFileName o.fileName = true) (now : Instant) :
    (r.operate now op).1 = true := by
  refine (h.done_iff now op).mpr fun peer o ho => ⟨hname peer o ho, fun hlack => ?_⟩
  subst ho
  exact absurd hlack hr

theorem Available.sweeps (h : r.Available) (now : Instant) : (r.operate now .reap).1 = true :=
  (h.done_iff now .reap).mpr nofun

theorem lacks_mapListings {f : Listing → Listing} (hf : ∀ q, (f q).offer = q.offer) :
    (t.mapListings f).Lacks k ↔ t.Lacks k := by
  simp only [Table.Lacks, Table.listings_mapListings, List.forall_mem_map, hf]

theorem renews_mapListings {f : Listing → Listing} (hf : ∀ q, (f q).offer = q.offer) :
    op.Renews (t.mapListings f) ↔ op.Renews t := by
  cases op with
  | list peer o => exact not_congr (lacks_mapListings hf)
  | _ => rfl

theorem foldl_max_readings (e : Entry) (s : Instant) :
    (readings k p [e]).foldl max s = e.seen k p s := by
  unfold readings Entry.seen
  cases hr : e.renews k p with
  | true => simp only [List.filter_cons, hr, if_true, List.filter_nil, List.map_cons, List.map_nil,
      List.foldl_cons, List.foldl_nil]
  | false => simp only [List.filter_cons, hr, Bool.false_eq_true, if_false, List.filter_nil,
      List.map_nil, List.foldl_nil]

theorem renewedBy_concat (l : List Entry) (e : Entry) (q : Listing) :
    renewedBy (l ++ [e]) q = e.renewed (renewedBy l q) := by
  simp only [renewedBy, Entry.renewed, readings_append, List.foldl_append, foldl_max_readings]

theorem renewedBy_perm (hp : (l.filter (·.done)).Perm (l'.filter (·.done))) (q : Listing) :
    renewedBy l q = renewedBy l' q := by
  have hdone (l : List Entry) : readings q.offer q.owner l =
      readings q.offer q.owner (l.filter (·.done)) := by
    unfold readings
    rw [List.filter_filter]
    refine congrArg _ (List.filter_congr fun e _ => ?_)
    simp only [Entry.renews]
    cases e.done <;> simp
  have hread : (readings q.offer q.owner l).Perm (readings q.offer q.owner l') := by
    rw [hdone l, hdone l']
    exact (hp.filter _).map _
  have hswap (a b c : Instant) : max (max a b) c = max (max a c) b := by
    refine Instant.ext_rank ?_
    simp only [Instant.max_rank]
    omega
  have hfold := hread.foldl_eq' (f := max) (fun x _ y _ z => hswap z x y) q.lastSeen
  simp only [renewedBy, hfold]

end Renewals
end Registry

/-! ### Calls that overlap -/

namespace Traffic

/-- A call that has read the clock and has yet to make its statement. -/
structure Call where
  op : Registry.Operation
  reading : Instant

end Traffic

structure Traffic where
  registry : Registry
  now : Instant
  waiting : List Traffic.Call := []
  made : List Registry.Entry := []

namespace Traffic

inductive Event
  | clock (t : Instant)
  | read (op : Registry.Operation)
  | make (i : Nat)
  /-- Something happens to the registry's store that leaves the table. -/
  | outside (outage : Option String) (disk : Disk)

def table (c : Traffic) : Table := c.registry.store.table

def step (c : Traffic) : Event → Traffic
  | .clock t => { c with now := t }
  | .read op => { c with waiting := c.waiting ++ [⟨op, c.now⟩] }
  | .make i =>
    match c.waiting[i]? with
    | none => c
    | some call => { c with
        registry := (c.registry.operate call.reading call.op).2
        waiting := c.waiting.eraseIdx i
        made := c.made ++ [c.registry.entry call.reading call.op] }
  | .outside outage disk =>
    { c with registry := { c.registry with outage := outage, store.disk := disk } }

def run (c : Traffic) (events : List Event) : Traffic := events.foldl step c

section Steps
variable {c c' : Traffic} {e : Event} {i : Nat} {call : Call} {op : Registry.Operation}
  {t : Instant} {q : Listing}

theorem table_make (h : c.waiting[i]? = some call) :
    (c.step (.make i)).table = (c.registry.operate call.reading call.op).2.store.table := by
  simp only [step, h, table]

theorem step_cases (c : Traffic) (e : Event) :
    ((c.step e).table = c.table ∧ (c.step e).made = c.made) ∨ ∃ i call,
      e = .make i ∧ c.waiting[i]? = some call ∧
      (c.step e).table = (c.registry.operate call.reading call.op).2.store.table ∧
      (c.step e).made = c.made ++ [c.registry.entry call.reading call.op] := by
  cases e with
  | make i =>
    cases h : c.waiting[i]? with
    | none => exact .inl (by simp only [step, h, and_self])
    | some call => exact .inr ⟨i, call, rfl, h, table_make h, by simp only [step, h]⟩
  | _ => exact .inl ⟨rfl, rfl⟩

theorem wellFormed_step (hw : c.table.WellFormed) (e : Event) : (c.step e).table.WellFormed := by
  rcases step_cases c e with ⟨ht, -⟩ | ⟨i, call, -, -, ht, -⟩
  · exact ht ▸ hw
  · exact ht ▸ Registry.wellFormed_operate hw call.reading call.op

theorem precedes_step (hw : c.table.WellFormed) (e : Event) : c.table.Precedes (c.step e).table := by
  rcases step_cases c e with ⟨ht, -⟩ | ⟨i, call, -, -, ht, -⟩
  · exact ht ▸ .refl _
  · exact ht ▸ Registry.precedes_operate hw call.reading call.op

theorem run_concat (c : Traffic) (events : List Event) (e : Event) :
    c.run (events ++ [e]) = (c.run events).step e := List.foldl_concat step c e events

theorem wellFormed_run (hw : c.table.WellFormed) (events : List Event) :
    (c.run events).table.WellFormed := by
  induction events generalizing c with
  | nil => exact hw
  | cons e events ih => exact ih (wellFormed_step hw e)

theorem precedes_run (hw : c.table.WellFormed) (events : List Event) :
    c.table.Precedes (c.run events).table := by
  induction events generalizing c with
  | nil => exact .refl _
  | cons e events ih => exact (precedes_step hw e).trans (ih (wellFormed_step hw e))

theorem made_run (c : Traffic) (events : List Event) :
    ∃ l, (c.run events).made = c.made ++ l := by
  induction events generalizing c with
  | nil => exact ⟨[], (List.append_nil _).symm⟩
  | cons e events ih =>
    obtain ⟨l, hl⟩ := ih (c.step e)
    rcases step_cases c e with ⟨-, hm⟩ | ⟨i, call, -, -, -, hm⟩
    · exact ⟨l, hl.trans (by rw [hm])⟩
    · exact ⟨_, hl.trans (by rw [hm, List.append_assoc])⟩

theorem mem_swept (hw : c.table.WellFormed) (h : c.waiting[i]? = some ⟨.reap, t⟩)
    (hd : (c.registry.operate t .reap).1 = true) : q ∈ (c.step (.make i)).table.listings ↔
      q ∈ c.table.listings ∧ Instant.Within c.registry.policy.reapAfter t q.lastSeen := by
  rw [table_make h]
  exact Registry.mem_reap hw hd

theorem le_lastSeen (hw : c.table.WellFormed) (h : c.waiting[i]? = some ⟨op, t⟩)
    (hq : q ∈ (c.step (.make i)).table.listings)
    (hr : (c.registry.entry t op).renews q.offer q.owner = true) : t ≤ q.lastSeen := by
  rw [table_make h, Registry.mem_operate hw] at hq
  rcases hq with ⟨r, -, hf⟩ | ⟨-, -, -, hs⟩
  · unfold Registry.Entry.fate at hf
    split_ifs at hf
    cases hf
    have hseen : (c.registry.entry t op).seen r.offer r.owner r.lastSeen = max r.lastSeen t :=
      if_pos hr
    rw [hseen]
    exact Instant.le_max_right _ _
  · rw [hs]
    exact Instant.le_refl _

theorem table_run_renewals (hw : c.table.WellFormed) {events : List Event}
    {l : List Registry.Entry} (hm : (c.run events).made = c.made ++ l)
    (hl : ∀ e ∈ l, e.done = true → e.op.Renews c.table) :
    (c.run events).table = c.table.mapListings (Registry.renewedBy l) := by
  induction events using List.reverseRecOn generalizing l with
  | nil =>
    have hnil : l = [] := List.self_eq_append_right.mp hm
    subst hnil
    exact (Table.mapListings_eq_self fun q _ => rfl).symm
  | append_singleton events e ih =>
    obtain ⟨l₀, hm₀⟩ := made_run c events
    rw [run_concat] at hm ⊢
    rcases step_cases (c.run events) e with ⟨ht, hm'⟩ | ⟨i, call, -, -, ht, hm'⟩
    · rw [ht]
      exact ih (hm'.symm.trans hm) hl
    · rw [hm', hm₀, List.append_assoc] at hm
      have hl₀ := List.append_cancel_left hm
      subst hl₀
      have hold := ih hm₀ fun e he => hl e (List.mem_append_left _ he)
      have hnew := hl _ (List.mem_append_right _ (List.mem_singleton_self _))
      have hoffer (q : Listing) : (Registry.renewedBy l₀ q).offer = q.offer := rfl
      have hrenews : ((c.run events).registry.operate call.reading call.op).1 = true →
          call.op.Renews (c.run events).table := by
        intro hd
        rw [hold, Registry.renews_mapListings hoffer]
        exact hnew hd
      rw [ht, Registry.table_renewal (wellFormed_run hw events) hrenews]
      change Table.mapListings (c.run events).table _ = _
      rw [hold, Table.mapListings_mapListings]
      exact Table.mapListings_congr fun q _ => (Registry.renewedBy_concat l₀ _ q).symm

end Steps

/-- Whatever calls overlap, and with whatever readings they make their statements: a row is seen
ever later; a sweep that is done takes exactly the rows last seen before its reading less the time
to live and the grace, as they are when its statement is made, and one that fails takes none; so a
row that has been renewed at a reading not before that is spared; and as long as nothing but
renewals is done, the table is the one before with each row last seen at the latest of what it was
and of the readings that renewed it, in whatever order they come. While nothing stands in the way of
saving, every sweep is done, and so is every other call but a list of no bare name or of a new offer
without a number. -/
theorem renewals_and_sweeps_overlap {c : Traffic} (hw : c.table.WellFormed) :
    (∀ events, (c.run events).table.WellFormed ∧ ∀ r ∈ c.table.listings,
      ∀ q ∈ (c.run events).table.listings, q.id = r.id → r.lastSeen ≤ q.lastSeen) ∧
    (∀ i t, c.waiting[i]? = some ⟨.reap, t⟩ →
      ((c.registry.operate t .reap).1 = true ∧ ∀ q, q ∈ (c.step (.make i)).table.listings ↔
        q ∈ c.table.listings ∧ Instant.Within c.registry.policy.reapAfter t q.lastSeen) ∨
      ((c.registry.operate t .reap).1 = false ∧ (c.step (.make i)).table = c.table)) ∧
    (∀ i op t, c.waiting[i]? = some ⟨op, t⟩ → ∀ q ∈ (c.step (.make i)).table.listings,
      (c.registry.entry t op).renews q.offer q.owner = true →
      ∀ events c' j s, c' = (c.step (.make i)).run events → c'.waiting[j]? = some ⟨.reap, s⟩ →
        Instant.Within c'.registry.policy.reapAfter s t →
        ∀ q' ∈ c'.table.listings, q'.id = q.id → q' ∈ (c'.step (.make j)).table.listings) ∧
    (∀ events l, (c.run events).made = c.made ++ l →
      (∀ e ∈ l, e.done = true → e.op.Renews c.table) →
      (c.run events).table = c.table.mapListings (Registry.renewedBy l) ∧
      ∀ events' l', (c.run events').made = c.made ++ l' →
        (l.filter (·.done)).Perm (l'.filter (·.done)) →
        (c.run events').table = (c.run events).table) ∧
    (c.registry.Available →
      (∀ i t, c.waiting[i]? = some ⟨.reap, t⟩ → ∀ q, q ∈ (c.step (.make i)).table.listings ↔
        q ∈ c.table.listings ∧ Instant.Within c.registry.policy.reapAfter t q.lastSeen) ∧
      (∀ call ∈ c.waiting,
        (c.registry.operate call.reading call.op).1 = true ↔ c.registry.Admits call.op) ∧
      ∀ call ∈ c.waiting, call.op.Renews c.table →
        (∀ peer o, call.op = .list peer o → isFileName o.fileName = true) →
        (c.registry.operate call.reading call.op).1 = true) := by
  refine ⟨fun events => ⟨wellFormed_run hw events, fun r hr q hq hi => ?_⟩, fun i t hi => ?_, ?_,
    fun events l hm hl => ⟨table_run_renewals hw hm hl, fun events' l' hm' hp => ?_⟩,
    fun ha => ⟨fun i t hi q => mem_swept hw hi (ha.sweeps t), fun call _ => ha.done_iff _ _,
      fun call _ hr hname => ha.renews hr hname call.reading⟩⟩
  · exact ((precedes_run hw events).sameListing hw hr hq hi).lastSeen
  · cases hd : (c.registry.operate t .reap).1 with
    | true => exact .inl ⟨rfl, fun q => mem_swept hw hi hd⟩
    | false => exact .inr ⟨rfl, (table_make hi).trans (Registry.table_of_not_done hd)⟩
  · intro i op t hi q hq hr events c' j s hc' hj hwithin q' hq' hid
    subst hc'
    have hw₁ := wellFormed_step hw (.make i)
    have hw₂ := wellFormed_run hw₁ events
    have hseen : t ≤ q'.lastSeen := Instant.le_trans (le_lastSeen hw hi hq hr)
      ((precedes_run hw₁ events).sameListing hw₁ hq hq' hid).lastSeen
    cases hd : (((c.step (.make i)).run events).registry.operate s .reap).1 with
    | true => exact (mem_swept hw₂ hj hd).mpr ⟨hq', hwithin.mono hseen⟩
    | false =>
      rw [table_make hj, Registry.table_of_not_done hd]
      exact hq'
  · have hl' : ∀ e ∈ l', e.done = true → e.op.Renews c.table := fun e he hd =>
      hl e (List.mem_filter.mp (hp.mem_iff.mpr (List.mem_filter.mpr ⟨he, hd⟩))).1 hd
    rw [table_run_renewals hw hm hl, table_run_renewals hw hm' hl']
    exact Table.mapListings_congr fun q _ => (Registry.renewedBy_perm hp q).symm

/-! ### Stale readings -/

open Registry (sampleOffer sampleReading sampleRow otherOffer)

/-- Two listings, one of them renewed by its owner and by another peer with an older reading, and a
sweep. -/
def crowded : Traffic where
  registry := Registry.replay [⟨sampleReading 0, .list ⟨"p"⟩ sampleOffer, true⟩,
    ⟨sampleReading 20, .list ⟨"r"⟩ (otherOffer "b.txt"), true⟩]
  now := sampleReading 40
  waiting := [⟨.heartbeat ⟨"p"⟩, sampleReading 60⟩, ⟨.list ⟨"q"⟩ sampleOffer, sampleReading 30⟩,
    ⟨.reap, sampleReading 230⟩]

def neglectedRow : Listing := ⟨⟨1⟩, ⟨"r"⟩, otherOffer "b.txt", sampleReading 20⟩

theorem available_crowded : crowded.registry.Available :=
  (Registry.Available.default.operate _ _).operate _ _

theorem renewals_and_sweeps_overlap_crowded : crowded.table.WellFormed ∧
    crowded.registry.Available ∧ crowded.table.listings = [sampleRow 0, neglectedRow] ∧
    (crowded.run [.make 1, .make 0]).table = (crowded.run [.make 0, .make 0]).table ∧
    (crowded.run [.make 0, .make 0]).table.listings = [sampleRow 60, neglectedRow] ∧
    sampleRow 60 ∈ (((crowded.step (.make 0)).run []).step (.make 1)).table.listings ∧
    neglectedRow ∈ (crowded.step (.make 0)).table.listings ∧
    neglectedRow ∉ ((crowded.step (.make 0)).step (.make 1)).table.listings := by
  have hw : crowded.table.WellFormed := available_crowded.table
  have ha : (crowded.step (.make 0)).registry.Available := available_crowded.operate _ _
  have hp : ¬ crowded.table.Lacks sampleOffer := by decide +kernel
  have h := renewals_and_sweeps_overlap hw
  have hsweep := (renewals_and_sweeps_overlap ha.table).2.2.2.2 ha
  refine ⟨hw, available_crowded, by decide +kernel, ?_, by decide +kernel, ?_,
    by decide +kernel, ?_⟩
  · refine (h.2.2.2.1 [.make 0, .make 0] [⟨sampleReading 60, .heartbeat ⟨"p"⟩, true⟩,
      ⟨sampleReading 30, .list ⟨"q"⟩ sampleOffer, true⟩] rfl ?_).2 [.make 1, .make 0]
      [⟨sampleReading 30, .list ⟨"q"⟩ sampleOffer, true⟩,
        ⟨sampleReading 60, .heartbeat ⟨"p"⟩, true⟩] rfl (.swap _ _ _)
    intro e he _
    rcases List.mem_pair.mp he with rfl | rfl
    · trivial
    · exact hp
  · exact h.2.2.1 0 (.heartbeat ⟨"p"⟩) (sampleReading 60) rfl (sampleRow 60) (by decide +kernel)
      (by decide +kernel) [] _ 1 (sampleReading 230) rfl rfl (by decide +kernel) (sampleRow 60)
      (by decide +kernel) rfl
  · rw [hsweep.1 1 (sampleReading 230) rfl]
    exact fun hkept => absurd hkept.2 (by decide +kernel)

end Traffic
end PeerShare
