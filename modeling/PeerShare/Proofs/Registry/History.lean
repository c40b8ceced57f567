import Mathlib.Data.List.Induction
import PeerShare.Proofs.Registry.Ownership

/-!
What a registry holds, read off its history. A row lives from the first time its offer is listed
while it has none, belongs to the peer who listed it then, and was last seen at the latest reading
of all entries that renewed it since. An entry that was not answered has changed nothing; over a store
that never fails only lists are refused, of no bare name or for want of a number.
-/

namespace PeerShare.Registry

def Recorded : Registry → List Entry → Registry → Prop
  | r, [], r' => r' = r
  | r, e :: h, r' => r.entry e.now e.op = e ∧ Recorded (r.operate e.now e.op).2 h r'

section Recorded
variable {r r' r'' : Registry} {h h' : List Entry} {e : Entry}

theorem recorded_append :
    r.Recorded (h ++ h') r'' ↔ ∃ r', r.Recorded h r' ∧ r'.Recorded h' r'' := by
  induction h generalizing r with
  | nil => simp [Recorded]
  | cons e h ih => simp only [List.cons_append, Recorded, ih, and_assoc, exists_and_left]

theorem recorded_snoc : r.Recorded (h ++ [e]) r'' ↔
    ∃ r', r.Recorded h r' ∧ r'.entry e.now e.op = e ∧ r'' = (r'.operate e.now e.op).2 := by
  rw [recorded_append]
  rfl

theorem recorded_unique (h₁ : r.Recorded h r') (h₂ : r.Recorded h r'') : r' = r'' := by
  induction h generalizing r with
  | nil => exact h₁.trans h₂.symm
  | cons e h ih => exact ih h₁.2 h₂.2

theorem recorded_wellFormed (hr : r.Recorded h r') (hw : r.store.table.WellFormed) :
    r'.store.table.WellFormed := by
  induction h generalizing r with
  | nil => exact hr ▸ hw
  | cons e h ih => exact ih hr.2 (wellFormed_operate hw e.now e.op)

theorem recorded_policy (hr : r.Recorded h r') : r'.policy = r.policy := by
  induction h generalizing r with
  | nil => exact congrArg _ hr
  | cons e h ih => exact (ih hr.2).trans (policy_operate r e.now e.op)

theorem recorded_available (hr : r.Recorded h r') (ha : r.Available) : r'.Available := by
  induction h generalizing r with
  | nil => exact hr ▸ ha
  | cons e h ih => exact ih hr.2 (ha.operate e.now e.op)

theorem done_iff_of_recorded (ha : r.Available) (hr : r.Recorded (h ++ e :: h') r'')
    (hb : r.Recorded h r') : e.done = true ↔ r'.Admits e.op := by
  obtain ⟨r₁, h₁, he, -⟩ := recorded_append.mp hr
  cases recorded_unique h₁ hb
  rw [← he]
  exact (recorded_available hb ha).done_iff e.now e.op

end Recorded

/-! ### Readings -/

def readings (k : Offer) (p : PeerId) (h : List Entry) : List Instant :=
  (h.filter (·.renews k p)).map (·.now)

def Latest (t : Instant) (l : List Instant) : Prop := t ∈ l ∧ ∀ u ∈ l, u ≤ t

section Readings
variable {k : Offer} {p : PeerId} {s t : Instant} {l : List Instant} {h : List Entry} {e : Entry}

theorem latest_unique (hs : Latest s l) (ht : Latest t l) : s = t :=
  Instant.ext_rank (Int.le_antisymm (ht.2 s hs.1) (hs.2 t ht.1))

theorem latest_append (hs : Latest s l) (u : Instant) : Latest (max s u) (l ++ [u]) := by
  constructor
  · rw [List.mem_append, List.mem_singleton]
    by_cases hu : s ≤ u
    · exact .inr (Instant.max_eq_right hu)
    · exact .inl (by rw [Instant.max_eq_left_of_not_le hu]; exact hs.1)
  · intro v hv
    rcases List.mem_append.mp hv with hv | hv
    · exact Instant.le_trans (hs.2 v hv) (Instant.le_max_left s u)
    · exact List.mem_singleton.mp hv ▸ Instant.le_max_right s v

theorem renews_of_lists (hl : e.lists k p = true) (p' : PeerId) : e.renews k p' = true := by
  obtain ⟨hd, ho⟩ := Entry.lists_iff.mp hl
  simp only [Entry.renews, hd, ho, decide_true, Bool.and_true]

theorem readings_append (h h' : List Entry) :
    readings k p (h ++ h') = readings k p h ++ readings k p h' := by
  rw [readings, List.filter_append, List.map_append]
  rfl

theorem latest_lists (hl : e.lists k p = true) : Latest t (readings k p [e]) ↔ t = e.now := by
  have hr : readings k p [e] = [e.now] := by
    simp only [readings, List.filter_cons, renews_of_lists hl p, if_true, List.filter_nil,
      List.map_cons, List.map_nil]
  rw [hr]
  constructor
  · exact fun ht => List.mem_singleton.mp ht.1
  · intro he
    subst he
    exact ⟨List.mem_singleton_self _, fun u hu => List.mem_singleton.mp hu ▸ Instant.le_refl _⟩

theorem latest_seen (hs : Latest s (readings k p h)) (e : Entry) :
    Latest (e.seen k p s) (readings k p (h ++ [e])) := by
  rw [readings_append]
  unfold Entry.seen
  cases hr : e.renews k p with
  | true =>
    simp only [readings, List.filter_cons, hr, if_true, List.filter_nil, List.map_cons,
      List.map_nil]
    exact latest_append hs e.now
  | false =>
    simp only [readings, List.filter_cons, hr, Bool.false_eq_true, if_false, List.filter_nil,
      List.map_nil, List.append_nil]
    exact hs

theorem exists_latest (hl : e.lists k p = true) (h : List Entry) :
    ∃ t, Latest t (readings k p (e :: h)) := by
  induction h using List.reverseRecOn with
  | nil => exact ⟨e.now, (latest_lists hl).mpr rfl⟩
  | append_singleton h e' ih =>
    obtain ⟨s, hs⟩ := ih
    exact ⟨_, latest_seen hs e'⟩

end Readings

/-! ### Lives -/

/-- The entry lists the offer for the owner, and none of those after it removes the row. -/
structure Lives (policy : Policy) (k : Offer) (p : PeerId) (e : Entry) (after : List Entry) :
    Prop where
  lists : e.lists k p = true
  kept : ∀ mid e' rest s, after = mid ++ e' :: rest → Latest s (readings k p (e :: mid)) →
    e'.removes policy k p s = false

section Lives
variable {policy : Policy} {k : Offer} {p : PeerId} {e e' : Entry} {after : List Entry}

theorem lives_nil (hl : e.lists k p = true) : Lives policy k p e [] :=
  ⟨hl, fun mid e' rest s he => by simp at he⟩

theorem snoc_eq_append_cons {α : Type} {l mid rest : List α} {a x : α} :
    l ++ [a] = mid ++ x :: rest ↔
      (l = mid ∧ a = x ∧ rest = []) ∨ ∃ rest', rest = rest' ++ [a] ∧ l = mid ++ x :: rest' := by
  rcases List.eq_nil_or_concat' rest with rfl | ⟨rest', b, rfl⟩
  · simp
  · rw [← List.cons_append, ← List.append_assoc]
    constructor
    · intro h
      obtain ⟨rfl, hb⟩ := List.append_inj' h rfl
      exact .inr ⟨rest', by rw [hb], rfl⟩
    · intro hcases
      rcases hcases with ⟨-, -, hr⟩ | ⟨rest'', hr, rfl⟩
      · simp at hr
      · obtain ⟨rfl, hb⟩ := List.append_inj' hr rfl
        rw [hb]

theorem lives_snoc : Lives policy k p e (after ++ [e']) ↔ Lives policy k p e after ∧
    ∀ s, Latest s (readings k p (e :: after)) → e'.removes policy k p s = false := by
  constructor
  · intro h
    refine ⟨⟨h.lists, fun mid x rest s hx => ?_⟩, fun s hs => ?_⟩
    · exact h.kept mid x (rest ++ [e']) s (by rw [hx, List.append_assoc]; rfl)
    · exact h.kept after e' [] s rfl hs
  · intro hboth
    obtain ⟨h, hlast⟩ := hboth
    refine ⟨h.lists, fun mid x rest s hx hs => ?_⟩
    rcases snoc_eq_append_cons.mp hx with ⟨rfl, rfl, -⟩ | ⟨rest', -, ha⟩
    · exact hlast s hs
    · exact h.kept mid x rest' s ha hs

theorem Lives.take {mid rest : List Entry} (h : Lives policy k p e (mid ++ rest)) :
    Lives policy k p e mid :=
  ⟨h.lists, fun mid' x rest' s hx => h.kept mid' x (rest' ++ rest) s (by
    rw [hx, List.append_assoc]; rfl)⟩

end Lives

/-! ### Rows and lives -/

section Rows
variable {r₀ r : Registry} {h : List Entry} {k : Offer} {p : PeerId} {t : Instant}

def Unlisted (r₀ : Registry) (k : Offer) (h : List Entry) : Prop :=
  ∀ r, r₀.Recorded h r → r.store.table.Lacks k

theorem has_iff_lives_since (hw₀ : r₀.store.table.WellFormed)
    (h₀ : ∀ t, ¬ r₀.store.table.Has k p t) (hr : r₀.Recorded h r) :
    r.store.table.Has k p t ↔ ∃ before e after, h = before ++ e :: after ∧
      r₀.Unlisted k before ∧ Lives r₀.policy k p e after ∧
      Latest t (readings k p (e :: after)) := by
  induction h using List.reverseRecOn generalizing r t with
  | nil =>
    cases hr
    simp [h₀]
  | append_singleton h e' ih =>
    obtain ⟨r', hr', he, rfl⟩ := recorded_snoc.mp hr
    rw [has_operate (recorded_wellFormed hr' hw₀), he, recorded_policy hr']
    constructor
    · intro hcases
      rcases hcases with ⟨hl, hlack, rfl⟩ | ⟨s, hs, hrem, rfl⟩
      · refine ⟨h, e', [], rfl, fun r'' hr'' => recorded_unique hr' hr'' ▸ hlack, lives_nil hl, ?_⟩
        exact (latest_lists hl).mpr rfl
      · obtain ⟨before, e, after, rfl, hb, hlives, hlatest⟩ := (ih hr').mp hs
        refine ⟨before, e, after ++ [e'], by simp, hb, lives_snoc.mpr ⟨hlives, ?_⟩,
          latest_seen hlatest e'⟩
        exact fun s' hs' => latest_unique hlatest hs' ▸ hrem
    · intro hlife
      obtain ⟨before, e, after, hsplit, hb, hlives, hlatest⟩ := hlife
      rcases snoc_eq_append_cons.mp hsplit with ⟨rfl, rfl, rfl⟩ | ⟨after, rfl, rfl⟩
      · exact .inl ⟨hlives.lists, hb r' hr', (latest_lists hlives.lists).mp hlatest⟩
      · obtain ⟨hlives, hlast⟩ := lives_snoc.mp hlives
        obtain ⟨s, hs⟩ := exists_latest hlives.lists after
        refine .inr ⟨s, (ih hr').mpr ⟨before, e, after, rfl, hb, hlives, hs⟩, hlast s hs, ?_⟩
        exact latest_unique hlatest (latest_seen hs e')

theorem has_iff_lives (h₀ : r₀.store.table = Table.empty) (hr : r₀.Recorded h r) :
    r.store.table.Has k p t ↔ ∃ before e after, h = before ++ e :: after ∧
      r₀.Unlisted k before ∧ Lives r₀.policy k p e after ∧
      Latest t (readings k p (e :: after)) := by
  refine has_iff_lives_since (h₀ ▸ .empty) (fun t hrow => ?_) hr
  rw [h₀] at hrow
  obtain ⟨q, hq, -⟩ := hrow
  cases hq

theorem exists_has (h₀ : r₀.store.table = Table.empty) {before after : List Entry} {e : Entry}
    (hl : e.lists k p = true) (hr : r₀.Recorded (before ++ e :: after) r)
    (hk : ∀ mid e' rest r', after = mid ++ e' :: rest → r₀.Recorded (before ++ e :: mid) r' →
      ∀ q ∈ r'.store.table.listings, q.offer = k →
        e'.removes r₀.policy k q.owner q.lastSeen = false) :
    ∃ p' t, r.store.table.Has k p' t := by
  induction after using List.reverseRecOn generalizing r with
  | nil =>
    obtain ⟨r', hr', he, rfl⟩ := recorded_snoc.mp hr
    exact has_of_lists (recorded_wellFormed hr' (h₀ ▸ Table.WellFormed.empty)) (he.symm ▸ hl)
  | append_singleton after e' ih =>
    rw [← List.cons_append, ← List.append_assoc] at hr
    obtain ⟨r', hr', he, rfl⟩ := recorded_snoc.mp hr
    obtain ⟨p', s, q, hq, rfl, rfl, rfl⟩ := ih hr' fun mid x rest r'' hx =>
      hk mid x (rest ++ [e']) r'' (by rw [hx, List.append_assoc]; rfl)
    have hw := recorded_wellFormed hr' (h₀ ▸ Table.WellFormed.empty)
    refine ⟨q.owner, _, (has_operate hw e'.now e'.op).mpr (.inr ⟨_, ⟨q, hq, rfl, rfl, rfl⟩, ?_, rfl⟩)⟩
    rw [he, recorded_policy hr']
    exact hk after e' [] r' rfl hr' q hq rfl

theorem has_during (h₀ : r₀.store.table = Table.empty) {before mid rest : List Entry} {e : Entry}
    (hb : r₀.Unlisted k before) (hl : Lives r₀.policy k p e (mid ++ rest))
    (ht : Latest t (readings k p (e :: (mid ++ rest)))) (hr : r₀.Recorded (before ++ e :: mid) r) :
    ∃ s, r.store.table.Has k p s ∧ s ≤ t ∧ Latest s (readings k p (e :: mid)) := by
  obtain ⟨s, hs⟩ := exists_latest hl.lists mid
  refine ⟨s, (has_iff_lives h₀ hr).mpr ⟨before, e, mid, rfl, hb, hl.take, hs⟩, ?_, hs⟩
  rw [← List.cons_append, readings_append] at ht
  exact ht.2 s (List.mem_append_left _ hs.1)

/-- The rows of a registry that began empty, from its history. There is a row for an offer if it
has been listed and no entry since has removed the row that there was then. There is one owned and
last seen as given if the history has a life of it: the owner lists the offer while it has no row,
nothing removes the row from then on, and the reading is the latest of those that renewed it. And
throughout that life there was a row of that owner, seen no later. If nothing stands in the way of
saving, all entries were done but those that list no bare name or a new offer without a number. -/
theorem rows_of_history (h₀ : r₀.store.table = Table.empty) (hr : r₀.Recorded h r) (k : Offer) :
    ((∃ q ∈ r.store.table.listings, q.offer = k) ↔
      ∃ before e after p, h = before ++ e :: after ∧ e.lists k p = true ∧
        ∀ mid e' rest r', after = mid ++ e' :: rest → r₀.Recorded (before ++ e :: mid) r' →
          ∀ q ∈ r'.store.table.listings, q.offer = k →
            e'.removes r₀.policy k q.owner q.lastSeen = false) ∧
    (∀ p t, (∃ q ∈ r.store.table.listings, q.offer = k ∧ q.owner = p ∧ q.lastSeen = t) ↔
      ∃ before e after, h = before ++ e :: after ∧ r₀.Unlisted k before ∧
        Lives r₀.policy k p e after ∧ Latest t (readings k p (e :: after))) ∧
    (∀ q ∈ r.store.table.listings, q.offer = k →
      ∃ before e after, h = before ++ e :: after ∧ r₀.Unlisted k before ∧
        e.lists k q.owner = true ∧
        ∀ mid rest r', after = mid ++ rest → r₀.Recorded (before ++ e :: mid) r' →
          ∃ q' ∈ r'.store.table.listings,
            q'.offer = k ∧ q'.owner = q.owner ∧ q'.lastSeen ≤ q.lastSeen) ∧
    (r₀.Available → ∀ before e after r', h = before ++ e :: after → r₀.Recorded before r' →
      (e.done = true ↔ r'.Admits e.op)) := by
  refine ⟨⟨?_, ?_⟩, fun p t => has_iff_lives h₀ hr, ?_, ?_⟩
  · intro hrow
    obtain ⟨q, hq, ho⟩ := hrow
    obtain ⟨before, e, after, rfl, hb, hl, ht⟩ :=
      (has_iff_lives h₀ hr).mp ⟨q, hq, ho, rfl, rfl⟩
    refine ⟨before, e, after, q.owner, rfl, hl.lists, ?_⟩
    intro mid e' rest r' he hr' q' hq' ho'
    subst he
    obtain ⟨s, hs, -, hlatest⟩ := has_during h₀ hb hl ht hr'
    have hw := recorded_wellFormed hr' (h₀ ▸ Table.WellFormed.empty)
    obtain ⟨hp, hs'⟩ := has_unique hw ⟨q', hq', ho', rfl, rfl⟩ hs
    rw [hp, hs']
    exact hl.kept mid e' rest s rfl hlatest
  · intro hlisted
    obtain ⟨before, e, after, p, rfl, hl, hk⟩ := hlisted
    obtain ⟨p', t, q, hq, ho, -⟩ := exists_has h₀ hl hr hk
    exact ⟨q, hq, ho⟩
  · intro q hq ho
    obtain ⟨before, e, after, rfl, hb, hl, ht⟩ :=
      (has_iff_lives h₀ hr).mp ⟨q, hq, ho, rfl, rfl⟩
    refine ⟨before, e, after, rfl, hb, hl.lists, ?_⟩
    intro mid rest r' he hr'
    subst he
    obtain ⟨s, ⟨q', hq', ho', hp', rfl⟩, hle, -⟩ := has_during h₀ hb hl ht hr'
    exact ⟨q', hq', ho', hp', hle⟩
  · intro ha before e after r' hsplit hb
    exact done_iff_of_recorded ha (hsplit ▸ hr) hb

end Rows

def sampleOffer : Offer := ⟨"a.txt", "localhost", 80⟩

def sampleReading (second : Int) : Instant := (Instant.of? second 0).getD default

def sampleRow (seen : Int) : Listing := ⟨⟨0⟩, ⟨"p"⟩, sampleOffer, sampleReading seen⟩

def otherOffer (fileName : String) : Offer := ⟨fileName, "localhost", 80⟩

def sharedHistory : List Entry :=
  [⟨sampleReading 10, .list ⟨"p"⟩ sampleOffer, true⟩,
    ⟨sampleReading 20, .list ⟨"q"⟩ sampleOffer, true⟩,
    ⟨sampleReading 30, .list ⟨"p"⟩ (otherOffer "b.txt"), true⟩,
    ⟨sampleReading 30, .list ⟨"q"⟩ (otherOffer "c.txt"), true⟩,
    ⟨sampleReading 5, .heartbeat ⟨"p"⟩, true⟩,
    ⟨sampleReading 40, .delist "b.txt" ⟨"p"⟩, true⟩,
    ⟨sampleReading 40, .disconnect ⟨"q"⟩, true⟩,
    ⟨sampleReading 200, .reap, true⟩]

def replay (h : List Entry) : Registry := h.foldl (fun r e => (r.operate e.now e.op).2) {}

theorem rows_of_history_shared : ({} : Registry).store.table = Table.empty ∧
    Recorded {} sharedHistory (replay sharedHistory) ∧ ({} : Registry).Available ∧
    (replay (sharedHistory.take 5)).store.table.listings = [sampleRow 20,
      ⟨⟨1⟩, ⟨"p"⟩, otherOffer "b.txt", sampleReading 30⟩,
      ⟨⟨2⟩, ⟨"q"⟩, otherOffer "c.txt", sampleReading 30⟩] ∧
    (replay sharedHistory).store.table.listings = [sampleRow 20] ∧
    (∀ p t, (∃ q ∈ (replay sharedHistory).store.table.listings,
        q.offer = sampleOffer ∧ q.owner = p ∧ q.lastSeen = t) ↔
      ∃ before e after, sharedHistory = before ++ e :: after ∧
        Unlisted {} sampleOffer before ∧ Lives Policy.standard sampleOffer p e after ∧
        Latest t (readings sampleOffer p (e :: after))) ∧
    ∀ before e after r, sharedHistory = before ++ e :: after → Recorded {} before r →
      (e.done = true ↔ r.Admits e.op) :=
  have h : Recorded {} sharedHistory (replay sharedHistory) :=
    ⟨rfl, rfl, rfl, rfl, rfl, rfl, rfl, rfl, rfl⟩
  have rows := rows_of_history rfl h sampleOffer
  ⟨rfl, h, .default, by decide +kernel, by decide +kernel, rows.2.1, rows.2.2.2 .default⟩

end PeerShare.Registry
