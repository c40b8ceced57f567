import PeerShare.Proofs.Keyed
import PeerShare.Proofs.Listing
import PeerShare.Table

/-!
When rows, index and next number of a table belong together, and which rows a table has after each
statement. A table that is well formed is known by its listings: a number or an offer leads to at
most one of them, and the index to exactly that one. Every statement keeps this.
-/

namespace PeerShare

section Sorted
variable {α : Type} {l : List (EntryId × α)}

theorem keys_nodup_of_sorted (hl : l.Pairwise (·.1 < ·.1)) : (l.map (·.1)).Nodup := by
  rw [List.Nodup, List.pairwise_map]
  exact hl.imp EntryId.ne_of_lt

theorem mem_putSorted_of_mem {k : EntryId} {a : α} {e : EntryId × α}
    (h : e ∈ Keyed.putSorted k a l) : e = (k, a) ∨ e ∈ l := by
  induction l with
  | nil => exact .inl (List.mem_singleton.mp h)
  | cons f l ih =>
    simp only [Keyed.putSorted] at h
    split_ifs at h
    · exact (List.mem_cons.mp h).imp_right (List.mem_cons_of_mem _)
    · exact List.mem_cons.mp h
    · rcases List.mem_cons.mp h with rfl | h
      · exact .inr List.mem_cons_self
      · exact (ih h).imp_right (List.mem_cons_of_mem _)

theorem putSorted_of_lt {k : EntryId} (hk : ∀ e ∈ l, e.1 < k) (a : α) :
    Keyed.putSorted k a l = l ++ [(k, a)] := by
  induction l with
  | nil => rfl
  | cons e l ih =>
    have he := hk e List.mem_cons_self
    have hn : ¬ k < e.1 := fun h => EntryId.ne_of_lt (EntryId.lt_trans he h) rfl
    simp only [Keyed.putSorted, if_neg (EntryId.ne_of_lt he), if_neg hn, List.cons_append,
      ih fun f hf => hk f (List.mem_cons_of_mem _ hf)]

theorem sorted_putSorted (hl : l.Pairwise (·.1 < ·.1)) (k : EntryId) (a : α) :
    (Keyed.putSorted k a l).Pairwise (·.1 < ·.1) := by
  induction l with
  | nil => exact List.pairwise_singleton _ _
  | cons e l ih =>
    obtain ⟨he, hl'⟩ := List.pairwise_cons.mp hl
    simp only [Keyed.putSorted]
    split_ifs with hk hlt
    · exact List.pairwise_cons.mpr ⟨fun f hf => hk ▸ he f hf, hl'⟩
    · refine List.pairwise_cons.mpr ⟨fun f hf => ?_, hl⟩
      rcases List.mem_cons.mp hf with rfl | hf
      · exact hlt
      · exact EntryId.lt_trans hlt (he f hf)
    · refine List.pairwise_cons.mpr ⟨fun f hf => ?_, ih hl'⟩
      rcases mem_putSorted_of_mem hf with rfl | hf
      · exact EntryId.lt_of_not_lt (Ne.symm hk) hlt
      · exact he f hf

end Sorted

namespace Table

structure WellFormed (t : Table) : Prop where
  sorted : t.rows.Pairwise (·.1 < ·.1)
  own : ∀ e ∈ t.rows, e.2.id = e.1
  below : ∀ e ∈ t.rows, e.1 < t.nextId
  single : (t.index.map (·.1)).Nodup
  indexed : ∀ o i, Keyed.get? o t.index = some i ↔ ∃ r, t.get? i = some r ∧ r.offer = o

theorem WellFormed.empty : Table.empty.WellFormed where
  sorted := .nil
  own := by simp [Table.empty]
  below := by simp [Table.empty]
  single := .nil
  indexed := by simp [Table.empty, Table.get?]

namespace WellFormed
variable {t : Table}

theorem mem_rows_iff (h : t.WellFormed) {i : EntryId} {r : Listing} :
    (i, r) ∈ t.rows ↔ r ∈ t.listings ∧ r.id = i := by
  unfold Table.listings
  constructor
  · intro hr
    exact ⟨List.mem_map_of_mem (f := (·.2)) hr, h.own _ hr⟩
  · intro hrow
    obtain ⟨hr, rfl⟩ := hrow
    obtain ⟨⟨i, r⟩, he, rfl⟩ := List.mem_map.mp hr
    have hi := h.own _ he
    dsimp only at hi ⊢
    exact hi ▸ he

theorem get?_eq_some_iff (h : t.WellFormed) {i : EntryId} {r : Listing} :
    t.get? i = some r ↔ r ∈ t.listings ∧ r.id = i := by
  rw [Table.get?, Keyed.get?_eq_some_iff (keys_nodup_of_sorted h.sorted), h.mem_rows_iff]

theorem get?_id (h : t.WellFormed) {r : Listing} (hr : r ∈ t.listings) : t.get? r.id = some r :=
  h.get?_eq_some_iff.mpr ⟨hr, rfl⟩

theorem mem_listings_iff (h : t.WellFormed) {r : Listing} :
    r ∈ t.listings ↔ t.get? r.id = some r :=
  ⟨h.get?_id, fun hg => (h.get?_eq_some_iff.mp hg).1⟩

theorem get?_eq_none_iff (h : t.WellFormed) {i : EntryId} :
    t.get? i = none ↔ ∀ r ∈ t.listings, r.id ≠ i := by
  constructor
  · intro hn r hr hi
    rw [h.get?_eq_some_iff.mpr ⟨hr, hi⟩] at hn
    cases hn
  · intro hn
    cases hg : t.get? i with
    | none => rfl
    | some r =>
      obtain ⟨hr, hi⟩ := h.get?_eq_some_iff.mp hg
      exact absurd hi (hn r hr)

theorem id_lt (h : t.WellFormed) {r : Listing} (hr : r ∈ t.listings) : r.id < t.nextId :=
  h.below _ (h.mem_rows_iff.mpr ⟨hr, rfl⟩)

theorem eq_of_id (h : t.WellFormed) {r q : Listing} (hr : r ∈ t.listings) (hq : q ∈ t.listings)
    (hi : r.id = q.id) : r = q := by
  have hg := h.get?_id hr
  rw [hi, h.get?_id hq] at hg
  exact (Option.some.inj hg).symm

theorem index_eq_some_iff (h : t.WellFormed) {o : Offer} {i : EntryId} :
    Keyed.get? o t.index = some i ↔ ∃ r ∈ t.listings, r.id = i ∧ r.offer = o := by
  rw [h.indexed]
  simp only [h.get?_eq_some_iff, and_assoc]

theorem eq_of_offer (h : t.WellFormed) {r q : Listing} (hr : r ∈ t.listings)
    (hq : q ∈ t.listings) (ho : r.offer = q.offer) : r = q := by
  have hi := h.index_eq_some_iff.mpr ⟨r, hr, rfl, ho⟩
  rw [h.index_eq_some_iff.mpr ⟨q, hq, rfl, rfl⟩] at hi
  exact h.eq_of_id hr hq (Option.some.inj hi).symm

theorem indexed?_of_mem (h : t.WellFormed) {r : Listing} (hr : r ∈ t.listings) :
    t.indexed? r.offer = some (r.id, r) := by
  simp [Table.indexed?, h.index_eq_some_iff.mpr ⟨r, hr, rfl, rfl⟩, h.get?_id hr]

theorem index_eq_none (h : t.WellFormed) {o : Offer} (ho : ∀ r ∈ t.listings, r.offer ≠ o) :
    Keyed.get? o t.index = none := by
  cases hi : Keyed.get? o t.index with
  | none => rfl
  | some i =>
    obtain ⟨r, hr, _, hro⟩ := h.index_eq_some_iff.mp hi
    exact absurd hro (ho r hr)

theorem indexed?_eq_none (h : t.WellFormed) {o : Offer} (ho : ∀ r ∈ t.listings, r.offer ≠ o) :
    t.indexed? o = none := by
  simp [Table.indexed?, h.index_eq_none ho]

end WellFormed

/-! ### Renewing and adding -/

def renew (t : Table) (r : Listing) (now : Instant) : Table :=
  { t with rows := Keyed.putSorted r.id (r.seenAt now) t.rows }

def enter (t : Table) (r : Listing) (next : EntryId) : Table := { t.add r with nextId := next }

/-- The row comes after all others, and none of them stands for its offer. -/
structure Entrant (t : Table) (r : Listing) : Prop where
  last : ∀ q ∈ t.listings, q.id < r.id
  free : ∀ q ∈ t.listings, q.offer ≠ r.offer

theorem WellFormed.entrant {t : Table} (h : t.WellFormed) {o : Offer}
    (ho : ∀ r ∈ t.listings, r.offer ≠ o) (owner : PeerId) (now : Instant) :
    t.Entrant ⟨t.nextId, owner, o, now⟩ := ⟨fun _ hq => h.id_lt hq, ho⟩

section Upsert
variable {t : Table}

theorem upsert_of_mem (h : t.WellFormed) {r : Listing} (hr : r ∈ t.listings) (owner : PeerId)
    (now : Instant) : t.upsert owner r.offer now = .ok (r.seenAt now, t.renew r now) := by
  rw [upsert, h.indexed?_of_mem hr]
  rfl

theorem upsert_of_free (h : t.WellFormed) {o : Offer} (ho : ∀ r ∈ t.listings, r.offer ≠ o)
    {next : EntryId} (hn : t.nextId.next? = some next) (owner : PeerId) (now : Instant) :
    t.upsert owner o now = .ok (⟨t.nextId, owner, o, now⟩, t.enter ⟨t.nextId, owner, o, now⟩ next) := by
  simp only [upsert, h.indexed?_eq_none ho, hn]
  rfl

theorem upsert_of_exhausted (h : t.WellFormed) {o : Offer} (ho : ∀ r ∈ t.listings, r.offer ≠ o)
    (hn : t.nextId.next? = none) (owner : PeerId) (now : Instant) :
    t.upsert owner o now = .error .idsExhausted := by
  simp only [upsert, h.indexed?_eq_none ho, hn]

theorem upsert_cases (h : t.WellFormed) {owner : PeerId} {o : Offer} {now : Instant}
    {r : Listing} {u : Table} (hu : t.upsert owner o now = .ok (r, u)) :
    (∃ q ∈ t.listings, q.offer = o ∧ r = q.seenAt now ∧ u = t.renew q now) ∨
    ∃ next, (∀ q ∈ t.listings, q.offer ≠ o) ∧ t.nextId.next? = some next ∧
      r = ⟨t.nextId, owner, o, now⟩ ∧ u = t.enter ⟨t.nextId, owner, o, now⟩ next := by
  by_cases ho : ∃ q ∈ t.listings, q.offer = o
  · obtain ⟨q, hq, rfl⟩ := ho
    rw [upsert_of_mem h hq] at hu
    cases hu
    exact .inl ⟨q, hq, rfl, rfl, rfl⟩
  · replace ho : ∀ q ∈ t.listings, q.offer ≠ o := fun q hq he => ho ⟨q, hq, he⟩
    cases hn : t.nextId.next? with
    | none =>
      rw [upsert_of_exhausted h ho hn] at hu
      cases hu
    | some next =>
      rw [upsert_of_free h ho hn] at hu
      cases hu
      exact .inr ⟨next, ho, rfl, rfl, rfl⟩

theorem get?_renew (r : Listing) (now : Instant) (i : EntryId) :
    (t.renew r now).get? i = if r.id = i then some (r.seenAt now) else t.get? i :=
  Keyed.get?_putSorted _ _ _ _

theorem WellFormed.renew (h : t.WellFormed) {r : Listing} (hr : r ∈ t.listings) (now : Instant) :
    (t.renew r now).WellFormed where
  sorted := sorted_putSorted h.sorted _ _
  own := fun e he => by
    rcases mem_putSorted_of_mem he with rfl | he
    · rfl
    · exact h.own e he
  below := fun e he => by
    rcases mem_putSorted_of_mem he with rfl | he
    · exact h.id_lt hr
    · exact h.below e he
  single := h.single
  indexed := fun o i => by
    refine (h.indexed o i).trans ?_
    rw [get?_renew]
    split_ifs with hi
    · simp [← hi, h.get?_id hr]
    · rfl

theorem rows_enter {r : Listing} (h : t.WellFormed) (hr : t.Entrant r) (next : EntryId) :
    (t.enter r next).rows = t.rows ++ [(r.id, r)] :=
  putSorted_of_lt (fun e he => h.own e he ▸ hr.last _ (List.mem_map_of_mem he)) r

theorem listings_enter {r : Listing} (h : t.WellFormed) (hr : t.Entrant r) (next : EntryId) :
    (t.enter r next).listings = t.listings ++ [r] := by
  rw [listings, rows_enter h hr, List.map_append]
  rfl

theorem mem_enter {r q : Listing} (h : t.WellFormed) (hr : t.Entrant r) {next : EntryId} :
    q ∈ (t.enter r next).listings ↔ q = r ∨ q ∈ t.listings := by
  rw [listings_enter h hr, List.mem_append, List.mem_singleton, or_comm]

theorem get?_enter (r : Listing) (next i : EntryId) :
    (t.enter r next).get? i = if r.id = i then some r else t.get? i :=
  Keyed.get?_putSorted _ _ _ _

theorem WellFormed.enter {r : Listing} (h : t.WellFormed) (hr : t.Entrant r) {next : EntryId}
    (hn : r.id < next) : (t.enter r next).WellFormed where
  sorted := sorted_putSorted h.sorted _ _
  own := fun e he => by
    rcases mem_putSorted_of_mem he with rfl | he
    · rfl
    · exact h.own e he
  below := fun e he => by
    rcases mem_putSorted_of_mem he with rfl | he
    · exact hn
    · exact EntryId.lt_trans (h.own e he ▸ hr.last _ (List.mem_map_of_mem he)) hn
  single := Keyed.keys_put_nodup h.single
  indexed := fun o i => by
    show Keyed.get? o (Keyed.put r.offer r.id t.index) = some i ↔ _
    rw [Keyed.get?_put, get?_enter]
    split_ifs with ho hi hi
    · simp [hi, ho]
    · subst ho
      simp only [Option.some.injEq, hi, false_iff, not_exists, not_and]
      exact fun q hq => hr.free q (h.get?_eq_some_iff.mp hq).1
    · subst hi
      simp only [Option.some.injEq, exists_eq_left', ho, iff_false]
      intro hi
      obtain ⟨q, hq, hqi, _⟩ := h.index_eq_some_iff.mp hi
      exact EntryId.ne_of_lt (hr.last q hq) hqi
    · exact h.indexed o i

theorem mem_renew (h : t.WellFormed) {r : Listing} (hr : r ∈ t.listings) {now : Instant}
    {q : Listing} : q ∈ (t.renew r now).listings ↔ q = r.seenAt now ∨ q ∈ t.listings ∧ q ≠ r := by
  rw [(h.renew hr now).mem_listings_iff, get?_renew]
  split_ifs with hi
  · rw [Option.some.injEq, eq_comm]
    refine ⟨.inl, ?_⟩
    intro hcases
    rcases hcases with he | ⟨hm, hne⟩
    · exact he
    · exact absurd (h.eq_of_id hm hr hi.symm) hne
  · rw [h.get?_eq_some_iff]
    refine ⟨fun hm => .inr ⟨hm.1, fun he => hi (he ▸ rfl)⟩, ?_⟩
    intro hcases
    rcases hcases with he | ⟨hm, _⟩
    · exact absurd (he ▸ rfl) hi
    · exact ⟨hm, rfl⟩

end Upsert

/-! ### Deleting and touching -/

section Bulk
variable {t : Table} {doomed : Listing → Bool} {owner : PeerId} {now : Instant}

theorem listings_deleteWhere (t : Table) (doomed : Listing → Bool) :
    (t.deleteWhere doomed).2.listings = t.listings.filter fun r => !doomed r := by
  simp only [deleteWhere, listings, List.filter_map]
  rfl

theorem mem_deleteWhere {q : Listing} :
    q ∈ (t.deleteWhere doomed).2.listings ↔ q ∈ t.listings ∧ doomed q = false := by
  rw [listings_deleteWhere, List.mem_filter, Bool.not_eq_true']

theorem deleteWhere_eq_self (h : (t.deleteWhere doomed).1 = 0) : (t.deleteWhere doomed).2 = t := by
  have hd : ∀ r ∈ t.listings, ¬ doomed r = true :=
    List.filter_eq_nil_iff.mp (List.length_eq_zero_iff.mp h)
  have hr : (t.rows.filter fun e => !doomed e.2) = t.rows := by
    refine List.filter_eq_self.mpr fun e he => ?_
    simpa using hd e.2 (List.mem_map_of_mem (f := (·.2)) he)
  have hi : (t.index.filter fun e => !([] : List Listing).any (·.offer = e.1)) = t.index :=
    List.filter_eq_self.mpr fun _ _ => rfl
  simp only [deleteWhere, List.filter_eq_nil_iff.mpr hd, hr, hi]

theorem mem_rows_deleteWhere {e : EntryId × Listing} :
    e ∈ (t.deleteWhere doomed).2.rows ↔ e ∈ t.rows ∧ doomed e.2 = false := by
  simp [deleteWhere]

theorem get?_index_deleteWhere (t : Table) (doomed : Listing → Bool) (o : Offer) :
    Keyed.get? o (t.deleteWhere doomed).2.index =
      if (t.listings.filter doomed).any (·.offer = o) then none else Keyed.get? o t.index := by
  simp only [deleteWhere]
  rw [Keyed.get?_filter_key (fun o => !(t.listings.filter doomed).any (·.offer = o))]
  cases (t.listings.filter doomed).any (·.offer = o) <;> rfl

theorem WellFormed.deleteWhere (h : t.WellFormed) (doomed : Listing → Bool) :
    (t.deleteWhere doomed).2.WellFormed := by
  have sorted : (t.deleteWhere doomed).2.rows.Pairwise (·.1 < ·.1) := h.sorted.filter _
  refine ⟨sorted, fun e he => h.own e (mem_rows_deleteWhere.mp he).1,
    fun e he => h.below e (mem_rows_deleteWhere.mp he).1,
    h.single.sublist (List.filter_sublist.map _), fun o i => ?_⟩
  have hget : ∀ r, (t.deleteWhere doomed).2.get? i = some r ↔
      (r ∈ t.listings ∧ r.id = i) ∧ doomed r = false := fun r => by
    rw [get?, Keyed.get?_eq_some_iff (keys_nodup_of_sorted sorted), mem_rows_deleteWhere,
      h.mem_rows_iff]
  simp only [hget, get?_index_deleteWhere]
  split_ifs with hg <;> simp only [List.any_eq_true, decide_eq_true_eq, List.mem_filter] at hg
  · -- The row that was doomed is the only one of its offer.
    obtain ⟨g, ⟨hg, hd⟩, rfl⟩ := hg
    simp only [false_iff, not_exists]
    intro r hrow
    obtain ⟨⟨⟨hr, _⟩, hs⟩, ho⟩ := hrow
    rw [h.eq_of_offer hr hg ho, hd] at hs
    cases hs
  · rw [h.index_eq_some_iff]
    constructor
    · intro hrow
      obtain ⟨r, hr, hi, ho⟩ := hrow
      refine ⟨r, ⟨⟨hr, hi⟩, ?_⟩, ho⟩
      cases hd : doomed r with
      | false => rfl
      | true => exact absurd ⟨r, ⟨hr, hd⟩, ho⟩ hg
    · intro hrow
      obtain ⟨r, ⟨⟨hr, hi⟩, _⟩, ho⟩ := hrow
      exact ⟨r, hr, hi, ho⟩

def touched (owner : PeerId) (now : Instant) (r : Listing) : Listing :=
  if r.owner = owner then r.seenAt now else r

@[simp] theorem touched_id (r : Listing) : (touched owner now r).id = r.id := by
  unfold touched; split_ifs <;> rfl

@[simp] theorem touched_owner (r : Listing) : (touched owner now r).owner = r.owner := by
  unfold touched; split_ifs <;> rfl

@[simp] theorem touched_offer (r : Listing) : (touched owner now r).offer = r.offer := by
  unfold touched; split_ifs <;> rfl

theorem listings_touchOwner (t : Table) (owner : PeerId) (now : Instant) :
    (t.touchOwner owner now).2.listings = t.listings.map (touched owner now) := by
  simp only [touchOwner, listings, List.map_map]
  rfl

theorem mem_touchOwner {q : Listing} : q ∈ (t.touchOwner owner now).2.listings ↔
    ∃ r ∈ t.listings, touched owner now r = q := by
  rw [listings_touchOwner, List.mem_map]

theorem touchOwner_eq_self (h : (t.touchOwner owner now).1 = 0) :
    (t.touchOwner owner now).2 = t := by
  have hn : ∀ e ∈ t.rows, ¬ e.2.owner = owner := fun e he => by
    simpa using List.countP_eq_zero.mp h e.2 (List.mem_map_of_mem (f := (·.2)) he)
  have hr : t.rows.map (fun e => (e.1, if e.2.owner = owner then e.2.seenAt now else e.2)) =
      t.rows := by
    refine (List.map_congr_left fun e he => ?_).trans (List.map_id _)
    rw [if_neg (hn e he)]
    rfl
  simp only [touchOwner, hr]

theorem get?_touchOwner (t : Table) (owner : PeerId) (now : Instant) (i : EntryId) :
    (t.touchOwner owner now).2.get? i = (t.get? i).map (touched owner now) :=
  Keyed.get?_map (touched owner now) i t.rows

theorem WellFormed.touchOwner (h : t.WellFormed) (owner : PeerId) (now : Instant) :
    (t.touchOwner owner now).2.WellFormed where
  sorted := List.pairwise_map.mpr h.sorted
  own := fun e he => by
    obtain ⟨f, hf, rfl⟩ := List.mem_map.mp he
    exact (touched_id f.2).trans (h.own f hf)
  below := fun e he => by
    obtain ⟨f, hf, rfl⟩ := List.mem_map.mp he
    exact h.below f hf
  single := h.single
  indexed := fun o i => by
    refine (h.indexed o i).trans ?_
    rw [get?_touchOwner]
    cases t.get? i <;> simp

end Bulk
end Table
end PeerShare
