import PeerShare.Proofs.Registry.Store

/-!
What a store has after it opens a file that it need not have written. Entries are taken one after
the other: under a number stands the last entry that carries it, and the index leads from an offer
to the number of the last entry for it. For some documents these two belong together, and the table
is as good as one the store has made; for the others the index leads astray.
-/

namespace PeerShare

namespace Snapshot

def lastWith (l : List Listing) (p : Listing → Bool) : Option Listing := l.findRev? p

/-- The last entry for an offer has a number exactly if the last entry with the number is for that
offer. -/
def Coherent (s : Snapshot) : Prop := ∀ r ∈ s.entries,
  (lastWith s.entries (·.offer = r.offer)).map (·.id) = some r.id ↔
    (lastWith s.entries (·.id = r.id)).map (·.offer) = some r.offer

instance (s : Snapshot) : Decidable s.Coherent :=
  inferInstanceAs (Decidable (∀ r ∈ s.entries, _ ↔ _))

section Last
variable {l : List Listing} {p : Listing → Bool} {r : Listing}

theorem lastWith_concat (l : List Listing) (r : Listing) (p : Listing → Bool) :
    lastWith (l ++ [r]) p = if p r then some r else lastWith l p := by
  simp only [lastWith, List.findRev?_eq_find?_reverse, List.reverse_append, List.reverse_singleton,
    List.singleton_append, List.find?_cons]
  cases p r <;> rfl

theorem lastWith_eq_some (h : lastWith l p = some r) : r ∈ l ∧ p r = true := by
  rw [lastWith, List.findRev?_eq_find?_reverse] at h
  exact ⟨List.mem_reverse.mp (List.mem_of_find?_eq_some h), List.find?_some h⟩

theorem exists_lastWith (hr : r ∈ l) (hp : p r = true) : ∃ q, lastWith l p = some q ∧ p q = true := by
  rw [lastWith, List.findRev?_eq_find?_reverse]
  obtain ⟨q, hq⟩ := Option.isSome_iff_exists.mp
    (List.find?_isSome.mpr ⟨r, List.mem_reverse.mpr hr, hp⟩)
  exact ⟨q, hq, List.find?_some hq⟩

theorem coherent_iff {s : Snapshot} : s.Coherent ↔ ∀ o i,
    (lastWith s.entries (·.offer = o)).map (·.id) = some i ↔
      (lastWith s.entries (·.id = i)).map (·.offer) = some o := by
  refine ⟨fun h o i => ?_, fun h r _ => h r.offer r.id⟩
  constructor
  · intro ho
    obtain ⟨q, hq, hi⟩ := Option.map_eq_some_iff.mp ho
    obtain ⟨hm, hqo⟩ := lastWith_eq_some hq
    have hqo := of_decide_eq_true hqo
    subst hi hqo
    exact (h q hm).mp ho
  · intro hi
    obtain ⟨q, hq, ho⟩ := Option.map_eq_some_iff.mp hi
    obtain ⟨hm, hqi⟩ := lastWith_eq_some hq
    have hqi := of_decide_eq_true hqi
    subst hqi ho
    exact (h q hm).mpr hi

end Last

/-! ### Entering -/

/-- The table after the entries `l`, where `n` was the next number before them. -/
structure Loaded (n : EntryId) (l : List Listing) (t : Table) : Prop where
  sorted : t.rows.Pairwise (·.1 < ·.1)
  own : ∀ e ∈ t.rows, e.2.id = e.1
  below : ∀ e ∈ t.rows, e.1 < t.nextId
  single : (t.index.map (·.1)).Nodup
  nextId : n ≤ t.nextId
  row : ∀ i, t.get? i = lastWith l (·.id = i)
  indexed : ∀ o, Keyed.get? o t.index = (lastWith l (·.offer = o)).map (·.id)

section Loaded
variable {n : EntryId} {l : List Listing} {t u : Table} {r : Listing}

theorem Loaded.nil (n : EntryId) : Loaded n [] { nextId := n } where
  sorted := .nil
  own := by simp
  below := by simp
  single := .nil
  nextId := EntryId.le_refl n
  row := fun _ => rfl
  indexed := fun _ => rfl

theorem Loaded.addEntry (h : Loaded n l t) (hu : addEntry t r = .ok u) : Loaded n (l ++ [r]) u := by
  rw [Snapshot.addEntry] at hu
  cases hn : r.id.next? with
  | none =>
    rw [hn] at hu
    cases hu
  | some next =>
    rw [hn] at hu
    cases hu
    have new : r.id < max t.nextId next :=
      EntryId.lt_of_lt_of_le (EntryId.lt_next? hn) (EntryId.le_max_right _ _)
    refine ⟨sorted_putSorted h.sorted _ _, fun e he => ?_, fun e he => ?_,
      Keyed.keys_put_nodup h.single, EntryId.le_trans h.nextId (EntryId.le_max_left _ _),
      fun i => ?_, fun o => ?_⟩
    · rcases mem_putSorted_of_mem he with rfl | he
      · rfl
      · exact h.own e he
    · rcases mem_putSorted_of_mem he with rfl | he
      · exact new
      · exact EntryId.lt_of_lt_of_le (h.below e he) (EntryId.le_max_left _ _)
    · rw [lastWith_concat, ← h.row]
      simp only [decide_eq_true_eq]
      exact Keyed.get?_putSorted r.id i r t.rows
    · show Keyed.get? o (Keyed.put r.offer r.id t.index) = _
      rw [Keyed.get?_put, lastWith_concat, h.indexed]
      by_cases ho : r.offer = o
      · simp [ho]
      · simp [ho]

theorem loaded_foldlM (h : l.foldlM addEntry { nextId := n } = .ok t) : Loaded n l t := by
  induction l using List.reverseRecOn generalizing t with
  | nil =>
    cases h
    exact .nil n
  | append_singleton l r ih =>
    rw [List.foldlM_append] at h
    obtain ⟨u, hu, ht⟩ := Disk.bind_eq_ok.mp h
    obtain ⟨v, hv, ht⟩ := Disk.bind_eq_ok.mp ht
    cases ht
    exact (ih hu).addEntry hv

theorem foldlM_addEntry_cases (l : List Listing) (t : Table) :
    (l.foldlM addEntry t = .error .idsExhausted ∧ ∃ r ∈ l, r.id.next? = none) ∨
    ∃ u, l.foldlM addEntry t = .ok u ∧ ∀ r ∈ l, r.id.next? ≠ none := by
  induction l generalizing t with
  | nil => exact .inr ⟨t, rfl, by simp⟩
  | cons r l ih =>
    rw [List.foldlM_cons]
    cases hn : r.id.next? with
    | none => exact .inl ⟨by simp only [addEntry, hn]; rfl, r, List.mem_cons_self, hn⟩
    | some next =>
      have step : addEntry t r = .ok { t.add r with nextId := max t.nextId next } := by
        simp only [addEntry, hn]
      rw [step]
      rcases ih { t.add r with nextId := max t.nextId next } with ⟨he, q, hq, hqn⟩ | ⟨u, hu, hl⟩
      · exact .inl ⟨he, q, List.mem_cons_of_mem _ hq, hqn⟩
      · refine .inr ⟨u, hu, fun q hq => ?_⟩
        rcases List.mem_cons.mp hq with rfl | hq
        · rw [hn]
          exact Option.some_ne_none next
        · exact hl q hq

theorem Loaded.mem (h : Loaded n l t) {i : EntryId} (hr : t.get? i = some r) :
    r ∈ t.listings ∧ r.id = i := by
  have hm : (i, r) ∈ t.rows := Keyed.mem_of_get? hr
  exact ⟨List.mem_map_of_mem (f := (·.2)) hm, h.own _ hm⟩

theorem Loaded.upsert (h : Loaded n l t) {o : Offer} {q : Listing}
    (ho : lastWith l (·.offer = o) = some q) (hr : t.get? q.id = some r) (owner : PeerId)
    (now : Instant) : ∃ u, t.upsert owner o now = .ok (r.seenAt now, u) := by
  have hi : t.indexed? o = some (q.id, r) := by
    simp [Table.indexed?, h.indexed, ho, hr]
  simp only [Table.upsert, hi]
  exact ⟨_, rfl⟩

end Loaded

/-! ### Coherent documents -/

section Coherent
variable {s : Snapshot} {t : Table}

theorem Loaded.wellFormed_iff {n : EntryId} (h : Loaded n s.entries t) :
    t.WellFormed ↔ s.Coherent := by
  have row (o : Offer) (i : EntryId) : (∃ r, t.get? i = some r ∧ r.offer = o) ↔
      (lastWith s.entries (·.id = i)).map (·.offer) = some o := by
    rw [h.row, Option.map_eq_some_iff]
  constructor
  · intro hw
    refine coherent_iff.mpr fun o i => ?_
    rw [← h.indexed, hw.indexed, row]
  · intro hc
    refine ⟨h.sorted, h.own, h.below, h.single, fun o i => ?_⟩
    rw [row, h.indexed]
    exact coherent_iff.mp hc o i

theorem Loaded.astray {n : EntryId} (h : Loaded n s.entries t) (hc : ¬ s.Coherent) :
    (∃ r ∈ t.listings, ∃ q ∈ t.listings, r.id ≠ q.id ∧ r.offer = q.offer) ∨
    ∃ o, ∀ owner now, ∃ r u, t.upsert owner o now = .ok (r, u) ∧ r.offer ≠ o := by
  rw [Coherent] at hc
  push Not at hc
  obtain ⟨e, he, hc⟩ := hc
  obtain ⟨q, hq, -⟩ := exists_lastWith (p := (·.offer = e.offer)) he (decide_eq_true rfl)
  obtain ⟨r, hr, -⟩ := exists_lastWith (p := (·.id = e.id)) he (decide_eq_true rfl)
  -- The row to which the index leads from the offer.
  obtain ⟨q', hq', hid⟩ := exists_lastWith (p := (·.id = q.id)) (lastWith_eq_some hq).1
    (decide_eq_true rfl)
  rw [← h.row] at hr hq'
  by_cases ho : q'.offer = e.offer
  · have hne : q.id ≠ e.id := by
      intro hi
      rw [hi, hr] at hq'
      cases hq'
      simp [hq, hi, ← h.row, hr, ho] at hc
    have hre : r.offer = e.offer := by
      by_contra hre
      simp [hq, hne, ← h.row, hr, hre] at hc
    obtain ⟨hrm, hri⟩ := h.mem hr
    obtain ⟨hqm, hqi⟩ := h.mem hq'
    exact .inl ⟨r, hrm, q', hqm, by rw [hri, hqi]; exact hne.symm, hre.trans ho.symm⟩
  · refine .inr ⟨e.offer, fun owner now => ?_⟩
    obtain ⟨u, hu⟩ := h.upsert hq hq' owner now
    exact ⟨_, u, hu, ho⟩

end Coherent
end Snapshot

namespace Store

inductive Serves (s : Store) : Store → Prop
  | refl : Serves s s
  | tail {s' : Store} (h : Serves s s') (d : Disk) (st : Table.Statement) :
      Serves s (({ s' with disk := d } : Store).execute st).2

section Opened
variable {s s' : Store} {format : Snapshot.Format} {p : FilePath} {d : Disk} {text : List Char}
  {snap : Snapshot}

theorem Serves.wellFormed (h : s.Serves s') (hw : s.table.WellFormed) : s'.table.WellFormed := by
  induction h with
  | refl => exact hw
  | @tail s' _ d st ih =>
    rcases execute_table { s' with disk := d } st with ⟨-, ha⟩ | ⟨-, ht⟩
    · exact Table.Statement.wellFormed_apply ih ha
    · rw [ht]
      exact ih

theorem upsert_offer (hw : s.table.WellFormed) {owner : PeerId} {o : Offer} {now : Instant}
    {r : Listing} (hu : s.upsert owner o now = .ok (.ok r, s')) : r.offer = o := by
  obtain ⟨⟨q, t⟩, ht, hc⟩ := Disk.bind_eq_ok.mp hu
  simp only [pure, Except.pure, Except.ok.injEq, Prod.mk.injEq] at hc
  have hrq : r = q := by
    cases hd : (s.commit t).1 with
    | ok _ =>
      rw [hd] at hc
      exact (Except.ok.inj hc.1).symm
    | error e =>
      rw [hd] at hc
      cases hc.1
  rcases Table.upsert_cases hw ht with ⟨p, -, ho, rfl, -⟩ | ⟨next, -, -, rfl, -⟩
  · rw [hrq]
    exact ho
  · rw [hrq]

/-- A file whose document can be read is opened unless an entry has the last number. The rows are
then the last entries of each number, and rows and index belong together exactly if the document is
coherent. Then they do so ever after, and an upsert answers with a row for the offer it was asked
for; otherwise two rows have one offer, or for some offer an upsert answers with the row of
another. -/
theorem opened_wellFormed_iff (ht : d.readText p = .ok text) (hs : format.read text = some snap) :
    (openFile format p d = .error .idsExhausted ∧ ∃ r ∈ snap.entries, r.id.next? = none) ∨
    ∃ s : Store, openFile format p d = .ok (.ok s, d) ∧ (∀ r ∈ snap.entries, r.id.next? ≠ none) ∧
      (∀ i, s.table.get? i = Snapshot.lastWith snap.entries (·.id = i)) ∧
      (∀ o, Keyed.get? o s.table.index =
        (Snapshot.lastWith snap.entries (·.offer = o)).map (·.id)) ∧
      (∀ e ∈ s.table.rows, e.2.id = e.1 ∧ e.1 < s.table.nextId) ∧
      snap.nextId ≤ s.table.nextId ∧
      (s.table.WellFormed ↔ snap.Coherent) ∧
      (snap.Coherent → ∀ s', s.Serves s' → s'.table.WellFormed ∧
        (∀ r ∈ s'.table.listings, ∀ q ∈ s'.table.listings, r.offer = q.offer → r = q) ∧
        ∀ owner o now r s'', s'.upsert owner o now = .ok (.ok r, s'') → r.offer = o) ∧
      (¬ snap.Coherent →
        (∃ r ∈ s.table.listings, ∃ q ∈ s.table.listings, r.id ≠ q.id ∧ r.offer = q.offer) ∨
        ∃ o, ∀ owner now, ∃ r t, s.table.upsert owner o now = .ok (r, t) ∧ r.offer ≠ o) := by
  rw [openFile_of_readText ht hs]
  rcases Snapshot.foldlM_addEntry_cases snap.entries { nextId := snap.nextId } with
    ⟨he, hl⟩ | ⟨t, ho, hl⟩
  · have halted : snap.toTable = .error .idsExhausted := he
    exact .inl ⟨by rw [halted]; rfl, hl⟩
  · have entered : snap.toTable = .ok t := ho
    have h := Snapshot.loaded_foldlM ho
    refine .inr ⟨_, by rw [entered]; rfl, hl, h.row, h.indexed, fun e he => ⟨h.own e he, h.below e he⟩,
      h.nextId, h.wellFormed_iff, fun hc s' hs' => ?_, h.astray⟩
    have hw := hs'.wellFormed (h.wellFormed_iff.mpr hc)
    exact ⟨hw, fun r hr q hq => hw.eq_of_offer hr hq, fun _ _ _ _ _ => upsert_offer hw⟩

end Opened

/-! ### Documents by hand -/

def handMade (entries : List (UInt64 × String)) : Snapshot :=
  ⟨1, ⟨0⟩, entries.map fun (n, name) => ⟨⟨n⟩, ⟨"p"⟩, ⟨name, "localhost", 80⟩, default⟩⟩

def documentDisk (snap : Snapshot) : Disk :=
  { nodes := [([Text.bytes "registry.yaml"],
      .file (Text.encode (Snapshot.render snap)) Disk.privateMode)] }

def documentPath : FilePath := ⟨"/registry.yaml"⟩

theorem documentDisk_readText (snap : Snapshot) :
    (documentDisk snap).readText documentPath = .ok (Snapshot.render snap) := by
  have hb : (documentDisk snap).readBytes documentPath =
    .ok (Text.encode (Snapshot.render snap)) := rfl
  simp only [Disk.readText, hb, bind, Except.bind, Text.decode_encode, pure, Except.pure]

def unordered : Snapshot := handMade [(7, "b.txt"), (3, "a.txt")]

theorem opened_wellFormed_iff_handMade :
    (documentDisk unordered).readText documentPath = .ok (Snapshot.render unordered) ∧
    Snapshot.Format.yaml.read (Snapshot.render unordered) = some unordered ∧
    ∃ s : Store, s.table.get? ⟨3⟩ ≠ none ∧ ∀ s', s.Serves s' →
      ∀ owner o now r s'', s'.upsert owner o now = .ok (.ok r, s'') → r.offer = o := by
  have hs : Snapshot.Format.yaml.read (Snapshot.render unordered) = some unordered := by
    decide +kernel
  refine ⟨documentDisk_readText _, hs, ?_⟩
  rcases opened_wellFormed_iff (documentDisk_readText _) hs with
    ⟨-, hl⟩ | ⟨s, -, -, hrow, -, -, -, -, hc, -⟩
  · exact absurd hl (by decide)
  · refine ⟨s, by rw [hrow]; decide, fun s' hs' => (hc (by decide) s' hs').2.2⟩

theorem opened_astray :
    (∃ s d r s', openFile .yaml documentPath (documentDisk (handMade [(0, "a.txt"), (0, "b.txt")])) =
        .ok (.ok s, d) ∧ ¬ s.table.WellFormed ∧
      s.upsert ⟨"p"⟩ ⟨"a.txt", "localhost", 80⟩ default = .ok (.ok r, s') ∧
      r.offer.fileName = "b.txt") ∧
    (∃ s d, openFile .yaml documentPath (documentDisk (handMade [(0, "a.txt"), (1, "a.txt")])) =
        .ok (.ok s, d) ∧ ∃ r ∈ s.table.listings, ∃ q ∈ s.table.listings,
          r.id ≠ q.id ∧ r.offer = q.offer) ∧
    openFile .yaml documentPath
      (documentDisk (handMade [(18446744073709551615, "a.txt")])) = .error .idsExhausted := by
  have opened (snap : Snapshot)
      (hs : Snapshot.Format.yaml.read (Snapshot.render snap) = some snap) :=
    openFile_of_readText (documentDisk_readText snap) hs
  refine ⟨?_, ?_, ?_⟩
  · rw [opened _ (by decide +kernel)]
    refine ⟨_, _, _, _, rfl, fun hw => ?_, rfl, rfl⟩
    obtain ⟨r, hr, ho⟩ := (hw.indexed ⟨"a.txt", "localhost", 80⟩ ⟨0⟩).mp rfl
    cases hr
    exact absurd (congrArg Offer.fileName ho) (by decide)
  · rw [opened _ (by decide +kernel)]
    exact ⟨_, _, rfl, by decide⟩
  · rw [opened _ (by decide +kernel)]
    rfl

end Store
end PeerShare
