import Mathlib.Logic.Relation
import PeerShare.Proofs.Registry.Lookup
import PeerShare.Proofs.Registry.Store

/-!
What holds of every store that a new store can become. Statements come in any order, with any
arguments and clock readings; the disk may fail whatever it likes, and a store with a file may be
opened again from it at any time. Rows, index and next number belong together throughout, and a row
number never changes its meaning.
-/

namespace PeerShare.Store

/-- What can happen to a store. From outside the disk may change in any way that leaves the file
as it is and puts no link in its place or beside it. What is opened again has been read back. -/
inductive Next : Store → Store → Prop
  | statement (s : Store) (st : Table.Statement) : Next s (s.execute st).2
  | reopen (s : Store) (back : s.format.ReadsBack s.table) : Next s s.reopened
  | disturb (s : Store) (d : Disk) (same : ∀ p, s.file = some p →
      d.content? p = s.disk.content? p ∧ d.Plain p ∧ d.Plain (aside p)) : Next s { s with disk := d }

def Reaches : Store → Store → Prop := Relation.ReflTransGen Next

/-- A store without a file, or one for whose file nothing stood on the disk. -/
inductive Fresh : Store → Prop
  | memory (format : Snapshot.Format) (d : Disk) : Fresh { disk := d, format := format }
  | file {format : Snapshot.Format} {p : FilePath} {d e : Disk} {s : Store}
      (absent : d.pathExists p = false)
      (plain : ∀ d₁, d.createParent p = .ok d₁ → d₁.Plain p ∧ d₁.Plain (aside p))
      (opened : openFile format p d = .ok (.ok s, e)) : Fresh s

section Runs
variable {s s' s'' : Store}

theorem Reaches.trans (h : s.Reaches s') (h' : s'.Reaches s'') : s.Reaches s'' :=
  Relation.ReflTransGen.trans h h'

theorem Fresh.sound (h : s.Fresh) : s.Sound := by
  cases h with
  | memory format d => exact ⟨.empty, fun p hp => by cases hp⟩
  | @file format p d e s absent plain opened =>
    simp only [openFile, absent, Bool.false_eq_true, if_false, pure, Except.pure] at opened
    exact sound_create plain (Except.ok.inj opened)

theorem Next.sound (h : s.Next s') (hs : s.Sound) : s'.Sound := by
  cases h with
  | statement st => exact sound_execute hs st
  | reopen back => exact sound_reopened hs back
  | disturb d same =>
    refine ⟨hs.table, fun p hp => ?_⟩
    obtain ⟨hc, hpl, ha⟩ := same p hp
    obtain ⟨text, htext, content⟩ := (hs.file p hp).content
    exact ⟨hpl, ha, text, htext, hc.trans content⟩

theorem Next.precedes (h : s.Next s') (hs : s.Sound) : s.table.Precedes s'.table := by
  cases h with
  | statement st => exact precedes_execute hs.table st
  | reopen back => exact precedes_reopened hs back
  | disturb d same => exact .refl _

theorem Reaches.sound (h : s.Reaches s') (hs : s.Sound) : s'.Sound := by
  induction h with
  | refl => exact hs
  | tail _ hn ih => exact hn.sound ih

theorem Reaches.precedes (h : s.Reaches s') (hs : s.Sound) : s.table.Precedes s'.table := by
  induction h with
  | refl => exact .refl _
  | tail hr hn ih => exact ih.trans (hn.precedes (Reaches.sound hr hs))

theorem Next.faults (hs : s.Sound) (faults : Faults) :
    s.Next { s with disk := { s.disk with faults := faults } } := by
  refine .disturb s _ fun p hp => ?_
  have h := hs.file p hp
  have hf := Disk.spares_faults s.disk faults p
  exact ⟨hf.2, hf.1.plain h.plain, hf.1.plain h.plain_aside⟩

end Runs

/-! ### Rows, index and next number -/

/-- Rows stand under their own numbers, in order and below the next one. The index leads from an
offer to the number of the row that has it, and to no other, so no two rows have the same offer and
an upsert finds a row wherever the index names one. Without a next number an upsert for a new offer
halts, and the store stays. -/
theorem reaches_consistent {s₀ s : Store} (h₀ : s₀.Fresh) (h : s₀.Reaches s) :
    (∀ i r, s.table.get? i = some r → r.id = i ∧ i < s.table.nextId) ∧
    (∀ e ∈ s.table.rows, s.table.get? e.1 = some e.2) ∧
    s.table.rows.Pairwise (·.1 < ·.1) ∧
    (∀ o i, Keyed.get? o s.table.index = some i ↔ ∃ r, s.table.get? i = some r ∧ r.offer = o) ∧
    (∀ i j r q, s.table.get? i = some r → s.table.get? j = some q → r.offer = q.offer → i = j) ∧
    (∀ o i, Keyed.get? o s.table.index = some i → s.table.indexed? o ≠ none) ∧
    ∀ owner o now, s.table.nextId.next? = none → Keyed.get? o s.table.index = none →
      s.upsert owner o now = .error .idsExhausted ∧ s.execute (.upsert owner o now) = (false, s) := by
  have hw := (h.sound h₀.sound).table
  refine ⟨fun i r hr => ?_, fun e he => ?_, hw.sorted, hw.indexed, ?_, ?_, ?_⟩
  · obtain ⟨hm, rfl⟩ := hw.get?_eq_some_iff.mp hr
    exact ⟨rfl, hw.id_lt hm⟩
  · exact hw.get?_eq_some_iff.mpr (hw.mem_rows_iff.mp he)
  · intro i j r q hr hq ho
    obtain ⟨hmr, rfl⟩ := hw.get?_eq_some_iff.mp hr
    obtain ⟨hmq, rfl⟩ := hw.get?_eq_some_iff.mp hq
    rw [hw.eq_of_offer hmr hmq ho]
  · intro o i hi
    obtain ⟨r, hr, -, rfl⟩ := hw.index_eq_some_iff.mp hi
    rw [hw.indexed?_of_mem hr]
    exact Option.some_ne_none _
  · intro owner o now hn hi
    have ho : ∀ r ∈ s.table.listings, r.offer ≠ o := by
      intro r hr he
      subst he
      rw [hw.index_eq_some_iff.mpr ⟨r, hr, rfl, rfl⟩] at hi
      cases hi
    have hu : s.upsert owner o now = .error .idsExhausted := by
      simp only [upsert, Table.upsert_of_exhausted hw ho hn, bind, Except.bind]
    exact ⟨hu, by simp only [execute, hu]⟩

def newStore : Store :=
  { file := some ⟨"/registry.yaml"⟩
    disk := (save .yaml ⟨"/registry.yaml"⟩ Table.empty {}).2 }

theorem save_newStore :
    save .yaml ⟨"/registry.yaml"⟩ Table.empty {} = (.ok (), newStore.disk) :=
  Prod.ext rfl rfl

theorem newStore_fresh : newStore.Fresh := by
  have hc : Disk.createParent {} ⟨"/registry.yaml"⟩ = .ok {} := rfl
  have absent : Disk.pathExists {} ⟨"/registry.yaml"⟩ = false := by decide +kernel
  have opened : openFile .yaml ⟨"/registry.yaml"⟩ {} = .ok (.ok newStore, newStore.disk) := by
    simp only [openFile, absent, create, hc, save_newStore]
    rfl
  refine .file absent (fun d hd => ?_) opened
  have plain {p : FilePath} (place : List Name)
      (hp : Disk.locateEntry {} p = .ok ⟨place, none⟩) : Disk.Plain {} p := by
    intro a ha hlink
    obtain ⟨target, ht⟩ := hlink
    cases hp.symm.trans ha
    cases ht
  cases hc.symm.trans hd
  exact ⟨plain [Text.bytes "registry.yaml"] rfl, plain [Text.bytes "registry.yaml.tmp"] rfl⟩

theorem newStore_ready : newStore.Ready := by
  intro p hp
  have h := newStore_fresh.sound.file p hp
  obtain ⟨_, -, content⟩ := h.content
  obtain ⟨hf, a, m, ha, hn⟩ := Disk.content?_eq_some_iff.mp content
  cases hp
  refine ⟨?_, fun t => ⟨_, rfl⟩⟩
  exact ⟨h.apart, rfl, rfl, rfl, hf, by decide +kernel, ⟨a, ha, hn ▸ Disk.not_isWay_file⟩,
    ⟨⟨[Text.bytes "registry.yaml.tmp"], none⟩, rfl, Disk.not_isWay_none⟩⟩

def oneRow : Store := (newStore.execute (.upsert ⟨"p"⟩ ⟨"a.txt", "localhost", 80⟩ default)).2

def stalled : Store :=
  let s := oneRow.reopened
  let s := { s with disk := { s.disk with faults := { write := some .notFound } } }
  (s.execute (.deleteOwner ⟨"p"⟩)).2

theorem reaches_oneRow : newStore.Reaches oneRow := .single (.statement _ _)

theorem oneRow_readsBack : oneRow.format.ReadsBack oneRow.table := by
  intro text htext
  cases htext
  show Snapshot.read (Snapshot.render (Snapshot.ofTable oneRow.table)) =
    some (Snapshot.ofTable oneRow.table)
  decide +kernel

theorem oneRow_reaches_stalled : oneRow.Reaches stalled := by
  have sound := sound_reopened (reaches_oneRow.sound newStore_fresh.sound) oneRow_readsBack
  exact ((Relation.ReflTransGen.single (.reopen _ oneRow_readsBack)).tail (.faults sound _)).tail
    (.statement _ _)

theorem stalled_table : stalled.table = oneRow.table := by decide +kernel

theorem reaches_consistent_stalled : newStore.Fresh ∧ newStore.Reaches stalled ∧
    stalled.table.count = 1 ∧
    ∀ o i, Keyed.get? o stalled.table.index = some i ↔
      ∃ r, stalled.table.get? i = some r ∧ r.offer = o :=
  have h := reaches_oneRow.trans oneRow_reaches_stalled
  ⟨newStore_fresh, h, by rw [stalled_table]; rfl, (reaches_consistent newStore_fresh h).2.2.2.1⟩

/-! ### Row numbers -/

section Numbers
variable {s s₁ : Store} {owner : PeerId} {o : Offer} {now : Instant} {r : Listing}

theorem upsert_new (hs : s.Sound) (hu : s.upsert owner o now = .ok (.ok r, s₁))
    (hn : s.table.get? r.id = none) :
    r.id = s.table.nextId ∧ r.id < s₁.table.nextId ∧ s₁.Sound := by
  have hex : s₁ = (s.execute (.upsert owner o now)).2 := by simp only [execute, hu]
  obtain ⟨⟨q, t⟩, ht, hc⟩ := Disk.bind_eq_ok.mp hu
  simp only [pure, Except.pure, Except.ok.injEq, Prod.mk.injEq] at hc
  obtain ⟨hr, rfl⟩ := hc
  rcases commit_cases s t with ⟨d, hd⟩ | ⟨e, d, hd⟩
  · rw [hd] at hr hex ⊢
    cases hr
    rcases Table.upsert_cases hs.table ht with ⟨p, hp, -, rfl, rfl⟩ | ⟨next, -, hnext, rfl, rfl⟩
    · rw [Listing.seenAt_id, hs.table.get?_id hp] at hn
      cases hn
    · exact ⟨rfl, EntryId.lt_next? hnext, hex ▸ sound_execute hs _⟩
  · rw [hd] at hr
    cases hr

theorem Reaches.sameListing {s' : Store} (h : s.Reaches s') (hs : s.Sound) {i : EntryId}
    {r q : Listing} (hr : s.table.get? i = some r) (hq : s'.table.get? i = some q) :
    Table.SameListing r q := by
  obtain ⟨hmr, hi⟩ := hs.table.get?_eq_some_iff.mp hr
  obtain ⟨hmq, hi'⟩ := (h.sound hs).table.get?_eq_some_iff.mp hq
  exact (h.precedes hs).sameListing hs.table hmr hmq (hi'.trans hi.symm)

theorem Reaches.gone {s' s'' : Store} (h : s.Reaches s') (hs : s.Sound) {i : EntryId}
    {r : Listing} (hr : s.table.get? i = some r) (hn : s'.table.get? i = none)
    (h' : s'.Reaches s'') : s''.table.get? i = none := by
  have hs' := h.sound hs
  obtain ⟨hm, rfl⟩ := hs.table.get?_eq_some_iff.mp hr
  rw [hs'.table.get?_eq_none_iff] at hn
  rw [(h'.sound hs').table.get?_eq_none_iff]
  have hlt := EntryId.lt_of_lt_of_le (hs.table.id_lt hm) (h.precedes hs).nextId
  exact (h'.precedes hs').gone hlt hn

end Numbers

/-- A number has the same offer and owner wherever it has a row, and the row is seen no earlier at
the later time; a number that has lost its row has none ever after; and what an upsert adds has a
greater number than everything added before. So a number from a search leads later to nothing or to
what it stood for. -/
theorem number_identifies {s₀ s s' : Store} (h₀ : s₀.Fresh) (h : s₀.Reaches s)
    (h' : s.Reaches s') :
    (∀ i r q, s.table.get? i = some r → s'.table.get? i = some q →
      q.offer = r.offer ∧ q.owner = r.owner ∧ r.lastSeen ≤ q.lastSeen) ∧
    (∀ i r s'', s.table.get? i = some r → s'.table.get? i = none → s'.Reaches s'' →
      s''.table.get? i = none) ∧
    (∀ owner o now r s₁ owner' o' now' r' s₂, s.upsert owner o now = .ok (.ok r, s₁) →
      s.table.get? r.id = none → s₁.Reaches s' →
      s'.upsert owner' o' now' = .ok (.ok r', s₂) → s'.table.get? r'.id = none → r.id < r'.id) ∧
    ∀ (g g' : Registry) now now' query hits hit, g.store = s → g'.store = s' →
      g.search now query = .ok hits → hit ∈ hits →
      ∃ r, s.table.get? hit.id = some r ∧ r.offer.fileName = hit.fileName ∧
        ∀ found, g'.resolveOwner now' hit.id = .ok found → found = none ∨ found = some r.offer := by
  have hs := h.sound h₀.sound
  have hs' := h'.sound hs
  refine ⟨fun i r q hr hq => ?_, fun i r s'' hr hn h'' => h'.gone hs hr hn h'', ?_, ?_⟩
  · have hrq := h'.sameListing hs hr hq
    exact ⟨hrq.offer, hrq.owner, hrq.lastSeen⟩
  · intro owner o now r s₁ owner' o' now' r' s₂ hu hn hr hu' hn'
    obtain ⟨-, hlt, hs₁⟩ := upsert_new hs hu hn
    obtain ⟨hi, -, -⟩ := upsert_new hs' hu' hn'
    exact hi ▸ EntryId.lt_of_lt_of_le hlt (hr.precedes hs₁).nextId
  · intro g g' now now' query hits hit he he' hsearch hmem
    subst he
    subst he'
    obtain ⟨r, hr, rfl⟩ := Registry.mem_search hsearch hmem
    refine ⟨r, hs.table.get?_id hr, rfl, fun found hf => ?_⟩
    rcases Registry.resolveOwner_cases hf with hf | ⟨q, hq, hf⟩
    · exact .inl hf
    · have hrq := h'.sameListing hs (hs.table.get?_id hr) hq
      exact .inr (hf.trans (congrArg some hrq.offer))

/-- The store is opened again, a deletion fails and is made once more when it can be written, and
what is gone then is listed again. -/
def relisted : Store :=
  let s := { stalled with disk := { stalled.disk with faults := {} } }
  let s := (s.execute (.deleteOwner ⟨"p"⟩)).2
  (s.execute (.upsert ⟨"p"⟩ ⟨"a.txt", "localhost", 80⟩ default)).2

theorem number_identifies_relisted : newStore.Fresh ∧ newStore.Reaches oneRow ∧
    oneRow.Reaches stalled ∧ stalled.table = oneRow.table ∧ oneRow.Reaches relisted ∧
    relisted.table.count = 1 ∧ oneRow.table.get? ⟨0⟩ ≠ none ∧
    ∀ s, relisted.Reaches s → s.table.get? ⟨0⟩ = none := by
  have stalled_sound := (reaches_oneRow.trans oneRow_reaches_stalled).sound newStore_fresh.sound
  have h : oneRow.Reaches relisted := .tail (.tail (oneRow_reaches_stalled.tail
    (.faults stalled_sound _)) (.statement _ _)) (.statement _ _)
  have hr : oneRow.table.get? ⟨0⟩ = some ⟨⟨0⟩, ⟨"p"⟩, ⟨"a.txt", "localhost", 80⟩, default⟩ := by
    decide +kernel
  obtain ⟨hcount, hgone⟩ : relisted.table.count = 1 ∧ relisted.table.get? ⟨0⟩ = none := by
    decide +kernel
  refine ⟨newStore_fresh, reaches_oneRow, oneRow_reaches_stalled, stalled_table, h, hcount,
    by rw [hr]; simp, fun s hs => ?_⟩
  exact (number_identifies newStore_fresh reaches_oneRow h).2.1 _ _ s hr hgone hs

end PeerShare.Store
