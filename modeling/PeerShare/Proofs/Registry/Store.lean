import PeerShare.Proofs.Disk.Beside
import PeerShare.Proofs.Registry.Snapshot
import PeerShare.Proofs.Table.Statement
import PeerShare.Proofs.Text.Utf8
import PeerShare.Registry.Store

/-!
Statements on the store. A statement is answered and done, or it is not and the table stays as it
was; either way the file holds the snapshot of the table in memory. So a store that is opened again
from its file has the rows and the next number it had.
-/

namespace PeerShare

/-- What is written for the table is read back as it was. -/
def Snapshot.Format.ReadsBack (format : Snapshot.Format) (t : Table) : Prop :=
  ∀ text, format.render (Snapshot.ofTable t) = .ok text →
    format.read text = some (Snapshot.ofTable t)

namespace Store

def execute (s : Store) : Table.Statement → Bool × Store
  | .upsert owner o now =>
    match s.upsert owner o now with
    | .ok (a, s') => (a.isOk, s')
    | .error _ => (false, s)
  | .deleteOwned fileName owner => answered (s.deleteOwned fileName owner)
  | .touchOwner owner now => answered (s.touchOwner owner now)
  | .deleteOwner owner => answered (s.deleteOwner owner)
  | .deleteSeenBefore cutoff => answered (s.deleteSeenBefore cutoff)
where
  answered (a : Except StoreError Nat × Store) : Bool × Store := (a.1.isOk, a.2)

def reopened (s : Store) : Store :=
  match s.file with
  | none => s
  | some p =>
    match openFile s.format p s.disk with
    | .ok (.ok s', _) => s'
    | _ => s

/-- The file is on the disk and holds the snapshot of the table. -/
structure Holds (s : Store) (p : FilePath) : Prop where
  plain : s.disk.Plain p
  plain_aside : s.disk.Plain (aside p)
  content : ∃ text, s.format.render (Snapshot.ofTable s.table) = .ok text ∧
    s.disk.content? p = some (Text.encode text)

structure Sound (s : Store) : Prop where
  table : s.table.WellFormed
  file : ∀ p, s.file = some p → s.Holds p

/-! ### The file beside -/

section Aside
variable {d : Disk} {p : FilePath}

theorem encode_ne_append (s : List Char) {t : List Char} (ht : Text.encode t ≠ []) :
    Text.encode s ≠ Text.encode (s ++ t) := by
  intro h
  have hs : Text.encode (s ++ t) = Text.encode s ++ Text.encode t := List.flatMap_append
  exact ht (List.self_eq_append_right.mp (h.trans hs))

theorem aside_apart (hp : d.Plain p) (ha : d.Plain (aside p)) (hf : p.meansFolder = false) :
    d.Apart p (aside p) := by
  obtain ⟨s, hs, hne, hslash, hname⟩ := FilePath.exists_lastName? hf
  have hl : (String.ofList s ++ ".tmp").toList = s ++ ['.', 't', 'm', 'p'] := by simp
  have longer {l : List Char} (h : l.length < 4) : s ++ ['.', 't', 'm', 'p'] ≠ l := fun he => by
    have := congrArg List.length he
    simp at this
    omega
  have hlast : (aside p).lastName? = some (s ++ ['.', 't', 'm', 'p']) := by
    rw [aside, FilePath.withFileName, hname, ← hl]
    exact FilePath.lastName?_child _ (by simp [hl, hslash])
      ⟨hl ▸ longer (by decide), hl ▸ longer (by decide), hl ▸ longer (by decide)⟩
  exact Disk.apart_of_lastName? hp ha hs hlast (encode_ne_append s (by decide))

end Aside

/-! ### Statements -/

section Statements
variable {s : Store} {t : Table} {p : FilePath}

theorem commit_cases (s : Store) (t : Table) :
    (∃ d, s.commit t = (.ok (), { s with table := t, disk := d })) ∨
    ∃ e d, s.commit t = (.error e, { s with disk := d }) := by
  unfold commit
  split
  · exact .inl ⟨s.disk, rfl⟩
  · split
    · exact .inl ⟨_, rfl⟩
    · exact .inr ⟨_, _, rfl⟩

theorem Holds.apart (h : s.Holds p) : s.disk.Apart p (aside p) := by
  obtain ⟨_, -, hc⟩ := h.content
  exact aside_apart h.plain h.plain_aside (Disk.content?_eq_some_iff.mp hc).1

theorem save_cases (format : Snapshot.Format) (p : FilePath) (t : Table) (d : Disk) :
    (∃ reason, format.render (Snapshot.ofTable t) = .error reason ∧
      save format p t d = (.error (.encoding reason), d)) ∨
    ∃ text, format.render (Snapshot.ofTable t) = .ok text ∧
      ((∃ e, d.replaceFile p (aside p) (Text.encode text) = (none, e) ∧
        save format p t d = (.ok (), e)) ∨
      ∃ b e, d.replaceFile p (aside p) (Text.encode text) = (some b, e) ∧
        save format p t d = (.error (.io b.path b.cause), e)) := by
  unfold save
  cases format.render (Snapshot.ofTable t) with
  | error reason => exact .inl ⟨reason, rfl, rfl⟩
  | ok text =>
    refine .inr ⟨text, rfl, ?_⟩
    rcases hr : d.replaceFile p (aside p) (Text.encode text) with ⟨_ | b, e⟩
    · exact .inl ⟨e, rfl, by simp only [hr]⟩
    · exact .inr ⟨b, e, rfl, by simp only [hr]⟩

theorem commit_of_none (hf : s.file = none) : s.commit t = (.ok (), { s with table := t }) := by
  simp only [commit, hf]

theorem commit_of_saved {d : Disk} (hf : s.file = some p)
    (hr : save s.format p t s.disk = (.ok (), d)) :
    s.commit t = (.ok (), { s with table := t, disk := d }) := by
  simp only [commit, hf, hr]

theorem commit_of_error {e : StoreError} {d : Disk} (hf : s.file = some p)
    (hr : save s.format p t s.disk = (.error e, d)) :
    s.commit t = (.error e, { s with disk := d }) := by
  simp only [commit, hf, hr]

theorem sound_commit (h : s.Sound) (ht : t.WellFormed) : (s.commit t).2.Sound := by
  cases hf : s.file with
  | none =>
    rw [commit_of_none hf]
    exact ⟨ht, fun p hp => by cases hf.symm.trans hp⟩
  | some p =>
    have hs := h.file p hf
    rcases save_cases s.format p t s.disk with ⟨reason, -, hr⟩ |
      ⟨text, htext, ⟨d, hd, hr⟩ | ⟨b, d, hd, hr⟩⟩
    · rw [commit_of_error hf hr]
      exact h
    · rw [commit_of_saved hf hr]
      obtain ⟨hw, ⟨-, hc⟩ | ⟨hb, -⟩⟩ := Disk.replaceFile_cases hs.apart hd
      · refine ⟨ht, fun q hq => ?_⟩
        cases hf.symm.trans hq
        exact ⟨hw.plain hs.plain, hw.plain hs.plain_aside, text, htext, hc⟩
      · exact absurd rfl hb
    · rw [commit_of_error hf hr]
      obtain ⟨hw, ⟨hb, -⟩ | ⟨-, hc⟩⟩ := Disk.replaceFile_cases hs.apart hd
      · cases hb
      · refine ⟨h.table, fun q hq => ?_⟩
        cases hf.symm.trans hq
        obtain ⟨old, hold, content⟩ := hs.content
        exact ⟨hw.plain hs.plain, hw.plain hs.plain_aside, old, hold, hc.trans content⟩

theorem change_cases (s : Store) {f : Table → Nat × Table}
    (h : (f s.table).1 = 0 → (f s.table).2 = s.table) :
    ((f s.table).2 = s.table ∧ execute.answered (s.change f) = (true, s)) ∨
    execute.answered (s.change f) =
      ((s.commit (f s.table).2).1.isOk, (s.commit (f s.table).2).2) := by
  unfold change
  by_cases hn : (f s.table).1 = 0
  · exact .inl ⟨h hn, by simp only [hn, if_true]; rfl⟩
  · refine .inr ?_
    simp only [hn, if_false, execute.answered]
    cases (s.commit (f s.table).2).1 <;> rfl

theorem upsert_or_counts (st : Table.Statement) :
    (∃ owner o now, st = .upsert owner o now) ∨
    ∃ f : Table → Nat × Table, (∀ t, (f t).1 = 0 → (f t).2 = t) ∧
      (∀ t, st.apply t = .ok (f t).2) ∧
      ∀ s : Store, s.execute st = execute.answered (s.change f) := by
  cases st with
  | upsert owner o now => exact .inl ⟨owner, o, now, rfl⟩
  | deleteOwned fileName owner =>
    exact .inr ⟨_, fun _ => Table.deleteWhere_eq_self, fun _ => rfl, fun _ => rfl⟩
  | touchOwner owner now =>
    exact .inr ⟨_, fun _ => Table.touchOwner_eq_self, fun _ => rfl, fun _ => rfl⟩
  | deleteOwner owner =>
    exact .inr ⟨_, fun _ => Table.deleteWhere_eq_self, fun _ => rfl, fun _ => rfl⟩
  | deleteSeenBefore cutoff =>
    exact .inr ⟨_, fun _ => Table.deleteWhere_eq_self, fun _ => rfl, fun _ => rfl⟩

theorem execute_cases (s : Store) (st : Table.Statement) :
    (st.apply s.table = .ok s.table ∧ s.execute st = (true, s)) ∨
    (∃ t, st.apply s.table = .ok t ∧ s.execute st = ((s.commit t).1.isOk, (s.commit t).2)) ∨
    ∃ halt, st.apply s.table = .error halt ∧ s.execute st = (false, s) := by
  rcases upsert_or_counts st with ⟨owner, o, now, rfl⟩ | ⟨f, hf, ha, he⟩
  · refine .inr ?_
    simp only [execute, upsert, Table.Statement.apply]
    cases s.table.upsert owner o now with
    | error halt => exact .inr ⟨halt, rfl, rfl⟩
    | ok u =>
      refine .inl ⟨u.2, rfl, ?_⟩
      simp only [bind, Except.bind, pure, Except.pure]
      cases (s.commit u.2).1 <;> rfl
  · rcases change_cases s (hf s.table) with ⟨ht, hc⟩ | hc
    · exact .inl ⟨(ha s.table).trans (congrArg _ ht), (he s).trans hc⟩
    · exact .inr (.inl ⟨_, ha s.table, (he s).trans hc⟩)

theorem execute_table (s : Store) (st : Table.Statement) :
    ((s.execute st).1 = true ∧ st.apply s.table = .ok (s.execute st).2.table) ∨
    ((s.execute st).1 = false ∧ (s.execute st).2.table = s.table) := by
  rcases execute_cases s st with ⟨ha, he⟩ | ⟨t, ha, he⟩ | ⟨halt, -, he⟩
  · exact .inl (by rw [he]; exact ⟨rfl, ha⟩)
  · rcases commit_cases s t with ⟨d, hc⟩ | ⟨e, d, hc⟩
    · exact .inl (by rw [he, hc]; exact ⟨rfl, ha⟩)
    · exact .inr (by rw [he, hc]; exact ⟨rfl, rfl⟩)
  · exact .inr (by rw [he]; exact ⟨rfl, rfl⟩)

/-- Nothing stands in the way of saving; a store without a file has nothing to save. -/
def Ready (s : Store) : Prop := ∀ p, s.file = some p →
  s.disk.Ready p (aside p) ∧ ∀ t, ∃ text, s.format.render (Snapshot.ofTable t) = .ok text

theorem Ready.commit (h : s.Ready) (t : Table) :
    (s.commit t).1 = .ok () ∧ (s.commit t).2.Ready := by
  rcases Option.eq_none_or_eq_some s.file with hf | ⟨p, hf⟩
  · rw [commit_of_none hf]
    exact ⟨rfl, h⟩
  · obtain ⟨hdisk, htext⟩ := h p hf
    obtain ⟨text, ht⟩ := htext t
    obtain ⟨d, hd, hdisk'⟩ := hdisk.replaceFile (Text.encode text)
    have hr : save s.format p t s.disk = (.ok (), d) := by simp only [save, ht, hd]
    rw [commit_of_saved hf hr]
    refine ⟨rfl, fun q hq => ?_⟩
    cases hf.symm.trans hq
    exact ⟨hdisk', htext⟩

theorem Ready.execute (h : s.Ready) (st : Table.Statement) : (s.execute st).2.Ready := by
  rcases execute_cases s st with ⟨-, he⟩ | ⟨t, -, he⟩ | ⟨halt, -, he⟩
  · rw [he]
    exact h
  · rw [he]
    exact (h.commit t).2
  · rw [he]
    exact h

theorem Ready.done (h : s.Ready) (hw : s.table.WellFormed) (st : Table.Statement) :
    (s.execute st).1 = true ∨ ∃ owner o now, st = .upsert owner o now ∧
      s.table.nextId.next? = none ∧ ∀ r ∈ s.table.listings, r.offer ≠ o := by
  rcases execute_cases s st with ⟨-, he⟩ | ⟨t, -, he⟩ | ⟨halt, ha, -⟩
  · exact .inl (by rw [he])
  · have hc := (h.commit t).1
    exact .inl (by rw [he, hc]; rfl)
  · refine .inr ?_
    cases st with
    | upsert owner o now =>
      by_cases ho : ∃ r ∈ s.table.listings, r.offer = o
      · obtain ⟨r, hr, rfl⟩ := ho
        simp only [Table.Statement.apply, Table.upsert_of_mem hw hr] at ha
        cases ha
      · replace ho : ∀ r ∈ s.table.listings, r.offer ≠ o := fun r hr he => ho ⟨r, hr, he⟩
        refine ⟨owner, o, now, rfl, ?_, ho⟩
        cases hn : s.table.nextId.next? with
        | none => rfl
        | some next =>
          simp only [Table.Statement.apply, Table.upsert_of_free hw ho hn] at ha
          cases ha
    | _ => cases ha

theorem sound_execute (h : s.Sound) (st : Table.Statement) : (s.execute st).2.Sound := by
  rcases execute_cases s st with ⟨-, he⟩ | ⟨t, ha, he⟩ | ⟨halt, -, he⟩
  · rw [he]; exact h
  · rw [he]; exact sound_commit h (Table.Statement.wellFormed_apply h.table ha)
  · rw [he]; exact h

theorem precedes_execute (h : s.table.WellFormed) (st : Table.Statement) :
    s.table.Precedes (s.execute st).2.table := by
  rcases execute_table s st with ⟨-, ha⟩ | ⟨-, ht⟩
  · exact Table.precedes_apply h ha
  · exact ht ▸ .refl _

end Statements

/-! ### Opening -/

section Opening
variable {s : Store} {t : Table} {p : FilePath} {format : Snapshot.Format}

theorem openFile_of_readText {d : Disk} {text : List Char} {snap : Snapshot}
    (ht : d.readText p = .ok text) (hs : format.read text = some snap) :
    openFile format p d = snap.toTable.map fun t =>
      (.ok { table := t, file := some p, disk := d, format := format }, d) := by
  obtain ⟨c, hc, -⟩ := Disk.bind_eq_ok.mp ht
  have he := Disk.pathExists_of_content (Disk.content?_of_readBytes hc)
  simp only [openFile, he, if_true, load, ht, hs]
  cases snap.toTable <;> rfl

theorem reopened_cases (h : s.Sound) (hr : s.format.ReadsBack s.table) : s.reopened = s ∨
    ∃ t, t.WellFormed ∧ t.nextId = s.table.nextId ∧ t.rows = s.table.rows ∧
      s.reopened = { s with table := t } := by
  unfold reopened
  cases hf : s.file with
  | none => exact .inl rfl
  | some p =>
    obtain ⟨text, htext, hc⟩ := (h.file p hf).content
    obtain ⟨t, ht, hw, hn, hrows, -⟩ := Snapshot.toTable_ofTable h.table
    simp only [openFile, Disk.pathExists_of_content hc, if_true, load, Disk.readText]
    rcases Disk.readBytes_of_content hc with hb | ⟨cause, hb⟩
    · refine .inr ⟨t, hw, hn, hrows, ?_⟩
      have hread := hr text htext
      simp only [hb, bind, Except.bind, pure, Except.pure, Text.decode_encode, hread, ht,
        Except.map]
    · refine .inl ?_
      simp only [hb, bind, Except.bind, pure, Except.pure]

theorem sound_reopened (h : s.Sound) (hr : s.format.ReadsBack s.table) : s.reopened.Sound := by
  rcases reopened_cases h hr with he | ⟨t, hw, hn, hrows, he⟩
  · rw [he]; exact h
  · rw [he]
    refine ⟨hw, fun p hf => ?_⟩
    have hs := h.file p hf
    have ho : Snapshot.ofTable t = Snapshot.ofTable s.table := by
      simp only [Snapshot.ofTable, Table.listings, hn, hrows]
    exact ⟨hs.plain, hs.plain_aside, ho ▸ hs.content⟩

theorem precedes_reopened (h : s.Sound) (hr : s.format.ReadsBack s.table) :
    s.table.Precedes s.reopened.table := by
  rcases reopened_cases h hr with he | ⟨t, -, hn, hrows, he⟩
  · rw [he]; exact .refl _
  · rw [he]; exact .of_eq hn hrows

theorem sound_create {d e : Disk}
    (hd : ∀ d₁, d.createParent p = .ok d₁ → d₁.Plain p ∧ d₁.Plain (aside p))
    (h : create format p d = (.ok s, e)) : s.Sound := by
  unfold create at h
  cases hc : d.createParent p with
  | error b => rw [hc] at h; cases h
  | ok d₁ =>
    obtain ⟨hp, ha⟩ := hd d₁ hc
    rw [hc] at h
    rcases save_cases format p Table.empty d₁ with ⟨reason, -, hr⟩ |
      ⟨text, htext, ⟨d₂, hd, hr⟩ | ⟨b, d₂, -, hr⟩⟩ <;> simp only [hr] at h
    · cases h
    · cases h
      have apart := aside_apart hp ha (Disk.meansFolder_of_replaceFile hd)
      obtain ⟨hw, ⟨-, hc⟩ | ⟨hb, -⟩⟩ := Disk.replaceFile_cases apart hd
      · refine ⟨.empty, fun q hq => ?_⟩
        cases hq
        exact ⟨hw.plain hp, hw.plain ha, text, htext, hc⟩
      · exact absurd rfl hb
    · cases h

end Opening
end Store
end PeerShare
