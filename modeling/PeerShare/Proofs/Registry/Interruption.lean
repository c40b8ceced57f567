import PeerShare.Proofs.Disk.Interrupt
import PeerShare.Proofs.Registry.Restart

/-!
Statements that fail, and statements that are cut short. A statement fails exactly if it affects rows
and a step of saving the new table fails; then nothing has happened but on the disk beside the file,
and whatever the store does from there on it does as if it had not been asked. Where the process
dies instead, opening the file gives the table before the statement or the one after it.
-/

namespace PeerShare.Store
open Table (Access Result)

/-- What saving a table does to the disk: nothing, if the table has no text. -/
def saveSteps (s : Store) (p : FilePath) (u : Table) : List Disk.Step :=
  match s.format.render (Snapshot.ofTable u) with
  | .error _ => []
  | .ok text => Disk.replaceSteps p (aside p) (Text.encode text)

/-- A table cannot be saved: its text cannot be made, or a step on the disk fails. -/
inductive Unsaved (s : Store) (p : FilePath) (u : Table) : StoreError → Prop
  | text {reason : String} (h : s.format.render (Snapshot.ofTable u) = .error reason) :
      s.Unsaved p u (.encoding reason)
  | step {b : Disk.Blame} (h : s.disk.Fails (s.saveSteps p u) b) :
      s.Unsaved p u (.io b.path b.cause)

def Turn.given : Turn → Option (Access × Option (Except StoreError Unit))
  | .call c w _ => some (c, w)
  | .reopened => none

section Failure
variable {s s₁ : Store} {p : FilePath} {c : Access} {u : Table} {t : Turn} {ts : List Turn}
  {e : StoreError}

theorem save_error_iff : (save s.format p u s.disk).1 = .error e ↔ s.Unsaved p u e := by
  rcases save_cases s.format p u s.disk with ⟨reason, htext, hr⟩ | ⟨text, htext, hrest⟩
  · rw [hr]
    constructor
    · intro h
      cases h
      exact .text htext
    · intro h
      cases h with
      | text h =>
        cases htext.symm.trans h
        rfl
      | step h =>
        simp only [saveSteps, htext] at h
        cases h
  · have hsteps : s.saveSteps p u = Disk.replaceSteps p (aside p) (Text.encode text) := by
      simp only [saveSteps, htext]
    have fails (b : Disk.Blame) : (s.disk.replaceFile p (aside p) (Text.encode text)).1 = some b ↔
        s.disk.Fails (s.saveSteps p u) b := hsteps ▸ Disk.runSteps_eq_blame_iff
    constructor
    · intro h
      rcases hrest with ⟨d, -, hr⟩ | ⟨b, d, hd, hr⟩ <;> rw [hr] at h <;> cases h
      exact .step ((fails b).mp (congrArg Prod.fst hd))
    · intro h
      cases h with
      | text h => cases htext.symm.trans h
      | @step b h =>
        have hb := (fails b).mpr h
        rcases hrest with ⟨d, hd, -⟩ | ⟨b', d, hd, hr⟩ <;> rw [hd] at hb <;> cases hb
        rw [hr]

theorem commit_error_iff (hf : s.file = some p) :
    (s.commit u).1 = .error e ↔ s.Unsaved p u e := by
  rw [← save_error_iff]
  rcases hr : save s.format p u s.disk with ⟨e' | ⟨⟩, d⟩
  · rw [commit_of_error hf hr]
  · rw [commit_of_saved hf hr]

theorem perform_fails_iff (hf : s.file = some p) : (s.perform c).1 = .ok (.error e) ↔
    ∃ a u, s.table.answer c = .ok (a, u) ∧ a.Affects ∧ s.Unsaved p u e := by
  rcases perform_cases s c with ⟨halt, ha, -, hp⟩ | ⟨a, ha, hn, -, hp⟩ | ⟨a, u, ha, hr, -, hp⟩
  · simp [hp, ha]
  · rw [hp, ha]
    simp only [Except.ok.injEq, reduceCtorEq, Prod.mk.injEq, false_iff, not_exists, not_and]
    intro a' u' he hr
    exact absurd (he.1 ▸ hr) hn
  · rw [hp, ha]
    simp only [Except.ok.injEq, Prod.mk.injEq]
    constructor
    · intro he
      cases hc : (s.commit u).1 with
      | ok _ =>
        rw [hc] at he
        cases he
      | error e' =>
        rw [hc] at he
        cases he
        exact ⟨a, u, ⟨rfl, rfl⟩, hr, (commit_error_iff hf).mp hc⟩
    · intro hex
      obtain ⟨a', u', ⟨rfl, rfl⟩, -, hu⟩ := hex
      rw [(commit_error_iff hf).mpr hu]
      rfl

theorem perform_failed (h : s.Faithful p) (he : (s.perform c).1 = .ok (.error e)) :
    ∃ d, (s.perform c).2 = { s with disk := d } ∧ Keeps p s.disk d := by
  have h' := h.perform c
  rcases perform_cases s c with ⟨halt, -, -, hp⟩ | ⟨a, -, -, -, hp⟩ | ⟨a, u, -, -, -, hp⟩
  · rw [hp] at he
    cases he
  · rw [hp] at he
    cases he
  · rcases commit_cases s u with ⟨d, hc⟩ | ⟨e, d, hc⟩ <;> rw [hp, hc] at he h'
    · cases he
    · rw [hp, hc]
      have hh := h'.holds
      obtain ⟨text, htext, content⟩ := hh.content
      obtain ⟨text', htext', content'⟩ := h.holds.content
      cases htext.symm.trans htext'
      exact ⟨d, rfl, content.trans content'.symm, hh.plain, hh.plain_aside⟩

theorem Keeps.trans {d e f : Disk} (k : Keeps p d e) (k' : Keeps p e f) : Keeps p d f :=
  ⟨k'.content.trans k.content, k'.plain, k'.plain_aside⟩

theorem Does.of_keeps {d e : Disk} (k : Keeps p e d)
    (h : ({ s with disk := d } : Store).Does p t s₁) : ({ s with disk := e } : Store).Does p t s₁ := by
  cases h with
  | call kf c => exact .call (s := { s with disk := e }) (k.trans kf) c
  | reopen kf back opened => exact .reopen (s := { s with disk := e }) (k.trans kf) back opened

theorem Goes.of_keeps {d e : Disk} (k : Keeps p e d)
    (h : ({ s with disk := d } : Store).Goes p (t :: ts) s₁) :
    ({ s with disk := e } : Store).Goes p (t :: ts) s₁ := by
  cases h with
  | cons hd hg => exact .cons (hd.of_keeps k) hg

end Failure

/-! ### Runs that are given the same -/

section Alike
variable {s s' : Store} {p : FilePath} {ts ts' : List Turn} {t t' : Turn} {s₁ s₂ : Store}

theorem Does.format (h : s.Does p t s₁) (hs : s.Faithful p) : s₁.format = s.format := by
  cases h with
  | @call d k c => exact (perform_fixed { s with disk := d } c).2
  | reopen k back opened => rw [((k.faithful hs).openFile back).2 _ _ opened |>.1]

theorem Goes.format (h : s.Goes p ts s₁) (hs : s.Faithful p) : s₁.format = s.format := by
  induction h with
  | nil s => rfl
  | cons hd _ ih => exact (ih (hd.faithful hs)).trans (hd.format hs)

theorem Does.alike (h : s.Does p t s₁) (h' : s'.Does p t' s₂) (hs : s.Faithful p)
    (hs' : s'.Faithful p) (ht : s.table = s'.table) (hg : t.given = t'.given) :
    t = t' ∧ s₁.table = s₂.table := by
  cases h with
  | @call d k c =>
    cases h' with
    | @call d' k' c' =>
      simp only [Turn.given, Option.some.injEq, Prod.mk.injEq] at hg
      obtain ⟨rfl, hw⟩ := hg
      obtain ⟨ha, ht₁⟩ := perform_congr (s := { s with disk := d }) (m := { s' with disk := d' }) ht hw
      exact ⟨by rw [hw, ha], ht₁⟩
    | reopen => cases hg
  | reopen k back opened =>
    cases h' with
    | call => cases hg
    | reopen k' back' opened' =>
      have h₁ := Does.reopened (.reopen k back opened) hs
      have h₂ := Does.reopened (.reopen k' back' opened') hs'
      exact ⟨rfl, h₁.trans (ht.trans h₂.symm)⟩

theorem Goes.alike (h : s.Goes p ts s₁) (h' : s'.Goes p ts' s₂) (hs : s.Faithful p)
    (hs' : s'.Faithful p) (ht : s.table = s'.table) (hg : ts.map Turn.given = ts'.map Turn.given) :
    ts = ts' ∧ s₁.table = s₂.table := by
  induction h generalizing s' ts' with
  | nil s =>
    cases h' with
    | nil => exact ⟨rfl, ht⟩
    | cons => cases hg
  | cons hd _ ih =>
    cases h' with
    | nil => cases hg
    | cons hd' hg' =>
      obtain ⟨hgt, hgs⟩ := List.cons.inj hg
      obtain ⟨rfl, ht₁⟩ := hd.alike hd' hs hs' ht hgt
      obtain ⟨rfl, ht₂⟩ := ih hg' (hd.faithful hs) (hd'.faithful hs') ht₁ hgs
      exact ⟨rfl, ht₂⟩

end Alike

/-! ### Dying on the way -/

section Dying
variable {s : Store} {p : FilePath} {u : Table} {d e : Disk}

theorem Faithful.interrupted (h : s.Faithful p) (hw : u.WellFormed) (ha : u.Aligned)
    (hi : s.disk.Interrupted (s.saveSteps p u) d) (k : Keeps p d e) :
    ({ s with disk := e } : Store).Faithful p ∨
      ({ s with table := u, disk := e } : Store).Faithful p := by
  cases htext : s.format.render (Snapshot.ofTable u) with
  | error reason =>
    simp only [saveSteps, htext] at hi
    cases hi
    exact .inl (k.faithful h)
  | ok text =>
    simp only [saveSteps, htext] at hi
    obtain ⟨-, hold | hnew⟩ := Disk.interrupted_replace h.holds.apart hi
    · exact .inl (Keeps.faithful ⟨k.content.trans hold, k.plain, k.plain_aside⟩ h)
    · refine .inr ⟨h.file, ⟨hw, fun q hq => ?_⟩, ha⟩
      cases h.file.symm.trans hq
      exact ⟨k.plain, k.plain_aside, text, htext, k.content.trans hnew⟩

end Dying

/-- A statement fails exactly if it affects rows and a step of saving the new table fails. Then table
and file are as before, what the store can do from there on it could do without the statement, and
what it answers is, given the same calls and outcomes of writes, what it would answer without. If the
process dies while the new table is being saved, the file opens with the table before the statement
or with the one after it. -/
theorem failed_statement_leaves_no_trace {s₀ s : Store} {p : FilePath} (h₀ : s₀.Fresh)
    (hf : s₀.file = some p) (hr : s₀.Reaches s) (st : Table.Statement) :
    (∀ e, (s.perform (.change st)).1 = .ok (.error e) ↔
      ∃ a u, s.table.answer (.change st) = .ok (a, u) ∧ a.Affects ∧ s.Unsaved p u e) ∧
    (∀ e s', s.perform (.change st) = (.ok (.error e), s') →
      s'.table = s.table ∧ s'.disk.content? p = s.disk.content? p ∧
      (∀ t ts s₁, s'.Goes p (t :: ts) s₁ ↔ s.Goes p (t :: ts) s₁) ∧
      ∀ ts ts' s₁ s₂, s'.Goes p ts s₁ → s.Goes p ts' s₂ → ts.map Turn.given = ts'.map Turn.given →
        ts = ts' ∧ s₁.table = s₂.table ∧ s₁.disk.content? p = s₂.disk.content? p) ∧
    ∀ a u d e, s.table.answer (.change st) = .ok (a, u) → a.Affects →
      s.disk.Interrupted (s.saveSteps p u) d → Keeps p d e → e.faults.read = none →
      s.format.ReadsBack s.table → s.format.ReadsBack u →
      openFile s.format p e = .ok (.ok { s with disk := e }, e) ∨
      openFile s.format p e = .ok (.ok { s with table := u, disk := e }, e) := by
  have hs := hr.faithful (h₀.faithful hf)
  refine ⟨fun e => perform_fails_iff hs.file, fun e s' he => ?_, ?_⟩
  · obtain ⟨d, hd, k⟩ := perform_failed hs (congrArg Prod.fst he)
    rw [he] at hd
    subst hd
    have hs' := k.faithful hs
    refine ⟨rfl, k.content, fun t ts s₁ => ⟨Goes.of_keeps k, Goes.of_keeps ?_⟩, ?_⟩
    · exact ⟨k.content.symm, hs.holds.plain, hs.holds.plain_aside⟩
    · intro ts ts' s₁ s₂ h h' hg
      obtain ⟨hts, ht⟩ := h.alike h' hs' hs rfl hg
      refine ⟨hts, ht, ?_⟩
      obtain ⟨text, htext, hc⟩ := (h.faithful hs').holds.content
      obtain ⟨text', htext', hc'⟩ := (h'.faithful hs).holds.content
      rw [h.format hs', ht] at htext
      rw [h'.format hs] at htext'
      cases htext.symm.trans htext'
      rw [hc, hc']
  · intro a u d e ha _ hi k hread back back'
    obtain ⟨hw, hal⟩ := Table.wellFormed_answer hs.sound.table hs.aligned ha
    rcases hs.interrupted hw hal hi k with h | h
    · exact .inl ((h.openFile back).1 hread)
    · exact .inr ((h.openFile back').1 hread)

def fullDisk : Store :=
  { oneRow with disk := { oneRow.disk with faults := { write := some .notFound } } }

theorem failed_statement_leaves_no_trace_fullDisk : newStore.Fresh ∧ newStore.Reaches fullDisk ∧
    (fullDisk.perform (.change (.deleteOwner ⟨"p"⟩))).1 =
      .ok (.error (.io ⟨"/registry.yaml.tmp"⟩ .notFound)) ∧
    (fullDisk.perform (.change (.deleteOwner ⟨"p"⟩))).2.table = fullDisk.table ∧
    fullDisk.table.count = 1 := by
  have hr : newStore.Reaches fullDisk :=
    reaches_oneRow.tail (.faults (reaches_oneRow.sound newStore_fresh.sound) _)
  have h := failed_statement_leaves_no_trace newStore_fresh rfl hr (.deleteOwner ⟨"p"⟩)
  have hfail : (fullDisk.perform (.change (.deleteOwner ⟨"p"⟩))).1 =
      .ok (.error (.io ⟨"/registry.yaml.tmp"⟩ .notFound)) :=
    (h.1 _).mpr ⟨.changed 1, _, rfl, by decide,
      .step (b := ⟨⟨"/registry.yaml.tmp"⟩, .notFound⟩) (.here rfl)⟩
  exact ⟨newStore_fresh, hr, hfail, (h.2.1 _ _ (Prod.ext hfail rfl)).1, rfl⟩

end PeerShare.Store
