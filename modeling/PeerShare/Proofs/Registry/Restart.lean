import PeerShare.Proofs.Registry.Calls
import PeerShare.Proofs.Registry.Reach

/-!
Closing a store and opening it again. What is opened is the store that was closed, with its index and
its next number; so a store whose writes all go through answers as one that keeps its table in
memory and is never closed, wherever it is opened again in between, and its file always holds the
table it has.
-/

namespace PeerShare.Store
open Table (Access Result)

/-- The file holds the table, and the table says nothing that its rows and next number do not. -/
structure Faithful (p : FilePath) (s : Store) : Prop where
  file : s.file = some p
  sound : s.Sound
  aligned : s.table.Aligned

/-- What may happen to the disk from outside: the file stays as it is, and no link is put in its
place or beside it. -/
structure Keeps (p : FilePath) (d e : Disk) : Prop where
  content : e.content? p = d.content? p
  plain : e.Plain p
  plain_aside : e.Plain (aside p)

section Faithful
variable {s s' : Store} {p : FilePath} {d e : Disk} {c : Access}

theorem Faithful.holds (h : s.Faithful p) : s.Holds p := h.sound.file p h.file

theorem Faithful.keeps (h : s.Faithful p) : Keeps p s.disk s.disk :=
  ⟨rfl, h.holds.plain, h.holds.plain_aside⟩

theorem Keeps.faithful (k : Keeps p s.disk d) (h : s.Faithful p) :
    ({ s with disk := d } : Store).Faithful p where
  file := h.file
  sound := ⟨h.sound.table, fun q hq => by
    cases h.file.symm.trans hq
    obtain ⟨text, htext, content⟩ := h.holds.content
    exact ⟨k.plain, k.plain_aside, text, htext, k.content.trans content⟩⟩
  aligned := h.aligned

theorem Faithful.perform (h : s.Faithful p) (c : Access) : (s.perform c).2.Faithful p := by
  rcases perform_cases s c with ⟨halt, -, -, hp⟩ | ⟨a, -, -, -, hp⟩ | ⟨a, u, ha, -, -, hp⟩
  · rw [hp]
    exact h
  · rw [hp]
    exact h
  · obtain ⟨hw, hi⟩ := Table.wellFormed_answer h.sound.table h.aligned ha
    have sound := sound_commit h.sound hw
    rw [hp]
    rcases commit_cases s u with ⟨d, hc⟩ | ⟨e, d, hc⟩ <;> rw [hc] at sound ⊢
    · exact ⟨h.file, sound, hi⟩
    · exact ⟨h.file, sound, h.aligned⟩

theorem Faithful.openFile (h : s.Faithful p) (back : s.format.ReadsBack s.table) :
    (s.disk.faults.read = none → openFile s.format p s.disk = .ok (.ok s, s.disk)) ∧
    ∀ s' e, openFile s.format p s.disk = .ok (.ok s', e) → s' = s ∧ e = s.disk := by
  obtain ⟨text, htext, content⟩ := h.holds.content
  have opened (hb : s.disk.readBytes p = .ok (Text.encode text)) :
      Store.openFile s.format p s.disk = .ok (.ok s, s.disk) := by
    have ht : s.disk.readText p = .ok text := by
      simp only [Disk.readText, hb, bind, Except.bind, Text.decode_encode, pure, Except.pure]
    rw [openFile_of_readText ht (back text htext),
      Snapshot.toTable_ofTable_of_aligned h.sound.table h.aligned, ← h.file]
    rfl
  refine ⟨fun hf => opened (Disk.readBytes_of_unfaulted content hf), fun s' e ho => ?_⟩
  rcases Disk.readBytes_of_content content with hb | ⟨cause, hb⟩
  · cases (opened hb).symm.trans ho
    exact ⟨rfl, rfl⟩
  · simp only [Store.openFile, Disk.pathExists_of_content content, if_true, load, Disk.readText, hb,
      bind, Except.bind, pure, Except.pure] at ho
    cases ho

theorem Faithful.reopened (h : s.Faithful p) (back : s.format.ReadsBack s.table) :
    s.reopened = s := by
  simp only [Store.reopened, h.file]
  split
  · rename_i s' e ho
    exact ((h.openFile back).2 s' e ho).1
  · rfl

theorem table_create {format : Snapshot.Format} (h : create format p d = (.ok s, e)) :
    s.table = Table.empty := by
  rw [create] at h
  split at h
  · cases h
  · split at h <;> cases h
    rfl

theorem Fresh.table (h : s.Fresh) : s.table = Table.empty := by
  cases h with
  | memory format d => rfl
  | file absent plain opened =>
    simp only [Store.openFile, absent, Bool.false_eq_true, if_false, pure, Except.pure] at opened
    exact table_create (Except.ok.inj opened)

theorem Fresh.faithful (h : s.Fresh) (hf : s.file = some p) : s.Faithful p :=
  ⟨hf, h.sound, h.table ▸ .empty⟩

theorem Next.faithful (h : s.Next s') (hs : s.Faithful p) : s'.Faithful p := by
  cases h with
  | statement st => exact perform_change s st ▸ hs.perform (.change st)
  | reopen back => exact (hs.reopened back).symm ▸ hs
  | disturb d same =>
    obtain ⟨hc, hp, ha⟩ := same p hs.file
    exact Keeps.faithful ⟨hc, hp, ha⟩ hs

theorem Reaches.faithful (h : s.Reaches s') (hs : s.Faithful p) : s'.Faithful p := by
  induction h with
  | refl => exact hs
  | tail _ hn ih => exact hn.faithful ih

end Faithful

/-! ### Runs -/

inductive Turn
  | call (c : Access) (written : Option (Except StoreError Unit)) (answer : Outcome)
  | reopened

inductive Does (p : FilePath) (s : Store) : Turn → Store → Prop
  | call {d : Disk} (k : Keeps p s.disk d) (c : Access) :
      Does p s (.call c (({ s with disk := d } : Store).written c)
        (({ s with disk := d } : Store).perform c).1) (({ s with disk := d } : Store).perform c).2
  | reopen {d e : Disk} {s' : Store} (k : Keeps p s.disk d) (back : s.format.ReadsBack s.table)
      (opened : openFile s.format p d = .ok (.ok s', e)) : Does p s .reopened s'

inductive Goes (p : FilePath) : Store → List Turn → Store → Prop
  | nil (s : Store) : Goes p s [] s
  | cons {s s₁ s₂ : Store} {t : Turn} {ts : List Turn} (h : s.Does p t s₁) (hs : Goes p s₁ ts s₂) :
      Goes p s (t :: ts) s₂

def Turn.asked? : Turn → Option (Access × Outcome)
  | .call c _ a => some (c, a)
  | .reopened => none

def dialogue (ts : List Turn) : List (Access × Outcome) := ts.filterMap Turn.asked?

theorem dialogue_call (c : Access) (w : Option (Except StoreError Unit)) (a : Outcome)
    (ts : List Turn) : dialogue (.call c w a :: ts) = (c, a) :: dialogue ts := rfl

def answers (s : Store) : List Access → List Outcome × Store
  | [] => ([], s)
  | c :: cs => ((s.perform c).1 :: ((s.perform c).2.answers cs).1, ((s.perform c).2.answers cs).2)

section Runs
variable {s s₁ s₂ m : Store} {p : FilePath} {t : Turn} {ts : List Turn} {c : Access}

theorem Does.faithful (h : s.Does p t s₁) (hs : s.Faithful p) : s₁.Faithful p := by
  cases h with
  | call k c => exact (k.faithful hs).perform c
  | reopen k back opened =>
    rw [((k.faithful hs).openFile back).2 _ _ opened |>.1]
    exact k.faithful hs

theorem Does.reopened (h : s.Does p .reopened s₁) (hs : s.Faithful p) : s₁.table = s.table := by
  cases h with
  | reopen k back opened => rw [((k.faithful hs).openFile back).2 _ _ opened |>.1]

theorem Goes.faithful (h : s.Goes p ts s₁) (hs : s.Faithful p) : s₁.Faithful p := by
  induction h with
  | nil s => exact hs
  | cons hd _ ih => exact ih (hd.faithful hs)

theorem written_of_memory (hm : m.file = none) (h : s.table = m.table)
    (hw : ∀ e, s.written c ≠ some (.error e)) : s.written c = m.written c := by
  unfold written at *
  rw [← h]
  cases ha : s.table.answer c with
  | error halt => rfl
  | ok v =>
    obtain ⟨a, u⟩ := v
    simp only [ha] at hw ⊢
    by_cases hr : a.Affects
    · simp only [if_pos hr, commit_of_none hm] at hw ⊢
      rcases commit_cases s u with ⟨d, hc⟩ | ⟨e, d, hc⟩
      · rw [hc]
      · exact absurd (by rw [hc]) (hw e)
    · rw [if_neg hr, if_neg hr]

theorem Ready.written (h : s.Ready) (c : Access) (e : StoreError) :
    s.written c ≠ some (.error e) := by
  intro he
  rcases perform_cases s c with ⟨halt, -, hn, -⟩ | ⟨a, -, -, hn, -⟩ | ⟨a, u, -, -, hn, -⟩
  · cases hn.symm.trans he
  · cases hn.symm.trans he
  · rw [(h.commit u).1] at hn
    cases hn.symm.trans he

theorem perform_error_iff {e : StoreError} :
    (s.perform c).1 = .ok (.error e) ↔ s.written c = some (.error e) := by
  rcases perform_cases s c with ⟨halt, -, hn, hp⟩ | ⟨a, -, -, hn, hp⟩ | ⟨a, u, -, -, hn, hp⟩
  · simp [hn, hp]
  · simp [hn, hp]
  · rw [hn, hp]
    cases (s.commit u).1 <;> simp [Except.map]

theorem Goes.answers (h : s.Goes p ts s₁) (hs : s.Faithful p) (hm : m.file = none)
    (ht : s.table = m.table) (hw : ∀ c e a, Turn.call c (some (.error e)) a ∉ ts) :
    ∃ m₁, m.answers ((dialogue ts).map (·.1)) = ((dialogue ts).map (·.2), m₁) ∧
      s₁.table = m₁.table := by
  induction h generalizing m with
  | nil s => exact ⟨m, rfl, ht⟩
  | @cons s s₁ s₂ t ts hd _ ih =>
    have hs₁ := hd.faithful hs
    have later : ∀ c e a, Turn.call c (some (.error e)) a ∉ ts := fun c e a hmem =>
      hw c e a (List.mem_cons_of_mem _ hmem)
    cases hd with
    | @call d k c =>
      have spared : ∀ e, ({ s with disk := d } : Store).written c ≠ some (.error e) := by
        intro e he
        rw [he] at hw
        exact hw c e _ List.mem_cons_self
      obtain ⟨ha, ht'⟩ := perform_congr (s := { s with disk := d }) ht
        (written_of_memory hm ht spared)
      obtain ⟨m₁, hm₁, h₁⟩ := ih hs₁ ((m.perform_fixed c).1.trans hm) ht' later
      refine ⟨m₁, ?_, h₁⟩
      simp only [dialogue_call, List.map_cons, Store.answers, hm₁, ha]
    | reopen k back opened =>
      have same := Does.reopened (.reopen k back opened) hs
      obtain ⟨m₁, hm₁, h₁⟩ := ih hs₁ hm (same.trans ht) later
      exact ⟨m₁, hm₁, h₁⟩

end Runs

/-- Every call of a run in which no write fails is answered as by a store in memory that is asked the
same without a restart, and the file holds the table after it, rows in order and next number. It can
always be opened again, unless reading fails, and is then the same store; and if nothing stands in
the way of writing, the next call does not fail either. -/
theorem restarts_answer_as_memory {s₀ s : Store} {p : FilePath} {ts : List Turn} (h₀ : s₀.Fresh)
    (hf : s₀.file = some p) (h : s₀.Goes p ts s)
    (hw : ∀ c e a, Turn.call c (some (.error e)) a ∉ ts) :
    (∃ m, answers {} ((dialogue ts).map (·.1)) = ((dialogue ts).map (·.2), m) ∧
      s.table = m.table) ∧
    (∃ content text, s.disk.content? p = some content ∧
      s.format.render ⟨1, s.table.nextId, s.table.listings⟩ = .ok text ∧
      content = Text.encode text ∧ Text.decode content = .ok text ∧
      (s.format.ReadsBack s.table →
        s.format.read text = some ⟨1, s.table.nextId, s.table.listings⟩)) ∧
    s.table.listings.Pairwise (fun q r => q.id < r.id) ∧
    (∀ d, Keeps p s.disk d → d.faults.read = none → s.format.ReadsBack s.table →
      openFile s.format p d = .ok (.ok { s with disk := d }, d)) ∧
    (s.Ready → ∀ c e, (s.perform c).1 ≠ .ok (.error e)) := by
  have hs := h.faithful (h₀.faithful hf)
  refine ⟨h.answers (h₀.faithful hf) rfl h₀.table hw, ?_, ?_, ?_, ?_⟩
  · obtain ⟨text, htext, content⟩ := hs.holds.content
    exact ⟨_, text, content, htext, rfl, Text.decode_encode text, fun back => back text htext⟩
  · exact hs.sound.table.pairwise.imp fun h => h.1
  · exact fun d k hr back => ((k.faithful hs).openFile back).1 hr
  · exact fun hr c e he => hr.written c e (perform_error_iff.mp he)

def offering : Access := .change (.upsert ⟨"p"⟩ ⟨"a.txt", "localhost", 80⟩ default)

def offeredTurns : List Turn :=
  [.call offering (newStore.written offering) (newStore.perform offering).1, .reopened,
    .call (.search "A" none) none (.ok (.ok (.hits [⟨⟨0⟩, "a.txt"⟩])))]

theorem newStore_goes : newStore.Goes ⟨"/registry.yaml"⟩ offeredTurns oneRow := by
  have faithful := newStore_fresh.faithful (p := ⟨"/registry.yaml"⟩) rfl
  have faithful' := reaches_oneRow.faithful faithful
  have opened := (faithful'.openFile oneRow_readsBack).1 rfl
  exact .cons (.call faithful.keeps offering) (.cons (.reopen faithful'.keeps oneRow_readsBack opened)
    (.cons (.call faithful'.keeps (.search "A" none)) (.nil oneRow)))

theorem restarts_answer_as_memory_offered : newStore.Fresh ∧
    newStore.Goes ⟨"/registry.yaml"⟩ offeredTurns oneRow ∧
    ∃ m, answers {} [offering, .search "A" none] =
      ([(newStore.perform offering).1, .ok (.ok (.hits [⟨⟨0⟩, "a.txt"⟩]))], m) ∧
      oneRow.table = m.table := by
  refine ⟨newStore_fresh, newStore_goes,
    (restarts_answer_as_memory newStore_fresh rfl newStore_goes fun c e a hmem => ?_).1⟩
  simp only [offeredTurns, List.mem_cons, List.not_mem_nil, or_false, Turn.call.injEq,
    reduceCtorEq, false_and, and_false] at hmem
  exact newStore_ready.written _ e hmem.2.1.symm

end PeerShare.Store
