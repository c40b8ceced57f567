import PeerShare.Proofs.Registry.Store

/-!
What a store answers. A call is answered from the table alone: with a reply and the table it makes,
or not at all. If the reply says that rows are affected, the new table is written; whether that goes
through decides if the reply is given and the new table kept. So two stores with one table whose
writes go alike answer alike, whatever their disks hold.
-/

namespace PeerShare

namespace Table

inductive Access
  | change (st : Statement)
  | search (query : String) (since : Option Instant)
  | get (i : EntryId)
  | count

inductive Result
  | row (r : Listing)
  | changed (n : Nat)
  | hits (l : List Hit)
  | found (r : Option Listing)
  | total (n : Nat)
  deriving DecidableEq

/-- Whether rows are affected; an upsert always affects the row it answers with. -/
def Result.Affects : Result → Prop
  | .row _ => True
  | .changed n => n ≠ 0
  | _ => False

instance : DecidablePred Result.Affects
  | .row _ => .isTrue trivial
  | .changed n => inferInstanceAs (Decidable (n ≠ 0))
  | .hits _ | .found _ | .total _ => .isFalse id

def counted (a : Nat × Table) : Except Halt (Result × Table) := .ok (.changed a.1, a.2)

def answer (t : Table) : Access → Except Halt (Result × Table)
  | .change (.upsert owner o now) => (t.upsert owner o now).map fun a => (.row a.1, a.2)
  | .change (.deleteOwned fileName owner) => counted (t.deleteOwned fileName owner)
  | .change (.touchOwner owner now) => counted (t.touchOwner owner now)
  | .change (.deleteOwner owner) => counted (t.deleteOwner owner)
  | .change (.deleteSeenBefore cutoff) => counted (t.deleteSeenBefore cutoff)
  | .search query since => .ok (.hits (t.search query since), t)
  | .get i => .ok (.found (t.get? i), t)
  | .count => .ok (.total t.count, t)

section Answer
variable {t u : Table} {c : Access} {a : Result}

theorem answer_change (t : Table) (st : Statement) :
    (t.answer (.change st)).map (·.2) = st.apply t := by
  cases st with
  | upsert owner o now =>
    simp only [answer, Statement.apply]
    cases t.upsert owner o now <;> rfl
  | _ => rfl

theorem answer_of_not_affects (h : t.answer c = .ok (a, u)) (ha : ¬ a.Affects) : u = t := by
  cases c with
  | change st =>
    cases st with
    | upsert owner o now =>
      simp only [answer] at h
      cases hu : t.upsert owner o now with
      | error halt => rw [hu] at h; cases h
      | ok v => rw [hu] at h; cases h; exact absurd trivial ha
    | deleteOwned fileName owner => cases h; exact deleteWhere_eq_self (not_not.mp ha)
    | touchOwner owner now => cases h; exact touchOwner_eq_self (not_not.mp ha)
    | deleteOwner owner => cases h; exact deleteWhere_eq_self (not_not.mp ha)
    | deleteSeenBefore cutoff => cases h; exact deleteWhere_eq_self (not_not.mp ha)
  | search query since => cases h; rfl
  | get i => cases h; rfl
  | count => cases h; rfl

theorem wellFormed_answer (hw : t.WellFormed) (ha : t.Aligned) (h : t.answer c = .ok (a, u)) :
    u.WellFormed ∧ u.Aligned := by
  cases c with
  | change st =>
    have hs : st.apply t = .ok u := by rw [← answer_change, h]; rfl
    exact ⟨Statement.wellFormed_apply hw hs, ha.apply hw hs⟩
  | search query since => cases h; exact ⟨hw, ha⟩
  | get i => cases h; exact ⟨hw, ha⟩
  | count => cases h; exact ⟨hw, ha⟩

end Answer
end Table

namespace Store
open Table (Access Result)

abbrev Outcome := Except Halt (Except StoreError Result)

def perform (s : Store) : Access → Outcome × Store
  | .change (.upsert owner o now) =>
    match s.upsert owner o now with
    | .ok (a, s') => (.ok (a.map .row), s')
    | .error halt => (.error halt, s)
  | .change (.deleteOwned fileName owner) => counted (s.deleteOwned fileName owner)
  | .change (.touchOwner owner now) => counted (s.touchOwner owner now)
  | .change (.deleteOwner owner) => counted (s.deleteOwner owner)
  | .change (.deleteSeenBefore cutoff) => counted (s.deleteSeenBefore cutoff)
  | .search query since => (.ok (.ok (.hits (s.table.search query since))), s)
  | .get i => (.ok (.ok (.found (s.table.get? i))), s)
  | .count => (.ok (.ok (.total s.table.count)), s)
where
  counted (a : Except StoreError Nat × Store) : Outcome × Store := (.ok (a.1.map .changed), a.2)

def written (s : Store) (c : Access) : Option (Except StoreError Unit) :=
  match s.table.answer c with
  | .ok (a, u) => if a.Affects then some (s.commit u).1 else none
  | .error _ => none

section Perform
variable {s m : Store} {c : Access}

theorem perform_change (s : Store) (st : Table.Statement) :
    (s.perform (.change st)).2 = (s.execute st).2 := by
  cases st with
  | upsert owner o now =>
    simp only [perform, execute]
    cases s.upsert owner o now <;> rfl
  | _ => rfl

theorem counted_change (s : Store) (f : Table → Nat × Table) : perform.counted (s.change f) =
    if Result.Affects (.changed (f s.table).1) then
      (.ok ((s.commit (f s.table).2).1.map fun _ => .changed (f s.table).1),
        (s.commit (f s.table).2).2)
    else (.ok (.ok (.changed (f s.table).1)), s) := by
  simp only [change, perform.counted, Result.Affects]
  by_cases hn : (f s.table).1 = 0
  · simp only [hn, if_true, ne_eq, not_true, if_false]
    rfl
  · simp only [hn, if_false, ne_eq, not_false_iff, if_true]
    cases (s.commit (f s.table).2).1 <;> rfl

theorem perform_eq (s : Store) (c : Access) : s.perform c =
    match s.table.answer c with
    | .error halt => (.error halt, s)
    | .ok (a, u) =>
      if a.Affects then (.ok ((s.commit u).1.map fun _ => a), (s.commit u).2)
      else (.ok (.ok a), s) := by
  cases c with
  | change st =>
    cases st with
    | upsert owner o now =>
      simp only [perform, upsert, Table.answer]
      cases s.table.upsert owner o now with
      | error halt => rfl
      | ok v =>
        simp only [bind, Except.bind, pure, Except.pure, Except.map, Result.Affects]
        cases (s.commit v.2).1 <;> rfl
    | deleteOwned fileName owner => exact counted_change s _
    | touchOwner owner now => exact counted_change s _
    | deleteOwner owner => exact counted_change s _
    | deleteSeenBefore cutoff => exact counted_change s _
  | search query since => rfl
  | get i => rfl
  | count => rfl

theorem perform_cases (s : Store) (c : Access) :
    (∃ halt, s.table.answer c = .error halt ∧ s.written c = none ∧
      s.perform c = (.error halt, s)) ∨
    (∃ a, s.table.answer c = .ok (a, s.table) ∧ ¬ a.Affects ∧ s.written c = none ∧
      s.perform c = (.ok (.ok a), s)) ∨
    ∃ a u, s.table.answer c = .ok (a, u) ∧ a.Affects ∧ s.written c = some (s.commit u).1 ∧
      s.perform c = (.ok ((s.commit u).1.map fun _ => a), (s.commit u).2) := by
  rw [perform_eq, written]
  cases h : s.table.answer c with
  | error halt => exact .inl ⟨halt, rfl, rfl, rfl⟩
  | ok v =>
    obtain ⟨a, u⟩ := v
    by_cases ha : a.Affects
    · exact .inr (.inr ⟨a, u, rfl, ha, if_pos ha, if_pos ha⟩)
    · have hu := Table.answer_of_not_affects h ha
      subst hu
      exact .inr (.inl ⟨a, rfl, ha, if_neg ha, if_neg ha⟩)

theorem perform_fixed (s : Store) (c : Access) :
    (s.perform c).2.file = s.file ∧ (s.perform c).2.format = s.format := by
  rcases perform_cases s c with ⟨halt, -, -, hp⟩ | ⟨a, -, -, -, hp⟩ | ⟨a, u, -, -, -, hp⟩
  · rw [hp]
    exact ⟨rfl, rfl⟩
  · rw [hp]
    exact ⟨rfl, rfl⟩
  · rw [hp]
    rcases commit_cases s u with ⟨d, hc⟩ | ⟨e, d, hc⟩ <;> rw [hc] <;> exact ⟨rfl, rfl⟩

theorem perform_congr (ht : s.table = m.table) (hw : s.written c = m.written c) :
    (s.perform c).1 = (m.perform c).1 ∧ (s.perform c).2.table = (m.perform c).2.table := by
  rcases perform_cases s c with ⟨halt, ha, -, hp⟩ | ⟨a, ha, hn, -, hp⟩ | ⟨a, u, ha, hr, hws, hp⟩
  · rw [perform_eq m, ← ht, ha, hp]
    exact ⟨rfl, ht⟩
  · rw [perform_eq m, ← ht, ha, hp]
    simp only [if_neg hn, ht, and_self]
  · rw [perform_eq m, ← ht, ha, hp]
    rw [hws, written, ← ht, ha] at hw
    simp only [if_pos hr, Option.some.injEq] at hw ⊢
    refine ⟨by rw [hw], ?_⟩
    rcases commit_cases s u with ⟨d, hc⟩ | ⟨e, d, hc⟩ <;>
      rcases commit_cases m u with ⟨d', hc'⟩ | ⟨e', d', hc'⟩ <;> rw [hc, hc'] at hw ⊢
    · cases hw
    · cases hw
    · exact ht

end Perform
end Store
end PeerShare
