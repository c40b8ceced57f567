import PeerShare.Proofs.Registry.Store
import PeerShare.Registry.Basic

/-!
The operations of the registry as data, and what one of them does to the row of an offer: it
removes the row, or renews it, or leaves it; an offer without a row gets one only by being listed.
Which of these happens can be read off the operation, the row's owner and when it was last seen.
-/

namespace PeerShare

namespace Registry

inductive Operation
  | list (peer : PeerId) (o : Offer)
  | delist (fileName : String) (peer : PeerId)
  | heartbeat (peer : PeerId)
  | disconnect (peer : PeerId)
  | reap
  deriving DecidableEq

def operate (r : Registry) (now : Instant) : Operation → Bool × Registry
  | .list peer o =>
    match r.list now peer o with
    | .ok a => answered a
    | .error _ => (false, r)
  | .delist fileName peer => answered (r.delist fileName peer)
  | .heartbeat peer => answered (r.heartbeat now peer)
  | .disconnect peer => answered (r.disconnect peer)
  | .reap => answered (r.reap now)
where
  answered {α : Type} (a : Answer α) : Bool × Registry := (a.1.isOk, a.2)

/-- The statement that an operation makes; a sweep may reach back before all time. -/
def Operation.statement? (policy : Policy) (now : Instant) : Operation → Option Table.Statement
  | .list peer o => some (.upsert peer o now)
  | .delist fileName peer => some (.deleteOwned fileName peer)
  | .heartbeat peer => some (.touchOwner peer now)
  | .disconnect peer => some (.deleteOwner peer)
  | .reap => (now.sub? policy.reapAfter).map .deleteSeenBefore

structure Entry where
  now : Instant
  op : Operation
  done : Bool

end Registry

/-- A row stands for the offer, owned and last seen as given. -/
def Table.Has (t : Table) (k : Offer) (p : PeerId) (seen : Instant) : Prop :=
  ∃ q ∈ t.listings, q.offer = k ∧ q.owner = p ∧ q.lastSeen = seen

def Table.Lacks (t : Table) (k : Offer) : Prop := ∀ q ∈ t.listings, q.offer ≠ k

namespace Registry

namespace Entry

def lists (e : Entry) (k : Offer) (p : PeerId) : Bool := e.done && e.op = .list p k

/-- Whether the entry ends a row: by its owner's word, or since it was last seen too long ago. -/
def removes (e : Entry) (policy : Policy) (k : Offer) (p : PeerId) (seen : Instant) : Bool :=
  e.done && match e.op with
    | .delist fileName peer => k.fileName = fileName && p = peer
    | .disconnect peer => p = peer
    | .reap => (e.now.sub? policy.reapAfter).any (seen < ·)
    | .list .. | .heartbeat _ => false

/-- Whether the entry renews a row: the offer is listed again by anyone, or its owner is alive. -/
def renews (e : Entry) (k : Offer) (p : PeerId) : Bool :=
  e.done && match e.op with
    | .list _ o => k = o
    | .heartbeat peer => p = peer
    | .delist .. | .disconnect _ | .reap => false

def seen (e : Entry) (k : Offer) (p : PeerId) (t : Instant) : Instant :=
  if e.renews k p then max t e.now else t

def fate (e : Entry) (policy : Policy) (q : Listing) : Option Listing :=
  if e.removes policy q.offer q.owner q.lastSeen then none
  else some { q with lastSeen := e.seen q.offer q.owner q.lastSeen }

end Entry

section Cases
variable {r : Registry} {now : Instant} {op : Operation} {α β : Type}

theorem answered_map (f : α → β) (a : Answer α) :
    operate.answered (a.1.map f, a.2) = operate.answered a := by
  obtain ⟨a | a, r⟩ := a <;> rfl

theorem answered_state (f : Store → Except StoreError α × Store) (h : r.outage = none) :
    operate.answered (r.state f) = ((f r.store).1.isOk, { r with store := (f r.store).2 }) := by
  simp only [state, h, operate.answered]
  cases (f r.store).1 <;> rfl

theorem answered_outage (f : Store → Except StoreError α × Store) {message : String}
    (h : r.outage = some message) : operate.answered (r.state f) = (false, r) := by
  simp only [state, h, operate.answered]
  rfl

def Refused (r : Registry) (op : Operation) : Prop :=
  r.outage ≠ none ∨ ∃ peer o, op = .list peer o ∧ isFileName o.fileName = false

theorem list_or_states {st : Table.Statement} (hst : op.statement? r.policy now = some st) :
    (∃ peer o, op = .list peer o) ∨ ∃ f : Store → Except StoreError Nat × Store,
      r.operate now op = operate.answered (r.state f) ∧
      r.store.execute st = ((f r.store).1.isOk, (f r.store).2) := by
  cases op with
  | list peer o => exact .inl ⟨peer, o, rfl⟩
  | delist fileName peer =>
    cases hst
    exact .inr ⟨(·.deleteOwned fileName peer), answered_map (fun n => decide (0 < n)) _, rfl⟩
  | heartbeat peer =>
    cases hst
    exact .inr ⟨(·.touchOwner peer now), answered_map (fun n => decide (0 < n)) _, rfl⟩
  | disconnect peer =>
    cases hst
    exact .inr ⟨(·.deleteOwner peer), rfl, rfl⟩
  | reap =>
    obtain ⟨cutoff, hc, rfl⟩ := Option.map_eq_some_iff.mp hst
    exact .inr ⟨(·.deleteSeenBefore cutoff), by simp only [operate, reap, hc], rfl⟩

theorem operate_of_statement {st : Table.Statement} (hr : ¬ r.Refused op)
    (hst : op.statement? r.policy now = some st) :
    r.operate now op = ((r.store.execute st).1, { r with store := (r.store.execute st).2 }) := by
  obtain ⟨ho, hname⟩ := not_or.mp hr
  rw [ne_eq, not_not] at ho
  rcases list_or_states hst with ⟨peer, o, rfl⟩ | ⟨f, hop, hex⟩
  · cases hst
    have hn : isFileName o.fileName = true :=
      Bool.not_eq_false _ ▸ fun hn => hname ⟨peer, o, rfl, hn⟩
    simp only [operate, list, hn, ho, not_true, if_false, Store.execute, bind, Except.bind,
      pure, Except.pure]
    cases r.store.upsert peer o now with
    | error halt => simp only [← ho]
    | ok u =>
      simp only [operate.answered]
      cases u.1 <;> rfl
  · rw [hop, answered_state f ho, hex]

theorem operate_of_refused {st : Table.Statement} (hr : r.Refused op)
    (hst : op.statement? r.policy now = some st) : r.operate now op = (false, r) := by
  rcases hr with ho | ⟨peer, o, rfl, hn⟩
  · obtain ⟨message, ho⟩ := Option.ne_none_iff_exists'.mp ho
    rcases list_or_states hst with ⟨peer, o, rfl⟩ | ⟨f, hop, -⟩
    · simp only [operate, list, ho]
      split_ifs <;> rfl
    · rw [hop, answered_outage f ho]
  · simp only [operate, list, hn, operate.answered]
    rfl

theorem operate_of_no_statement (hst : op.statement? r.policy now = none) :
    r.operate now op = (true, r) := by
  cases op with
  | reap =>
    have hc : now.sub? r.policy.reapAfter = none := Option.map_eq_none_iff.mp hst
    simp only [operate, reap, hc]
    rfl
  | _ => cases hst

theorem operate_cases (r : Registry) (now : Instant) (op : Operation) :
    (∃ st, op.statement? r.policy now = some st ∧
      r.operate now op = ((r.store.execute st).1, { r with store := (r.store.execute st).2 })) ∨
    (op.statement? r.policy now = none ∧ r.operate now op = (true, r)) ∨
    (r.Refused op ∧ r.operate now op = (false, r)) := by
  cases hst : op.statement? r.policy now with
  | none => exact .inr (.inl ⟨rfl, operate_of_no_statement hst⟩)
  | some st =>
    by_cases hr : r.Refused op
    · exact .inr (.inr ⟨hr, operate_of_refused hr hst⟩)
    · exact .inl ⟨st, rfl, operate_of_statement hr hst⟩

end Cases

/-! ### Rows -/

section Rows
variable {r : Registry} {now : Instant} {op : Operation} {policy : Policy} {k : Offer} {p : PeerId}
  {seen : Instant}

theorem Entry.lists_iff {e : Entry} :
    e.lists k p = true ↔ e.done = true ∧ e.op = .list p k := by
  rw [lists, Bool.and_eq_true, decide_eq_true_eq]

def entry (r : Registry) (now : Instant) (op : Operation) : Entry :=
  ⟨now, op, (r.operate now op).1⟩

theorem sameListing_of_fate {e : Entry} {q q' : Listing} (hf : e.fate policy q = some q') :
    Table.SameListing q q' := by
  unfold Entry.fate at hf
  split_ifs at hf
  cases hf
  refine ⟨rfl, rfl, rfl, ?_⟩
  show q.lastSeen ≤ e.seen q.offer q.owner q.lastSeen
  unfold Entry.seen
  split_ifs
  · exact Instant.le_max_left _ _
  · exact Instant.le_refl _

theorem fate_of_not_done {e : Entry} (h : e.done = false) (policy : Policy) (q : Listing) :
    e.fate policy q = some q := by
  simp only [Entry.fate, Entry.removes, Entry.seen, Entry.renews, h, Bool.false_and,
    Bool.false_eq_true, if_false]

theorem fate_of_statement? {e : Entry} (hd : e.done = true) {st : Table.Statement}
    (h : e.op.statement? policy e.now = some st) (q : Listing) :
    e.fate policy q = st.fate q := by
  obtain ⟨now, op, done⟩ := e
  cases hd
  cases op with
  | list peer o =>
    cases h
    simp only [Entry.fate, Entry.removes, Entry.seen, Entry.renews, Table.Statement.fate,
      Listing.seenAt, Bool.true_and, Bool.false_eq_true, if_false, decide_eq_true_eq]
    split_ifs <;> rfl
  | delist fileName peer =>
    cases h
    simp [Entry.fate, Entry.removes, Entry.seen, Entry.renews, Table.Statement.fate]
  | heartbeat peer =>
    cases h
    simp only [Entry.fate, Entry.removes, Entry.seen, Entry.renews, Table.Statement.fate,
      Table.touched, Listing.seenAt, Bool.true_and, Bool.false_eq_true, if_false,
      decide_eq_true_eq]
    split_ifs <;> rfl
  | disconnect peer =>
    cases h
    simp [Entry.fate, Entry.removes, Entry.seen, Entry.renews, Table.Statement.fate]
  | reap =>
    obtain ⟨cutoff, hc, rfl⟩ := Option.map_eq_some_iff.mp h
    simp [Entry.fate, Entry.removes, Entry.seen, Entry.renews, Table.Statement.fate, hc]

theorem fate_of_no_statement {e : Entry} (h : e.op.statement? policy e.now = none) (q : Listing) :
    e.fate policy q = some q := by
  obtain ⟨now, op, done⟩ := e
  cases op with
  | reap =>
    have hc : now.sub? policy.reapAfter = none := Option.map_eq_none_iff.mp h
    simp [Entry.fate, Entry.removes, Entry.seen, Entry.renews, hc]
  | _ => cases h

theorem policy_operate (r : Registry) (now : Instant) (op : Operation) :
    (r.operate now op).2.policy = r.policy := by
  rcases operate_cases r now op with ⟨st, -, ho⟩ | ⟨-, ho⟩ | ⟨-, ho⟩ <;> rw [ho]

theorem outage_operate (r : Registry) (now : Instant) (op : Operation) :
    (r.operate now op).2.outage = r.outage := by
  rcases operate_cases r now op with ⟨st, -, ho⟩ | ⟨-, ho⟩ | ⟨-, ho⟩ <;> rw [ho]

theorem outage_of_heartbeat (h : (r.operate now (.heartbeat p)).1 = true) : r.outage = none := by
  rcases Option.eq_none_or_eq_some r.outage with ho | ⟨message, ho⟩
  · exact ho
  · simp only [operate, heartbeat, state, ho, operate.answered] at h
    cases h

theorem wellFormed_operate (h : r.store.table.WellFormed) (now : Instant) (op : Operation) :
    (r.operate now op).2.store.table.WellFormed := by
  rcases operate_cases r now op with ⟨st, -, ho⟩ | ⟨-, ho⟩ | ⟨-, ho⟩
  · rw [ho]
    rcases Store.execute_table r.store st with ⟨-, ha⟩ | ⟨-, ht⟩
    · exact Table.Statement.wellFormed_apply h ha
    · exact ht ▸ h
  · rw [ho]; exact h
  · rw [ho]; exact h

theorem precedes_operate (hw : r.store.table.WellFormed) (now : Instant) (op : Operation) :
    r.store.table.Precedes (r.operate now op).2.store.table := by
  rcases operate_cases r now op with ⟨st, -, ho⟩ | ⟨-, ho⟩ | ⟨-, ho⟩
  · rw [ho]
    exact Store.precedes_execute hw st
  · rw [ho]
    exact .refl _
  · rw [ho]
    exact .refl _

theorem table_of_not_done (hd : (r.operate now op).1 = false) :
    (r.operate now op).2.store.table = r.store.table := by
  rcases operate_cases r now op with ⟨st, -, ho⟩ | ⟨-, ho⟩ | ⟨-, ho⟩
  · rw [ho] at hd ⊢
    rcases Store.execute_table r.store st with ⟨ht, -⟩ | ⟨-, ht⟩
    · rw [ht] at hd
      cases hd
    · exact ht
  · rw [ho]
  · rw [ho]

theorem apply_of_done {st : Table.Statement} (hd : (r.operate now op).1 = true)
    (hst : op.statement? r.policy now = some st) :
    st.apply r.store.table = .ok (r.operate now op).2.store.table := by
  rcases operate_cases r now op with ⟨st', hst', ho⟩ | ⟨hst', -⟩ | ⟨-, ho⟩
  · cases hst.symm.trans hst'
    rw [ho] at hd ⊢
    rcases Store.execute_table r.store st with ⟨-, ha⟩ | ⟨hf, -⟩
    · exact ha
    · exact absurd (hf.symm.trans hd) Bool.false_ne_true
  · cases hst.symm.trans hst'
  · rw [ho] at hd
    cases hd

theorem not_lists_of_not_done {e : Entry} (h : e.done = false) : ¬ e.lists k p = true := by
  rw [Entry.lists_iff, h]
  exact fun hl => Bool.false_ne_true hl.1

theorem not_lists_of_no_statement {e : Entry} (h : e.op.statement? policy e.now = none) :
    ¬ e.lists k p = true := by
  rw [Entry.lists_iff]
  intro hl
  rw [hl.2] at h
  cases h

theorem adds_of_statement? {e : Entry} (hd : e.done = true) {st : Table.Statement}
    (h : e.op.statement? policy e.now = some st) (t : Table) (q : Listing) :
    st.Adds t q ↔ e.lists q.offer q.owner = true ∧ t.Lacks q.offer ∧ q.id = t.nextId ∧
      q.lastSeen = e.now := by
  rw [Entry.lists_iff, and_iff_right hd]
  obtain ⟨now, op, done⟩ := e
  cases op with
  | list peer o =>
    cases h
    constructor
    · intro ha
      obtain ⟨hlack, rfl⟩ := ha
      exact ⟨rfl, hlack, rfl, rfl⟩
    · intro hl
      obtain ⟨ho, hlack, hi, hs⟩ := hl
      cases ho
      exact ⟨hlack, by rw [← hi, ← hs]⟩
  | reap =>
    obtain ⟨cutoff, -, rfl⟩ := Option.map_eq_some_iff.mp h
    simp [Table.Statement.Adds]
  | _ =>
    cases h
    simp [Table.Statement.Adds]

def Entry.Leaves (e : Entry) (policy : Policy) (t : Table) (q : Listing) : Prop :=
  (∃ q₀ ∈ t.listings, e.fate policy q₀ = some q) ∨
    e.lists q.offer q.owner = true ∧ t.Lacks q.offer ∧ q.id = t.nextId ∧ q.lastSeen = e.now

theorem leaves_of_idle {e : Entry} {t : Table} {q : Listing}
    (hf : ∀ q, e.fate policy q = some q) (hl : ¬ e.lists q.offer q.owner = true) :
    e.Leaves policy t q ↔ q ∈ t.listings := by
  simp only [Entry.Leaves, hf, hl, Option.some.injEq, exists_eq_right, Bool.false_eq_true,
    false_and, or_false]

theorem mem_operate (h : r.store.table.WellFormed) (now : Instant) (op : Operation) {q : Listing} :
    q ∈ (r.operate now op).2.store.table.listings ↔
      (r.entry now op).Leaves r.policy r.store.table q := by
  rcases operate_cases r now op with ⟨st, hst, ho⟩ | ⟨hst, ho⟩ | ⟨-, ho⟩
  · have he : (r.entry now op).done = (r.store.execute st).1 := by rw [entry, ho]
    rw [ho]
    rcases Store.execute_table r.store st with ⟨hd, ha⟩ | ⟨hd, ht⟩
    · rw [Table.Statement.mem_apply h ha,
        adds_of_statement? (e := r.entry now op) (he.trans hd) hst]
      simp only [Entry.Leaves, fate_of_statement? (e := r.entry now op) (he.trans hd) hst]
    · rw [ht, leaves_of_idle (fate_of_not_done (he.trans hd) _) (not_lists_of_not_done (he.trans hd))]
  · rw [ho]
    exact (leaves_of_idle (fate_of_no_statement hst) (not_lists_of_no_statement hst)).symm
  · have he : (r.entry now op).done = false := by rw [entry, ho]
    rw [ho]
    exact (leaves_of_idle (fate_of_not_done he _) (not_lists_of_not_done he)).symm

theorem has_operate (h : r.store.table.WellFormed) (now : Instant) (op : Operation) :
    (r.operate now op).2.store.table.Has k p seen ↔
      ((r.entry now op).lists k p = true ∧ r.store.table.Lacks k ∧ seen = now) ∨
      ∃ s, r.store.table.Has k p s ∧ (r.entry now op).removes r.policy k p s = false ∧
        seen = (r.entry now op).seen k p s := by
  constructor
  · intro hrow
    obtain ⟨q, hq, rfl, rfl, rfl⟩ := hrow
    rcases (mem_operate h now op).mp hq with ⟨q₀, h₀, hf⟩ | ⟨hl, hlack, -, hs⟩
    · unfold Entry.fate at hf
      split_ifs at hf with hr
      cases hf
      exact .inr ⟨q₀.lastSeen, ⟨q₀, h₀, rfl, rfl, rfl⟩, Bool.eq_false_iff.mpr hr, rfl⟩
    · exact .inl ⟨hl, hlack, hs⟩
  · intro hcases
    rcases hcases with ⟨hl, hlack, rfl⟩ | ⟨s, ⟨q₀, h₀, rfl, rfl, rfl⟩, hr, rfl⟩
    · exact ⟨⟨r.store.table.nextId, p, k, seen⟩,
        (mem_operate h seen op).mpr (.inr ⟨hl, hlack, rfl, rfl⟩), rfl, rfl, rfl⟩
    · refine ⟨{ q₀ with lastSeen := (r.entry now op).seen q₀.offer q₀.owner q₀.lastSeen },
        (mem_operate h now op).mpr (.inl ⟨q₀, h₀, ?_⟩), rfl, rfl, rfl⟩
      simp only [Entry.fate, hr, Bool.false_eq_true, if_false]

theorem lacks_iff {t : Table} : t.Lacks k ↔ ∀ p seen, ¬ t.Has k p seen := by
  constructor
  · intro h p seen hrow
    obtain ⟨q, hq, ho, -⟩ := hrow
    exact h q hq ho
  · intro h q hq ho
    exact h q.owner q.lastSeen ⟨q, hq, ho, rfl, rfl⟩

theorem has_unique {t : Table} (h : t.WellFormed) {p' : PeerId} {seen' : Instant}
    (hp : t.Has k p seen) (hp' : t.Has k p' seen') : p = p' ∧ seen = seen' := by
  obtain ⟨q, hq, ho, rfl, rfl⟩ := hp
  obtain ⟨q', hq', ho', rfl, rfl⟩ := hp'
  rw [h.eq_of_offer hq hq' (ho.trans ho'.symm)]
  exact ⟨rfl, rfl⟩

theorem removes_list {e : Entry} {p' : PeerId} {o : Offer} (h : e.op = .list p' o) :
    e.removes policy k p seen = false := by
  simp only [Entry.removes, h, Bool.and_false]

theorem removes_heartbeat {e : Entry} {p' : PeerId} (h : e.op = .heartbeat p') :
    e.removes policy k p seen = false := by
  simp only [Entry.removes, h, Bool.and_false]

theorem removes_of_not_done {e : Entry} (h : e.done = false) :
    e.removes policy k p seen = false := by
  simp only [Entry.removes, h, Bool.false_and]

theorem has_of_lists (h : r.store.table.WellFormed) (hl : (r.entry now op).lists k p = true) :
    ∃ p' seen, (r.operate now op).2.store.table.Has k p' seen := by
  by_cases hlack : r.store.table.Lacks k
  · exact ⟨p, now, (has_operate h now op).mpr (.inl ⟨hl, hlack, rfl⟩)⟩
  · have hop := (Entry.lists_iff.mp hl).2
    rw [lacks_iff] at hlack
    push Not at hlack
    obtain ⟨p', s, hs⟩ := hlack
    exact ⟨p', _, (has_operate h now op).mpr (.inr ⟨s, hs, removes_list hop, rfl⟩)⟩

end Rows
end Registry
end PeerShare
