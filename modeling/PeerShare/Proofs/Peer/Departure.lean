import PeerShare.Proofs.Peer.Run
import PeerShare.Proofs.Registry.History
import PeerShare.Proofs.Remote.Answers

/-!
A running peer and the server that takes its requests, in any order, each on a connection of its
own. The peer waits for one answer at a time. A request whose answer it no longer waits for may
still be on its way, and the server may take it as late as it likes, even after the peer has
disconnected. Such requests are all that can leave rows of a peer that has been told that it is
disconnected.
-/

namespace PeerShare

def Request.operation? : Request → Option Registry.Operation
  | .list peer o => some (.list peer o)
  | .delist fileName peer => some (.delist fileName peer)
  | .heartbeat peer => some (.heartbeat peer)
  | .disconnect peer => some (.disconnect peer)
  | .search _ | .resolveOwner _ | .livenessWindow | .status => none

section Exchange
variable {s : Server} {now : Instant} {q : Request} {op : Registry.Operation}

theorem Server.exchange_of_none (h : q.operation? = none) : (s.exchange now q).2 = s := by
  rw [s.exchange_eq]
  cases q with
  | search | resolveOwner | livenessWindow | status => rfl
  | _ => cases h

theorem Server.exchange_of_some (h : q.operation? = some op) :
    (s.exchange now q).2.registry = (s.registry.operate now op).2 := by
  rw [s.exchange_eq]
  cases q with
  | list peer o =>
    cases h
    simp only [dispatch, Registry.operate]
    cases s.registry.list now peer o <;> rfl
  | delist | heartbeat | disconnect =>
    cases h
    rfl
  | _ => cases h

theorem Remote.perform_disconnect (c : Remote) (s : Server) (now : Instant) (p : PeerId) :
    (c.perform (.disconnect p) (s.exchange now (.disconnect p)).1).isOk =
      (s.registry.operate now (.disconnect p)).1 := by
  have answer : (s.dispatch now (.disconnect p)).1 =
      Server.respond "removed" Json.count (s.registry.disconnect p).1 := rfl
  have plain (n : Nat) : Json.Plain 2 (.count n) := .nat _
  simp only [perform, s.exchange_eq, answer, c.ask_respond _ "removed" _ plain,
    Registry.operate, Registry.operate.answered]
  cases (s.registry.disconnect p).1 <;> rfl

end Exchange

namespace Peer

/-! ### What a run waits for -/

namespace Run

def Awaits (r : Run) : Prop :=
  match r.stage with
  | .asking _ | .leaving => True
  | .reconciling t => t.call?.isSome
  | .resting | .finished => False

def Meanwhile : Event → Prop
  | .due | .scanned _ | .cancel => True
  | .window _ | .answered _ => False

section Awaits
variable {a : Agent} {r : Run} {e : Event} {cs : List Call}

theorem awaits_leave (h : (leave a).1.isSome) : (leave a).2.Awaits := by
  simp only [leave, Option.isSome_map] at h
  simp [leave, h, Awaits]

theorem awaits_resume {t : Tick} (h : (resume a t).1.isSome) : (resume a t).2.Awaits := by
  rcases resume_cases a t with ⟨-, hr⟩ | ⟨-, hr⟩ <;> rw [hr] at h ⊢
  · cases h
  · simpa [Awaits] using h

theorem awaits_of_request (h : (r.next e).1.isSome) : (r.next e).2.Awaits := by
  have ht := turn_next r e
  generalize r.next e = x at h ht ⊢
  cases ht with
  | late | cancelled | dropped => exact awaits_leave h
  | scanned | answered => exact awaits_resume h
  | _ => cases h

theorem next_of_awaits (h : r.Awaits) (he : Meanwhile e) :
    ((r.next e).1 = none ∧ (r.next e).2.Awaits) ∨ ¬ r.Leaves ∧ (r.next e).2.Leaves := by
  have ht := turn_next r e
  generalize r.next e = x at ht ⊢
  cases ht with
  | known | late | answered | parted => exact he.elim
  | noted => exact .inl ⟨rfl, trivial⟩
  | dropped => exact .inr ⟨nofun, leaves_leave _⟩
  | begun | cancelled => exact h.elim
  | scanned _ _ scans => simp [Awaits, Tick.call?, scans] at h
  | passed => exact .inl ⟨rfl, h⟩

theorem Issued.next_leaves (ha : a.disconnected = false) (h : Issued a cs r)
    (hl : (r.next e).2.Leaves) :
    (r.Leaves ∧ (r.next e).1 = none) ∨
      ¬ r.Leaves ∧ (r.next e).1 = some (.disconnect a.peer) := by
  by_cases hr : r.Leaves
  · exact .inl ⟨hr, (hr.next e).1⟩
  · refine .inr ⟨hr, ?_⟩
    obtain ⟨q, hq, hn⟩ := h.next ha e
    obtain ⟨ds, es, b, t, hpasses, hcourse, hstay, -⟩ := h.passes
    obtain ⟨ds', es', -, -, -, -, -, hleave⟩ := hn.passes
    have hbefore : .disconnect ∉ cs := by
      rw [hstay hr, List.mem_append, not_or]
      exact ⟨hpasses.disconnect_notMem, hcourse.disconnect_notMem⟩
    cases q with
    | none =>
      rw [Option.toList_none, List.append_nil] at hleave
      exact absurd (hleave hl ▸ by simp) hbefore
    | some c =>
      obtain ⟨-, hc⟩ := List.append_inj' (hleave hl) rfl
      cases hc
      exact hq

end Awaits
end Run

/-! ### Requests on their way -/

inductive Origin
  | awaited
  | left
  | elsewhere
  deriving DecidableEq

/-- What the registry has been told, and by whom. -/
structure Made where
  origin : Origin
  entry : Registry.Entry

structure Mail where
  run : Run
  server : Server
  call : Option (Request × Option Delivery) := none
  left : List Request := []
  gaveUp : Nat := 0
  made : List Made := []
  parted : Bool := false

namespace Mail

inductive Event
  | due
  | scanned (found : Option Names)
  | cancel
  | take (now : Instant)
  | takeLeft (n : Nat) (now : Instant)
  | lose (n : Nat)
  | hear
  | giveUp
  | elsewhere (now : Instant) (op : Registry.Operation)

def begins (a : Agent) (s : Server) : Mail :=
  { run := { agent := a }, server := s, call := some (Run.first, none) }

def pending (m : Mail) : List Request :=
  match m.call with
  | some (q, none) => [q]
  | _ => []

def drop (m : Mail) : Mail := { m with call := none, left := m.left ++ m.pending }

def go (m : Mail) (e : Peer.Event) : Mail :=
  match m.run.next e with
  | (some q, r) => { m.drop with run := r, call := some (q, none) }
  | (none, r) => { m with run := r }

def taken (m : Mail) (origin : Origin) (now : Instant) (q : Request) (s : Server) : Mail :=
  { m with
    server := s
    made := m.made ++ (q.operation?.map fun op => ⟨origin, m.server.registry.entry now op⟩).toList }

def read (c : Remote) (m : Mail) (q : Request) (d : Delivery) : Mail :=
  match m.run.stage with
  | .asking _ => m.go (.window (c.livenessWindow d).toOption)
  | .leaving =>
    { m with parted := (c.perform q d).isOk }.go (.answered (.ofResult (c.perform q d)))
  | _ => m.go (.answered (.ofResult (c.perform q d)))

def step (c : Remote) (m : Mail) : Event → Mail
  | .due => m.go .due
  | .scanned found => m.go (.scanned found)
  | .cancel => m.go .cancel
  | .take now =>
    match m.call with
    | some (q, none) =>
      let (d, s) := m.server.exchange now q
      { m.taken .awaited now q s with call := some (q, some d) }
    | _ => m
  | .takeLeft n now =>
    match m.left[n]? with
    | some q =>
      { m.taken .left now q (m.server.exchange now q).2 with left := m.left.eraseIdx n }
    | none => m
  | .lose n => { m with left := m.left.eraseIdx n }
  | .hear =>
    match m.call with
    | some (q, some d) => m.drop.read c q d
    | _ => m
  | .giveUp =>
    match m.call with
    | some (q, _) => { m.drop with gaveUp := m.gaveUp + 1 }.read c q .silence
    | none => m
  | .elsewhere now op =>
    { m with
      server.registry := (m.server.registry.operate now op).2
      made := m.made ++ [⟨.elsewhere, m.server.registry.entry now op⟩] }

def play (c : Remote) (es : List Event) (m : Mail) : Mail := es.foldl (step c) m

def table (m : Mail) : Table := m.server.registry.store.table

/-! ### What a step keeps -/

/-- The peer has been disconnected, and what has been listed for it since came of requests left on
their way. -/
def Parted (p : PeerId) (made : List Made) : Prop :=
  ∃ before d late, made = before ++ d :: late ∧ d.origin = .awaited ∧
    d.entry.op = .disconnect p ∧ d.entry.done = true ∧
    ∀ x ∈ late, ∀ o, x.entry.op = .list p o → x.origin = .left

def strays (m : Mail) : Nat := m.left.length + m.made.countP (·.origin = .left)

structure Kept (c : Remote) (a : Agent) (r₀ : Registry) (m : Mail) : Prop where
  issued : ∃ cs, Run.Issued a cs m.run
  recorded : r₀.Recorded (m.made.map (·.entry)) m.server.registry
  awaits : ∀ x, m.call = some x → m.run.Awaits
  last : m.run.Leaves → ∀ x, m.call = some x → x.1 = .disconnect a.peer
  told : m.run.Leaves → ∀ q d, m.call = some (q, some d) → (c.perform q d).isOk →
    Parted a.peer m.made
  parted : m.parted = true → m.run.Leaves ∧ Parted a.peer m.made
  strays_le : m.strays ≤ m.gaveUp + 1
  strays_before : ¬ m.run.Leaves → m.strays ≤ m.gaveUp

section Kept
variable {c : Remote} {a : Agent} {r₀ : Registry} {m : Mail} {q : Request} {now : Instant}

theorem Parted.append {p : PeerId} {made new : List Made} (h : Parted p made)
    (hnew : ∀ x ∈ new, ∀ o, x.entry.op = .list p o → x.origin = .left) : Parted p (made ++ new) := by
  obtain ⟨before, d, late, rfl, ho, hop, hd, hlate⟩ := h
  refine ⟨before, d, late ++ new, by simp, ho, hop, hd, fun x hx => ?_⟩
  exact (List.mem_append.mp hx).elim (hlate x) (hnew x)

theorem Kept.begins (a : Agent) (s : Server) : (begins a s).Kept c a s.registry :=
  ⟨⟨[], .asking false⟩, rfl, fun _ _ => trivial, fun hl => (nomatch hl.1), fun hl => (nomatch hl.1),
    nofun, Nat.zero_le _, fun _ => Nat.zero_le _⟩

theorem length_pending (m : Mail) : m.pending.length ≤ 1 := by
  unfold pending
  split
  · exact Nat.le_refl 1
  · exact Nat.zero_le 1

theorem go_cases (m : Mail) (e : Peer.Event) :
    ((m.run.next e).1 = none ∧ m.go e = { m with run := (m.run.next e).2 }) ∨
    ∃ q, (m.run.next e).1 = some q ∧
      m.go e = { m.drop with run := (m.run.next e).2, call := some (q, none) } := by
  unfold go
  rcases m.run.next e with ⟨_ | q, r⟩
  · exact .inl ⟨rfl, rfl⟩
  · exact .inr ⟨q, rfl, rfl⟩

section Go
variable {e : Peer.Event}

theorem Kept.waits (h : m.Kept c a r₀) (he : m.call = none ∨ Run.Meanwhile e) {x}
    (hx : m.call = some x) : ((m.run.next e).1 = none ∧ (m.run.next e).2.Awaits) ∨
      ¬ m.run.Leaves ∧ (m.run.next e).2.Leaves := by
  rcases he with hnone | he
  · cases hnone.symm.trans hx
  · exact Run.next_of_awaits (h.awaits x hx) he

theorem Kept.goes_on (ha : a.disconnected = false) (h : m.Kept c a r₀)
    (he : m.call = none ∨ Run.Meanwhile e) (hnone : (m.run.next e).1 = none) :
    { m with run := (m.run.next e).2 }.Kept c a r₀ := by
  obtain ⟨cs, hissued⟩ := h.issued
  obtain ⟨c', -, hnext⟩ := hissued.next ha e
  have back (hl : (m.run.next e).2.Leaves) : m.run.Leaves := by
    rcases hissued.next_leaves ha hl with ⟨hl, -⟩ | ⟨-, hq⟩
    · exact hl
    · cases hnone.symm.trans hq
  have forth (hl : m.run.Leaves) : (m.run.next e).2.Leaves := (hl.next e).2.1
  refine ⟨⟨_, hnext⟩, h.recorded, fun x hx => ?_, fun hl => h.last (back hl),
    fun hl => h.told (back hl), fun hp => (h.parted hp).imp_left forth, h.strays_le,
    fun hl => h.strays_before (mt forth hl)⟩
  rcases h.waits he hx with ⟨-, hwait⟩ | ⟨hstay, hl⟩
  · exact hwait
  · exact absurd (back hl) hstay

theorem Kept.sends (ha : a.disconnected = false) (h : m.Kept c a r₀)
    (he : m.call = none ∨ Run.Meanwhile e) (hsome : (m.run.next e).1 = some q) :
    { m.drop with run := (m.run.next e).2, call := some (q, none) }.Kept c a r₀ := by
  obtain ⟨cs, hissued⟩ := h.issued
  obtain ⟨c', -, hnext⟩ := hissued.next ha e
  have hstay : ¬ m.run.Leaves := fun hl => by cases (hl.next e).1.symm.trans hsome
  have hbefore : m.strays ≤ m.gaveUp := h.strays_before hstay
  refine ⟨⟨_, hnext⟩, h.recorded, fun _ _ => ?_, fun hl x hx => ?_, fun _ q d hx => ?_,
    fun hp => absurd (h.parted hp).1 hstay, ?_, fun hl => ?_⟩
  · exact Run.awaits_of_request (Option.isSome_of_mem hsome)
  · rcases hissued.next_leaves ha hl with ⟨hl, -⟩ | ⟨-, hq⟩
    · exact absurd hl hstay
    · cases hx
      exact Option.some.inj (hsome.symm.trans hq)
  · cases hx
  · have := length_pending m
    simp only [strays, drop, List.length_append] at hbefore ⊢
    omega
  · have hpending : m.pending = [] := by
      cases hcall : m.call with
      | none => simp [pending, hcall]
      | some x =>
        rcases h.waits he hcall with ⟨hnone, -⟩ | ⟨-, hleft⟩
        · cases hnone.symm.trans hsome
        · exact absurd hleft hl
    simpa [strays, drop, hpending] using hbefore

theorem Kept.go (ha : a.disconnected = false) (h : m.Kept c a r₀)
    (he : m.call = none ∨ Run.Meanwhile e) : (m.go e).Kept c a r₀ := by
  rcases go_cases m e with ⟨hnone, hgo⟩ | ⟨q, hsome, hgo⟩ <;> rw [hgo]
  · exact h.goes_on ha he hnone
  · exact h.sends ha he hsome

end Go

theorem Kept.drop (h : m.Kept c a r₀) {n : Nat} (hn : m.pending.length ≤ n) :
    { m.drop with gaveUp := m.gaveUp + n }.Kept c a r₀ := by
  have hstrays {g : Nat} (hg : m.strays ≤ m.gaveUp + g) :
      { m.drop with gaveUp := m.gaveUp + n }.strays ≤ m.gaveUp + n + g := by
    simp only [Mail.strays, Mail.drop, List.length_append] at hg ⊢
    omega
  exact ⟨h.issued, h.recorded, nofun, fun _ => nofun, fun _ _ _ => nofun, h.parted,
    hstrays h.strays_le, fun hl => hstrays (g := 0) (h.strays_before hl)⟩

theorem perform_silence (c : Remote) (q : Request) : (c.perform q .silence).isOk = false := by
  cases q <;> rfl

theorem Kept.read (ha : a.disconnected = false) (h : m.Kept c a r₀) (hcall : m.call = none)
    {d : Delivery} (hd : m.run.stage = .leaving → (c.perform q d).isOk → Parted a.peer m.made) :
    (m.read c q d).Kept c a r₀ := by
  unfold Mail.read
  split
  · exact h.go ha (.inl hcall)
  · rename_i hs
    refine Kept.go ha ?_ (.inl hcall)
    exact { h with parted := fun hp => ⟨(Run.leaves_iff _).mpr (.inl hs), hd hs hp⟩ }
  · exact h.go ha (.inl hcall)

/-! ### What the server does -/

section Taken
variable {s : Server} {d : Delivery} {o : Origin}

theorem recorded_taken (h : r₀.Recorded (m.made.map (·.entry)) m.server.registry)
    (hx : m.server.exchange now q = (d, s)) (o : Origin) :
    r₀.Recorded ((m.taken o now q s).made.map (·.entry)) s.registry := by
  obtain rfl : (m.server.exchange now q).2 = s := congrArg Prod.snd hx
  cases hop : q.operation? with
  | none => simpa [taken, hop, Server.exchange_of_none hop] using h
  | some op =>
    simp only [taken, hop, Server.exchange_of_some hop, Option.map_some, Option.toList_some,
      List.map_append, List.map_cons, List.map_nil]
    exact Registry.recorded_snoc.mpr ⟨_, h, rfl, rfl⟩

theorem Parted.taken {p : PeerId} (h : Parted p m.made) (ho : o = .left ∨ ∀ k, q ≠ .list p k)
    (now : Instant) (s : Server) : Parted p (m.taken o now q s).made := by
  refine h.append fun x hx k hk => ?_
  obtain ⟨op, hop, rfl⟩ := Option.map_eq_some_iff.mp (Option.mem_toList.mp hx)
  refine ho.elim id fun hq => ?_
  obtain rfl : op = .list p k := hk
  cases q with
  | list p k =>
    cases hop
    exact absurd rfl (hq k)
  | _ => cases hop

theorem countP_taken (m : Mail) (o : Origin) (now : Instant) (q : Request) (s : Server) :
    (m.taken o now q s).made.countP (·.origin = .left) ≤
      m.made.countP (·.origin = .left) + if o = .left then 1 else 0 := by
  simp only [taken, List.countP_append, Nat.add_le_add_iff_left]
  cases q.operation? with
  | none => exact Nat.zero_le _
  | some op => simp [List.countP_singleton]

theorem Kept.take (h : m.Kept c a r₀) (hcall : m.call = some (q, none))
    (hx : m.server.exchange now q = (d, s)) :
    { m.taken .awaited now q s with call := some (q, some d) }.Kept c a r₀ := by
  have hstrays : { m.taken .awaited now q s with call := some (q, some d) }.strays ≤ m.strays :=
    Nat.add_le_add_left (countP_taken m .awaited now q s) _
  have hlast (hl : m.run.Leaves) : q = .disconnect a.peer := h.last hl _ hcall
  refine ⟨h.issued, recorded_taken h.recorded hx _, fun _ _ => h.awaits _ hcall, fun hl x hs => ?_,
    fun hl q' d' hs hok => ?_, fun hp => ?_, hstrays.trans h.strays_le,
    fun hl => hstrays.trans (h.strays_before hl)⟩
  · cases hs
    exact hlast hl
  · cases hs
    obtain rfl := hlast hl
    have hdone := c.perform_disconnect m.server now a.peer
    rw [hx, hok] at hdone
    let entry := m.server.registry.entry now (.disconnect a.peer)
    have hdone : entry.done = true := hdone.symm
    exact ⟨m.made, ⟨.awaited, entry⟩, [], rfl, rfl, rfl, hdone, List.forall_mem_nil _⟩
  · obtain ⟨hl, hparted⟩ := h.parted hp
    obtain rfl := hlast hl
    exact ⟨hl, hparted.taken (.inr (by simp)) now s⟩

theorem Kept.takeLeft (h : m.Kept c a r₀) {n : Nat} (hn : m.left[n]? = some q)
    (hx : m.server.exchange now q = (d, s)) :
    { m.taken .left now q s with left := m.left.eraseIdx n }.Kept c a r₀ := by
  have hstrays : { m.taken .left now q s with left := m.left.eraseIdx n }.strays ≤ m.strays := by
    obtain ⟨hlt, -⟩ := List.getElem?_eq_some_iff.mp hn
    have := countP_taken m .left now q s
    simp only [Mail.strays, List.length_eraseIdx, hlt, if_true] at this ⊢
    omega
  exact ⟨h.issued, recorded_taken h.recorded hx _, h.awaits, h.last,
    fun hl q' d' hs hok => (h.told hl q' d' hs hok).taken (.inl rfl) now s,
    fun hp => ⟨(h.parted hp).1, (h.parted hp).2.taken (.inl rfl) now s⟩, hstrays.trans h.strays_le,
    fun hl => hstrays.trans (h.strays_before hl)⟩

end Taken

theorem Kept.lose (h : m.Kept c a r₀) (n : Nat) :
    { m with left := m.left.eraseIdx n }.Kept c a r₀ := by
  have hstrays : { m with left := m.left.eraseIdx n }.strays ≤ m.strays :=
    Nat.add_le_add_right (List.length_eraseIdx_le _ _) _
  exact { h with
    strays_le := hstrays.trans h.strays_le
    strays_before := fun hl => hstrays.trans (h.strays_before hl) }

theorem Kept.elsewhere (h : m.Kept c a r₀) {op : Registry.Operation}
    (hop : ∀ o, op ≠ .list a.peer o) (now : Instant) :
    (m.step c (.elsewhere now op)).Kept c a r₀ := by
  have hparted (hp : Parted a.peer m.made) :
      Parted a.peer (m.made ++ [⟨.elsewhere, m.server.registry.entry now op⟩]) :=
    hp.append fun x hx o ho => by
      cases List.mem_singleton.mp hx
      exact absurd ho (hop o)
  have hstrays : (m.step c (.elsewhere now op)).strays = m.strays := by
    simp [Mail.strays, step]
  refine ⟨h.issued, ?_, h.awaits, h.last, fun hl q d hx hok => hparted (h.told hl q d hx hok),
    fun hp => ⟨(h.parted hp).1, hparted (h.parted hp).2⟩, hstrays.trans_le h.strays_le,
    fun hl => hstrays.trans_le (h.strays_before hl)⟩
  simp only [step, List.map_append, List.map_cons, List.map_nil]
  exact Registry.recorded_snoc.mpr ⟨_, h.recorded, rfl, rfl⟩

theorem Kept.step (ha : a.disconnected = false) (h : m.Kept c a r₀) {e : Event}
    (he : ∀ now o, e ≠ .elsewhere now (.list a.peer o)) : (m.step c e).Kept c a r₀ := by
  cases e with
  | due => exact h.go ha (.inr trivial)
  | scanned found => exact h.go ha (.inr trivial)
  | cancel => exact h.go ha (.inr trivial)
  | take now =>
    simp only [Mail.step]
    split
    · rename_i q hcall
      exact h.take hcall (Prod.mk.eta).symm
    · exact h
  | takeLeft n now =>
    simp only [Mail.step]
    split
    · rename_i q hn
      exact h.takeLeft hn (Prod.mk.eta).symm
    · exact h
  | lose n => exact h.lose n
  | hear =>
    simp only [Mail.step]
    split
    · rename_i q d hcall
      have hpending : m.pending.length ≤ 0 := by simp [pending, hcall]
      refine (h.drop hpending).read ha rfl fun hs hok => ?_
      exact h.told ((Run.leaves_iff _).mpr (.inl hs)) q d hcall hok
    · exact h
  | giveUp =>
    simp only [Mail.step]
    split
    · rename_i q x hcall
      refine (h.drop (length_pending m)).read ha rfl fun _ hok => ?_
      rw [perform_silence] at hok
      cases hok
    · exact h
  | elsewhere now op => exact h.elsewhere (fun o ho => he now o (ho ▸ rfl)) now

theorem Kept.play (ha : a.disconnected = false) (h : m.Kept c a r₀) {es : List Event}
    (hes : ∀ now o, .elsewhere now (.list a.peer o) ∉ es) : (m.play c es).Kept c a r₀ := by
  induction es generalizing m with
  | nil => exact h
  | cons e es ih =>
    refine ih (h.step ha fun now o he => hes now o (he ▸ List.mem_cons_self)) fun now o hm => ?_
    exact hes now o (List.mem_cons_of_mem _ hm)

end Kept

/-! ### What is left of a peer that is gone -/

theorem lacks_of_disconnect {r : Registry} {now : Instant} {p : PeerId}
    (hw : r.store.table.WellFormed) (hd : (r.operate now (.disconnect p)).1 = true) (k : Offer)
    (t : Instant) : ¬ (r.operate now (.disconnect p)).2.store.table.Has k p t := by
  rw [Registry.has_operate hw]
  rintro (⟨hl, -⟩ | ⟨s, -, hr, -⟩)
  · cases (Registry.Entry.lists_iff.mp hl).2
  · simp [Registry.Entry.removes, Registry.entry, hd] at hr

/-- A peer that has been told that it is disconnected has been so, and it has no row then. From then
on it has exactly the rows that come of requests left on their way: such a request lists an offer
that nobody has a row for, and nothing has removed the row since. There are no more of these
requests than the peer has waited in vain, and one more for the call that was cut off when it was
cancelled. -/
theorem rows_after_parting {c : Remote} {a : Agent} {s : Server} {es : List Event} {m : Mail}
    (ha : a.disconnected = false) (hw : s.registry.store.table.WellFormed)
    (hes : ∀ now o, .elsewhere now (.list a.peer o) ∉ es) (hm : (begins a s).play c es = m)
    (hp : m.parted = true) :
    m.strays ≤ m.gaveUp + 1 ∧
    ∃ before d late r, m.made = before ++ d :: late ∧ d.origin = .awaited ∧
      d.entry.op = .disconnect a.peer ∧ d.entry.done = true ∧
      s.registry.Recorded (before.map (·.entry) ++ [d.entry]) r ∧
      (∀ k t, ¬ r.store.table.Has k a.peer t) ∧
      r.Recorded (late.map (·.entry)) m.server.registry ∧
      ∀ k t, m.table.Has k a.peer t ↔ ∃ mid x rest, late = mid ++ x :: rest ∧ x.origin = .left ∧
        r.Unlisted k (mid.map (·.entry)) ∧
        Registry.Lives r.policy k a.peer x.entry (rest.map (·.entry)) ∧
        Registry.Latest t (Registry.readings k a.peer (x.entry :: rest.map (·.entry))) := by
  obtain rfl := hm
  have h := (Kept.begins (c := c) a s).play ha hes
  obtain ⟨hl, before, d, late, hmade, ho, hop, hd, hlate⟩ := h.parted hp
  have hrec := h.recorded
  rw [hmade, List.map_append, List.map_cons, Registry.recorded_append] at hrec
  obtain ⟨r', hbefore, hentry, hafter⟩ := hrec
  have hw' := Registry.recorded_wellFormed hbefore hw
  have hgone (k : Offer) (t : Instant) :
      ¬ (r'.operate d.entry.now d.entry.op).2.store.table.Has k a.peer t := by
    have hdone : (r'.operate d.entry.now d.entry.op).1 = true :=
      (congrArg Registry.Entry.done hentry).trans hd
    rw [hop] at hdone ⊢
    exact lacks_of_disconnect hw' hdone k t
  refine ⟨h.strays_le, before, d, late, _, hmade, ho, hop, hd,
    Registry.recorded_snoc.mpr ⟨r', hbefore, hentry, rfl⟩, hgone, hafter, fun k t => ?_⟩
  have hw'' := Registry.wellFormed_operate hw' d.entry.now d.entry.op
  rw [table, Registry.has_iff_lives_since hw'' (hgone k) hafter]
  constructor
  · rintro ⟨mid, e, rest, hsplit, hmid, hlives, hlatest⟩
    obtain ⟨mid, xs, rfl, rfl, hxs⟩ := List.map_eq_append_iff.mp hsplit
    obtain ⟨x, rest, rfl, rfl, rfl⟩ := List.map_eq_cons_iff.mp hxs
    have hlists := (Registry.Entry.lists_iff.mp hlives.lists).2
    exact ⟨mid, x, rest, rfl, hlate x (by simp) k hlists, hmid, hlives, hlatest⟩
  · rintro ⟨mid, x, rest, rfl, -, hmid, hlives, hlatest⟩
    exact ⟨_, x.entry, _, by simp, hmid, hlives, hlatest⟩

def registrar : Remote := ⟨"127.0.0.1:7700", Span.second⟩

def newcomer : Mail := begins ⟨⟨"p"⟩, "127.0.0.1", 9100, [], false⟩
  { registry := {}, listen := "127.0.0.1:7700", reaperInterval := Span.second }

/-- The peer is cancelled while its only file is being listed, and the server takes the request to
disconnect before the one that was cut off. -/
def cutOff : List Event :=
  [.take default, .hear, .due, .scanned (some ["a.txt"]), .cancel, .take default, .hear,
    .takeLeft 0 default]

theorem parted_cutOff : (newcomer.play registrar cutOff).parted = true := by decide +kernel

theorem has_cutOff :
    (newcomer.play registrar cutOff).table.Has ⟨"a.txt", "127.0.0.1", 9100⟩ ⟨"p"⟩ default :=
  ⟨⟨⟨0⟩, ⟨"p"⟩, ⟨"a.txt", "127.0.0.1", 9100⟩, default⟩, by decide +kernel, rfl, rfl, rfl⟩

theorem rows_after_parting_cutOff :
    newcomer.run.agent.disconnected = false ∧ newcomer.table.WellFormed ∧
    (∀ now o, .elsewhere now (.list ⟨"p"⟩ o) ∉ cutOff) ∧
    (newcomer.play registrar cutOff).parted = true ∧
    ∃ x ∈ (newcomer.play registrar cutOff).made, x.origin = .left ∧
      x.entry.lists ⟨"a.txt", "127.0.0.1", 9100⟩ ⟨"p"⟩ = true := by
  have helsewhere (now : Instant) (o : Offer) : .elsewhere now (.list ⟨"p"⟩ o) ∉ cutOff := by
    simp [cutOff]
  obtain ⟨-, before, d, late, r, hmade, -, -, -, -, -, -, hrows⟩ :=
    rows_after_parting (c := registrar) (m := newcomer.play registrar cutOff) rfl .empty helsewhere
      rfl parted_cutOff
  obtain ⟨mid, x, rest, hlate, ho, -, hlives, -⟩ := (hrows _ _).mp has_cutOff
  refine ⟨rfl, .empty, helsewhere, parted_cutOff, x, ?_, ho, hlives.lists⟩
  rw [hmade, hlate]
  simp

/-- The peer has been told that it is disconnected, and no request is on its way any more, but there
is a row of its file. -/
theorem parted_peer_has_row :
    (∀ k t, ¬ newcomer.table.Has k ⟨"p"⟩ t) ∧
    (newcomer.play registrar cutOff).run.stage = .finished ∧
    (newcomer.play registrar cutOff).parted = true ∧
    (newcomer.play registrar cutOff).pending = [] ∧ (newcomer.play registrar cutOff).left = [] ∧
    (newcomer.play registrar cutOff).gaveUp = 0 ∧
    (newcomer.play registrar cutOff).table.Has ⟨"a.txt", "127.0.0.1", 9100⟩ ⟨"p"⟩ default := by
  refine ⟨fun k t hrow => ?_, by decide +kernel, parted_cutOff, by decide +kernel, by decide +kernel,
    by decide +kernel, has_cutOff⟩
  obtain ⟨q, hq, -⟩ := hrow
  cases hq

end Mail
end Peer
end PeerShare
