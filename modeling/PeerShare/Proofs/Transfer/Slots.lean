import Mathlib.Data.List.Nodup
import Mathlib.Data.List.Perm.Basic
import Mathlib.Logic.Relation
import PeerShare.Proofs.Transfer.Answer
import PeerShare.Time.Span

/-!
No slot is lost, none is lent twice, and who waits for one is not timed. The moves considered are
freer than the steps of an endpoint: a slot that comes free may be taken later than at once and by
anyone who waits, and who has a slot may begin to read later than it got it.
-/

namespace PeerShare.Transfer

namespace Slots

def join (s : Slots) : Slots :=
  match s.overflow with
  | .reject => s.arrive
  | .queue => { s with arrived := s.arrived + 1, waiting := s.waiting ++ [s.arrived] }

theorem join_of_full {s : Slots} (ho : s.overflow = .reject) (hf : s.free = 0) :
    s.join = { s with arrived := s.arrived + 1, rejected := s.rejected ++ [s.arrived] } := by
  simp only [join, arrive, ho, if_pos hf]

theorem join_of_free {s : Slots} (ho : s.overflow = .reject) (hf : s.free ≠ 0) :
    s.join = grant { s with arrived := s.arrived + 1 } s.arrived := by
  simp only [join, arrive, ho, if_neg hf]

theorem join_of_queue {s : Slots} (ho : s.overflow = .queue) :
    s.join = { s with arrived := s.arrived + 1, waiting := s.waiting ++ [s.arrived] } := by
  simp only [join, ho]

theorem arrive_of_reject {s : Slots} (ho : s.overflow = .reject) : s.arrive = s.join := by
  simp only [join, ho]

theorem arrive_of_queue {s : Slots} (ho : s.overflow = .queue) : s.arrive = s.join.letIn := by
  cases s
  cases ho
  rfl

theorem join_cases (s : Slots) : (s.overflow = .reject ∧ s.free = 0) ∨
    (s.overflow = .reject ∧ s.free ≠ 0) ∨ s.overflow = .queue := by
  cases s.overflow with
  | reject => exact (Decidable.em (s.free = 0)).imp (⟨rfl, ·⟩) fun h => .inl ⟨rfl, h⟩
  | queue => exact .inr (.inr rfl)

def enter (s : Slots) (c : Conn) : Slots := grant { s with waiting := s.waiting.erase c } c

def leave (s : Slots) (c : Conn) (why : Ending) : Slots :=
  { s with
    free := s.free + 1
    serving := s.serving.filter (·.1 != c)
    ended := s.ended ++ [(c, why)] }

inductive Move : Slots → Slots → Prop
  | join (s : Slots) : Move s s.join
  | enter {s : Slots} {c : Conn} (waits : c ∈ s.waiting) (room : s.free ≠ 0) : Move s (s.enter c)
  | request {s s' : Slots} {c : Conn} (sent : s.step (.request c) = some s') : Move s s'
  | leave {s : Slots} {c : Conn} {v : Service} {why : Ending} (served : s.service? c = some v)
      (fits : Ending.fits why v) : Move s (s.leave c why)

def Moves : Slots → Slots → Prop := Relation.ReflTransGen Move

variable {s s' : Slots} {c k : Conn} {v : Service} {n : Nat} {overflow : OverflowPolicy}

/-! ### The steps of an endpoint -/

theorem moves_letIn (s : Slots) : Moves s s.letIn := by
  unfold letIn
  split
  · exact .refl
  · rename_i c rest hw
    split_ifs with hf
    · exact .refl
    · have hc : c ∈ s.waiting := hw ▸ List.mem_cons_self
      have he : s.waiting.erase c = rest := by rw [hw, List.erase_cons_head]
      have h := Move.enter hc hf
      rw [Slots.enter, he] at h
      exact .single h

theorem moves_step {ev : Event} (h : s.step ev = some s') : Moves s s' := by
  cases ev with
  | arrive =>
    cases h
    have hj := Move.join s
    cases ho : s.overflow with
    | reject =>
      unfold join at hj
      rw [ho] at hj
      exact .single hj
    | queue =>
      rw [arrive_of_queue ho]
      exact .head hj (moves_letIn _)
  | request c => exact .single (.request h)
  | stop c why =>
    simp only [step] at h
    split at h
    · rename_i v hv
      split_ifs at h with hf
      cases h
      exact .head (.leave hv hf) (moves_letIn _)
    · cases h

/-! ### Every connection has one place -/

def places (s : Slots) : List Conn :=
  s.waiting ++ s.serving.map (·.1) ++ s.rejected ++ s.ended.map (·.1)

theorem places_grant (s : Slots) (c : Conn) : (s.grant c).places.Perm (s.places ++ [c]) := by
  simp only [places, grant, List.map_append, List.map_cons, List.map_nil]
  rw [List.perm_iff_count]
  intro k
  simp only [List.count_append]
  omega

theorem places_join (s : Slots) : s.join.places.Perm (s.places ++ [s.arrived]) := by
  rcases join_cases s with ⟨ho, hf⟩ | ⟨ho, hf⟩ | ho
  · rw [join_of_full ho hf, List.perm_iff_count]
    intro k
    simp only [places, List.count_append]
    omega
  · rw [join_of_free ho hf]
    exact places_grant _ _
  · rw [join_of_queue ho, List.perm_iff_count]
    intro k
    simp only [places, List.count_append]
    omega

theorem places_enter (h : c ∈ s.waiting) : (s.enter c).places.Perm s.places := by
  refine (places_grant _ c).trans ?_
  have hw := List.perm_iff_count.mp (List.perm_cons_erase h)
  rw [List.perm_iff_count]
  intro k
  have hk := hw k
  simp only [places, List.count_append, List.count_cons, List.count_nil] at hk ⊢
  omega

theorem keys_request (h : s.step (.request c) = some s') :
    s'.serving.map (·.1) = s.serving.map (·.1) := by
  simp only [step] at h
  split_ifs at h
  cases h
  simp only [List.map_map, Function.comp_def]

theorem mem_keys_of_service? (h : s.service? c = some v) : c ∈ s.serving.map (·.1) := by
  rw [service?_eq] at h
  exact List.mem_map_of_mem (f := (·.1)) (Keyed.mem_of_get? h)

theorem keys_leave (s : Slots) (c : Conn) (why : Ending) :
    (s.leave c why).serving.map (·.1) = (s.serving.map (·.1)).filter (· != c) := by
  rw [leave, List.filter_map]
  rfl

theorem perm_keys_leave (hn : (s.serving.map (·.1)).Nodup) (h : s.service? c = some v)
    (why : Ending) : (c :: (s.leave c why).serving.map (·.1)).Perm (s.serving.map (·.1)) := by
  rw [keys_leave, ← hn.erase_eq_filter]
  exact (List.perm_cons_erase (mem_keys_of_service? h)).symm

theorem places_leave (hn : (s.serving.map (·.1)).Nodup) (h : s.service? c = some v)
    (why : Ending) : (s.leave c why).places.Perm s.places := by
  have hk := List.perm_iff_count.mp (perm_keys_leave hn h why)
  rw [List.perm_iff_count]
  intro k
  have hc := hk k
  simp only [places, leave, List.map_append, List.map_cons, List.map_nil, List.count_append,
    List.count_cons, List.count_nil] at hc ⊢
  omega

/-! ### What every move keeps -/

structure Kept (n : Nat) (overflow : OverflowPolicy) (s : Slots) : Prop where
  policy : s.overflow = overflow
  slots : s.free + s.serving.length = capacity n
  places : s.places.Perm (List.range s.arrived)
  unqueued : overflow = .reject → s.waiting = []
  unrejected : overflow = .queue → s.rejected = []

theorem Kept.initial (n : Nat) (overflow : OverflowPolicy) : (initial n overflow).Kept n overflow :=
  ⟨rfl, rfl, .refl _, fun _ => rfl, fun _ => rfl⟩

namespace Kept

theorem places_nodup (h : s.Kept n overflow) : s.places.Nodup :=
  h.places.nodup_iff.mpr List.nodup_range

theorem keys_nodup (h : s.Kept n overflow) : (s.serving.map (·.1)).Nodup := by
  have hn := h.places_nodup
  unfold Slots.places at hn
  exact hn.of_append_left.of_append_left.of_append_right

theorem grant (h : s.Kept n overflow) (hf : s.free ≠ 0) (c : Conn) :
    (s.grant c).free + (s.grant c).serving.length = capacity n := by
  have hs := h.slots
  simp only [Slots.grant, List.length_append, List.length_singleton]
  omega

theorem join (h : s.Kept n overflow) : s.join.Kept n overflow := by
  have hp : s.join.places.Perm (List.range (s.arrived + 1)) := by
    rw [List.range_succ]
    exact (places_join s).trans (h.places.append_right _)
  have hpolicy := h.policy
  rcases join_cases s with ⟨ho, hf⟩ | ⟨ho, hf⟩ | ho
  · rw [join_of_full ho hf] at hp ⊢
    exact ⟨hpolicy, h.slots, hp, h.unqueued, fun hq => nomatch ho.symm.trans (hpolicy.trans hq)⟩
  · rw [join_of_free ho hf] at hp ⊢
    exact ⟨hpolicy, h.grant hf s.arrived, hp, h.unqueued, h.unrejected⟩
  · rw [join_of_queue ho] at hp ⊢
    exact ⟨hpolicy, h.slots, hp, fun hr => (nomatch ho.symm.trans (hpolicy.trans hr)),
      h.unrejected⟩

theorem enter (h : s.Kept n overflow) (hc : c ∈ s.waiting) (hf : s.free ≠ 0) :
    (s.enter c).Kept n overflow := by
  refine ⟨h.policy, h.grant hf c, (places_enter hc).trans h.places, fun ho => ?_, h.unrejected⟩
  rw [h.unqueued ho] at hc
  cases hc

theorem request (h : s.Kept n overflow) (hs : s.step (.request c) = some s') :
    s'.Kept n overflow := by
  have hk := keys_request hs
  have hl := congrArg List.length hk
  simp only [List.length_map] at hl
  simp only [step] at hs
  split_ifs at hs
  cases hs
  refine ⟨h.policy, hl ▸ h.slots, ?_, h.unqueued, h.unrejected⟩
  have hp := h.places
  unfold Slots.places at hp ⊢
  rwa [hk]

theorem leave (h : s.Kept n overflow) (hv : s.service? c = some v) (why : Ending) :
    (s.leave c why).Kept n overflow := by
  have hl := (perm_keys_leave h.keys_nodup hv why).length_eq
  have hs := h.slots
  simp only [List.length_cons, List.length_map] at hl
  refine ⟨h.policy, ?_, (places_leave h.keys_nodup hv why).trans h.places, h.unqueued,
    h.unrejected⟩
  show s.free + 1 + (s.leave c why).serving.length = capacity n
  omega

theorem move (hm : Move s s') (h : s.Kept n overflow) : s'.Kept n overflow := by
  cases hm with
  | join => exact h.join
  | enter waits room => exact h.enter waits room
  | request sent => exact h.request sent
  | leave served _ => exact h.leave served _

theorem lt_arrived (h : s.Kept n overflow) (hc : c ∈ s.places) : c < s.arrived :=
  List.mem_range.mp (h.places.mem_iff.mp hc)

theorem apart (h : s.Kept n overflow) :
    s.waiting.Disjoint (s.serving.map (·.1)) ∧
      (s.waiting ++ s.serving.map (·.1)).Disjoint (s.ended.map (·.1)) := by
  have hn := h.places_nodup
  unfold Slots.places at hn
  refine ⟨List.disjoint_of_nodup_append hn.of_append_left.of_append_left, fun c hc he => ?_⟩
  exact List.disjoint_of_nodup_append hn (List.mem_append_left _ hc) he

theorem lt_arrived_of_service? (h : s.Kept n overflow) (hv : s.service? c = some v) :
    c < s.arrived :=
  h.lt_arrived (by simp [Slots.places, mem_keys_of_service? hv])

theorem notMem_waiting_of_service? (h : s.Kept n overflow) (hv : s.service? c = some v) :
    c ∉ s.waiting := fun hw => h.apart.1 hw (mem_keys_of_service? hv)

theorem notMem_waiting_of_ended {why : Ending} (h : s.Kept n overflow) (hc : (c, why) ∈ s.ended) :
    c ∉ s.waiting := fun hw =>
  h.apart.2 (List.mem_append_left _ hw) (List.mem_map_of_mem (f := (·.1)) hc)

theorem service?_eq_none_of_ended {why : Ending} (h : s.Kept n overflow)
    (hc : (c, why) ∈ s.ended) : s.service? c = none := by
  cases hv : s.service? c with
  | none => rfl
  | some v =>
    have hk := List.mem_append_right s.waiting (mem_keys_of_service? hv)
    exact (h.apart.2 hk (List.mem_map_of_mem (f := (·.1)) hc)).elim

end Kept

/-! ### Closed for lack of a slot -/

theorem arrived_join (s : Slots) : s.join.arrived = s.arrived + 1 := by
  rcases join_cases s with ⟨ho, hf⟩ | ⟨ho, hf⟩ | ho
  · rw [join_of_full ho hf]
  · rw [join_of_free ho hf]
    rfl
  · rw [join_of_queue ho]

theorem mem_rejected_join (hc : c < s.arrived) : c ∈ s.join.rejected ↔ c ∈ s.rejected := by
  rcases join_cases s with ⟨ho, hf⟩ | ⟨ho, hf⟩ | ho
  · rw [join_of_full ho hf, List.mem_append, List.mem_singleton]
    exact or_iff_left (Nat.ne_of_lt hc)
  · rw [join_of_free ho hf]
    exact Iff.rfl
  · rw [join_of_queue ho]

theorem Move.rejected (h : Move s s') (hc : c < s.arrived) :
    c < s'.arrived ∧ (c ∈ s'.rejected ↔ c ∈ s.rejected) := by
  cases h with
  | join => exact ⟨arrived_join s ▸ Nat.lt_succ_of_lt hc, mem_rejected_join hc⟩
  | enter => exact ⟨hc, Iff.rfl⟩
  | request sent =>
    simp only [step] at sent
    split_ifs at sent
    cases sent
    exact ⟨hc, Iff.rfl⟩
  | leave => exact ⟨hc, Iff.rfl⟩

theorem Move.waiting (h : Move s s') (hc : c < s.arrived) (hw : c ∈ s'.waiting) :
    c ∈ s.waiting := by
  cases h with
  | join =>
    rcases join_cases s with ⟨ho, hf⟩ | ⟨ho, hf⟩ | ho
    · rwa [join_of_full ho hf] at hw
    · rwa [join_of_free ho hf] at hw
    · rw [join_of_queue ho, List.mem_append, List.mem_singleton] at hw
      exact hw.resolve_right (Nat.ne_of_lt hc)
  | enter => exact List.mem_of_mem_erase hw
  | request sent =>
    simp only [step] at sent
    split_ifs at sent
    cases sent
    exact hw
  | leave => exact hw

theorem Kept.arrived_mem_rejected_iff (h : s.Kept n .reject) :
    s.arrived ∈ s.join.rejected ↔ s.free = 0 := by
  have hn : s.arrived ∉ s.rejected := fun hm =>
    Nat.lt_irrefl _ (h.lt_arrived (by simp [Slots.places, hm]))
  by_cases hf : s.free = 0
  · rw [join_of_full h.policy hf]
    exact iff_of_true (List.mem_append_right _ (List.mem_singleton_self _)) hf
  · rw [join_of_free h.policy hf]
    exact iff_of_false hn hf

/-! ### What a step does -/

theorem letIn_of_full (hf : s.free = 0) : s.letIn = s := by
  unfold letIn
  split
  · rfl
  · exact if_pos hf

theorem letIn_of_none (hw : s.waiting = []) : s.letIn = s := by
  simp only [letIn, hw]

theorem letIn_cons {rest : List Conn} (hw : s.waiting = k :: rest) (hf : s.free ≠ 0) :
    s.letIn = grant { s with waiting := rest } k := by
  simp only [letIn, hw, if_neg hf]

theorem service?_grant_self (hc : c ∉ s.serving.map (·.1)) :
    (s.grant c).service? c = some .reading := by
  have hnone : Keyed.get? c s.serving = none := by
    cases hv : Keyed.get? c s.serving with
    | none => rfl
    | some v => exact absurd (List.mem_map_of_mem (f := (·.1)) (Keyed.mem_of_get? hv)) hc
  rw [service?_eq, Slots.grant, Keyed.get?_append, hnone, Option.none_or]
  exact if_pos rfl

theorem service?_grant_ne (hk : k ≠ c) : (s.grant k).service? c = s.service? c := by
  rw [service?_eq, service?_eq, Slots.grant, Keyed.get?_append, Keyed.get?_cons, if_neg hk,
    Keyed.get?_nil, Option.or_none]

theorem Kept.notMem_keys_arrived (h : s.Kept n overflow) :
    s.arrived ∉ s.serving.map (·.1) := fun hk =>
  Nat.lt_irrefl _ (h.lt_arrived
    (List.mem_append_left _ (List.mem_append_left _ (List.mem_append_right _ hk))))

/-- Where a new connection goes. -/
structure Comes (s s' : Slots) : Prop where
  arrived : s'.arrived = s.arrived + 1
  served : s.free ≠ 0 → s.waiting = [] → s'.service? s.arrived = some .reading
  rejected : s.free = 0 → s.overflow = .reject → s'.rejected = s.rejected ++ [s.arrived]
  queued : s.free = 0 → s.overflow = .queue → s'.waiting = s.waiting ++ [s.arrived]

theorem Kept.step_arrive (h : s.Kept n overflow) :
    ∃ s', s.step .arrive = some s' ∧ s.Comes s' := by
  refine ⟨s.arrive, rfl, ?_⟩
  rcases join_cases s with ⟨ho, hf⟩ | ⟨ho, hf⟩ | ho
  · rw [arrive_of_reject ho, join_of_full ho hf]
    exact ⟨rfl, fun hn => absurd hf hn, fun _ _ => rfl, fun _ hq => nomatch ho.symm.trans hq⟩
  · rw [arrive_of_reject ho, join_of_free ho hf]
    exact ⟨rfl, fun _ _ => service?_grant_self h.notMem_keys_arrived, fun hn => absurd hn hf,
      fun hn => absurd hn hf⟩
  · have hfree : s.join.free = s.free := by rw [join_of_queue ho]
    have hwait : s.join.waiting = s.waiting ++ [s.arrived] := by rw [join_of_queue ho]
    have hkeys : s.arrived ∉ s.join.serving.map (·.1) := by
      rw [join_of_queue ho]
      exact h.notMem_keys_arrived
    rw [arrive_of_queue ho]
    by_cases hf : s.free = 0
    · rw [letIn_of_full (hfree.trans hf)]
      exact ⟨arrived_join s, fun hn => absurd hf hn, fun _ hr => (nomatch ho.symm.trans hr),
        fun _ _ => hwait⟩
    · cases hw : s.waiting with
      | nil =>
        rw [hw, List.nil_append] at hwait
        rw [letIn_cons hwait (hfree ▸ hf)]
        exact ⟨arrived_join s, fun _ _ => service?_grant_self hkeys, fun hn => absurd hn hf,
          fun hn => absurd hn hf⟩
      | cons k rest =>
        rw [hw, List.cons_append] at hwait
        rw [letIn_cons hwait (hfree ▸ hf)]
        exact ⟨arrived_join s, fun _ hn => (nomatch hw.symm.trans hn), fun hn => absurd hn hf,
          fun hn => absurd hn hf⟩

theorem step_request (hv : s.service? c = some .reading) :
    ∃ s', s.step (.request c) = some s' ∧ s'.service? c = some .sending := by
  refine ⟨_, if_pos hv, ?_⟩
  rw [service?_eq] at hv ⊢
  rw [Keyed.get?_mapKey (fun i v => if i = c then Service.sending else v), hv, Option.map_some,
    if_pos rfl]

/-- The service of a connection is over, and its slot is free again or had by the connection that
has waited longest. -/
structure Ends (s s' : Slots) (c : Conn) (why : Ending) : Prop where
  ended : s'.ended = s.ended ++ [(c, why)]
  gone : s'.service? c = none
  passed : (s.waiting = [] ∧ s'.waiting = [] ∧ s'.free = s.free + 1) ∨
    ∃ k rest, s.waiting = k :: rest ∧ s'.waiting = rest ∧ s'.service? k = some .reading ∧
      s'.free = s.free

theorem service?_leave_self (s : Slots) (c : Conn) (why : Ending) :
    (s.leave c why).service? c = none := by
  rw [service?_eq, leave, Keyed.get?_filter_key (fun x => x != c), if_neg (by simp)]

theorem Kept.step_stop {why : Ending} (h : s.Kept n overflow) (hv : s.service? c = some v)
    (hf : Ending.fits why v = true) : ∃ s', s.step (.stop c why) = some s' ∧ s.Ends s' c why := by
  have hstep : s.step (.stop c why) = some (s.leave c why).letIn := by
    simp only [step, hv, hf, if_true]
    rfl
  refine ⟨_, hstep, ?_⟩
  have hfree : (s.leave c why).free ≠ 0 := Nat.succ_ne_zero _
  cases hw : s.waiting with
  | nil =>
    have hwl : (s.leave c why).waiting = [] := hw
    rw [letIn_of_none hwl]
    exact ⟨rfl, service?_leave_self s c why, .inl ⟨hw, hw, rfl⟩⟩
  | cons k rest =>
    have hwl : (s.leave c why).waiting = k :: rest := hw
    have hk : k ∈ s.waiting := hw ▸ List.mem_cons_self
    have hkc : k ≠ c := fun he => h.notMem_waiting_of_service? hv (he ▸ hk)
    have hkeys : k ∉ (s.leave c why).serving.map (·.1) := fun hm => by
      rw [keys_leave] at hm
      exact h.apart.1 hk (List.mem_filter.mp hm).1
    rw [letIn_cons hwl hfree]
    refine ⟨rfl, ?_, .inr ⟨k, rest, hw, rfl, service?_grant_self hkeys, rfl⟩⟩
    exact (service?_grant_ne hkc).trans (service?_leave_self s c why)

end Slots

/-! ### Time -/

/-- Slots, nanoseconds since the endpoint was opened, and when the timer of each request began. -/
structure Clocked where
  slots : Slots
  now : Nat := 0
  timers : List (Conn × Nat) := []

namespace Clocked

def opened (maxConnections : Nat) (overflow : OverflowPolicy) : Clocked :=
  { slots := .initial maxConnections overflow }

def Due (timeout : Span) (w : Clocked) (c : Conn) : Prop :=
  ∃ t, (c, t) ∈ w.timers ∧ t + timeout.nanos ≤ w.now

/-- The timer begins when the name is first waited for, at any time after the slot is had. It ends
a service when it is due, and nothing else ends one for that reason. -/
inductive Move (timeout : Span) : Clocked → Clocked → Prop
  | wait (w : Clocked) {t : Nat} (later : w.now ≤ t) : Move timeout w { w with now := t }
  | read (w : Clocked) {c : Conn} (held : w.slots.service? c = some .reading)
      (first : ∀ t, (c, t) ∉ w.timers) : Move timeout w { w with timers := w.timers ++ [(c, w.now)] }
  | slots (w : Clocked) {s : Slots} (moved : w.slots.Move s)
      (due : ∀ c, (c, .requestTimeout) ∈ s.ended →
        (c, .requestTimeout) ∈ w.slots.ended ∨ w.Due timeout c) :
      Move timeout w { w with slots := s }

def Reaches (timeout : Span) : Clocked → Clocked → Prop := Relation.ReflTransGen (Move timeout)

variable {n : Nat} {overflow : OverflowPolicy} {timeout : Span} {w w' : Clocked} {c : Conn}

/-- Slots are kept, and nobody is timed who waits. -/
structure Sound (n : Nat) (overflow : OverflowPolicy) (w : Clocked) : Prop where
  kept : w.slots.Kept n overflow
  timed : ∀ e ∈ w.timers, e.1 < w.slots.arrived ∧ e.1 ∉ w.slots.waiting

theorem Sound.opened (n : Nat) (overflow : OverflowPolicy) : (opened n overflow).Sound n overflow :=
  ⟨.initial n overflow, nofun⟩

theorem Sound.move (hm : w.Move timeout w') (h : w.Sound n overflow) : w'.Sound n overflow := by
  cases hm with
  | wait => exact ⟨h.kept, h.timed⟩
  | read held _ =>
    refine ⟨h.kept, fun e he => ?_⟩
    rcases List.mem_append.mp he with he | he
    · exact h.timed e he
    · cases List.mem_singleton.mp he
      exact ⟨h.kept.lt_arrived_of_service? held, h.kept.notMem_waiting_of_service? held⟩
  | slots moved _ =>
    refine ⟨h.kept.move moved, fun e he => ?_⟩
    obtain ⟨hlt, hn⟩ := h.timed e he
    exact ⟨(moved.rejected hlt).1, fun hw => hn (moved.waiting hlt hw)⟩

theorem Reaches.sound (h : w.Reaches timeout w') (hw : w.Sound n overflow) :
    w'.Sound n overflow := by
  induction h with
  | refl => exact hw
  | tail _ hm ih => exact ih.move hm

theorem Reaches.rejected (h : w.Reaches timeout w') (hc : c < w.slots.arrived) :
    c < w'.slots.arrived ∧ (c ∈ w'.slots.rejected ↔ c ∈ w.slots.rejected) := by
  induction h with
  | refl => exact ⟨hc, Iff.rfl⟩
  | tail _ hm ih =>
    cases hm with
    | wait => exact ih
    | read => exact ih
    | slots moved _ =>
      obtain ⟨hlt, hiff⟩ := moved.rejected ih.1
      exact ⟨hlt, hiff.trans ih.2⟩

/-- Of the time before `t` nothing counts against the connection. -/
structure TimedFrom (timeout : Span) (c : Conn) (t : Nat) (w : Clocked) : Prop where
  later : t ≤ w.now
  timers : ∀ e ∈ w.timers, e.1 = c → t ≤ e.2
  ended : (c, .requestTimeout) ∈ w.slots.ended → t + timeout.nanos ≤ w.now

theorem TimedFrom.move {t : Nat} (hm : w.Move timeout w') (h : w.TimedFrom timeout c t) :
    w'.TimedFrom timeout c t := by
  cases hm with
  | wait hl => exact ⟨Nat.le_trans h.later hl, h.timers, fun he => Nat.le_trans (h.ended he) hl⟩
  | read _ _ =>
    refine ⟨h.later, fun e he hc => ?_, h.ended⟩
    rcases List.mem_append.mp he with he | he
    · exact h.timers e he hc
    · cases List.mem_singleton.mp he
      exact h.later
  | slots moved due =>
    refine ⟨h.later, h.timers, fun he => ?_⟩
    rcases due c he with he | ⟨u, hu, hd⟩
    · exact h.ended he
    · exact Nat.le_trans (Nat.add_le_add_right (h.timers _ hu rfl) _) hd

theorem Sound.timedFrom_now (h : w.Sound n overflow) (hc : c ∈ w.slots.waiting) :
    w.TimedFrom timeout c w.now := by
  refine ⟨Nat.le_refl _, fun e he hk => ?_, fun he => ?_⟩
  · exact absurd (hk ▸ hc) (h.timed e he).2
  · exact absurd hc (h.kept.notMem_waiting_of_ended he)

theorem Reaches.timedFrom {t : Nat} (h : w.Reaches timeout w') (hw : w.TimedFrom timeout c t) :
    w'.TimedFrom timeout c t := by
  induction h with
  | refl => exact hw
  | tail _ hm ih => exact ih.move hm

/-! ### What the slots are good for -/

/-- The steps of an endpoint are moves of its slots. In every run of moves all slots are free or
had, and a connection waits, is served, was rejected or has been served. Whenever a connection
comes, asks for a file or is done with, there is a step for it: the slot of one that is done with
is free again or had by the one that has waited longest. Without a queue exactly those are closed at
once that come while no slot is free. With one nobody is, and the request timeout counts none of the
time that is spent waiting for a slot. -/
theorem slots_kept (h : (opened n overflow).Reaches timeout w) :
    (∀ ev s, w.slots.step ev = some s → w.slots.Moves s) ∧
    (∃ s, w.slots.step .arrive = some s ∧ w.slots.Comes s) ∧
    (∀ c, w.slots.service? c = some .reading →
      ∃ s, w.slots.step (.request c) = some s ∧ s.service? c = some .sending) ∧
    (∀ c v why, w.slots.service? c = some v → Ending.fits why v = true →
      ∃ s, w.slots.step (.stop c why) = some s ∧ w.slots.Ends s c why) ∧
    w.slots.serving.length ≤ max 1 n ∧
    w.slots.free + w.slots.serving.length = max 1 n ∧
    w.slots.places.Perm (List.range w.slots.arrived) ∧
    (∀ c why, (c, why) ∈ w.slots.ended → w.slots.service? c = none) ∧
    (overflow = .reject → w.slots.waiting = [] ∧
      ∀ w', Reaches timeout { w with slots := w.slots.join } w' →
        (w.slots.arrived ∈ w'.slots.rejected ↔ w.slots.free = 0)) ∧
    (overflow = .queue → w.slots.rejected = [] ∧
      ∀ c ∈ w.slots.waiting, ∀ w', w.Reaches timeout w' →
        (c, .requestTimeout) ∈ w'.slots.ended → w.now + timeout.nanos ≤ w'.now) := by
  have hw := h.sound (.opened n overflow)
  have hs : w.slots.free + w.slots.serving.length = max 1 n := hw.kept.slots
  refine ⟨fun ev s => Slots.moves_step, hw.kept.step_arrive, fun c => Slots.step_request,
    fun c v why => hw.kept.step_stop, by omega, hs, hw.kept.places,
    fun c why => hw.kept.service?_eq_none_of_ended, fun ho => ?_, fun ho => ?_⟩
  · subst ho
    refine ⟨hw.kept.unqueued rfl, fun w' hr => ?_⟩
    have hlt : w.slots.arrived < w.slots.join.arrived :=
      Slots.arrived_join w.slots ▸ Nat.lt_succ_self _
    exact (hr.rejected hlt).2.trans hw.kept.arrived_mem_rejected_iff
  · exact ⟨hw.kept.unrejected ho, fun c hc w' hr =>
      (hr.timedFrom (hw.timedFrom_now hc)).ended⟩

def occupied : Clocked :=
  { slots := ((Slots.initial 0 .queue).join.enter 0).join
    timers := [(0, 0)] }

def freed : Clocked :=
  { occupied with slots := occupied.slots.leave 0 .requestTimeout, now := 10000000000 }

theorem Move.unended (w : Clocked) {s : Slots} (moved : w.slots.Move s)
    (same : s.ended = w.slots.ended) : w.Move timeout { w with slots := s } :=
  .slots w moved fun _ he => .inl (same ▸ he)

theorem reaches_occupied (timeout : Span) : (opened 0 .queue).Reaches timeout occupied := by
  have came : (opened 0 .queue).Move timeout _ := .unended _ (.join _) rfl
  have served : Clocked.Move timeout { slots := (Slots.initial 0 .queue).join } _ :=
    .unended _ (.enter (c := 0) (by decide) (by decide)) rfl
  have timed : Clocked.Move timeout { slots := (Slots.initial 0 .queue).join.enter 0 } _ :=
    .read _ (c := 0) (by decide) nofun
  exact (((Relation.ReflTransGen.single came).tail served).tail timed).tail
    (.unended _ (.join _) rfl)

theorem occupied_reaches : occupied.Reaches (.ofSeconds 10) freed := by
  have waited : occupied.Move (.ofSeconds 10) { occupied with now := 10000000000 } :=
    .wait occupied (by decide)
  refine .tail (.single waited) (.slots _ (.leave (v := .reading) (by decide) (by decide)) ?_)
  intro c hc
  cases List.mem_singleton.mp hc
  exact .inr ⟨0, List.mem_singleton_self _, by decide⟩

theorem slots_kept_freed : (opened 0 .queue).Reaches (.ofSeconds 10) freed ∧
    freed.slots.ended = [(0, .requestTimeout)] ∧ freed.slots.waiting = [1] ∧
    freed.slots.free + freed.slots.serving.length = max 1 0 ∧
    (∀ w', freed.Reaches (.ofSeconds 10) w' → (1, .requestTimeout) ∈ w'.slots.ended →
      20000000000 ≤ w'.now) ∧
    ∃ s, occupied.slots.step (.stop 0 .requestTimeout) = some s ∧
      s.ended = [(0, .requestTimeout)] ∧ s.service? 0 = none ∧ s.service? 1 = some .reading ∧
      s.waiting = [] ∧ s.free = 0 := by
  have hoccupied := reaches_occupied (.ofSeconds 10)
  have h := hoccupied.trans occupied_reaches
  have hfreed := slots_kept h
  refine ⟨h, by decide, by decide, hfreed.2.2.2.2.2.1, ?_, ?_⟩
  · exact (hfreed.2.2.2.2.2.2.2.2.2 rfl).2 1 (by decide)
  · obtain ⟨s, hs, hends⟩ :=
      (slots_kept hoccupied).2.2.2.1 0 .reading .requestTimeout (by decide) (by decide)
    rcases hends.passed with ⟨hw, -, -⟩ | ⟨k, rest, hw, hrest, hk, hfree⟩
    · cases hw
    · cases hw
      exact ⟨s, hs, hends.ended, hends.gone, hk, hrest, hfree⟩

end Clocked

end PeerShare.Transfer
