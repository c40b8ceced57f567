import PeerShare.Proofs.Agent.Run
import PeerShare.Proofs.Names

/-!
The record of a tick: where it was, time after time, and what it was told there. A report is the sum
of the news: each of them adds to it what it says, and nothing else does. A pass begins with a scan,
and another one follows it only if the registry has answered with no and the agent has forgotten what
it knew.
-/

namespace PeerShare.Tick

/-- What a tick is told: what a scan found, or how a call was answered. -/
inductive News
  | found (names : Option Names)
  | answer (c : Call) (reply : Reply)
  deriving DecidableEq, Repr

namespace News

def done? : News → Option Call
  | .answer c reply => if reply = .failed then none else some c
  | .found _ => none

@[simp] theorem done?_eq_some_iff {c c' : Call} {reply : Reply} :
    (News.answer c reply).done? = some c' ↔ reply ≠ .failed ∧ c' = c := by
  simp only [done?]
  split_ifs with hr <;> simp [hr, eq_comm]

def lists : News → Bool
  | .answer (.list _) reply => reply ≠ .failed
  | _ => false

def delists : News → Bool
  | .answer (.delist _) reply => reply ≠ .failed
  | _ => false

def fails : News → Bool
  | .answer _ reply => reply = .failed
  | .found names => names = none

def scan? : News → Option (Option Names)
  | .found names => some names
  | .answer _ _ => none

def renewal? : News → Option Bool
  | .answer .heartbeat .yes => some true
  | .answer .heartbeat .no => some false
  | _ => none

end News

structure Moment where
  tick : Tick
  news : News
  deriving DecidableEq, Repr

namespace Moment

def next (m : Moment) : Tick :=
  match m.news with
  | .found names => m.tick.scanned names
  | .answer _ reply => m.tick.answered reply

inductive Fits : Moment → Prop
  | found {t : Tick} {names : Option Names} (hp : t.phase = .scan) : Fits ⟨t, .found names⟩
  | list {t : Tick} {name : String} {later present : Names} {reply : Reply}
      (hp : t.phase = .list name later present) : Fits ⟨t, .answer (.list name) reply⟩
  | delist {t : Tick} {name : String} {later : Names} {reply : Reply}
      (hp : t.phase = .delist name later) : Fits ⟨t, .answer (.delist name) reply⟩
  | heartbeat {t : Tick} {reply : Reply} (hp : t.phase = .heartbeat) :
      Fits ⟨t, .answer .heartbeat reply⟩

def Clears (m : Moment) : Prop := m.news = .answer .heartbeat .no ∧ m.next.phase = .scan

instance (m : Moment) : Decidable m.Clears := inferInstanceAs (Decidable (_ ∧ _))

end Moment

section Record
variable {σ : Type} {w : World σ} {t : Tick} {s : σ} {m : Moment} {n : String}

def news (w : World σ) (t : Tick) (s : σ) : News :=
  match t.call? with
  | some c => .answer c (w.call c s).1
  | none => .found (w.scan s).1

def record (w : World σ) (t : Tick) (s : σ) : List Moment :=
  if t.phase = .finished then [] else ⟨t, news w t s⟩ :: record w (step w t s).1 (step w t s).2
termination_by t.rank
decreasing_by exact step_before w s (by assumption)

theorem record_finished (h : t.phase = .finished) : record w t s = [] := by
  rw [record, if_pos h]

theorem record_step (h : t.phase ≠ .finished) :
    record w t s = ⟨t, news w t s⟩ :: record w (step w t s).1 (step w t s).2 := by
  rw [record, if_neg h]

theorem fits_news (h : t.phase ≠ .finished) : Moment.Fits ⟨t, news w t s⟩ := by
  cases hp : t.phase with
  | finished => exact absurd hp h
  | scan =>
    simp only [news, call?, hp]
    exact .found hp
  | list name later present =>
    simp only [news, call?, hp]
    exact .list hp
  | delist name later =>
    simp only [news, call?, hp]
    exact .delist hp
  | heartbeat =>
    simp only [news, call?, hp]
    exact .heartbeat hp

theorem step_eq_next (h : t.phase ≠ .finished) :
    (step w t s).1 = Moment.next ⟨t, news w t s⟩ := by
  cases hp : t.phase with
  | finished => exact absurd hp h
  | _ => simp only [step, Moment.next, news, call?, hp]

/-! ### What the news do to a tick -/

theorem report_withdraw (t : Tick) (ns : Names) : (t.withdraw ns).report = t.report := by
  cases ns <;> rfl

theorem report_register (t : Tick) (present ns : Names) :
    (t.register present ns).report = t.report := by
  cases ns with
  | nil => exact report_withdraw t _
  | cons => rfl

theorem withdraw_phase_ne_scan (t : Tick) (ns : Names) : (t.withdraw ns).phase ≠ .scan := by
  cases ns <;> simp [withdraw]

theorem register_phase_ne_scan (t : Tick) (present ns : Names) :
    (t.register present ns).phase ≠ .scan := by
  cases ns with
  | nil => exact withdraw_phase_ne_scan t _
  | cons => simp [register]

namespace Moment

def tally (m : Moment) : Report where
  listed := m.tick.report.listed + if m.news.lists then 1 else 0
  delisted := m.tick.report.delisted + if m.news.delists then 1 else 0
  failures := m.tick.report.failures + if m.news.fails then 1 else 0
  resyncs := m.tick.report.resyncs + if m.Clears then 1 else 0
  renewed := m.news.renewal?.or m.tick.report.renewed
  idle := m.tick.report.idle || m.news = .found (some [])

theorem not_clears (h : m.news ≠ .answer .heartbeat .no) : ¬ m.Clears := fun hc => h hc.1

theorem clears_iff (h : m.Fits) : m.Clears ↔ m.next.phase = .scan := by
  cases h with
  | @found t names _ =>
    refine iff_of_false (not_clears (by simp)) ?_
    cases names with
    | none => simp [next, scanned, fail, finish]
    | some names =>
      cases names with
      | nil => simp [next, scanned]
      | cons n ns => exact register_phase_ne_scan t _ _
  | list hp =>
    refine iff_of_false (not_clears (by simp)) ?_
    simp only [next, answered, hp]
    exact register_phase_ne_scan _ _ _
  | delist hp =>
    refine iff_of_false (not_clears (by simp)) ?_
    simp only [next, answered, hp]
    exact withdraw_phase_ne_scan _ _
  | @heartbeat t reply hp =>
    cases reply with
    | no => exact and_iff_right rfl
    | yes => exact iff_of_false (not_clears (by simp)) (by simp [next, answered, hp])
    | failed => exact iff_of_false (not_clears (by simp)) (by simp [next, answered, hp, finish])

theorem clears_heartbeat (hp : t.phase = .heartbeat) :
    Clears ⟨t, .answer .heartbeat .no⟩ ↔
      ¬ (t.known = [] ∨ resyncLimit ≤ t.report.resyncs) := by
  rw [clears_iff (.heartbeat hp)]
  simp only [next, answered, hp, forgotten]
  split_ifs with hend
  · exact iff_of_false (by simp [finish]) (not_not.mpr hend)
  · exact iff_of_true rfl hend

theorem known_of_not_clears {reply : Reply} (hp : t.phase = .heartbeat)
    (hc : ¬ Clears ⟨t, .answer .heartbeat reply⟩) :
    (next ⟨t, .answer .heartbeat reply⟩).known = t.known := by
  simp only [next, answered, hp]
  cases reply with
  | no =>
    have hend := (clears_heartbeat hp).not_left.mp hc
    simp only [forgotten, if_pos hend]
    rfl
  | _ => rfl

theorem Clears.forgets (hc : m.Clears) (h : m.Fits) : m.tick.known ≠ [] ∧
    m.tick.report.resyncs < resyncLimit ∧ m.next.known = [] := by
  obtain ⟨t, news⟩ := m
  obtain rfl : news = .answer .heartbeat .no := hc.1
  cases h with
  | heartbeat hp =>
    have hend := (clears_heartbeat hp).mp hc
    obtain ⟨hknown, hlimit⟩ := not_or.mp hend
    simp only [next, answered, hp, forgotten]
    rw [if_neg hend]
    exact ⟨hknown, Nat.not_le.mp hlimit, rfl⟩

theorem report_next (h : m.Fits) : m.next.report = m.tally := by
  unfold tally News.lists News.delists News.fails News.renewal?
  cases h with
  | @found t names _ =>
    match names with
    | none => simp [next, Clears, scanned, fail, finish]
    | some [] => simp [next, Clears, scanned]
    | some (n :: ns) => simp [next, Clears, scanned, report_register]
  | list hp =>
    rename_i reply
    cases reply <;> simp [next, Clears, answered, hp, fail, report_register]
  | delist hp =>
    rename_i reply
    cases reply <;> simp [next, Clears, answered, hp, fail, report_withdraw]
  | @heartbeat t reply hp =>
    cases reply with
    | yes => simp [next, Clears, answered, hp]
    | no =>
      by_cases hend : t.known = [] ∨ resyncLimit ≤ t.report.resyncs
      · have hc : ¬ Clears ⟨t, .answer .heartbeat .no⟩ := (clears_heartbeat hp).not_left.mpr hend
        simp [next, hc, answered, hp, forgotten, hend, finish]
      · have hc : Clears ⟨t, .answer .heartbeat .no⟩ := (clears_heartbeat hp).mpr hend
        simp [next, hc, answered, hp, forgotten, hend]
    | failed => simp [next, Clears, answered, hp, fail, finish]

/-- A name becomes known when it has been listed, and is so until it has been withdrawn or all is
forgotten. -/
theorem mem_known_next (h : m.Fits) : n ∈ m.next.known ↔ m.news.done? = some (.list n) ∨
    n ∈ m.tick.known ∧ m.news.done? ≠ some (.delist n) ∧ ¬ m.Clears := by
  cases h with
  | found _ => simp [next, known_scanned, News.done?, Clears]
  | @list t name later present reply hp =>
    have hknown : (next ⟨t, .answer (.list name) reply⟩).known =
        if reply = .failed then t.known else Names.insert name t.known := known_list hp reply
    rw [hknown]
    split_ifs with hr <;> simp [hr, Clears]
  | @delist t name later reply hp =>
    have hknown : (next ⟨t, .answer (.delist name) reply⟩).known =
        if reply = .failed then t.known else Names.erase name t.known := known_delist hp reply
    rw [hknown]
    split_ifs with hr <;> simp [hr, Clears]
  | @heartbeat t reply hp =>
    by_cases hc : Clears ⟨t, .answer .heartbeat reply⟩
    · have hforgot := (hc.forgets (.heartbeat hp)).2.2
      simp [hforgot, hc]
    · have hknown : (next ⟨t, .answer .heartbeat reply⟩).known = t.known :=
        known_of_not_clears hp hc
      simp [hknown, hc]

end Moment

/-! ### From the beginning of a tick to its end -/

theorem record_after {before after : List Moment} (h : record w t s = before ++ m :: after) :
    m.Fits ∧ ∃ u, after = record w m.next u := by
  induction t, s using run.induct w generalizing before with
  | case1 t s hp =>
    rw [record_finished hp] at h
    exact absurd h.symm (List.append_ne_nil_of_right_ne_nil _ (List.cons_ne_nil _ _))
  | case2 t s hp ih =>
    rw [record_step hp] at h
    cases before with
    | nil =>
      obtain ⟨rfl, rfl⟩ := List.cons.inj h
      exact ⟨fits_news hp, _, by rw [step_eq_next hp]⟩
    | cons b before => exact ih (List.cons.inj h).2

theorem tick_of_record_cons {ms : List Moment} (h : record w t s = m :: ms) : m.tick = t := by
  by_cases hp : t.phase = .finished
  · rw [record_finished hp] at h
    cases h
  · rw [record_step hp] at h
    exact (congrArg Moment.tick (List.cons.inj h).1).symm

theorem clears_of_scan {before after : List Moment} {m' : Moment}
    (h : record w t s = before ++ m :: m' :: after) (hs : m'.news.scan?.isSome = true) :
    m.Clears ∧ m'.tick = m.next := by
  obtain ⟨hm, u, hu⟩ := record_after h
  obtain ⟨hm', -⟩ := record_after (hu.symm.trans (List.nil_append _).symm)
  have htick := tick_of_record_cons hu.symm
  refine ⟨(Moment.clears_iff hm).mpr ?_, htick⟩
  cases hm' with
  | found hp => exact htick ▸ hp
  | _ => cases hs

theorem after_eq_nil {before after : List Moment} (h : record w t s = before ++ m :: after)
    (hs : m.news = .found none ∨ m.news = .found (some [])) : after = [] := by
  obtain ⟨-, u, rfl⟩ := record_after h
  refine record_finished ?_
  rcases hs with hs | hs
  · simp only [Moment.next, hs]
    rfl
  · simp only [Moment.next, hs]
    rfl

end Record
end PeerShare.Tick
