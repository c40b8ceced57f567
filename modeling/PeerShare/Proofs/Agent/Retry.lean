import PeerShare.Agent.Script
import PeerShare.Proofs.Agent.Record
import PeerShare.Proofs.Agent.Undisturbed

/-!
An agent and its failures, tick after tick. A tick goes on with what the ticks before it have come
to know, so they can be read as one record. In it a name is known if it has been listed and, since
then, neither withdrawn nor forgotten with all others; and what a pass is going to call is settled
as soon as it has scanned the folder.
-/

namespace PeerShare

namespace Tick

def Moment.Sets (m : Moment) : Prop := ∀ names, m.news = .found (some names) → names.Ordered

/-- The moments lead from the first tick to the last; where one has come to its end, another begins
with the names that it knew. -/
inductive Told : Tick → List Moment → Tick → Prop
  | refl (t : Tick) : Told t [] t
  | cons {m : Moment} {ms : List Moment} {u : Tick} (hf : m.Fits) (hs : m.Sets)
      (h : Told m.next ms u) : Told m.tick (m :: ms) u
  | anew {t : Tick} {ms : List Moment} {u : Tick} (hp : t.phase = .finished)
      (h : Told { known := t.known } ms u) : Told t ms u

variable {t u v : Tick} {m : Moment} {ms before after : List Moment} {n : String}
  {ns present : Names}

/-! ### The calls of a pass -/

def ahead (t : Tick) : List Call :=
  match t.phase with
  | .list name later present =>
    (name :: later).map .list ++ (Names.diff t.known present).map .delist ++ [.heartbeat]
  | .delist name later => (name :: later).map .delist ++ [.heartbeat]
  | .heartbeat => [.heartbeat]
  | .scan | .finished => []

theorem ahead_withdraw (t : Tick) (ns : Names) :
    (t.withdraw ns).ahead = ns.map .delist ++ [.heartbeat] := by
  cases ns <;> rfl

theorem ahead_register (t : Tick) (present ns : Names) : (t.register present ns).ahead =
    ns.map .list ++ (Names.diff t.known present).map .delist ++ [.heartbeat] := by
  cases ns with
  | nil => exact ahead_withdraw t _
  | cons => rfl

/-- What is to be listed has been found and is not known; what is to be withdrawn is known. -/
def Poised (t : Tick) : Prop :=
  t.known.Ordered ∧ match t.phase with
    | .list name later present =>
      Names.Ordered (name :: later) ∧ ∀ n ∈ name :: later, n ∈ present ∧ n ∉ t.known
    | .delist name later => Names.Ordered (name :: later) ∧ ∀ n ∈ name :: later, n ∈ t.known
    | .scan | .heartbeat | .finished => True

theorem poised_withdraw (hk : t.known.Ordered) (ho : ns.Ordered) (h : ∀ n ∈ ns, n ∈ t.known) :
    (t.withdraw ns).Poised := by
  cases ns with
  | nil => exact ⟨hk, trivial⟩
  | cons => exact ⟨hk, ho, h⟩

theorem poised_register (hk : t.known.Ordered) (ho : ns.Ordered)
    (h : ∀ n ∈ ns, n ∈ present ∧ n ∉ t.known) : (t.register present ns).Poised := by
  cases ns with
  | nil => exact poised_withdraw hk (hk.filter _) fun n hn => (Names.mem_diff.mp hn).1
  | cons => exact ⟨hk, ho, h⟩

theorem Poised.not_known_of_list {name : String} {later : Names} (h : t.Poised)
    (hp : t.phase = .list name later present) : name ∈ present ∧ name ∉ t.known := by
  have hlist := h.2
  rw [hp] at hlist
  exact hlist.2 name List.mem_cons_self

theorem Poised.known_of_delist {name : String} {later : Names} (h : t.Poised)
    (hp : t.phase = .delist name later) : name ∈ t.known := by
  have hlist := h.2
  rw [hp] at hlist
  exact hlist.2 name List.mem_cons_self

namespace Moment

theorem poised_next (hf : m.Fits) (hs : m.Sets) (h : m.tick.Poised) : m.next.Poised := by
  obtain ⟨hknown, hphase⟩ := h
  cases hf with
  | @found t names hp =>
    match names with
    | none => exact ⟨hknown, trivial⟩
    | some [] => exact ⟨hknown, trivial⟩
    | some (n :: ns) =>
      exact poised_register hknown ((hs _ rfl).filter _) fun _ hn => Names.mem_diff.mp hn
  | @list t name later present reply hp =>
    rw [hp] at hphase
    obtain ⟨ho, hnew⟩ := hphase
    have hlater : ∀ n ∈ later, n ∈ present ∧ n ∉ t.known :=
      fun n hn => hnew n (List.mem_cons_of_mem _ hn)
    have hlist : Poised ((t.listed [name]).register present later) := by
      refine poised_register (hknown.insert name) (List.Pairwise.of_cons ho) fun n hn => ?_
      -- The name that is known now is not among those after it.
      refine ⟨(hlater n hn).1, fun hmem => ?_⟩
      rcases Names.mem_insert.mp hmem with rfl | hmem
      · exact (List.nodup_cons.mp ho.nodup).1 hn
      · exact (hlater n hn).2 hmem
    simp only [next, answered, hp]
    cases reply with
    | failed => exact poised_register hknown (List.Pairwise.of_cons ho) hlater
    | _ => exact hlist
  | @delist t name later reply hp =>
    rw [hp] at hphase
    obtain ⟨ho, hold⟩ := hphase
    have hlater : ∀ n ∈ later, n ∈ t.known := fun n hn => hold n (List.mem_cons_of_mem _ hn)
    have hdelist : Poised ((t.withdrawn [name]).withdraw later) := by
      refine poised_withdraw (hknown.filter _) (List.Pairwise.of_cons ho) fun n hn => ?_
      refine Names.mem_erase.mpr ⟨hlater n hn, ?_⟩
      rintro rfl
      exact (List.nodup_cons.mp ho.nodup).1 hn
    simp only [next, answered, hp]
    cases reply with
    | failed => exact poised_withdraw hknown (List.Pairwise.of_cons ho) hlater
    | _ => exact hdelist
  | @heartbeat t reply hp =>
    simp only [next, answered, hp]
    cases reply with
    | no =>
      simp only [forgotten]
      split_ifs
      · exact ⟨hknown, trivial⟩
      · exact ⟨List.Pairwise.nil, trivial⟩
    | _ => exact ⟨hknown, trivial⟩

theorem ahead_next {c : Call} {reply : Reply} (hf : Fits ⟨t, .answer c reply⟩) (h : t.Poised) :
    t.ahead = c :: (next ⟨t, .answer c reply⟩).ahead := by
  cases hf with
  | @list _ name later present _ hp =>
    -- What is known now has been found, and is not to be withdrawn.
    have hdiff : Names.diff (Names.insert name t.known) present = Names.diff t.known present :=
      Names.diff_insert (h.not_known_of_list hp).1
    simp only [next, answered, hp, ahead_register]
    rw [ahead, hp]
    cases reply with
    | failed => rfl
    | _ => simp only [hdiff, List.map_cons, List.cons_append]
  | delist hp =>
    simp only [next, answered, hp, ahead_withdraw]
    rw [ahead, hp]
    rfl
  | heartbeat hp =>
    simp only [next, answered, hp]
    rw [ahead, hp]
    cases reply with
    | no =>
      simp only [forgotten]
      split_ifs <;> rfl
    | _ => rfl

end Moment

def underway : List Moment → List Call
  | [] => []
  | m :: ms =>
    match m.news with
    | .answer c _ => c :: underway ms
    | .found _ => []

namespace Told

theorem append {ms' : List Moment} (h : Told t ms u) (h' : Told u ms' v) :
    Told t (ms ++ ms') v := by
  induction h with
  | refl _ => exact h'
  | cons hf hs _ ih => exact .cons hf hs (ih h')
  | anew hp _ ih => exact .anew hp (ih h')

theorem split (h : Told t (before ++ m :: after) u) :
    Told t before m.tick ∧ m.Fits ∧ m.Sets ∧ Told m.next after u := by
  generalize hms : before ++ m :: after = ms at h
  induction h generalizing before with
  | refl _ => exact absurd hms (List.append_ne_nil_of_right_ne_nil _ (List.cons_ne_nil _ _))
  | cons hf hs h ih =>
    cases before with
    | nil =>
      obtain ⟨rfl, rfl⟩ := List.cons.inj hms
      exact ⟨.refl _, hf, hs, h⟩
    | cons b before =>
      obtain ⟨rfl, hrest⟩ := List.cons.inj hms
      obtain ⟨hb, hm⟩ := ih hrest
      exact ⟨.cons hf hs hb, hm⟩
  | anew hp _ ih =>
    obtain ⟨hb, hm⟩ := ih hms
    exact ⟨.anew hp hb, hm⟩

theorem poised (h : Told t ms u) (ht : t.Poised) : u.Poised := by
  induction h with
  | refl _ => exact ht
  | cons hf hs _ ih => exact ih (Moment.poised_next hf hs ht)
  | anew _ _ ih => exact ih ⟨ht.1, trivial⟩

theorem underway_eq (h : Told t ms u) (ht : t.Poised) (hu : u.ahead = []) :
    underway ms = t.ahead := by
  induction h with
  | refl _ => exact hu.symm
  | @cons m ms u hf hs _ ih =>
    have hrest := ih (Moment.poised_next hf hs ht) hu
    obtain ⟨t, news⟩ := m
    cases news with
    | found names =>
      -- A scan is no call, and before it there is nothing ahead.
      cases hf with
      | found hp =>
        rw [ahead, hp]
        rfl
    | answer c reply =>
      rw [Moment.ahead_next hf ht, ← hrest]
      rfl
  | anew hp _ ih =>
    rw [ahead, hp]
    exact ih ⟨ht.1, trivial⟩ hu

end Told

/-! ### Known names -/

def Lasts (n : String) (ms : List Moment) : Prop :=
  ∀ m ∈ ms, m.news.done? ≠ some (.delist n) ∧ ¬ m.Clears

/-- Of the listings and withdrawals of the name, since all was forgotten, the last was a listing. -/
def Listed (n : String) (ms : List Moment) : Prop :=
  ∃ before m after, ms = before ++ m :: after ∧ m.news.done? = some (.list n) ∧ Lasts n after

theorem not_listed_nil : ¬ Listed n [] := by
  intro hlisted
  obtain ⟨before, m, after, h, -⟩ := hlisted
  exact List.append_ne_nil_of_right_ne_nil _ (List.cons_ne_nil _ _) h.symm

theorem listed_cons_iff : Listed n (m :: ms) ↔
    Listed n ms ∨ m.news.done? = some (.list n) ∧ Lasts n ms := by
  constructor
  · intro hlisted
    obtain ⟨before, m', after, h, hdone, hlasts⟩ := hlisted
    cases before with
    | nil =>
      obtain ⟨rfl, rfl⟩ := List.cons.inj h
      exact .inr ⟨hdone, hlasts⟩
    | cons b before => exact .inl ⟨before, m', after, (List.cons.inj h).2, hdone, hlasts⟩
  · intro hor
    rcases hor with ⟨before, m', after, rfl, hdone, hlasts⟩ | ⟨hdone, hlasts⟩
    · exact ⟨m :: before, m', after, rfl, hdone, hlasts⟩
    · exact ⟨[], m, ms, rfl, hdone, hlasts⟩

theorem Told.mem_known_iff (h : Told t ms u) :
    n ∈ u.known ↔ Listed n ms ∨ n ∈ t.known ∧ Lasts n ms := by
  induction h with
  | refl t =>
    have hlasts : Lasts n [] := fun _ hm => absurd hm List.not_mem_nil
    rw [or_iff_right not_listed_nil, and_iff_left hlasts]
  | @cons m ms u hf _ _ ih =>
    have hlasts : Lasts n (m :: ms) ↔
        (m.news.done? ≠ some (.delist n) ∧ ¬ m.Clears) ∧ Lasts n ms := List.forall_mem_cons
    rw [ih, Moment.mem_known_next hf, listed_cons_iff, hlasts, or_and_right, and_assoc, or_assoc]
  | anew _ _ ih => exact ih

theorem Told.known_iff_listed (h : Told t ms u) (ht : t.known = []) :
    n ∈ u.known ↔ Listed n ms := by
  rw [h.mem_known_iff, ht]
  exact or_iff_left fun hnil => absurd hnil.1 List.not_mem_nil

theorem Told.underway_of_found (h : Told m.next after u) (hf : m.Fits) (hs : m.Sets)
    (hm : m.tick.Poised) (hu : u.ahead = []) (hnews : m.news = .found (some present))
    (hne : present ≠ []) : underway after = (Names.diff present m.tick.known).map .list ++
      (Names.diff m.tick.known present).map .delist ++ [.heartbeat] := by
  have hnext : m.next = m.tick.register present (Names.diff present m.tick.known) := by
    simp only [Moment.next, hnews]
    cases present with
    | nil => exact absurd rfl hne
    | cons => rfl
  rw [h.underway_eq (Moment.poised_next hf hs hm) hu, hnext, ahead_register]

theorem not_known_of_call {reply : Reply} (hf : m.Fits) (hm : m.tick.Poised)
    (hnews : m.news = .answer (.list n) reply) : n ∉ m.tick.known := by
  obtain ⟨t, news⟩ := m
  obtain rfl : news = .answer (.list n) reply := hnews
  cases hf with
  | list hp => exact (hm.not_known_of_list hp).2

theorem known_of_call {reply : Reply} (hf : m.Fits) (hm : m.tick.Poised)
    (hnews : m.news = .answer (.delist n) reply) : n ∈ m.tick.known := by
  obtain ⟨t, news⟩ := m
  obtain rfl : news = .answer (.delist n) reply := hnews
  cases hf with
  | delist hp => exact hm.known_of_delist hp

theorem Told.not_known_of_not_listed (h : Told t ms u) (ht : n ∉ t.known)
    (hms : ∀ x ∈ ms, x.news.done? ≠ some (.list n)) : n ∉ u.known := by
  rw [h.mem_known_iff]
  intro hor
  rcases hor with hlisted | ⟨hmem, -⟩
  · obtain ⟨before, m, after, rfl, hdone, -⟩ := hlisted
    exact hms m (by simp) hdone
  · exact ht hmem

section Pairs
variable {m' : Moment} {between : List Moment}

theorem Told.pair (h : Told t (before ++ m :: (between ++ m' :: after)) u) (ht : t.Poised) :
    (m.Fits ∧ m.tick.Poised) ∧ Told m.next between m'.tick ∧
      (m'.Fits ∧ m'.Sets ∧ m'.tick.Poised) ∧ Told m'.next after u := by
  obtain ⟨hbefore, hf, hs, hrest⟩ := h.split
  obtain ⟨hbetween, hf', hs', hafter⟩ := hrest.split
  have hm : m.tick.Poised := hbefore.poised ht
  have hm' : m'.tick.Poised := hbetween.poised (Moment.poised_next hf hs hm)
  exact ⟨⟨hf, hm⟩, hbetween, ⟨hf', hs', hm'⟩, hafter⟩

theorem Told.listed_again (h : Told t (before ++ m :: (between ++ m' :: after)) u)
    (ht : t.Poised) (hu : u.ahead = []) (hnews : m.news = .answer (.list n) .failed)
    (hnews' : m'.news = .found (some present)) (hn : n ∈ present)
    (hfails : ∀ x ∈ between, x.news.done? ≠ some (.list n)) : .list n ∈ underway after := by
  obtain ⟨⟨hf, hm⟩, hbetween, ⟨hf', hs', hm'⟩, hafter⟩ := h.pair ht
  have hnext : n ∉ m.next.known := by
    rw [Moment.mem_known_next hf]
    simp [hnews, not_known_of_call hf hm hnews]
  have hnew : n ∉ m'.tick.known := hbetween.not_known_of_not_listed hnext hfails
  rw [hafter.underway_of_found hf' hs' hm' hu hnews' (List.ne_nil_of_mem hn)]
  simp [hn, hnew]

theorem Told.withdrawn_again (h : Told t (before ++ m :: (between ++ m' :: after)) u)
    (ht : t.Poised) (hu : u.ahead = []) (hnews : m.news = .answer (.delist n) .failed)
    (hnews' : m'.news = .found (some present)) (hne : present ≠ []) (hn : n ∉ present)
    (hlasts : Lasts n between) : .delist n ∈ underway after := by
  obtain ⟨⟨hf, hm⟩, hbetween, ⟨hf', hs', hm'⟩, hafter⟩ := h.pair ht
  have hnext : n ∈ m.next.known := by
    rw [Moment.mem_known_next hf]
    exact .inr ⟨known_of_call hf hm hnews, by simp [hnews], by simp [Moment.Clears, hnews]⟩
  have hold : n ∈ m'.tick.known := hbetween.mem_known_iff.mpr (.inr ⟨hnext, hlasts⟩)
  rw [hafter.underway_of_found hf' hs' hm' hu hnews' hne]
  simp [hn, hold]

theorem Told.not_lasts_between (h : Told t (before ++ m :: (between ++ m' :: after)) u)
    (ht : t.Poised) (hdone : m.news.done? = some (.list n)) {reply : Reply}
    (hnews' : m'.news = .answer (.list n) reply) : ¬ Lasts n between := by
  obtain ⟨⟨hf, -⟩, hbetween, ⟨hf', -, hm'⟩, -⟩ := h.pair ht
  have hnext : n ∈ m.next.known := (Moment.mem_known_next hf).mpr (.inl hdone)
  intro hlasts
  have hmem : n ∈ m'.tick.known := hbetween.mem_known_iff.mpr (.inr ⟨hnext, hlasts⟩)
  exact not_known_of_call hf' hm' hnews' hmem

end Pairs

section World
variable {σ : Type} {w : World σ} {s : σ}

theorem told_record (hw : ∀ s names, (w.scan s).1 = some names → names.Ordered) :
    Told t (record w t s) (run w t s).1 ∧ (run w t s).1.phase = .finished := by
  induction t, s using run.induct w with
  | case1 t s hp =>
    rw [record_finished hp, run_finished hp]
    exact ⟨.refl t, hp⟩
  | case2 t s hp ih =>
    rw [record_step hp, run_step hp]
    refine ⟨.cons (fits_news hp) ?_ (step_eq_next (s := s) hp ▸ ih.1), ih.2⟩
    intro names hnews
    cases hc : t.call? with
    | some c =>
      simp only [news, hc] at hnews
      cases hnews
    | none =>
      simp only [news, hc] at hnews
      exact hw s names (News.found.inj hnews)

end World
end Tick

open Tick

namespace Agent

section Diary
variable {σ : Type} {w : World σ} {a : Agent} {ss : List σ}

def later (w : World σ) (a : Agent) (ss : List σ) : Agent :=
  ss.foldl (fun a s => (a.reconcile w s).2.1) a

def diary (w : World σ) : Agent → List σ → List Moment
  | _, [] => []
  | a, s :: ss => record w a.tick s ++ diary w (a.reconcile w s).2.1 ss

theorem told_diary (hw : ∀ s names, (w.scan s).1 = some names → names.Ordered) :
    Told a.tick (a.diary w ss) (a.later w ss).tick := by
  induction ss generalizing a with
  | nil => exact .refl _
  | cons s ss ih =>
    obtain ⟨htick, hend⟩ := told_record (t := a.tick) (s := s) hw
    have hrest := ih (a := (a.reconcile w s).2.1)
    exact htick.append (.anew hend hrest)

end Diary

/-- However calls fail and folders change, from tick to tick and within one: once a pass has found
something, it lists what is new, withdraws what is gone, and renews, each name once and in order.
What is known are the names that were listed, and neither withdrawn nor forgotten since. A name that
failed to be listed is listed by each later pass that finds it, until that succeeds; one that failed
to be withdrawn is withdrawn by each later pass that finds others but not it, until that succeeds or
all is forgotten; and between two listings of a name, unless the first fails, it is withdrawn or all
is forgotten. -/
theorem retries_until_done {σ : Type} (w : World σ) (a : Agent) (ss : List σ)
    (hw : ∀ s names, (w.scan s).1 = some names → names.Ordered) (hknown : a.known = []) :
    let ms := a.diary w ss
    (∀ (before : List Moment) (m : Moment) (after : List Moment) (names : Names),
      ms = before ++ m :: after → m.news = .found (some names) → names ≠ [] →
      ∃ new gone : Names, new.Ordered ∧ gone.Ordered ∧
        (∀ n, n ∈ new ↔ n ∈ names ∧ n ∉ m.tick.known) ∧
        (∀ n, n ∈ gone ↔ n ∈ m.tick.known ∧ n ∉ names) ∧
        underway after = new.map .list ++ gone.map .delist ++ [.heartbeat]) ∧
    (∀ (before : List Moment) (m : Moment) (after : List Moment), ms = before ++ m :: after →
      ∀ n, n ∈ m.tick.known ↔ Listed n before) ∧
    (∀ n, n ∈ (a.later w ss).known ↔ Listed n ms) ∧
    ∀ (before between after : List Moment) (m m' : Moment) (n : String),
      ms = before ++ m :: (between ++ m' :: after) →
      (m.news = .answer (.list n) .failed → ∀ names, m'.news = .found (some names) → n ∈ names →
        (∀ x ∈ between, x.news.done? ≠ some (.list n)) → .list n ∈ underway after) ∧
      (m.news = .answer (.delist n) .failed → ∀ names, m'.news = .found (some names) →
        names ≠ [] → n ∉ names →
        (∀ x ∈ between, x.news.done? ≠ some (.delist n) ∧ ¬ x.Clears) →
        .delist n ∈ underway after) ∧
      (m.news.done? = some (.list n) → ∀ reply, m'.news = .answer (.list n) reply →
        ∃ x ∈ between, x.news.done? = some (.delist n) ∨ x.Clears) := by
  intro ms
  have htold : Told a.tick ms (a.later w ss).tick := told_diary hw
  have hnone : a.tick.known = [] := hknown
  have hstart : a.tick.Poised := ⟨hnone ▸ List.Pairwise.nil, trivial⟩
  refine ⟨?_, ?_, ?_, ?_⟩
  · intro before m after names h hnews hne
    rw [h] at htold
    obtain ⟨hbefore, hf, hs, hafter⟩ := htold.split
    have hm := hbefore.poised hstart
    refine ⟨Names.diff names m.tick.known, Names.diff m.tick.known names, (hs _ hnews).filter _,
      hm.1.filter _, fun n => Names.mem_diff, fun n => Names.mem_diff, ?_⟩
    exact hafter.underway_of_found hf hs hm rfl hnews hne
  · intro before m after h n
    rw [h] at htold
    exact htold.split.1.known_iff_listed hnone
  · intro n
    exact htold.known_iff_listed hnone
  · intro before between after m m' n h
    rw [h] at htold
    refine ⟨?_, ?_, ?_⟩
    · intro hnews names hnews' hn hfails
      exact htold.listed_again hstart rfl hnews hnews' hn hfails
    · intro hnews names hnews' hne hn hlasts
      exact htold.withdrawn_again hstart rfl hnews hnews' hne hn hlasts
    · intro hdone reply hnews'
      have hnot : ¬ Lasts n between := htold.not_lasts_between hstart hdone hnews'
      by_contra hneither
      exact hnot fun x hx =>
        ⟨fun hd => hneither ⟨x, hx, .inl hd⟩, fun hc => hneither ⟨x, hx, .inr hc⟩⟩

def hiccup : Script where
  agent := { peer := ⟨"p"⟩, address := "localhost", port := 9100 }
  registry := { store := { disk := { nodes := [([Text.bytes "share"], .folder),
    ([Text.bytes "share", Text.bytes "a.txt"], .file [] Disk.defaultMode)] } } }
  now := default
  share := ⟨"/share"⟩
  failList := ["a.txt"]

theorem retries_until_done_hiccup : hiccup.agent.known = [] ∧
    (∀ s names, (Script.world.scan s).1 = some names → names.Ordered) ∧
    ∀ n, n ∈ (hiccup.agent.later Script.world [hiccup, { hiccup with failList := [] }]).known ↔
      Listed n (hiccup.agent.diary Script.world [hiccup, { hiccup with failList := [] }]) := by
  have sets : ∀ s names, (Script.world.scan s).1 = some names → names.Ordered := by
    intro s names h
    simp only [Script.world] at h
    cases hscan : Share.scan s.disk s.share with
    | error e =>
      rw [hscan] at h
      cases h
    | ok found =>
      rw [hscan] at h
      obtain rfl : found = names := Option.some.inj h
      exact (Share.scan_ok hscan).1
  exact ⟨rfl, sets, (retries_until_done Script.world hiccup.agent _ sets rfl).2.2.1⟩

end Agent
end PeerShare
