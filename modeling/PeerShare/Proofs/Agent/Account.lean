import PeerShare.Agent.Basic
import PeerShare.Proofs.Agent.Record

/-!
Every tick comes to an end, and its report says what happened in it. However the folder changes and
whatever the registry answers, there are no more than four passes, and each number of the report is
the number of news of its kind.
-/

namespace PeerShare.Tick

section Account
variable {σ : Type} {w : World σ} {t : Tick} {s : σ}

theorem resyncs_run (h : t.report.resyncs ≤ resyncLimit) :
    (run w t s).1.report.resyncs ≤ resyncLimit := by
  refine run_invariant (P := fun u _ => u.report.resyncs ≤ resyncLimit) ?_ h
  intro u s hp hle
  have hfits : Moment.Fits ⟨u, news w u s⟩ := fits_news hp
  rw [step_eq_next hp, Moment.report_next hfits]
  simp only [Moment.tally]
  split_ifs with hc
  · exact (hc.forgets hfits).2.1
  · exact hle

def scans (ms : List Moment) : List (Option Names) := ms.filterMap (·.news.scan?)

def renewals (ms : List Moment) : List Bool := ms.filterMap (·.news.renewal?)

theorem report_run (w : World σ) (t : Tick) (s : σ) :
    (run w t s).1.report = {
      listed := t.report.listed + (record w t s).countP (·.news.lists)
      delisted := t.report.delisted + (record w t s).countP (·.news.delists)
      failures := t.report.failures + (record w t s).countP (·.news.fails)
      resyncs := t.report.resyncs + (record w t s).countP (·.Clears)
      renewed := (renewals (record w t s)).getLast?.or t.report.renewed
      idle := t.report.idle || (record w t s).any (·.news = .found (some [])) } := by
  induction t, s using run.induct w with
  | case1 t s hp => simp [run_finished hp, record_finished hp, renewals]
  | case2 t s hp ih =>
    have hreport := Moment.report_next (fits_news (w := w) (s := s) hp)
    rw [run_step hp, ih, record_step hp, step_eq_next hp, hreport]
    simp only [Moment.tally, List.countP_cons, List.any_cons, renewals, List.filterMap_cons,
      decide_eq_true_eq, Bool.or_assoc, Report.mk.injEq]
    refine ⟨by omega, by omega, by omega, by omega, ?_, trivial⟩
    cases hr : (news w t s).renewal? with
    | none => simp
    | some b => simp [List.getLast?_cons, Option.or_some]

theorem length_scans : (scans (record w t s)).length =
    (record w t s).countP (·.Clears) + if t.phase = .scan then 1 else 0 := by
  induction t, s using run.induct w with
  | case1 t s hp => simp [record_finished hp, hp, scans]
  | case2 t s hp ih =>
    have hfits : Moment.Fits ⟨t, news w t s⟩ := fits_news hp
    have hclears := Moment.clears_iff hfits
    simp only [step_eq_next hp, ← hclears] at ih
    rw [record_step hp, step_eq_next hp, List.countP_cons]
    -- The news of a scan are no loss, and those of a call no scan.
    cases hn : news w t s with
    | found names =>
      rw [hn] at hfits ih
      have hscan : t.phase = .scan := by
        cases hfits with
        | found hp => exact hp
      simp only [scans, List.filterMap_cons, News.scan?, List.length_cons] at ih ⊢
      simp [ih, hscan, Moment.Clears]
    | answer c reply =>
      rw [hn] at hfits ih
      have hscan : t.phase ≠ .scan := by
        cases hfits <;> simp_all
      simp only [scans, List.filterMap_cons, News.scan?] at ih ⊢
      simp [ih, hscan]

theorem getLast?_scans : (scans (record w t s)).getLast? = some (some []) ↔
    (record w t s).any (·.news = .found (some [])) = true := by
  rw [List.any_eq_true]
  constructor
  · intro hlast
    obtain ⟨m, hm, hscan⟩ := List.mem_filterMap.mp (List.mem_of_getLast? hlast)
    refine ⟨m, hm, decide_eq_true ?_⟩
    cases hn : m.news with
    | found names =>
      rw [hn] at hscan
      exact congrArg News.found (Option.some.inj hscan)
    | answer c reply =>
      rw [hn] at hscan
      cases hscan
  · intro hempty
    obtain ⟨m, hm, hnews⟩ := hempty
    have hnews := of_decide_eq_true hnews
    obtain ⟨before, after, h⟩ := List.append_of_mem hm
    obtain rfl := after_eq_nil h (.inr hnews)
    simp only [scans, h, List.filterMap_append, List.filterMap_cons, List.filterMap_nil, hnews,
      News.scan?, List.getLast?_concat]

end Account

/-- A tick has one pass more than its report counts resyncs, and four at most. Before each scan but
the first the registry has answered that it holds nothing, though something was known, and nothing
is known then. A scan that fails or finds nothing is followed by no call. The report counts what was
listed, withdrawn and missed, tells the last answer to a renewal, and says whether the last scan
found nothing. -/
theorem reconcile_accounts {σ : Type} (w : World σ) (a : Agent) (s : σ) :
    let ms := record w a.tick s
    let report := (a.reconcile w s).1
    (scans ms).length = report.resyncs + 1 ∧ (scans ms).length ≤ 4 ∧
    (∀ before m m' after, ms = before ++ m :: m' :: after → m'.news.scan?.isSome = true →
      m.news = .answer .heartbeat .no ∧ m.tick.known ≠ [] ∧ m'.tick.known = []) ∧
    (∀ before m after, ms = before ++ m :: after →
      m.news = .found none ∨ m.news = .found (some []) → after = []) ∧
    report.listed = ms.countP (·.news.lists) ∧
    report.delisted = ms.countP (·.news.delists) ∧
    report.failures = ms.countP (·.news.fails) ∧
    report.renewed = (renewals ms).getLast? ∧
    (report.idle = true ↔ (scans ms).getLast? = some (some [])) := by
  intro ms report
  have hreport := report_run w a.tick s
  have hscans : (scans ms).length = ms.countP (·.Clears) + 1 := length_scans
  have hlimit : report.resyncs ≤ 3 := resyncs_run (Nat.zero_le _)
  have hresyncs : report.resyncs = 0 + ms.countP (·.Clears) := congrArg Report.resyncs hreport
  have hlisted : report.listed = 0 + ms.countP (·.news.lists) := congrArg Report.listed hreport
  have hdelisted : report.delisted = 0 + ms.countP (·.news.delists) :=
    congrArg Report.delisted hreport
  have hfailures : report.failures = 0 + ms.countP (·.news.fails) :=
    congrArg Report.failures hreport
  have hrenewed : report.renewed = (renewals ms).getLast?.or none :=
    congrArg Report.renewed hreport
  have hidle : report.idle = (false || ms.any (·.news = .found (some []))) :=
    congrArg Report.idle hreport
  refine ⟨by omega, by omega, ?_, ?_, by omega, by omega, by omega, ?_, ?_⟩
  · intro before m m' after h hs
    obtain ⟨hclears, htick⟩ := clears_of_scan h hs
    obtain ⟨hknown, -, hforgot⟩ := hclears.forgets (record_after h).1
    exact ⟨hclears.1, hknown, htick ▸ hforgot⟩
  · intro before m after h hs
    exact after_eq_nil h hs
  · rw [hrenewed, Option.or_none]
  · rw [hidle, Bool.false_or, getLast?_scans]

end PeerShare.Tick
