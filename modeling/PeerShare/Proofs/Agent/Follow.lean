import PeerShare.Proofs.Agent.Run
import PeerShare.Proofs.Names

/-!
What a tick knows and what it leaves alone. As long as nothing has failed in it, its phase says what
is still to be done about the files that it found; when it is confirmed it knows just these. And it
makes no call about a name that it neither knows nor finds.
-/

namespace PeerShare.Tick

variable {t : Tick} {found present ns : Names} {n : String}

/-- What a tick without failures knows of the folder, and what it has still to do about it. -/
def Follows (t : Tick) (found : Names) : Prop :=
  match t.phase with
  | .scan => t.report.renewed ≠ some true
  | .list name later present => present = found ∧
    (∀ n ∈ found, n ∈ t.known ∨ n = name ∨ n ∈ later) ∧ t.report.renewed ≠ some true
  | .delist name later => (∀ n ∈ found, n ∈ t.known) ∧
    (∀ n ∈ t.known, n ∈ found ∨ n = name ∨ n ∈ later) ∧ name ∉ found ∧ (∀ n ∈ later, n ∉ found) ∧
    t.report.renewed ≠ some true
  | .heartbeat => (∀ n, n ∈ t.known ↔ n ∈ found) ∧ t.report.renewed ≠ some true
  | .finished => t.report.renewed = some true → ∀ n, n ∈ t.known ↔ n ∈ found

theorem follows_withdraw (hknown : ∀ n ∈ found, n ∈ t.known)
    (hrest : ∀ n ∈ t.known, n ∈ found ∨ n ∈ ns) (hgone : ∀ n ∈ ns, n ∉ found)
    (hr : t.report.renewed ≠ some true) : (t.withdraw ns).Follows found := by
  cases ns with
  | nil =>
    refine ⟨fun n => ⟨fun hn => ?_, hknown n⟩, hr⟩
    exact (hrest n hn).resolve_right List.not_mem_nil
  | cons name later =>
    refine ⟨hknown, fun n hn => ?_, hgone name List.mem_cons_self, fun n hn => ?_, hr⟩
    · exact (hrest n hn).imp_right List.mem_cons.mp
    · exact hgone n (List.mem_cons_of_mem _ hn)

theorem follows_register (hknown : ∀ n ∈ found, n ∈ t.known ∨ n ∈ ns)
    (hr : t.report.renewed ≠ some true) : (t.register found ns).Follows found := by
  cases ns with
  | nil =>
    refine follows_withdraw (fun n hn => ?_) (fun n hn => ?_) (fun n hn => ?_) hr
    · exact (hknown n hn).resolve_right List.not_mem_nil
    · by_cases hf : n ∈ found
      · exact .inl hf
      · exact .inr (Names.mem_diff.mpr ⟨hn, hf⟩)
    · exact (Names.mem_diff.mp hn).2
  | cons name later => exact ⟨rfl, fun n hn => (hknown n hn).imp_right List.mem_cons.mp, hr⟩

theorem follows_scanned (hp : t.phase = .scan) (h : t.Follows found) {scan : Option Names}
    (hf : (t.scanned scan).report.failures = 0) : (t.scanned scan).Follows (scan.getD []) := by
  have hr : t.report.renewed ≠ some true := by
    simp only [Follows, hp] at h
    exact h
  match scan with
  | none => cases hf
  | some [] => exact fun hyes => absurd hyes hr
  | some (m :: ms) =>
    refine follows_register (fun n hn => ?_) hr
    by_cases hk : n ∈ t.known
    · exact .inl hk
    · exact .inr (Names.mem_diff.mpr ⟨hn, hk⟩)

theorem follows_answered {c : Call} {reply : Reply} (hc : t.call? = some c) (h : t.Follows found)
    (hf : (t.answered reply).report.failures = 0) : (t.answered reply).Follows found := by
  have hreply : reply ≠ .failed := by
    intro hr
    rw [hr, failures_failed hc] at hf
    cases hf
  unfold call? at hc
  split at hc
  · rename_i name later present hp
    simp only [Follows, hp] at h
    obtain ⟨rfl, hknown, hr⟩ := h
    have hnext : (t.answered reply) = { t with
        known := Names.insert name t.known,
        report.listed := t.report.listed + 1 }.register present later := by
      simp only [answered, hp]
    rw [hnext]
    refine follows_register (fun n hn => ?_) hr
    rcases hknown n hn with hk | rfl | hl
    · exact .inl (Names.mem_insert.mpr (.inr hk))
    · exact .inl (Names.mem_insert.mpr (.inl rfl))
    · exact .inr hl
  · rename_i name later hp
    simp only [Follows, hp] at h
    obtain ⟨hknown, hrest, hname, hlater, hr⟩ := h
    have hnext : (t.answered reply) = { t with
        known := Names.erase name t.known,
        report.delisted := t.report.delisted + 1 }.withdraw later := by
      simp only [answered, hp]
    rw [hnext]
    refine follows_withdraw (fun n hn => ?_) (fun n hn => ?_) hlater hr
    · exact Names.mem_erase.mpr ⟨hknown n hn, fun he => hname (he ▸ hn)⟩
    · obtain ⟨hk, hne⟩ := Names.mem_erase.mp hn
      rcases hrest n hk with hfound | he | hl
      · exact .inl hfound
      · exact absurd he hne
      · exact .inr hl
  · rename_i hp
    simp only [Follows, hp] at h
    cases reply with
    | yes =>
      simp only [answered, hp]
      exact fun _ => h.1
    | no =>
      simp only [answered, hp, forgotten]
      split_ifs
      · exact fun hyes => by cases hyes
      · exact fun hyes => by cases hyes
    | failed => exact absurd rfl hreply
  · cases hc
  · cases hc

theorem phase_of_list {name : String} (hc : t.call? = some (.list name)) :
    ∃ later present, t.phase = .list name later present := by
  unfold call? at hc
  split at hc
  · rename_i name' later present hp
    cases hc
    exact ⟨later, present, hp⟩
  · cases hc
  · cases hc
  · cases hc
  · cases hc

theorem call?_ne_disconnect (t : Tick) : t.call? ≠ some .disconnect := by
  unfold call?
  split <;> exact nofun

/-! ### Names that a tick has nothing to do with -/

def Skips (t : Tick) (n : String) : Prop :=
  n ∉ t.known ∧ match t.phase with
  | .list name later present => n ≠ name ∧ n ∉ later ∧ n ∉ present
  | .delist name later => n ≠ name ∧ n ∉ later
  | .scan | .heartbeat | .finished => True

theorem skips_withdraw (hk : n ∉ t.known) (hns : n ∉ ns) : (t.withdraw ns).Skips n := by
  cases ns with
  | nil => exact ⟨hk, trivial⟩
  | cons name later =>
    rw [List.mem_cons, not_or] at hns
    exact ⟨hk, hns⟩

theorem skips_register (hk : n ∉ t.known) (hp : n ∉ present) (hns : n ∉ ns) :
    (t.register present ns).Skips n := by
  cases ns with
  | nil => exact skips_withdraw hk fun hn => hk (Names.mem_diff.mp hn).1
  | cons name later =>
    rw [List.mem_cons, not_or] at hns
    exact ⟨hk, hns.1, hns.2, hp⟩

theorem skips_scanned (hk : n ∉ t.known) {scan : Option Names} (hs : n ∉ scan.getD []) :
    (t.scanned scan).Skips n := by
  match scan with
  | none => exact ⟨hk, trivial⟩
  | some [] => exact ⟨hk, trivial⟩
  | some (m :: ms) => exact skips_register hk hs fun hn => hs (Names.mem_diff.mp hn).1

theorem skips_answered {c : Call} (hc : t.call? = some c) (h : t.Skips n) (reply : Reply) :
    (t.answered reply).Skips n := by
  obtain ⟨hk, hphase⟩ := h
  unfold call? at hc
  split at hc
  · rename_i name later present hp
    simp only [hp] at hphase
    simp only [answered, hp]
    refine skips_register ?_ hphase.2.2 hphase.2.1
    cases reply with
    | failed => exact hk
    | _ => exact fun hn => (Names.mem_insert.mp hn).elim hphase.1 hk
  · rename_i name later hp
    simp only [hp] at hphase
    simp only [answered, hp]
    refine skips_withdraw ?_ hphase.2
    cases reply with
    | failed => exact hk
    | _ => exact fun hn => hk (Names.mem_erase.mp hn).1
  · rename_i hp
    cases reply with
    | no =>
      simp only [answered, hp, forgotten]
      split_ifs
      · exact ⟨hk, trivial⟩
      · exact ⟨List.not_mem_nil, trivial⟩
    | _ =>
      simp only [answered, hp]
      exact ⟨hk, trivial⟩
  · cases hc
  · cases hc

theorem Skips.call_ne {c : Call} (h : t.Skips n) (hc : t.call? = some c) :
    c ≠ .list n ∧ c ≠ .delist n := by
  obtain ⟨-, hphase⟩ := h
  unfold call? at hc
  split at hc
  · rename_i name later present hp
    simp only [hp] at hphase
    cases hc
    exact ⟨fun he => hphase.1 (Call.list.inj he).symm, nofun⟩
  · rename_i name later hp
    simp only [hp] at hphase
    cases hc
    exact ⟨nofun, fun he => hphase.1 (Call.delist.inj he).symm⟩
  · cases hc
    exact ⟨nofun, nofun⟩
  · cases hc
  · cases hc

end PeerShare.Tick
