import PeerShare.Disk.Replace
import PeerShare.Proofs.Disk.Ways

/-!
Replacing a file, whichever step fails: the file holds the old content or the new, the new one
exactly if nothing failed, and every path leads where it led. The two paths have to be plain, that
is without a link at their ends, and to lead to different places.
-/

namespace PeerShare.Disk

def content? (d : Disk) (p : FilePath) : Option Bytes :=
  match d.locate p with
  | .ok ⟨_, some (.file content _)⟩ => if p.meansFolder then none else some content
  | _ => none

def Plain (d : Disk) (p : FilePath) : Prop := ∀ a, d.locateEntry p = .ok a → ¬ a.IsLink

structure Apart (d : Disk) (p q : FilePath) : Prop where
  plain : d.Plain p
  plain_aside : d.Plain q
  places : ∀ a b, d.locateEntry p = .ok a → d.locateEntry q = .ok b → a.place ≠ b.place

def Spares (d e : Disk) (p : FilePath) : Prop := d.SameWays e ∧ e.content? p = d.content? p

theorem bind_eq_ok {ε α β : Type} {x : Except ε α} {g : α → Except ε β} {r : β} :
    x >>= g = .ok r ↔ ∃ y, x = .ok y ∧ g y = .ok r := by
  cases x with
  | error e => simp [bind, Except.bind]
  | ok y => simp [bind, Except.bind]

section Content
variable {d e f : Disk} {p q : FilePath} {a b : Spot} {c : Bytes}

theorem content?_eq_some_iff : d.content? p = some c ↔
    p.meansFolder = false ∧ ∃ a m, d.locate p = .ok a ∧ a.node = some (.file c m) := by
  unfold content?
  split
  · rename_i place content m h
    rw [h]
    split_ifs with hm
    · simp [hm]
    · simp only [Option.some.injEq, Bool.eq_false_iff.mpr hm, true_and]
      constructor
      · intro he
        subst he
        exact ⟨_, m, rfl, rfl⟩
      · intro hspot
        obtain ⟨a, m', ha, hn⟩ := hspot
        cases ha
        cases hn
        rfl
  · rename_i hno
    simp only [reduceCtorEq, false_iff, not_and, not_exists]
    intro _ hspot m h he
    obtain ⟨place, n⟩ := hspot
    subst he
    exact hno _ _ _ h

theorem content?_of_meansFolder (h : p.meansFolder = true) : d.content? p = none := by
  rw [Option.eq_none_iff_forall_ne_some]
  intro c hc
  cases (content?_eq_some_iff.mp hc).1.symm.trans h

theorem pathExists_of_content (h : d.content? p = some c) : d.pathExists p = true := by
  obtain ⟨hm, ⟨place, n⟩, m, ha, rfl⟩ := content?_eq_some_iff.mp h
  simp [pathExists, ha, hm]

theorem readBytes_of_unfaulted (h : d.content? p = some c) (hf : d.faults.read = none) :
    d.readBytes p = .ok c := by
  obtain ⟨hm, ⟨place, n⟩, m, ha, rfl⟩ := content?_eq_some_iff.mp h
  simp only [readBytes, failIf, hf, bind, Except.bind, ha, hm, Bool.false_eq_true, if_false]
  rfl

theorem readBytes_of_content (h : d.content? p = some c) :
    d.readBytes p = .ok c ∨ ∃ cause, d.readBytes p = .error cause := by
  cases hf : d.faults.read with
  | some cause =>
    refine .inr ⟨cause, ?_⟩
    simp only [readBytes, failIf, hf, bind, Except.bind]
  | none => exact .inl (readBytes_of_unfaulted h hf)

theorem content?_of_readBytes (h : d.readBytes p = .ok c) : d.content? p = some c := by
  obtain ⟨-, -, h⟩ := bind_eq_ok.mp h
  obtain ⟨⟨place, n⟩, ha, h⟩ := bind_eq_ok.mp h
  rcases n with _ | ⟨content, m⟩ | _ | target
  · cases h
  · simp only at h
    split_ifs at h with hm
    cases h
    exact content?_eq_some_iff.mpr ⟨Bool.eq_false_iff.mpr hm, _, m, ha, rfl⟩
  · cases h
  · cases h

theorem Plain.locate (h : d.Plain p) (ha : d.locateEntry p = .ok a) : d.locate p = .ok a :=
  locate_of_locateEntry ha (h a ha)

theorem Plain.entry (h : d.Plain p) (ha : d.locate p = .ok a) : d.locateEntry p = .ok a := by
  obtain ⟨b, hb, rfl | hl⟩ := locateEntry_of_locate ha
  · exact hb
  · exact absurd hl (h b hb)

theorem SameWays.isWay_iff (h : d.SameWays e) {place : List Name} (hp : d.Reachable place) :
    IsWay (e.node? place) ↔ IsWay (d.node? place) := by
  rcases hp with rfl | ⟨q, name, rfl, hq⟩
  · rfl
  · constructor
    · intro he
      exact h q name hq (.inr he) ▸ he
    · intro hd
      exact (h q name hq (.inl hd)).symm ▸ hd

theorem SameWays.plain (h : d.SameWays e) (hp : d.Plain p) : e.Plain p := by
  intro a ha hlink
  obtain ⟨target, hl⟩ := hlink
  have hd := h.symm.spot ha
  obtain ⟨hr, -⟩ := spot_node hd
  have hn := (spot_node ha).2
  rcases (h.isWay_iff hr).mp (.inr ⟨target, hn ▸ hl⟩) with hf | hf
  · rcases hr with hr | ⟨q, name, hr, hq⟩
    · simp only at hr
      rw [hr] at hn
      rw [hn] at hl
      cases hl
    · simp only at hr
      rw [hr] at hf hn
      rw [hn, h q name hq (.inl (.inl hf)), hf] at hl
      cases hl
  · exact hp _ hd hf

theorem SameWays.apart (h : d.SameWays e) (ha : d.Apart p q) : e.Apart p q where
  plain := h.plain ha.plain
  plain_aside := h.plain ha.plain_aside
  places := fun a b hp hq => ha.places ⟨a.place, d.node? a.place⟩ ⟨b.place, d.node? b.place⟩
    (h.symm.spot hp) (h.symm.spot hq)

theorem SameWays.content?_eq (h : d.SameWays e)
    (hn : ∀ a, d.locate p = .ok a → e.node? a.place = d.node? a.place) :
    e.content? p = d.content? p := by
  have hl (c : Bytes) : e.content? p = some c ↔ d.content? p = some c := by
    rw [content?_eq_some_iff, content?_eq_some_iff]
    refine and_congr_right fun _ => ⟨?_, ?_⟩
    · intro hspot
      obtain ⟨a, m, ha, hc⟩ := hspot
      have hd := h.symm.spot ha
      exact ⟨_, m, hd, (hn _ hd).symm.trans ((spot_node ha).2.symm.trans hc)⟩
    · intro hspot
      obtain ⟨a, m, ha, hc⟩ := hspot
      exact ⟨_, m, h.spot ha, (hn a ha).trans ((spot_node ha).2.symm.trans hc)⟩
  exact Option.ext hl

theorem Spares.refl (d : Disk) (p : FilePath) : d.Spares d p := ⟨.refl d, rfl⟩

theorem Spares.trans (h : d.Spares e p) (h' : e.Spares f p) : d.Spares f p :=
  ⟨h.1.trans h'.1, h'.2.trans h.2⟩

end Content

/-! ### Steps -/

section Steps
variable {d e : Disk} {p q : FilePath} {a b : Spot} {c content : Bytes} {m : Nat}

theorem node?_set {place : List Name} (hp : place ≠ []) (n : Node) (x : List Name) :
    (d.set place n).node? x = if place = x then some n else d.node? x := by
  unfold node? set
  rw [Keyed.get?_put]
  split_ifs <;> simp_all

theorem node?_removeTree {place : List Name} (hp : place ≠ []) (x : List Name) :
    (d.removeTree place).node? x = if place <+: x then none else d.node? x := by
  unfold node? removeTree
  rw [Keyed.get?_filter_key (fun x => !place.isPrefixOf x)]
  by_cases hx : place <+: x
  · have hne : x ≠ [] := fun he => hp (List.prefix_nil.mp (he ▸ hx))
    simp [hne, hx, List.isPrefixOf_iff_prefix.mpr hx]
  · simp [hx, Bool.eq_false_iff.mpr fun hi => hx (List.isPrefixOf_iff_prefix.mp hi)]

theorem not_isWay_file : ¬ IsWay (some (.file c m)) := by
  intro h
  rcases h with h | ⟨_, h⟩ <;> cases h

theorem not_isWay_none : ¬ IsWay none := by
  intro h
  rcases h with h | ⟨_, h⟩ <;> cases h

theorem ne_nil_of_not_isWay {place : List Name} (h : ¬ IsWay (d.node? place)) : place ≠ [] := by
  intro he
  subst he
  exact h (.inl rfl)

theorem sameWays_set {place : List Name} (h : ¬ IsWay (d.node? place)) :
    d.SameWays (d.set place (.file c m)) := by
  intro x name _ hw
  rw [node?_set (ne_nil_of_not_isWay h)] at hw ⊢
  split_ifs at hw ⊢ with hx
  · subst hx
    exact (hw.elim h not_isWay_file).elim
  · rfl

theorem spares_set (h : d.Apart p q) (hb : d.locate q = .ok b) (hn : ¬ IsWay b.node) :
    d.Spares (d.set b.place (.file c m)) p := by
  have hn' : ¬ IsWay (d.node? b.place) := (spot_node hb).2 ▸ hn
  refine ⟨sameWays_set hn', (sameWays_set hn').content?_eq fun a ha => ?_⟩
  rw [node?_set (ne_nil_of_not_isWay hn')]
  exact if_neg (h.places a b (h.plain.entry ha) (h.plain_aside.entry hb)).symm

theorem content?_set (hb : d.locate q = .ok b) (hn : ¬ IsWay b.node)
    (hq : q.meansFolder = false) : (d.set b.place (.file c m)).content? q = some c := by
  have hn' : ¬ IsWay (d.node? b.place) := (spot_node hb).2 ▸ hn
  refine content?_eq_some_iff.mpr ⟨hq, _, m, (sameWays_set hn').spot hb, ?_⟩
  exact (node?_set (ne_nil_of_not_isWay hn') _ _).trans (if_pos rfl)

theorem writeFile_ok (h : d.writeFile p content = .ok e) : ∃ a m, d.locate p = .ok a ∧
    ¬ IsWay a.node ∧ p.meansFolder = false ∧ e = d.set a.place (.file content m) := by
  obtain ⟨-, -, h⟩ := bind_eq_ok.mp h
  obtain ⟨⟨place, n⟩, hl, h⟩ := bind_eq_ok.mp h
  rcases n with _ | ⟨old, mode⟩ | _ | target
  · simp only at h
    split_ifs at h with hm
    cases h
    exact ⟨_, defaultMode, hl, not_isWay_none, Bool.eq_false_iff.mpr hm, rfl⟩
  · simp only at h
    split_ifs at h with hm
    cases h
    exact ⟨_, mode, hl, not_isWay_file, Bool.eq_false_iff.mpr hm, rfl⟩
  · cases h
  · cases h

theorem writeFile_of_free (hw : d.faults.write = none) (hp : p.meansFolder = false)
    (hfree : ∃ a, d.locate p = .ok a ∧ ¬ IsWay a.node) (content : Bytes) :
    ∃ e, d.writeFile p content = .ok e := by
  obtain ⟨⟨place, n⟩, ha, hn⟩ := hfree
  simp only [writeFile, failIf, hw, ha, bind, Except.bind]
  rcases n with _ | ⟨old, mode⟩ | _ | target
  · exact ⟨_, if_neg (Bool.eq_false_iff.mp hp)⟩
  · exact ⟨_, if_neg (Bool.eq_false_iff.mp hp)⟩
  · exact absurd (.inl rfl) hn
  · exact absurd (.inr ⟨target, rfl⟩) hn

theorem protectFile_ok (h : d.protectFile p = .ok e) : e = d ∨
    ∃ a c m, d.locate p = .ok a ∧ a.node = some (.file c m) ∧
      e = d.set a.place (.file c privateMode) := by
  obtain ⟨-, -, h⟩ := bind_eq_ok.mp h
  obtain ⟨⟨place, n⟩, hl, h⟩ := bind_eq_ok.mp h
  rcases n with _ | ⟨old, mode⟩ | _ | target
  · cases h
  · cases h
    exact .inr ⟨_, old, mode, hl, rfl, rfl⟩
  · cases h
    exact .inl rfl
  · cases h
    exact .inl rfl

theorem renameFile_ok (h : d.renameFile p q = .ok e) : ∃ a n b, d.locateEntry p = .ok a ∧
    a.node = some n ∧ d.locateEntry q = .ok b ∧ b.node ≠ some .folder ∧
    q.meansFolder = false ∧ e = (d.removeTree a.place).set b.place n := by
  obtain ⟨-, -, h⟩ := bind_eq_ok.mp h
  obtain ⟨⟨source, n⟩, hp, h⟩ := bind_eq_ok.mp h
  cases n with
  | none => cases h
  | some n =>
    obtain ⟨⟨target, m⟩, hq, h⟩ := bind_eq_ok.mp h
    split at h
    · cases h
    · rename_i place k hb he
      cases he
      split_ifs at h with hm
      cases h
      rw [Bool.or_eq_true, not_or] at hm
      exact ⟨_, n, _, hp, rfl, hq, hb, Bool.eq_false_iff.mpr hm.2, rfl⟩

theorem spares_faults (d : Disk) (faults : Faults) (p : FilePath) :
    d.Spares { d with faults := faults } p := by
  have hw : d.SameWays { d with faults := faults } := fun _ _ _ _ => rfl
  exact ⟨hw, hw.content?_eq fun _ _ => rfl⟩

theorem writeFile_sameWays (hw : d.writeFile q content = .ok e) :
    d.SameWays e ∧ e.content? q = some content := by
  obtain ⟨b, m, hb, hn, hq, rfl⟩ := writeFile_ok hw
  exact ⟨sameWays_set ((spot_node hb).2 ▸ hn), content?_set hb hn hq⟩

theorem spill_sameWays (d : Disk) (q : FilePath) (content : Bytes) :
    d.SameWays (d.spill q content) := by
  unfold spill
  split
  · exact .refl d
  · split
    · rename_i e he
      have hw := (spares_faults d { d.faults with write := none } q).1
      exact (hw.trans (writeFile_sameWays he).1).trans (spares_faults e d.faults q).1
    · exact .refl d

theorem protectFile_sameWays (hc : d.content? q = some c) (hp : d.protectFile q = .ok e) :
    d.SameWays e ∧ e.content? q = some c := by
  obtain ⟨hq, a, m, ha, hn⟩ := content?_eq_some_iff.mp hc
  rcases protectFile_ok hp with rfl | ⟨b, c', m', hb, hn', rfl⟩
  · exact ⟨.refl e, hc⟩
  · cases ha.symm.trans hb
    cases hn.symm.trans hn'
    have hw : ¬ IsWay a.node := hn ▸ not_isWay_file
    exact ⟨sameWays_set ((spot_node ha).2 ▸ hw), content?_set hb hw hq⟩

theorem writeFile_spares (h : d.Apart p q) (hw : d.writeFile q content = .ok e) :
    d.Spares e p ∧ e.content? q = some content := by
  refine ⟨?_, (writeFile_sameWays hw).2⟩
  obtain ⟨b, m, hb, hn, -, rfl⟩ := writeFile_ok hw
  exact spares_set h hb hn

theorem spill_spares (h : d.Apart p q) : d.Spares (d.spill q content) p := by
  unfold spill
  split
  · exact .refl d p
  · split
    · rename_i e he
      have hf := spares_faults d { d.faults with write := none } p
      exact (hf.trans (writeFile_spares (hf.1.apart h) he).1).trans (spares_faults e d.faults p)
    · exact .refl d p

theorem protectFile_spares (h : d.Apart p q) (hc : d.content? q = some c)
    (hp : d.protectFile q = .ok e) : d.Spares e p ∧ e.content? q = some c := by
  refine ⟨?_, (protectFile_sameWays hc hp).2⟩
  rcases protectFile_ok hp with rfl | ⟨b, c', m, hb, hn, rfl⟩
  · exact .refl e p
  · exact spares_set h hb (hn ▸ not_isWay_file)

theorem renameFile_moves (hp : d.Plain p) (hq : d.Plain q) (hc : d.content? q = some c)
    (hr : d.renameFile q p = .ok e) : d.SameWays e ∧ e.content? p = some c := by
  obtain ⟨a, n, b, ha, hn, hb, hf, hfile, rfl⟩ := renameFile_ok hr
  obtain ⟨-, a', m, ha', hn'⟩ := content?_eq_some_iff.mp hc
  cases (hq.locate ha).symm.trans ha'
  cases hn.symm.trans hn'
  have hna : d.node? a.place = some (.file c m) := (spot_node ha).2 ▸ hn
  have hnb : ¬ IsWay (d.node? b.place) :=
    (spot_node hb).2 ▸ fun hw => hw.elim hf (hp b hb)
  have hna' : a.place ≠ [] := ne_nil_of_not_isWay (hna ▸ not_isWay_file)
  have hnb' : b.place ≠ [] := ne_nil_of_not_isWay hnb
  have hw : d.SameWays ((d.removeTree a.place).set b.place (.file c m)) := by
    intro x name hx hw
    rw [node?_set hnb', node?_removeTree hna'] at hw ⊢
    split_ifs at hw ⊢ with hbx hax
    · exact (hw.elim (hbx ▸ hnb) not_isWay_file).elim
    · -- Only the file itself stands there, since no way leads through a file.
      rcases List.prefix_concat_iff.mp hax with hax | hax
      · rw [← hax, hna] at hw
        exact (hw.elim not_isWay_file not_isWay_none).elim
      · cases hna.symm.trans (hx _ hax)
    · rfl
  refine ⟨hw, content?_eq_some_iff.mpr ⟨hfile, _, m, hw.spot (hp.locate hb), ?_⟩⟩
  exact (node?_set hnb' _ _).trans (if_pos rfl)

end Steps

/-! ### All steps -/

section Replace
variable {d e : Disk} {p q : FilePath} {content : Bytes} {b : Option Blame}

theorem meansFolder_of_replaceFile (h : d.replaceFile p q content = (none, e)) :
    p.meansFolder = false := by
  simp only [replaceFile, replaceSteps, runSteps, Step.apply, Step.remains] at h
  split at h
  · split at h
    · split at h
      · rename_i d₃ h₃
        obtain ⟨-, -, -, -, -, -, -, hp, -⟩ := renameFile_ok h₃
        exact hp
      · cases h
    · cases h
  · cases h

theorem replaceFile_cases (h : d.Apart p q) (hr : d.replaceFile p q content = (b, e)) :
    d.SameWays e ∧ ((b = none ∧ e.content? p = some content) ∨
      (b ≠ none ∧ e.content? p = d.content? p)) := by
  have failed {e : Disk} {x : Blame} (hs : d.Spares e p) : d.SameWays e ∧
      ((some x = none ∧ e.content? p = some content) ∨
        (some x ≠ none ∧ e.content? p = d.content? p)) :=
    ⟨hs.1, .inr ⟨Option.some_ne_none x, hs.2⟩⟩
  simp only [replaceFile, replaceSteps, runSteps, Step.apply, Step.remains] at hr
  split at hr
  · rename_i d₁ h₁
    obtain ⟨hs₁, hc₁⟩ := writeFile_spares h h₁
    have ha₁ := hs₁.1.apart h
    split at hr
    · rename_i d₂ h₂
      obtain ⟨hs₂, hc₂⟩ := protectFile_spares ha₁ hc₁ h₂
      have hs := hs₁.trans hs₂
      split at hr
      · rename_i d₃ h₃
        cases hr
        have ha₂ := hs.1.apart h
        obtain ⟨hw, hc⟩ := renameFile_moves ha₂.plain ha₂.plain_aside hc₂ h₃
        exact ⟨hs.1.trans hw, .inl ⟨rfl, hc⟩⟩
      · cases hr
        exact failed hs
    · cases hr
      exact failed hs₁
  · cases hr
    exact failed (spill_spares h)

theorem replaceFile_sameWays (hp : d.Plain p) (hq : d.Plain q)
    (hr : d.replaceFile p q content = (b, e)) :
    d.SameWays e ∧ (b = none → e.content? p = some content) := by
  have failed {x : Blame} : some x = none → e.content? p = some content := fun h => by cases h
  simp only [replaceFile, replaceSteps, runSteps, Step.apply, Step.remains] at hr
  split at hr
  · rename_i d₁ h₁
    obtain ⟨hw₁, hc₁⟩ := writeFile_sameWays h₁
    split at hr
    · rename_i d₂ h₂
      obtain ⟨hw₂, hc₂⟩ := protectFile_sameWays hc₁ h₂
      have hw := hw₁.trans hw₂
      split at hr
      · rename_i d₃ h₃
        cases hr
        obtain ⟨hw₃, hc₃⟩ := renameFile_moves (hw.plain hp) (hw.plain hq) hc₂ h₃
        exact ⟨hw.trans hw₃, fun _ => hc₃⟩
      · cases hr
        exact ⟨hw, failed⟩
    · cases hr
      exact ⟨hw₁, failed⟩
  · cases hr
    exact ⟨spill_sameWays d q content, failed⟩

end Replace

/-! ### Without failure -/

/-- The paths lead to where files can stand, apart from each other, and no step fails of itself. -/
structure Ready (d : Disk) (p q : FilePath) : Prop where
  apart : d.Apart p q
  write : d.faults.write = none
  protect : d.faults.protect = none
  rename : d.faults.rename = none
  file : p.meansFolder = false
  aside : q.meansFolder = false
  place : ∃ a, d.locate p = .ok a ∧ ¬ IsWay a.node
  beside : ∃ a, d.locate q = .ok a ∧ ¬ IsWay a.node

section Ready
variable {d e : Disk} {p q : FilePath} {content c : Bytes}

theorem SameWays.locate_free (h : d.SameWays e)
    (hp : ∃ a, d.locate p = .ok a ∧ ¬ IsWay a.node) : ∃ a, e.locate p = .ok a ∧ ¬ IsWay a.node := by
  obtain ⟨a, ha, hn⟩ := hp
  obtain ⟨hr, hnode⟩ := spot_node ha
  rw [hnode] at hn
  exact ⟨_, h.spot ha, mt (h.isWay_iff hr).mp hn⟩

theorem Ready.sameWays (hr : d.Ready p q) (h : d.SameWays e) (hf : e.faults = d.faults) :
    e.Ready p q where
  apart := h.apart hr.apart
  write := hf ▸ hr.write
  protect := hf ▸ hr.protect
  rename := hf ▸ hr.rename
  file := hr.file
  aside := hr.aside
  place := h.locate_free hr.place
  beside := h.locate_free hr.beside

theorem Ready.writeFile (h : d.Ready p q) (content : Bytes) :
    ∃ e, d.writeFile q content = .ok e := writeFile_of_free h.write h.aside h.beside content

theorem Ready.protectFile (h : d.Ready p q) (hc : d.content? q = some c) :
    ∃ e, d.protectFile q = .ok e := by
  obtain ⟨-, ⟨place, n⟩, m, hq, hn⟩ := content?_eq_some_iff.mp hc
  cases hn
  exact ⟨_, by simp only [Disk.protectFile, failIf, h.protect, hq, bind, Except.bind]; rfl⟩

theorem Ready.renameFile (h : d.Ready p q) (hc : d.content? q = some c) :
    ∃ e, d.renameFile q p = .ok e := by
  obtain ⟨-, ⟨source, n⟩, m, hq, hn⟩ := content?_eq_some_iff.mp hc
  obtain ⟨⟨target, k⟩, hp, hk⟩ := h.place
  cases hn
  have hq' := h.apart.plain_aside.entry hq
  have hp' := h.apart.plain.entry hp
  have hnames : (q.meansFolder || p.meansFolder) = false := by rw [h.aside, h.file]; rfl
  simp only [Disk.renameFile, failIf, h.rename, hq', hp', bind, Except.bind, hnames]
  rcases k with _ | ⟨old, mode⟩ | _ | link
  · exact ⟨_, rfl⟩
  · exact ⟨_, rfl⟩
  · exact absurd (.inl rfl) hk
  · exact ⟨_, rfl⟩

theorem faults_writeFile (h : d.writeFile p content = .ok e) : e.faults = d.faults := by
  obtain ⟨a, m, -, -, -, rfl⟩ := writeFile_ok h
  rfl

theorem faults_protectFile (h : d.protectFile p = .ok e) : e.faults = d.faults := by
  rcases protectFile_ok h with rfl | ⟨a, c, m, -, -, rfl⟩ <;> rfl

theorem faults_renameFile (h : d.renameFile p q = .ok e) : e.faults = d.faults := by
  obtain ⟨a, n, b, -, -, -, -, -, rfl⟩ := renameFile_ok h
  rfl

theorem Ready.replaceFile (h : d.Ready p q) (content : Bytes) :
    ∃ e, d.replaceFile p q content = (none, e) ∧ e.Ready p q := by
  obtain ⟨d₁, h₁⟩ := h.writeFile content
  obtain ⟨hs₁, hc₁⟩ := writeFile_spares h.apart h₁
  have hr₁ := h.sameWays hs₁.1 (faults_writeFile h₁)
  obtain ⟨d₂, h₂⟩ := hr₁.protectFile hc₁
  obtain ⟨hs₂, hc₂⟩ := protectFile_spares hr₁.apart hc₁ h₂
  have hr₂ := hr₁.sameWays hs₂.1 (faults_protectFile h₂)
  obtain ⟨d₃, h₃⟩ := hr₂.renameFile hc₂
  obtain ⟨hw₃, -⟩ := renameFile_moves hr₂.apart.plain hr₂.apart.plain_aside hc₂ h₃
  refine ⟨d₃, ?_, hr₂.sameWays hw₃ (faults_renameFile h₃)⟩
  simp only [Disk.replaceFile, replaceSteps, runSteps, Step.apply, h₁, h₂, h₃]

end Ready
end PeerShare.Disk
