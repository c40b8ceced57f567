import PeerShare.Listing
import PeerShare.Proofs.Disk.Beside

/-!
What stands in a folder under a name. The path to a name in a folder is the way to the folder and
one step more, over links or not; so what the path leads to exists only if the folder has an entry
of that name, and a file can be written there unless a folder has the name or a link leads astray.
-/

namespace PeerShare

theorem segment_of_isFileName {name : String} (h : isFileName name = true) :
    name.toList ≠ [] ∧ name.toList ≠ ['.'] ∧ name.toList ≠ FilePath.upward ∧
      '/' ∉ name.toList ∧ '\x00' ∉ name.toList := by
  simp only [isFileName, Bool.and_eq_true, bne_iff_ne, List.all_eq_true] at h
  obtain ⟨⟨⟨hempty, hdot⟩, hup⟩, hall⟩ := h
  have ne {l : List Char} (hl : name ≠ String.ofList l) : name.toList ≠ l := fun he =>
    hl (by rw [← he, String.ofList_toList])
  exact ⟨ne hempty, ne hdot, ne hup, fun hc => (hall _ hc).1.1 rfl, fun hc => (hall _ hc).2 rfl⟩

namespace Disk
variable {d : Disk} {p : FilePath} {place : List Name} {name : String} {a : Spot}

section Walk
variable {follow : List Name → List FilePath.Segment → Except IoCause Spot}
  {rest segs : List FilePath.Segment} {done : List Name} {links : Nat}

theorem walkBy_append (hhere : ∀ done segs,
      walkBy d true follow done (d.below done) segs = d.walk true links done segs)
    (hf : ∀ done segs, follow done segs = .ok ⟨place, some .folder⟩ →
      ∃ m, follow done (segs ++ rest) = d.walk true m place rest)
    (h : walkBy d true follow done (d.below done) segs = .ok ⟨place, some .folder⟩) :
    ∃ m, walkBy d true follow done (d.below done) (segs ++ rest) = d.walk true m place rest := by
  induction segs generalizing done with
  | nil =>
    rw [walkBy_nil] at h
    obtain ⟨rfl, -⟩ := Spot.mk.inj (Except.ok.inj h)
    exact ⟨links, hhere _ _⟩
  | cons s more ih =>
    by_cases hs : s = FilePath.upward
    · rw [hs, walkBy_upward] at h
      rw [hs, List.cons_append, walkBy_upward]
      exact ih h
    · rw [walkBy_name done hs] at h
      rw [List.cons_append, walkBy_name done hs]
      split at h
      · cases h
      · rename_i hl
        rw [if_neg hl]
        split at h
        · exact ih h
        · rename_i target hn
          rw [if_neg fun hc => hc.2 rfl] at h ⊢
          rw [← List.append_assoc]
          exact hf _ _ h
        · -- The way would end at something that is no folder.
          rename_i hfolder hlink
          split at h
          · exact absurd (Spot.mk.inj (Except.ok.inj h)).2 hfolder
          · cases h

theorem walk_append (h : d.walk true links done segs = .ok ⟨place, some .folder⟩)
    (rest : List FilePath.Segment) :
    ∃ m, d.walk true links done (segs ++ rest) = d.walk true m place rest := by
  induction links generalizing done segs with
  | zero =>
    have hhere (done : List Name) (segs : List FilePath.Segment) :
        walkBy d true _ done (d.below done) segs = d.walk true 0 done segs := rfl
    exact walkBy_append hhere (fun _ _ hf => by cases hf) h
  | succ links ih =>
    have hhere (done : List Name) (segs : List FilePath.Segment) :
        walkBy d true _ done (d.below done) segs = d.walk true (links + 1) done segs := rfl
    exact walkBy_append hhere (fun _ _ hf => ih hf) h

theorem walkBy_singleton {s : FilePath.Segment} (hs : s ≠ FilePath.upward)
    (hn : ∀ target, d.node? (place ++ [Text.encode s]) ≠ some (.link target)) :
    walkBy d true follow place (d.below place) [s] =
      if nameLimit < (Text.encode s).length then .error .nameTooLong
      else .ok ⟨place ++ [Text.encode s], d.node? (place ++ [Text.encode s])⟩ := by
  rw [walkBy_name place hs]
  by_cases hl : nameLimit < (Text.encode s).length
  · rw [if_pos hl, if_pos hl]
  · rw [if_neg hl, if_neg hl]
    split
    · rw [walkBy_nil]
    · rename_i target hnode
      exact absurd hnode (hn target)
    · exact if_pos rfl

theorem walk_singleton {s : FilePath.Segment} (hs : s ≠ FilePath.upward)
    (hn : ∀ target, d.node? (place ++ [Text.encode s]) ≠ some (.link target)) (links : Nat) :
    d.walk true links place [s] =
      if nameLimit < (Text.encode s).length then .error .nameTooLong
      else .ok ⟨place ++ [Text.encode s], d.node? (place ++ [Text.encode s])⟩ := by
  cases links with
  | zero => exact walkBy_singleton hs hn
  | succ links => exact walkBy_singleton hs hn

end Walk

/-! ### Entries -/

theorem walk_child (hp : d.locate p = .ok ⟨place, some .folder⟩) (hname : isFileName name = true) :
    ∃ links, d.walk true linkLimit [] (p.child name).segments =
      d.walk true links place [name.toList] := by
  obtain ⟨hempty, hdot, -, hslash, -⟩ := segment_of_isFileName hname
  rw [FilePath.segments_child p hslash ⟨hempty, hdot⟩]
  exact walk_append (spot_ok_iff.mp hp).2.2.2 _

section Write
variable {follow : List Name → List FilePath.Segment → Except IoCause Spot}
  {segs : List FilePath.Segment} {done : List Name} {e : Disk}

theorem walkBy_not_isLink (hf : ∀ done segs a, d.Open done → follow done segs = .ok a → ¬ a.IsLink)
    (ho : d.Open done) (h : walkBy d true follow done (d.below done) segs = .ok a) :
    ¬ a.IsLink := by
  induction segs generalizing done with
  | nil =>
    rw [walkBy_nil, ho _ (List.prefix_refl done)] at h
    cases h
    rintro ⟨target, ht⟩
    cases ht
  | cons s rest ih =>
    by_cases hs : s = FilePath.upward
    · rw [hs, walkBy_upward] at h
      exact ih (ho.mono (List.dropLast_prefix _)) h
    · rw [walkBy_name done hs] at h
      split at h
      · cases h
      · split at h
        · rename_i hn
          exact ih (ho.push hn) h
        · rename_i target hn
          rw [if_neg fun hc => hc.2 rfl] at h
          exact hf _ _ _ (open_target ho target) h
        · rename_i hlink
          split at h <;> cases h
          rintro ⟨target, ht⟩
          exact hlink target ht

theorem not_isLink_of_locate (h : d.locate p = .ok a) : ¬ a.IsLink := by
  have walk {links : Nat} {segs : List FilePath.Segment} {done : List Name} {a : Spot}
      (ho : d.Open done) (h : d.walk true links done segs = .ok a) : ¬ a.IsLink := by
    induction links generalizing done segs a with
    | zero => exact walkBy_not_isLink (fun _ _ _ _ hf => by cases hf) ho h
    | succ links ih => exact walkBy_not_isLink (fun _ _ _ ho' hf => ih ho' hf) ho h
  exact walk (open_nil d) (spot_ok_iff.mp h).2.2.2

theorem isFolder_eq_true_iff :
    d.isFolder p = true ↔ ∃ place, d.locate p = .ok ⟨place, some .folder⟩ := by
  unfold isFolder
  split <;> simp_all

theorem isFolder_eq_false (ha : d.locate p = .ok a) (hn : ¬ IsWay a.node) :
    d.isFolder p = false := by
  rw [← Bool.not_eq_true, isFolder_eq_true_iff, ha]
  rintro ⟨place, hfolder⟩
  exact hn (.inl (congrArg Spot.node (Except.ok.inj hfolder)))

/-- A file can be written at the path: it leads somewhere, and to no folder. -/
structure Takes (d : Disk) (p : FilePath) : Prop where
  write : d.faults.write = none
  leads : ∃ a, d.locate p = .ok a
  free : d.isFolder p = false

theorem Takes.writeFile (h : d.Takes p) (hp : p.meansFolder = false) (content : Bytes) :
    ∃ e, d.writeFile p content = .ok e ∧ e.content? p = some content := by
  obtain ⟨⟨place, n⟩, ha⟩ := h.leads
  have hn : ¬ IsWay n := by
    rintro (rfl | hlink)
    · exact Bool.false_ne_true (h.free.symm.trans (isFolder_eq_true_iff.mpr ⟨place, ha⟩))
    · exact not_isLink_of_locate ha hlink
  obtain ⟨e, he⟩ := writeFile_of_free h.write hp ⟨_, ha, hn⟩ content
  obtain ⟨b, m, hb, hfree, -, rfl⟩ := writeFile_ok he
  exact ⟨_, he, content?_set hb hfree hp⟩

theorem takes_child (hp : d.locate p = .ok ⟨place, some .folder⟩) (hname : isFileName name = true)
    (hlength : (Text.bytes name).length ≤ nameLimit)
    (hpath : (p.child name).text.utf8ByteSize ≤ pathLimit) (hw : d.faults.write = none)
    (hfree : ¬ IsWay (d.node? (place ++ [Text.bytes name]))) : d.Takes (p.child name) := by
  obtain ⟨hempty, -, hup, hslash, hnul⟩ := segment_of_isFileName hname
  obtain ⟨hpnul, -, -, -⟩ := spot_ok_iff.mp hp
  obtain ⟨links, hwalk⟩ := walk_child hp hname
  have htext := FilePath.text_child p hslash
  have hlocate : d.locate (p.child name) =
      .ok ⟨place ++ [Text.bytes name], d.node? (place ++ [Text.bytes name])⟩ := by
    refine spot_ok_iff.mpr ⟨?_, ?_, hpath, ?_⟩
    · rw [htext]
      rw [← Bool.not_eq_true, List.contains_iff_mem] at hpnul ⊢
      split_ifs <;> simp [hpnul, hnul]
    · intro he
      rw [he] at htext
      split_ifs at htext <;> simp_all
    · rw [hwalk, walk_singleton hup fun target he => hfree (.inr ⟨target, he⟩)]
      exact if_neg (Nat.not_lt.mpr hlength)
  exact ⟨hw, ⟨_, hlocate⟩, isFolder_eq_false hlocate hfree⟩

end Write
end Disk
end PeerShare
