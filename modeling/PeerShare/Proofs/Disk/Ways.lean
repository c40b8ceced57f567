import Mathlib.Data.List.Basic
import Mathlib.Data.List.Induction
import PeerShare.Disk.Basic
import PeerShare.Proofs.Keyed

/-!
Which changes of a disk leave every path leading where it led. A path is led by folders and links
alone; two disks that agree on these, wherever a path can get, have the same ways, and every path
leads to the same place on both. What stands at that place may differ if it leads no further. A disk
with more folders leads every path where it led, too.
-/

namespace PeerShare.Disk

def IsWay (n : Option Node) : Prop := n = some .folder ∨ ∃ target, n = some (.link target)

def Open (d : Disk) (place : List Name) : Prop := ∀ q, q <+: place → d.node? q = some .folder

/-- The disks have the same folders and links wherever a path can get. -/
def SameWays (d e : Disk) : Prop :=
  ∀ q name, d.Open q → IsWay (d.node? (q ++ [name])) ∨ IsWay (e.node? (q ++ [name])) →
    e.node? (q ++ [name]) = d.node? (q ++ [name])

/-- The second disk has every folder and link that a path can get to on the first, and there no
other links. -/
def Extends (d e : Disk) : Prop :=
  ∀ q name, d.Open q →
    (IsWay (d.node? (q ++ [name])) → e.node? (q ++ [name]) = d.node? (q ++ [name])) ∧
    ∀ target, e.node? (q ++ [name]) = some (.link target) → IsWay (d.node? (q ++ [name]))

section Open
variable {d e f : Disk}

theorem node?_append (d : Disk) (q : List Name) (name : Name) :
    d.node? (q ++ [name]) = Keyed.get? (q ++ [name]) d.nodes := if_neg (by simp)

theorem open_nil (d : Disk) : d.Open [] := fun q hq => by
  rw [List.prefix_nil.mp hq]; rfl

theorem Open.mono {p q : List Name} (h : d.Open q) (hp : p <+: q) : d.Open p :=
  fun r hr => h r (hr.trans hp)

theorem Open.push {q : List Name} {name : Name} (h : d.Open q)
    (hn : d.node? (q ++ [name]) = some .folder) : d.Open (q ++ [name]) := by
  intro r hr
  rcases List.prefix_concat_iff.mp hr with rfl | hr
  · exact hn
  · exact h r hr

theorem SameWays.refl (d : Disk) : d.SameWays d := fun _ _ _ _ => rfl

theorem SameWays.open (h : d.SameWays e) {q : List Name} (hq : d.Open q) : e.Open q := by
  induction q using List.reverseRecOn with
  | nil => exact open_nil e
  | append_singleton q name ih =>
    have hq' := hq.mono (List.prefix_append q [name])
    have hn := hq _ (List.prefix_refl _)
    exact (ih hq').push ((h q name hq' (.inl (.inl hn))).trans hn)

theorem SameWays.open_of (h : d.SameWays e) {q : List Name} (hq : e.Open q) : d.Open q := by
  induction q using List.reverseRecOn with
  | nil => exact open_nil d
  | append_singleton q name ih =>
    have hq' := ih (hq.mono (List.prefix_append q [name]))
    have hn := hq _ (List.prefix_refl _)
    exact hq'.push ((h q name hq' (.inr (.inl hn))).symm.trans hn)

theorem SameWays.symm (h : d.SameWays e) : e.SameWays d := fun q name hq hw =>
  (h q name (h.open_of hq) hw.symm).symm

theorem SameWays.extends (h : d.SameWays e) : d.Extends e := fun q name hq =>
  ⟨fun hw => h q name hq (.inl hw), fun target ht =>
    h q name hq (.inr (.inr ⟨target, ht⟩)) ▸ .inr ⟨target, ht⟩⟩

theorem SameWays.trans (h : d.SameWays e) (h' : e.SameWays f) : d.SameWays f := by
  intro q name hq hw
  rcases hw with hw | hw
  · have he := h q name hq (.inl hw)
    exact (h' q name (h.open hq) (.inl (he ▸ hw))).trans he
  · have he := h' q name (h.open hq) (.inr hw)
    exact he.trans (h q name hq (.inr (he ▸ hw)))

end Open

/-! ### Steps of a walk -/

section Walk
variable {d e : Disk} {last : Bool}
  {follow follow' : List Name → List FilePath.Segment → Except IoCause Spot}

theorem below_append (d : Disk) (done : List Name) (name : Name) :
    d.below (done ++ [name]) = inside name (d.below done) := by
  simp [below, List.foldl_append]

theorem get?_inside_below (d : Disk) (done : List Name) (name : Name) :
    Keyed.get? [] (inside name (d.below done)) = d.node? (done ++ [name]) := by
  rw [node?_append, ← below_append, get?_below, List.append_nil]

theorem walkBy_nil (done : List Name) :
    walkBy d last follow done (d.below done) [] = .ok ⟨done, d.node? done⟩ := by
  simp only [walkBy, node?, get?_below, List.append_nil]

theorem walkBy_upward (done : List Name) (rest : List FilePath.Segment) :
    walkBy d last follow done (d.below done) (FilePath.upward :: rest) =
      walkBy d last follow done.dropLast (d.below done.dropLast) rest := by
  simp only [walkBy, if_pos]

theorem walkBy_name (done : List Name) {s : FilePath.Segment} (hs : s ≠ FilePath.upward)
    (rest : List FilePath.Segment) :
    walkBy d last follow done (d.below done) (s :: rest) =
      if nameLimit < (Text.encode s).length then .error .nameTooLong
      else match d.node? (done ++ [Text.encode s]) with
        | some .folder => walkBy d last follow (done ++ [Text.encode s])
            (d.below (done ++ [Text.encode s])) rest
        | some (.link target) =>
          if rest = [] ∧ ¬ last then .ok ⟨done ++ [Text.encode s], some (.link target)⟩
          else follow (if target.isAbsolute then [] else done) (target.segments ++ rest)
        | n =>
          if rest = [] then .ok ⟨done ++ [Text.encode s], n⟩
          else .error (if n.isSome then .notDirectory else .notFound) := by
  rw [← get?_inside_below, below_append]
  exact if_neg hs

def Reachable (d : Disk) (place : List Name) : Prop :=
  place = [] ∨ ∃ q name, place = q ++ [name] ∧ d.Open q

theorem Open.reachable {place : List Name} (h : d.Open place) : d.Reachable place := by
  rcases List.eq_nil_or_concat' place with rfl | ⟨q, name, rfl⟩
  · exact .inl rfl
  · exact .inr ⟨q, name, rfl, h.mono (List.prefix_append _ _)⟩

theorem open_target {done : List Name} (h : d.Open done) (target : FilePath) :
    d.Open (if target.isAbsolute then [] else done) := by
  split
  · exact open_nil d
  · exact h

theorem walkBy_spot (hf : ∀ done segs a, d.Open done → follow done segs = .ok a →
      d.Reachable a.place ∧ a.node = d.node? a.place)
    {segs : List FilePath.Segment} {done : List Name} {a : Spot} (ho : d.Open done)
    (h : walkBy d last follow done (d.below done) segs = .ok a) :
    d.Reachable a.place ∧ a.node = d.node? a.place := by
  induction segs generalizing done with
  | nil =>
    rw [walkBy_nil] at h
    cases h
    exact ⟨ho.reachable, rfl⟩
  | cons s rest ih =>
    by_cases hs : s = FilePath.upward
    · rw [hs, walkBy_upward] at h
      exact ih (ho.mono (List.dropLast_prefix _)) h
    · have here : d.Reachable (done ++ [Text.encode s]) := .inr ⟨done, _, rfl, ho⟩
      rw [walkBy_name done hs] at h
      split at h
      · cases h
      · split at h
        · rename_i hn
          exact ih (ho.push hn) h
        · rename_i target hn
          split at h
          · cases h
            exact ⟨here, hn.symm⟩
          · exact hf _ _ _ (open_target ho target) h
        · split at h <;> cases h
          exact ⟨here, rfl⟩

theorem walk_spot {links : Nat} {segs : List FilePath.Segment} {done : List Name} {a : Spot}
    (ho : d.Open done) (h : d.walk last links done segs = .ok a) :
    d.Reachable a.place ∧ a.node = d.node? a.place := by
  induction links generalizing done segs a with
  | zero => exact walkBy_spot (fun _ _ _ _ hf => by cases hf) ho h
  | succ links ih => exact walkBy_spot (fun _ _ _ ho' hf => ih ho' hf) ho h

theorem walkBy_extends (hw : d.Extends e)
    (hf : ∀ done segs a, d.Open done → follow done segs = .ok a →
      follow' done segs = .ok ⟨a.place, e.node? a.place⟩)
    {segs : List FilePath.Segment} {done : List Name} {a : Spot} (ho : d.Open done)
    (h : walkBy d last follow done (d.below done) segs = .ok a) :
    walkBy e last follow' done (e.below done) segs = .ok ⟨a.place, e.node? a.place⟩ := by
  induction segs generalizing done with
  | nil =>
    rw [walkBy_nil] at h ⊢
    cases h
    rfl
  | cons s rest ih =>
    by_cases hs : s = FilePath.upward
    · rw [hs, walkBy_upward] at h ⊢
      exact ih (ho.mono (List.dropLast_prefix _)) h
    · rw [walkBy_name done hs] at h ⊢
      obtain ⟨hn, hlinks⟩ := hw done (Text.encode s) ho
      split at h
      · cases h
      · rename_i hl
        rw [if_neg hl]
        split at h
        · rename_i hd
          rw [hn (.inl hd), hd]
          exact ih (ho.push hd) h
        · rename_i target hd
          rw [hn (.inr ⟨target, hd⟩), hd]
          dsimp only
          split at h
          · rename_i hr
            cases h
            rw [if_pos hr, hn (.inr ⟨target, hd⟩), hd]
          · rename_i hr
            rw [if_neg hr]
            exact hf _ _ _ (open_target ho target) h
        · -- The first disk has no way here, and so the path ends; the second has no link.
          rename_i hfolder hlink
          split at h <;> cases h
          rename_i hr
          split
          · rw [hr, walkBy_nil]
          · rename_i target he
            rcases hlinks target he with hd | ⟨target, hd⟩
            · exact absurd hd hfolder
            · exact absurd hd (hlink target)
          · rw [if_pos hr]

theorem walk_extends (hw : d.Extends e) {links : Nat} {segs : List FilePath.Segment}
    {done : List Name} {a : Spot} (ho : d.Open done) (h : d.walk last links done segs = .ok a) :
    e.walk last links done segs = .ok ⟨a.place, e.node? a.place⟩ := by
  induction links generalizing done segs a with
  | zero => exact walkBy_extends hw (fun _ _ _ _ hf => by cases hf) ho h
  | succ links ih => exact walkBy_extends hw (fun _ _ _ ho' hf => ih ho' hf) ho h

end Walk

/-! ### Links at the end -/

section Last
variable {d : Disk} {follow follow' : List Name → List FilePath.Segment → Except IoCause Spot}

def Spot.IsLink (a : Spot) : Prop := ∃ target, a.node = some (.link target)

theorem walkBy_entry (hf : ∀ done segs a, follow done segs = .ok a →
      ∃ b, follow' done segs = .ok b ∧ (b = a ∨ b.IsLink))
    {segs : List FilePath.Segment} {done : List Name} {a : Spot}
    (h : walkBy d true follow done (d.below done) segs = .ok a) :
    ∃ b, walkBy d false follow' done (d.below done) segs = .ok b ∧ (b = a ∨ b.IsLink) := by
  induction segs generalizing done with
  | nil =>
    rw [walkBy_nil] at h
    cases h
    exact ⟨_, walkBy_nil done, .inl rfl⟩
  | cons s rest ih =>
    by_cases hs : s = FilePath.upward
    · rw [hs, walkBy_upward] at h ⊢
      exact ih h
    · rw [walkBy_name done hs] at h ⊢
      split at h
      · cases h
      · rename_i hl
        rw [if_neg hl]
        split at h
        · exact ih h
        · rename_i target hn
          rw [if_neg fun hc => hc.2 rfl] at h
          by_cases hr : rest = []
          · exact ⟨_, if_pos ⟨hr, Bool.false_ne_true⟩, .inr ⟨target, rfl⟩⟩
          · rw [if_neg fun hc => hr hc.1]
            exact hf _ _ _ h
        · split at h <;> cases h
          rename_i hr
          exact ⟨_, if_pos hr, .inl rfl⟩

theorem walk_entry {links : Nat} {segs : List FilePath.Segment} {done : List Name} {a : Spot}
    (h : d.walk true links done segs = .ok a) :
    ∃ b, d.walk false links done segs = .ok b ∧ (b = a ∨ b.IsLink) := by
  induction links generalizing done segs a with
  | zero => exact walkBy_entry (fun _ _ _ hf => by cases hf) h
  | succ links ih => exact walkBy_entry (fun _ _ _ hf => ih hf) h

theorem walkBy_followed (hf : ∀ done segs b, follow' done segs = .ok b → ¬ b.IsLink →
      follow done segs = .ok b)
    {segs : List FilePath.Segment} {done : List Name} {b : Spot} (hb : ¬ b.IsLink)
    (h : walkBy d false follow' done (d.below done) segs = .ok b) :
    walkBy d true follow done (d.below done) segs = .ok b := by
  induction segs generalizing done with
  | nil =>
    rw [walkBy_nil] at h ⊢
    exact h
  | cons s rest ih =>
    by_cases hs : s = FilePath.upward
    · rw [hs, walkBy_upward] at h ⊢
      exact ih h
    · rw [walkBy_name done hs] at h ⊢
      split at h
      · cases h
      · rename_i hl
        rw [if_neg hl]
        split at h
        · exact ih h
        · rename_i target hn
          rw [if_neg fun hc => hc.2 rfl]
          by_cases hr : rest = []
          · rw [if_pos ⟨hr, Bool.false_ne_true⟩] at h
            cases h
            exact absurd ⟨target, rfl⟩ hb
          · rw [if_neg fun hc => hr hc.1] at h
            exact hf _ _ _ h hb
        · exact h

theorem walk_followed {links : Nat} {segs : List FilePath.Segment} {done : List Name} {b : Spot}
    (hb : ¬ b.IsLink) (h : d.walk false links done segs = .ok b) :
    d.walk true links done segs = .ok b := by
  induction links generalizing done segs b with
  | zero => exact walkBy_followed (fun _ _ _ hf => by cases hf) hb h
  | succ links ih => exact walkBy_followed (fun _ _ _ hf hb => ih hb hf) hb h

end Last

/-! ### Where paths lead -/

section Paths
variable {d e : Disk} {p : FilePath} {a b : Spot} {last : Bool}

theorem spot_ok_iff : d.spot last p = .ok a ↔ p.text.toList.contains '\x00' = false ∧
    p.text ≠ "" ∧ p.text.utf8ByteSize ≤ pathLimit ∧
      d.walk last linkLimit [] p.segments = .ok a := by
  unfold spot
  split_ifs with h1 h2 h3
  · simp_all
  · simp_all
  · simp [Nat.not_le.mpr h3]
  · simp_all

theorem spot_node (h : d.spot last p = .ok a) : d.Reachable a.place ∧ a.node = d.node? a.place :=
  walk_spot (open_nil d) (spot_ok_iff.mp h).2.2.2

theorem Extends.spot (hw : d.Extends e) (h : d.spot last p = .ok a) :
    e.spot last p = .ok ⟨a.place, e.node? a.place⟩ := by
  rw [spot_ok_iff] at h ⊢
  exact ⟨h.1, h.2.1, h.2.2.1, walk_extends hw (open_nil d) h.2.2.2⟩

theorem SameWays.spot (hw : d.SameWays e) (h : d.spot last p = .ok a) :
    e.spot last p = .ok ⟨a.place, e.node? a.place⟩ := hw.extends.spot h

theorem locateEntry_of_locate (h : d.locate p = .ok a) :
    ∃ b, d.locateEntry p = .ok b ∧ (b = a ∨ b.IsLink) := by
  obtain ⟨h1, h2, h3, hw⟩ := spot_ok_iff.mp h
  obtain ⟨b, hb, hab⟩ := walk_entry hw
  exact ⟨b, spot_ok_iff.mpr ⟨h1, h2, h3, hb⟩, hab⟩

theorem locate_of_locateEntry (h : d.locateEntry p = .ok b) (hb : ¬ b.IsLink) :
    d.locate p = .ok b := by
  obtain ⟨h1, h2, h3, hw⟩ := spot_ok_iff.mp h
  exact spot_ok_iff.mpr ⟨h1, h2, h3, walk_followed hb hw⟩

end Paths
end PeerShare.Disk
