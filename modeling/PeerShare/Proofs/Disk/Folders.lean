import PeerShare.Proofs.Disk.Child

/-!
What it takes to have a folder, and a file in it. Creating folders puts folders where nothing stood
and changes nothing else, and a path that does not go back up leads to no other file then. If a file
can be written in a folder, the folder is there; the file stands in it under its name, unless a link
of that name leads elsewhere; and writing it changes one place.
-/

namespace PeerShare.Disk

variable {d e f : Disk} {p : FilePath} {place : List Name} {name : String} {a : Spot}

/-! ### Creating folders -/

/-- There are new folders where nothing stood, and nothing else is new. -/
def Grown (d e : Disk) : Prop :=
  ∀ q, e.node? q = d.node? q ∨ d.node? q = none ∧ e.node? q = some .folder

theorem Grown.refl (d : Disk) : d.Grown d := fun _ => .inl rfl

theorem Grown.trans (h : d.Grown e) (h' : e.Grown f) : d.Grown f := by
  intro q
  rcases h q with hd | ⟨hd, he⟩
  · rw [← hd]
    exact h' q
  · rcases h' q with hf | ⟨hnone, -⟩
    · exact .inr ⟨hd, hf.trans he⟩
    · rw [he] at hnone
      cases hnone

theorem Grown.node?_of_some {n : Node} (h : d.Grown e) {q : List Name}
    (hd : d.node? q = some n) : e.node? q = some n := by
  rcases h q with he | ⟨hnone, -⟩
  · exact he.trans hd
  · cases hnone.symm.trans hd

theorem Grown.node?_of_ne {n : Node} (h : d.Grown e) {q : List Name} (he : e.node? q = some n)
    (hn : n ≠ .folder) : d.node? q = some n := by
  rcases h q with hd | ⟨-, hfolder⟩
  · exact hd.symm.trans he
  · exact absurd (Option.some.inj (he.symm.trans hfolder)) hn

theorem Grown.extends (h : d.Grown e) : d.Extends e := by
  intro q name _
  constructor
  · rintro (hd | ⟨target, hd⟩)
    · exact (h.node?_of_some hd).trans hd.symm
    · exact (h.node?_of_some hd).trans hd.symm
  · exact fun target ht => .inr ⟨target, h.node?_of_ne ht (by simp)⟩

theorem createFolder_ok (h : d.createFolder p = .ok e) : ∃ place, place ≠ [] ∧
    d.locate p = .ok ⟨place, none⟩ ∧ d.node? place = none ∧ e = d.set place .folder := by
  obtain ⟨⟨place, n⟩, ha, h⟩ := bind_eq_ok.mp h
  cases n with
  | some n => cases h
  | none =>
    cases h
    have hnone : d.node? place = none := (spot_node ha).2.symm
    have hlink : ¬ Spot.IsLink ⟨place, none⟩ := by
      rintro ⟨target, ht⟩
      cases ht
    exact ⟨place, ne_nil_of_not_isWay (hnone ▸ not_isWay_none), locate_of_locateEntry ha hlink,
      hnone, rfl⟩

theorem grown_createFolder (h : d.createFolder p = .ok e) : d.Grown e := by
  obtain ⟨place, hplace, -, hnone, rfl⟩ := createFolder_ok h
  intro q
  rw [node?_set hplace]
  split_ifs with hq
  · exact .inr ⟨hq ▸ hnone, rfl⟩
  · exact .inl rfl

theorem isFolder_of_createFolder (h : d.createFolder p = .ok e) : e.isFolder p = true := by
  have hg := grown_createFolder h
  obtain ⟨place, hplace, hlocate, -, rfl⟩ := createFolder_ok h
  have hspot := hg.extends.spot hlocate
  rw [node?_set hplace, if_pos rfl] at hspot
  exact isFolder_eq_true_iff.mpr ⟨place, hspot⟩

theorem createFoldersUpTo_ok {depth : Nat} (h : d.createFoldersUpTo p depth = .ok e) :
    d.Grown e ∧ (p.text ≠ "" → e.isFolder p = true) := by
  induction depth generalizing d p e with
  | zero => cases h
  | succ depth ih =>
    have made {d' : Disk} (hg : d.Grown d') (hmade : d'.createFolder p = .ok e) :
        d.Grown e ∧ (p.text ≠ "" → e.isFolder p = true) :=
      ⟨hg.trans (grown_createFolder hmade), fun _ => isFolder_of_createFolder hmade⟩
    simp only [createFoldersUpTo] at h
    split at h
    · rename_i hempty
      cases h
      exact ⟨.refl d, fun hne => absurd (beq_iff_eq.mp hempty) hne⟩
    · split at h
      · rename_i hmade
        cases h
        exact made (.refl d) hmade
      · split at h
        · cases h
        · -- The folders above have been made, and the folder is tried again.
          obtain ⟨d', hup, h⟩ := bind_eq_ok.mp h
          obtain ⟨hg, -⟩ := ih hup
          split at h
          · rename_i hmade
            cases h
            exact made hg hmade
          · split_ifs at h with hthere
            cases h
            exact ⟨hg, fun _ => hthere⟩
      · split_ifs at h with hthere
        cases h
        exact ⟨.refl d, fun _ => hthere⟩

theorem grown_createFolders (h : d.createFolders p = .ok e) : d.Grown e := by
  obtain ⟨-, -, h⟩ := bind_eq_ok.mp h
  exact (createFoldersUpTo_ok h).1

theorem isFolder_of_createFolders (hp : p.text ≠ "") (h : d.createFolders p = .ok e) :
    e.isFolder p = true := by
  obtain ⟨-, -, h⟩ := bind_eq_ok.mp h
  exact (createFoldersUpTo_ok h).2 hp

theorem createFolders_of_isFolder (hf : d.isFolder p = true) (h : d.createFolders p = .ok e) :
    e = d := by
  obtain ⟨place, hplace⟩ := isFolder_eq_true_iff.mp hf
  obtain ⟨b, hb, hcase⟩ := locateEntry_of_locate hplace
  have hstands : ∃ n, b.node = some n := by
    rcases hcase with rfl | ⟨target, htarget⟩
    · exact ⟨_, rfl⟩
    · exact ⟨_, htarget⟩
  -- A link to the folder is no free name either.
  have hmade : d.createFolder p = .error .alreadyExists := by
    obtain ⟨n, hn⟩ := hstands
    obtain ⟨place', node⟩ := b
    obtain rfl : node = some n := hn
    simp only [createFolder, hb]
    rfl
  obtain ⟨-, -, h⟩ := bind_eq_ok.mp h
  simp only [createFoldersUpTo, hmade, hf, if_true] at h
  split_ifs at h <;> exact (Except.ok.inj h).symm

theorem SameWays.isFolder (h : d.SameWays e) (hf : d.isFolder p = true) : e.isFolder p = true := by
  obtain ⟨place, hp⟩ := isFolder_eq_true_iff.mp hf
  obtain ⟨hr, hn⟩ := spot_node hp
  have hnode : e.node? place = some .folder := by
    rcases hr with rfl | ⟨q, name, rfl, hq⟩
    · rfl
    · exact (h q name hq (.inl (.inl hn.symm))).trans hn.symm
  exact isFolder_eq_true_iff.mpr ⟨place, hnode ▸ h.spot hp⟩

/-! ### Ways over new folders -/

/-- Everything stands in a folder, and no link leads back up. -/
structure Straight (d : Disk) : Prop where
  tree : ∀ place name, d.node? (place ++ [name]) ≠ none → d.node? place = some .folder
  links : ∀ place target, d.node? place = some (.link target) →
    FilePath.upward ∉ target.segments

section New
variable {last : Bool} {follow follow' : List Name → List FilePath.Segment → Except IoCause Spot}
  {segs : List FilePath.Segment} {done : List Name}

theorem walkBy_new (hd : d.Straight) (hg : d.Grown e) (hup : FilePath.upward ∉ segs)
    (hnew : d.node? done = none)
    (h : walkBy e last follow done (e.below done) segs = .ok a) : d.node? a.place = none := by
  induction segs generalizing done with
  | nil =>
    rw [walkBy_nil] at h
    cases h
    exact hnew
  | cons s rest ih =>
    rw [List.mem_cons, not_or] at hup
    have hnone : d.node? (done ++ [Text.encode s]) = none := by
      by_contra hsome
      cases hnew.symm.trans (hd.tree _ _ hsome)
    rw [walkBy_name done (Ne.symm hup.1)] at h
    split at h
    · cases h
    · split at h
      · exact ih hup.2 hnone h
      · rename_i target hlink
        cases hnone.symm.trans (hg.node?_of_ne hlink (by simp))
      · split at h <;> cases h
        exact hnone

theorem walkBy_grown (hd : d.Straight) (hg : d.Grown e)
    (hf : ∀ done segs a, FilePath.upward ∉ segs → follow' done segs = .ok a →
      follow done segs = .ok ⟨a.place, d.node? a.place⟩ ∨ d.node? a.place = none)
    (hup : FilePath.upward ∉ segs)
    (h : walkBy e last follow' done (e.below done) segs = .ok a) :
    walkBy d last follow done (d.below done) segs = .ok ⟨a.place, d.node? a.place⟩ ∨
      d.node? a.place = none := by
  induction segs generalizing done with
  | nil =>
    rw [walkBy_nil] at h ⊢
    cases h
    exact .inl rfl
  | cons s rest ih =>
    rw [List.mem_cons, not_or] at hup
    rw [walkBy_name done (Ne.symm hup.1)] at h ⊢
    split at h
    · cases h
    · rename_i hl
      rw [if_neg hl]
      rcases hg (done ++ [Text.encode s]) with he | ⟨hnew, hfolder⟩
      · rw [he] at h
        split at h
        · exact ih hup.2 h
        · rename_i target hn
          split at h
          · rename_i hr
            cases h
            rw [if_pos hr, hn]
            exact .inl rfl
          · rename_i hr
            rw [if_neg hr]
            refine hf _ _ _ ?_ h
            rw [List.mem_append, not_or]
            exact ⟨hd.links _ _ hn, hup.2⟩
        · split at h <;> cases h
          rename_i hr
          exact .inl (if_pos hr)
      · -- The way enters a new folder and does not leave it again.
        rw [hfolder] at h
        exact .inr (walkBy_new hd hg hup.2 hnew h)

theorem walk_grown (hd : d.Straight) (hg : d.Grown e) {links : Nat}
    (hup : FilePath.upward ∉ segs) (h : e.walk last links done segs = .ok a) :
    d.walk last links done segs = .ok ⟨a.place, d.node? a.place⟩ ∨ d.node? a.place = none := by
  induction links generalizing done segs a with
  | zero => exact walkBy_grown hd hg (fun _ _ _ _ hf => by cases hf) hup h
  | succ links ih => exact walkBy_grown hd hg (fun _ _ _ hup' hf => ih hup' hf) hup h

theorem Straight.spot (hd : d.Straight) (hg : d.Grown e) (hup : FilePath.upward ∉ p.segments)
    (h : e.spot last p = .ok a) :
    d.spot last p = .ok ⟨a.place, d.node? a.place⟩ ∨ d.node? a.place = none := by
  obtain ⟨hnul, hempty, hlength, hwalk⟩ := spot_ok_iff.mp h
  exact (walk_grown hd hg hup hwalk).imp_left fun hw =>
    spot_ok_iff.mpr ⟨hnul, hempty, hlength, hw⟩

theorem Straight.plain (hd : d.Straight) (hg : d.Grown e) (hup : FilePath.upward ∉ p.segments)
    (hp : d.Plain p) : e.Plain p := by
  rintro a ha ⟨target, hlink⟩
  have hn : d.node? a.place = some (.link target) :=
    hg.node?_of_ne ((spot_node ha).2.symm.trans hlink) (by simp)
  rcases hd.spot hg hup ha with h | h
  · exact hp _ h ⟨target, hn⟩
  · cases h.symm.trans hn

theorem Straight.content?_eq (hd : d.Straight) (hg : d.Grown e)
    (hup : FilePath.upward ∉ p.segments) : e.content? p = d.content? p := by
  have hl (c : Bytes) : e.content? p = some c ↔ d.content? p = some c := by
    rw [content?_eq_some_iff, content?_eq_some_iff]
    refine and_congr_right fun _ => ⟨?_, ?_⟩
    · rintro ⟨a, m, ha, hc⟩
      have hn := hg.node?_of_ne ((spot_node ha).2.symm.trans hc) (by simp)
      rcases hd.spot hg hup ha with h | h
      · exact ⟨_, m, h, hn⟩
      · cases h.symm.trans hn
    · rintro ⟨a, m, ha, hc⟩
      have hn := hg.node?_of_some ((spot_node ha).2.symm.trans hc)
      exact ⟨_, m, hg.extends.spot ha, hn⟩
  exact Option.ext hl

end New

/-! ### The folder of a file -/

section Parent
variable {q : FilePath}

def HasParent (d : Disk) (p : FilePath) : Prop :=
  ∀ q, p.parent? = some q → q.text ≠ "" → d.isFolder q = true

theorem createParent_ok (h : d.createParent p = .ok e) :
    (e = d ∧ ∀ q, p.parent? = some q → q.text = "") ∨
    ∃ q, p.parent? = some q ∧ q.text ≠ "" ∧ d.createFolders q = .ok e := by
  unfold createParent at h
  split at h
  · rename_i hnone
    cases h
    exact .inl ⟨rfl, fun q hq => by cases hnone.symm.trans hq⟩
  · rename_i folder hfolder
    split_ifs at h with hempty
    · cases h
      refine .inl ⟨rfl, fun q hq => ?_⟩
      cases hfolder.symm.trans hq
      exact beq_iff_eq.mp hempty
    · split at h
      · rename_i hmade
        cases h
        exact .inr ⟨folder, hfolder, fun he => hempty (beq_iff_eq.mpr he), hmade⟩
      · cases h

theorem grown_createParent (h : d.createParent p = .ok e) : d.Grown e := by
  rcases createParent_ok h with ⟨rfl, -⟩ | ⟨q, -, -, hmade⟩
  · exact .refl e
  · exact grown_createFolders hmade

theorem hasParent_createParent (h : d.createParent p = .ok e) : e.HasParent p := by
  intro q hq hne
  rcases createParent_ok h with ⟨-, hempty⟩ | ⟨folder, hfolder, hne, hmade⟩
  · exact absurd (hempty q hq) hne
  · cases hfolder.symm.trans hq
    exact isFolder_of_createFolders hne hmade

theorem HasParent.createParent_eq (hp : d.HasParent p) (h : d.createParent p = .ok e) : e = d := by
  rcases createParent_ok h with ⟨he, -⟩ | ⟨q, hq, hne, hmade⟩
  · exact he
  · exact createFolders_of_isFolder (hp q hq hne) hmade

theorem HasParent.sameWays (hp : d.HasParent p) (h : d.SameWays e) : e.HasParent p :=
  fun q hq hne => h.isFolder (hp q hq hne)

end Parent

/-! ### Files in folders -/

/-- The path leads to a folder at the place; the empty path leads to where all paths begin. -/
def FolderAt (d : Disk) (p : FilePath) (place : List Name) : Prop :=
  d.walk true linkLimit [] p.segments = .ok ⟨place, some .folder⟩

section Walk
variable {follow : List Name → List FilePath.Segment → Except IoCause Spot}
  {rest segs : List FilePath.Segment} {done : List Name} {links : Nat}

theorem walkBy_folder (hr : rest ≠ []) (hf : ∀ done segs, d.Open done →
      follow done (segs ++ rest) = .ok a → ∃ place, follow done segs = .ok ⟨place, some .folder⟩)
    (ho : d.Open done)
    (h : walkBy d true follow done (d.below done) (segs ++ rest) = .ok a) :
    ∃ place, walkBy d true follow done (d.below done) segs = .ok ⟨place, some .folder⟩ := by
  induction segs generalizing done with
  | nil =>
    rw [walkBy_nil, ho done (List.prefix_refl done)]
    exact ⟨done, rfl⟩
  | cons s more ih =>
    by_cases hs : s = FilePath.upward
    · rw [hs, List.cons_append, walkBy_upward] at h
      rw [hs, walkBy_upward]
      exact ih (ho.mono (List.dropLast_prefix _)) h
    · rw [List.cons_append, walkBy_name done hs] at h
      rw [walkBy_name done hs]
      split at h
      · cases h
      · rename_i hl
        rw [if_neg hl]
        split at h
        · rename_i hn
          exact ih (ho.push hn) h
        · rename_i target hn
          rw [if_neg fun hc => hc.2 rfl] at h ⊢
          rw [← List.append_assoc] at h
          exact hf _ _ (open_target ho target) h
        · -- The way would end before the rest of it.
          rw [if_neg fun he => hr (List.append_eq_nil_iff.mp he).2] at h
          cases h

theorem walk_folder (hr : rest ≠ []) (ho : d.Open done)
    (h : d.walk true links done (segs ++ rest) = .ok a) :
    ∃ place, d.walk true links done segs = .ok ⟨place, some .folder⟩ := by
  induction links generalizing done segs with
  | zero => exact walkBy_folder hr (fun _ _ _ hf => by cases hf) ho h
  | succ links ih => exact walkBy_folder hr (fun _ _ ho' hf => ih ho' hf) ho h

end Walk

theorem folderAt_of_locate_child (hname : isFileName name = true)
    (ha : d.locate (p.child name) = .ok a) : ∃ place, d.FolderAt p place := by
  obtain ⟨hempty, hdot, -, hslash, -⟩ := segment_of_isFileName hname
  have hwalk := (spot_ok_iff.mp ha).2.2.2
  rw [FilePath.segments_child p hslash ⟨hempty, hdot⟩] at hwalk
  exact walk_folder (List.cons_ne_nil _ _) (open_nil d) hwalk

theorem Takes.locate_child (h : d.Takes (p.child name)) (hname : isFileName name = true)
    (hp : d.FolderAt p place) (hlink : ∀ target, d.node? (place ++ [Text.bytes name]) ≠
      some (.link target)) : ∃ n, d.locate (p.child name) = .ok ⟨place ++ [Text.bytes name], n⟩ := by
  obtain ⟨hempty, hdot, hup, hslash, -⟩ := segment_of_isFileName hname
  obtain ⟨a, ha⟩ := h.leads
  have hwalk := (spot_ok_iff.mp ha).2.2.2
  rw [FilePath.segments_child p hslash ⟨hempty, hdot⟩] at hwalk
  obtain ⟨links, hrest⟩ := walk_append hp [name.toList]
  rw [hrest, walk_singleton hup hlink] at hwalk
  split_ifs at hwalk
  cases hwalk
  exact ⟨_, ha⟩

theorem Takes.written (h : d.Takes p) (hp : p.meansFolder = false) (content : Bytes) :
    ∃ e place n mode, d.writeFile p content = .ok e ∧ e.content? p = some content ∧
      d.locate p = .ok ⟨place, n⟩ ∧ e.node? place = some (.file content mode) ∧
      ∀ q, q ≠ place → e.node? q = d.node? q := by
  obtain ⟨e, hwrite, hcontent⟩ := h.writeFile hp content
  obtain ⟨⟨place, n⟩, mode, ha, hfree, -, rfl⟩ := writeFile_ok hwrite
  have hplace : place ≠ [] := by
    obtain rfl : n = d.node? place := (spot_node ha).2
    exact ne_nil_of_not_isWay hfree
  refine ⟨_, place, n, mode, hwrite, hcontent, ha, ?_, ?_⟩
  · rw [node?_set hplace, if_pos rfl]
  · intro q hq
    rw [node?_set hplace, if_neg (Ne.symm hq)]

end PeerShare.Disk
