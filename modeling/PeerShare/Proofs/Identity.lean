import PeerShare.Config.Load
import PeerShare.Identity
import PeerShare.Proofs.Disk.Folders
import PeerShare.Proofs.Text.Blank
import PeerShare.Proofs.Text.Utf8

/-!
The identity of a peer over any number of starts, whatever fails in them. A start that gets an
identity leaves a file that holds it, and no later start changes that file; so every later start
that can read the file gets the same identity. A start that gets none leaves what the file held.
-/

namespace PeerShare.Identity

variable {d e : Disk} {p : FilePath} {id fresh : PeerId} {text : List Char}

/-! ### Texts -/

def Blank (content : Bytes) : Prop :=
  ∃ text, content = Text.encode text ∧ ∀ c ∈ text, Text.isBlank c = true

def Holds (d : Disk) (p : FilePath) (id : PeerId) : Prop :=
  ∃ text, d.content? p = some (Text.encode text) ∧ ofText? text = some id

theorem ofText?_eq_none_iff : ofText? text = none ↔ ∀ c ∈ text, Text.isBlank c = true := by
  rw [← Text.trim_eq_nil_iff]
  simp [ofText?]

theorem trimmed_ofText? (h : ofText? text = some id) : Text.Trimmed id.text.toList := by
  simp only [ofText?] at h
  split_ifs at h with hne
  cases h
  rw [String.toList_ofList]
  exact Text.trimmed_trim hne

theorem ofText?_lineFeed (h : Text.Trimmed id.text.toList) :
    ofText? (id.text.toList ++ ['\n']) = some id := by
  simp only [ofText?, h.trim_lineFeed, if_neg h.nonempty, String.ofList_toList]

theorem Holds.trimmed (h : Holds d p id) : Text.Trimmed id.text.toList := by
  obtain ⟨text, -, ht⟩ := h
  exact trimmed_ofText? ht

theorem Holds.not_blank (h : Holds d p id) :
    ∃ content, d.content? p = some content ∧ ¬ Blank content := by
  obtain ⟨text, hc, hid⟩ := h
  refine ⟨_, hc, fun hblank => ?_⟩
  obtain ⟨blank, heq, hblank⟩ := hblank
  obtain rfl := Text.encode_inj heq
  cases (ofText?_eq_none_iff.mpr hblank).symm.trans hid

theorem Holds.unique {id' : PeerId} (h : Holds d p id) (h' : Holds d p id') : id' = id := by
  obtain ⟨text, hc, hid⟩ := h
  obtain ⟨text', hc', hid'⟩ := h'
  obtain rfl : text = text' := Text.encode_inj (Option.some.inj (hc.symm.trans hc'))
  exact Option.some.inj (hid'.symm.trans hid)

theorem Holds.of_content (h : Holds d p id) (hc : e.content? p = d.content? p) : Holds e p id := by
  obtain ⟨text, htext, hid⟩ := h
  exact ⟨text, hc.trans htext, hid⟩

theorem holds_fileText (h : Text.Trimmed id.text.toList)
    (hc : d.content? p = some (fileText id)) : Holds d p id :=
  ⟨_, hc, ofText?_lineFeed h⟩

/-! ### Reading -/

/-- A read of a file that exists does not fail as if the file were missing. -/
def Honest (d : Disk) (p : FilePath) : Prop :=
  d.faults.read = some .notFound → d.content? p = none

def Vacant (d : Disk) (p : FilePath) : Prop :=
  d.readText p = .error .notFound ∨
    ∃ text, d.readText p = .ok text ∧ ∀ c ∈ text, Text.isBlank c = true

theorem content?_of_notFound (hh : Honest d p) (h : d.readBytes p = .error .notFound) :
    d.content? p = none := by
  cases hf : d.faults.read with
  | some cause =>
    have hr : d.readBytes p = .error cause := by
      simp only [Disk.readBytes, hf, Disk.failIf, bind, Except.bind]
    cases hr.symm.trans h
    exact hh hf
  | none =>
    cases hc : d.content? p with
    | none => rfl
    | some content => cases (Disk.readBytes_of_unfaulted hc hf).symm.trans h

theorem readText_of_readBytes (h : d.readBytes p = .ok (Text.encode text)) :
    d.readText p = .ok text := by
  simp only [Disk.readText, h, bind, Except.bind, Text.decode_encode]
  rfl

theorem loadOrCreate_cases (hh : Honest d p) (fresh : PeerId) :
    (∃ id, Holds d p id ∧ loadOrCreate p fresh d = (.ok id, d)) ∨
    (∃ cause, loadOrCreate p fresh d = (.error (.io p cause), d)) ∨
    ((∀ content, d.content? p = some content → Blank content) ∧
      loadOrCreate p fresh d = create p fresh d) := by
  cases hb : d.readBytes p with
  | error cause =>
    have hread : d.readText p = .error cause := by
      simp only [Disk.readText, hb, bind, Except.bind]
    by_cases hc : cause = .notFound
    · subst hc
      refine .inr (.inr ⟨fun content hcontent => ?_, ?_⟩)
      · cases (content?_of_notFound hh hb).symm.trans hcontent
      · simp only [loadOrCreate, hread]
    · refine .inr (.inl ⟨cause, ?_⟩)
      simp only [loadOrCreate, hread]
  | ok content =>
    have hcontent := Disk.content?_of_readBytes hb
    cases hd : Text.decode content with
    | error flaw =>
      have hread : d.readText p = .error .notUtf8Text := by
        simp only [Disk.readText, hb, bind, Except.bind, hd]
        rfl
      exact .inr (.inl ⟨.notUtf8Text, by simp only [loadOrCreate, hread]⟩)
    | ok text =>
      obtain rfl := Text.decode_eq_ok_iff.mp hd
      have hread := readText_of_readBytes hb
      cases hid : ofText? text with
      | some id => exact .inl ⟨id, ⟨text, hcontent, hid⟩, by simp only [loadOrCreate, hread, hid]⟩
      | none =>
        refine .inr (.inr ⟨fun c hc => ?_, by simp only [loadOrCreate, hread, hid]⟩)
        cases hcontent.symm.trans hc
        exact ⟨text, rfl, ofText?_eq_none_iff.mp hid⟩

theorem loadOrCreate_of_holds (h : Holds d p id) (hr : d.faults.read = none) (fresh : PeerId) :
    loadOrCreate p fresh d = (.ok id, d) := by
  obtain ⟨text, hc, hid⟩ := h
  have hread := readText_of_readBytes (Disk.readBytes_of_unfaulted hc hr)
  simp only [loadOrCreate, hread, hid]

/-! ### Keeping -/

/-- Where an identity can be kept: no link stands at the path or beside it. The folder of the path
is there; or, if everything on the disk stands in a folder and nothing leads back up, it may be
missing or something else may stand in its way. -/
structure Steady (d : Disk) (p : FilePath) : Prop where
  plain : d.Plain p
  plain_aside : d.Plain (aside p)
  way : d.HasParent p ∨ d.Straight ∧ FilePath.upward ∉ p.segments

theorem steady_of_no_link (tree : ∀ place name, d.node? (place ++ [name]) ≠ none →
      d.node? place = some .folder) (links : ∀ place target, d.node? place ≠ some (.link target))
    (hup : FilePath.upward ∉ p.segments) : Steady d p := by
  have plain (q : FilePath) : d.Plain q := by
    rintro a ha ⟨target, hlink⟩
    exact links a.place target ((Disk.spot_node ha).2.symm.trans hlink)
  exact ⟨plain p, plain (aside p),
    .inr ⟨⟨tree, fun place target h => absurd h (links place target)⟩, hup⟩⟩

theorem exists_aside {name : String} (h : p.fileName? = some name) :
    ∃ folder : FilePath, (aside p).segments = folder.segments ++
        [(FilePath.nameWith name "tmp").toList] ∧ folder.segments <+: p.segments ∧
      (FilePath.nameWith name "tmp").toList ≠ FilePath.upward ∧
      (aside p).lastName? = some (FilePath.nameWith name "tmp").toList := by
  obtain ⟨folder, he, hfolder⟩ := FilePath.exists_withExtension h "tmp"
  have htmp : '/' ∉ "tmp".toList ∧ 2 ≤ "tmp".toList.length := by decide
  obtain ⟨hslash, hempty, hdot, hup⟩ :=
    FilePath.nameWith_segment (FilePath.slash_notMem_fileName h) htmp.1 htmp.2
  rw [aside, he]
  exact ⟨folder, FilePath.segments_child folder hslash ⟨hempty, hdot⟩, hfolder, hup,
    FilePath.lastName?_child folder hslash ⟨hempty, hdot, hup⟩⟩

theorem upward_notMem_aside (h : FilePath.upward ∉ p.segments) :
    FilePath.upward ∉ (aside p).segments := by
  cases hn : p.fileName? with
  | none =>
    simp only [aside, FilePath.withExtension, hn]
    exact h
  | some name =>
    obtain ⟨folder, hsegments, hfolder, hup, -⟩ := exists_aside hn
    rw [hsegments, List.mem_append, List.mem_singleton, not_or]
    exact ⟨fun hm => h (hfolder.subset hm), Ne.symm hup⟩

theorem Steady.sameWays (h : Steady d p) (hw : d.SameWays e) (hp : d.HasParent p) : Steady e p :=
  ⟨hw.plain h.plain, hw.plain h.plain_aside, .inl (hp.sameWays hw)⟩

theorem Steady.createParent (h : Steady d p) (hd : d.createParent p = .ok e) :
    Steady e p ∧ e.HasParent p ∧ e.content? p = d.content? p := by
  have hp := Disk.hasParent_createParent hd
  rcases h.way with hthere | ⟨hstraight, hup⟩
  · cases hthere.createParent_eq hd
    exact ⟨h, hp, rfl⟩
  · have hg := Disk.grown_createParent hd
    exact ⟨⟨hstraight.plain hg hup h.plain,
      hstraight.plain hg (upward_notMem_aside hup) h.plain_aside, .inl hp⟩, hp,
      hstraight.content?_eq hg hup⟩

theorem Steady.apart (h : Steady d p) (hn : (aside p).fileName? ≠ p.fileName?)
    (hp : p.meansFolder = false) : d.Apart p (aside p) := by
  obtain ⟨s, hs, -, -, hname⟩ := FilePath.exists_lastName? hp
  obtain ⟨-, -, -, -, ht⟩ := exists_aside hname
  refine Disk.apart_of_lastName? h.plain h.plain_aside hs ht fun heq => hn ?_
  rw [FilePath.fileName?_eq, FilePath.fileName?_eq, hs, ht, ← Text.encode_inj heq]

theorem create_cases (h : Steady d p) (fresh : PeerId) :
    Steady (create p fresh d).2 p ∧
    (((create p fresh d).1 = .ok fresh ∧
        (create p fresh d).2.content? p = some (fileText fresh)) ∨
      ((∃ error, (create p fresh d).1 = .error error) ∧
        ((aside p).fileName? ≠ p.fileName? → (create p fresh d).2.content? p = d.content? p))) := by
  cases hd : d.createParent p with
  | error b =>
    have hcreate : create p fresh d = (.error (.io b.path b.cause), d) := by
      simp only [create, save, hd]
    rw [hcreate]
    exact ⟨h, .inr ⟨⟨_, rfl⟩, fun _ => rfl⟩⟩
  | ok d₁ =>
    obtain ⟨hs, hp, hc⟩ := h.createParent hd
    rcases hr : d₁.replaceFile p (aside p) (fileText fresh) with ⟨_ | b, d₂⟩
    · have hcreate : create p fresh d = (.ok fresh, d₂) := by simp only [create, save, hd, hr]
      obtain ⟨hw, hnew⟩ := Disk.replaceFile_sameWays hs.plain hs.plain_aside hr
      rw [hcreate]
      exact ⟨hs.sameWays hw hp, .inl ⟨rfl, hnew rfl⟩⟩
    · have hcreate : create p fresh d = (.error (.io b.path b.cause), d₂) := by
        simp only [create, save, hd, hr]
      obtain ⟨hw, -⟩ := Disk.replaceFile_sameWays hs.plain hs.plain_aside hr
      rw [hcreate]
      refine ⟨hs.sameWays hw hp, .inr ⟨⟨_, rfl⟩, fun hn => ?_⟩⟩
      cases hfolder : p.meansFolder with
      | true => rw [Disk.content?_of_meansFolder hfolder, Disk.content?_of_meansFolder hfolder]
      | false =>
        obtain ⟨-, ⟨hb, -⟩ | ⟨-, hold⟩⟩ := Disk.replaceFile_cases (hs.apart hn hfolder) hr
        · cases hb
        · exact hold.trans hc

theorem loadOrCreate_of_vacant {d₁ : Disk} (hread : Vacant d p)
    (hd : d.createParent p = .ok d₁) (hr : d₁.Ready p (aside p)) (fresh : PeerId) :
    (loadOrCreate p fresh d).1 = .ok fresh := by
  have hmade : loadOrCreate p fresh d = create p fresh d := by
    rcases hread with hread | ⟨text, hread, hblank⟩
    · simp only [loadOrCreate, hread]
    · simp only [loadOrCreate, hread, ofText?_eq_none_iff.mpr hblank]
  obtain ⟨e, he, -⟩ := hr.replaceFile (fileText fresh)
  simp only [hmade, create, save, hd, he]

/-! ### Starts -/

/-- A start of the peer: the disk that it meets, and the identity it takes if it has to make one. -/
structure Start where
  disk : Disk
  fresh : PeerId

def Start.result (s : Start) (p : FilePath) : Except PeerError PeerId :=
  (loadOrCreate p s.fresh s.disk).1

def Start.left (s : Start) (p : FilePath) : Disk := (loadOrCreate p s.fresh s.disk).2

/-- What can become of a disk before the next start: other operations fail than before, and
anything may change but what the file holds and that an identity can be kept there. -/
structure Undisturbed (p : FilePath) (d e : Disk) : Prop where
  content : e.content? p = d.content? p
  steady : Steady d p → Steady e p
  honest : Honest e p

inductive Starts (p : FilePath) : Disk → List Start → Prop
  | done (d : Disk) : Starts p d []
  | next {d : Disk} {s : Start} {more : List Start} (between : Undisturbed p d s.disk)
      (later : Starts p (s.left p) more) : Starts p d (s :: more)

section Start
variable {s : Start} {more before after starts : List Start}

/-- How a start can end. -/
inductive Start.Ends (p : FilePath) (s : Start) : Prop
  | read {id : PeerId} (holds : Holds s.disk p id) (result : s.result p = .ok id)
      (left : s.left p = s.disk)
  | unread {error : PeerError} (result : s.result p = .error error) (left : s.left p = s.disk)
  | made (blank : ∀ content, s.disk.content? p = some content → Blank content)
      (result : s.result p = .ok s.fresh)
      (content : (s.left p).content? p = some (fileText s.fresh))
  | unmade {error : PeerError} (blank : ∀ content, s.disk.content? p = some content → Blank content)
      (result : s.result p = .error error)
      (content : (aside p).fileName? ≠ p.fileName? → (s.left p).content? p = s.disk.content? p)

theorem Start.ends (hs : Steady s.disk p) (hh : Honest s.disk p) :
    s.Ends p ∧ Steady (s.left p) p := by
  have hresult : s.result p = (loadOrCreate p s.fresh s.disk).1 := rfl
  have hleft : s.left p = (loadOrCreate p s.fresh s.disk).2 := rfl
  rcases loadOrCreate_cases hh s.fresh with ⟨id, hid, h⟩ | ⟨cause, h⟩ | ⟨hblank, h⟩
  · rw [h] at hresult hleft
    exact ⟨.read hid hresult hleft, hleft ▸ hs⟩
  · rw [h] at hresult hleft
    exact ⟨.unread hresult hleft, hleft ▸ hs⟩
  · rw [h] at hresult hleft
    obtain ⟨hsteady, ⟨hok, hc⟩ | ⟨⟨error, herr⟩, hc⟩⟩ := create_cases hs s.fresh
    · exact ⟨.made hblank (hresult.trans hok) (hleft ▸ hc), hleft ▸ hsteady⟩
    · exact ⟨.unmade hblank (hresult.trans herr) (hleft ▸ hc), hleft ▸ hsteady⟩

theorem Start.Ends.holds (h : s.Ends p) (hf : Text.Trimmed s.fresh.text.toList)
    (hid : s.result p = .ok id) : Holds (s.left p) p id := by
  cases h with
  | read holds result left =>
    cases result.symm.trans hid
    exact left ▸ holds
  | unread result left => cases result.symm.trans hid
  | made blank result content =>
    cases result.symm.trans hid
    exact holds_fileText hf content
  | unmade blank result content => cases result.symm.trans hid

theorem Start.Ends.content (h : s.Ends p) (hn : (aside p).fileName? ≠ p.fileName?)
    {error : PeerError} (he : s.result p = .error error) :
    (s.left p).content? p = s.disk.content? p := by
  cases h with
  | read holds result left => rw [left]
  | unread result left => rw [left]
  | made blank result content => cases result.symm.trans he
  | unmade blank result content => exact content hn

theorem Start.Ends.left (h : s.Ends p) {content : Bytes} (hc : s.disk.content? p = some content)
    (hb : ¬ Blank content) : s.left p = s.disk := by
  cases h with
  | read holds result left => exact left
  | unread result left => exact left
  | made blank result _ => exact absurd (blank content hc) hb
  | unmade blank result _ => exact absurd (blank content hc) hb

theorem Start.Ends.same (h : s.Ends p) (hs : Holds s.disk p id) {id' : PeerId}
    (hid : s.result p = .ok id') : id' = id := by
  cases h with
  | read holds result left =>
    cases result.symm.trans hid
    exact hs.unique holds
  | unread result left => cases result.symm.trans hid
  | made blank result content =>
    obtain ⟨old, hc, hb⟩ := hs.not_blank
    exact absurd (blank old hc) hb
  | unmade blank result content => cases result.symm.trans hid

theorem Start.result_of_holds (h : Holds s.disk p id) (hf : s.disk.faults.read = none) :
    s.result p = .ok id := by
  rw [result, loadOrCreate_of_holds h hf]

theorem Starts.of_holds (hr : Starts p d starts) (hd : Steady d p) (h : Holds d p id) :
    ∀ s ∈ starts, (∀ id', s.result p = .ok id' → id' = id) ∧
      (s.disk.faults.read = none → s.result p = .ok id) := by
  induction hr with
  | done d => simp
  | @next d s more between later ih =>
    have hs := h.of_content between.content
    obtain ⟨hends, hsteady⟩ := Start.ends (between.steady hd) between.honest
    have hleft : s.left p = s.disk := by
      obtain ⟨content, hc, hb⟩ := hs.not_blank
      exact hends.left hc hb
    rw [List.forall_mem_cons]
    exact ⟨⟨fun id' => hends.same hs, Start.result_of_holds hs⟩, ih hsteady (hleft ▸ hs)⟩

theorem Starts.met (hr : Starts p d (before ++ s :: after)) (hd : Steady d p) :
    s.Ends p ∧ Steady (s.left p) p ∧ Starts p (s.left p) after := by
  induction before generalizing d with
  | nil =>
    cases hr with
    | next between later =>
      obtain ⟨hends, hsteady⟩ := Start.ends (between.steady hd) between.honest
      exact ⟨hends, hsteady, later⟩
  | cons t before ih =>
    cases hr with
    | next between later => exact ih later (Start.ends (between.steady hd) between.honest).2

end Start

/-- Every start that gets an identity leaves a file that holds it, and every later one that gets an
identity, as one does that can read the file, gets the same. No identity is empty or has a blank at
either end. A start that fails leaves what the file held, if the file written beside has another
name; and one that meets a file with more than blanks leaves the disk as it was. An identity that
can be read is read, and where there is none and nothing is in the way the fresh one is taken. -/
theorem identity_is_kept {starts : List Start} (hr : Starts p d starts) (hd : Steady d p)
    (hf : ∀ s ∈ starts, Text.Trimmed s.fresh.text.toList) :
    (∀ before s after id, starts = before ++ s :: after → s.result p = .ok id →
      ∀ t ∈ after, (∀ id', t.result p = .ok id' → id' = id) ∧
        (t.disk.faults.read = none → t.result p = .ok id)) ∧
    (∀ s ∈ starts, ∀ id, s.result p = .ok id →
      Text.Trimmed id.text.toList ∧ Holds (s.left p) p id) ∧
    ((aside p).fileName? ≠ p.fileName? → ∀ s ∈ starts, ∀ error, s.result p = .error error →
      (s.left p).content? p = s.disk.content? p) ∧
    (∀ s ∈ starts, ∀ content, s.disk.content? p = some content → ¬ Blank content →
      s.left p = s.disk) ∧
    (∀ s ∈ starts, ∀ id, Holds s.disk p id → s.disk.faults.read = none → s.result p = .ok id) ∧
    ∀ s ∈ starts, ∀ d₁, Vacant s.disk p → s.disk.createParent p = .ok d₁ →
      d₁.Ready p (aside p) → s.result p = .ok s.fresh := by
  have ends {s : Start} (hs : s ∈ starts) : s.Ends p := by
    obtain ⟨before, after, rfl⟩ := List.append_of_mem hs
    exact (hr.met hd).1
  have kept {s : Start} {id : PeerId} (hs : s ∈ starts) (h : s.result p = .ok id) :
      Holds (s.left p) p id := (ends hs).holds (hf s hs) h
  refine ⟨?_, ?_, ?_, ?_, ?_, ?_⟩
  · rintro before s after id rfl h
    obtain ⟨-, hsteady, later⟩ := hr.met hd
    exact later.of_holds hsteady (kept (List.mem_append_right _ List.mem_cons_self) h)
  · exact fun s hs id h => ⟨(kept hs h).trimmed, kept hs h⟩
  · exact fun hn s hs error h => (ends hs).content hn h
  · exact fun s hs content hc hb => (ends hs).left hc hb
  · exact fun s _ id h hread => Start.result_of_holds h hread
  · exact fun s _ d₁ hv hmade hready => loadOrCreate_of_vacant hv hmade hready s.fresh

/-! ### A disk of one's own -/

def startsWith (p : FilePath) : Disk → List (Faults × PeerId) → List Start
  | _, [] => []
  | d, (faults, fresh) :: more =>
    let s : Start := ⟨{ d with faults := faults }, fresh⟩
    s :: startsWith p (s.left p) more

theorem undisturbed_faults {faults : Faults} (h : faults.read ≠ some .notFound) :
    Undisturbed p d { d with faults := faults } where
  content := (Disk.spares_faults d faults p).2
  steady hs := by
    have hw := (Disk.spares_faults d faults p).1
    refine ⟨hw.plain hs.plain, hw.plain hs.plain_aside, ?_⟩
    rcases hs.way with hp | ⟨hd, hup⟩
    · exact .inl (hp.sameWays hw)
    · exact .inr ⟨⟨hd.tree, hd.links⟩, hup⟩
  honest hr := absurd hr h

theorem starts_startsWith {failures : List (Faults × PeerId)}
    (h : ∀ f ∈ failures, f.1.read ≠ some .notFound) : Starts p d (startsWith p d failures) := by
  induction failures generalizing d with
  | nil => exact .done d
  | cons f more ih =>
    obtain ⟨faults, fresh⟩ := f
    rw [List.forall_mem_cons] at h
    exact .next (undisturbed_faults h.1) (ih h.2)

theorem fresh_startsWith {failures : List (Faults × PeerId)} {s : Start}
    (h : s ∈ startsWith p d failures) : ∃ f ∈ failures, s.fresh = f.2 := by
  induction failures generalizing d with
  | nil => cases h
  | cons f more ih =>
    rcases List.mem_cons.mp h with rfl | h
    · exact ⟨f, List.mem_cons_self, rfl⟩
    · obtain ⟨g, hg, hs⟩ := ih h
      exact ⟨g, List.mem_cons_of_mem _ hg, hs⟩

theorem fileName?_aside_identity (home : FilePath) :
    (aside (Home.identity home)).fileName? ≠ (Home.identity home).fileName? := by
  have hp : (Home.identity home).lastName? = some "peer_id".toList :=
    FilePath.lastName?_child (Home.root home) (by decide) (by decide)
  have hname : (Home.identity home).fileName? = some "peer_id" := by
    rw [FilePath.fileName?_eq, hp]
    rfl
  obtain ⟨-, -, -, -, ht⟩ := exists_aside hname
  rw [FilePath.fileName?_eq, ht, hname]
  decide

def failures : List (Faults × PeerId) :=
  [({ rename := some .notDirectory }, ⟨"a"⟩), ({}, ⟨"b"⟩), ({ read := some .tooManyLinks }, ⟨"c"⟩),
    ({ write := some .isDirectory }, ⟨"d"⟩)]

def rough : List Start := startsWith (Home.identity ⟨"/home"⟩) {} failures

theorem identity_is_kept_rough : Steady {} (Home.identity ⟨"/home"⟩) ∧
    Starts (Home.identity ⟨"/home"⟩) {} rough ∧
    rough.map (·.result (Home.identity ⟨"/home"⟩)) =
      [.error (.io (Home.identity ⟨"/home"⟩) .notDirectory), .ok ⟨"b"⟩,
        .error (.io (Home.identity ⟨"/home"⟩) .tooManyLinks), .ok ⟨"b"⟩] ∧
    (∀ s ∈ rough.drop 2, ∀ id, s.result (Home.identity ⟨"/home"⟩) = .ok id → id = ⟨"b"⟩) ∧
    ∀ s ∈ rough, ∀ error, s.result (Home.identity ⟨"/home"⟩) = .error error →
      (s.left (Home.identity ⟨"/home"⟩)).content? (Home.identity ⟨"/home"⟩) =
        s.disk.content? (Home.identity ⟨"/home"⟩) := by
  have bare (place : List Name) (name : Name) : Disk.node? {} (place ++ [name]) = none :=
    Disk.node?_append _ _ _
  have steady : Steady {} (Home.identity ⟨"/home"⟩) := by
    refine steady_of_no_link (fun place name h => absurd (bare place name) h) ?_ (by decide)
    intro place target h
    rcases List.eq_nil_or_concat' place with rfl | ⟨q, name, rfl⟩
    · cases h
    · cases (bare q name).symm.trans h
  have starts : Starts (Home.identity ⟨"/home"⟩) {} rough := starts_startsWith (by decide)
  have trimmed : ∀ f ∈ failures, Text.Trimmed f.2.text.toList := by decide
  have fresh (s : Start) (hs : s ∈ rough) : Text.Trimmed s.fresh.text.toList := by
    obtain ⟨f, hf, he⟩ := fresh_startsWith hs
    exact he ▸ trimmed f hf
  obtain ⟨same, -, failed, -⟩ := identity_is_kept starts steady fresh
  refine ⟨steady, starts, rfl, fun s hs => ?_, failed (fileName?_aside_identity _)⟩
  exact (same (rough.take 1) rough[1] (rough.drop 2) ⟨"b"⟩ rfl rfl s hs).1

end PeerShare.Identity
