import PeerShare.Proofs.Transfer.Fetch

/-!
Downloads from anyone. Whatever comes back, a download that is answered ends with a refusal and the
disk as it was, or with as much of a content as was declared and has come, in one file of the
folder.
-/

namespace PeerShare.Transfer

variable {d d₁ : Disk} {folder : FilePath} {o : Offer} {timeout : Span} {bytes : Bytes}

theorem download_invalid (h : isFileName o.fileName = false) (answer : Delivery) :
    download o folder timeout answer d = (.error (.invalidFileName o.fileName), d) := by
  unfold download
  rw [if_pos (Bool.eq_false_iff.mp h)]

theorem download_long (h : isFileName o.fileName = true)
    (hlong : Frame.nameLimit < (Text.bytes o.fileName).length) :
    download o folder timeout (.received bytes) d =
      (.error (.nameTooLong (Text.bytes o.fileName).length), d) := by
  have hframe := Frame.writeName_of_lt hlong
  simp only [download, h, hframe, not_true, if_false]

theorem download_silent (h : isFileName o.fileName = true)
    (hlength : (Text.bytes o.fileName).length ≤ Frame.nameLimit)
    (hheader : Frame.readHeader bytes = none) :
    download o folder timeout (.received bytes) d = (.error (.notOffered o.fileName), d) := by
  have hframe := Frame.writeName_of_le hlength
  simp only [download, h, hframe, hheader, not_true, if_false]

theorem download_headed {declared : Nat} {content : Bytes} (h : isFileName o.fileName = true)
    (hlength : (Text.bytes o.fileName).length ≤ Frame.nameLimit)
    (hheader : Frame.readHeader bytes = some (declared, content)) :
    download o folder timeout (.received bytes) d = keep o.fileName folder declared content d := by
  have hframe := Frame.writeName_of_le hlength
  simp only [download, h, hframe, hheader, not_true, if_false]

/-- So much was declared and has come: the report says so, and the part of the content that was
declared is in one file. It stands in the folder under its name, unless a link of that name leads
elsewhere. Nothing else has changed since the folder was created, for which there may be folders
where nothing stood, and there are none if it was there. -/
structure Saved (o : Offer) (folder : FilePath) (declared : Nat) (content : Bytes) (d d₁ e : Disk)
    (report : Report) (parent place : List Name) : Prop where
  name : report.fileName = o.fileName
  path : report.path = folder.child o.fileName
  size : report.declared = declared
  received : report.received = min declared content.length
  complete : report.isComplete = true ↔ declared ≤ content.length
  holds : e.content? report.path = some (content.take report.received)
  inside : report.path.segments = folder.segments ++ [o.fileName.toList]
  leads : d₁.FolderAt folder parent
  direct : (∀ target, d₁.node? (parent ++ [Text.bytes o.fileName]) ≠ some (.link target)) →
    place = parent ++ [Text.bytes o.fileName]
  written : ∃ mode, e.node? place = some (.file (content.take report.received) mode)
  others : ∀ q, q ≠ place → e.node? q = d₁.node? q
  created : d.Grown d₁
  kept : d.isFolder folder = true → d₁ = d

theorem saved_keep (h : isFileName o.fileName = true) (hd : d.createFolders folder = .ok d₁)
    (ht : d₁.Takes (folder.child o.fileName)) (declared : Nat) (content : Bytes) :
    ∃ report e parent place, keep o.fileName folder declared content d = (.ok report, e) ∧
      Saved o folder declared content d d₁ e report parent place := by
  obtain ⟨hempty, hdot, -, hslash, -⟩ := segment_of_isFileName h
  obtain ⟨e, place, n, mode, hkeep, hcontent, hleads, hnode, hframe⟩ :=
    keep_written h hd ht declared content
  obtain ⟨parent, hparent⟩ := Disk.folderAt_of_locate_child h hleads
  have htake : content.take (content.take declared).length = content.take declared := by
    rw [List.length_take, List.take_eq_take_iff]
    omega
  refine ⟨_, e, parent, place, hkeep, ?_⟩
  constructor
  case name => rfl
  case path => rfl
  case size => rfl
  case received => exact List.length_take
  case complete =>
    simp only [Report.isComplete, List.length_take, decide_eq_true_eq]
    omega
  case holds => rw [htake, hcontent]
  case inside => exact FilePath.segments_child folder hslash ⟨hempty, hdot⟩
  case leads => exact hparent
  case direct =>
    intro hlink
    obtain ⟨n', hdirect⟩ := ht.locate_child h hparent hlink
    exact (Disk.Spot.mk.inj (Except.ok.inj (hleads.symm.trans hdirect))).1
  case written => exact ⟨mode, by rw [htake, hnode]⟩
  case others => exact hframe
  case created => exact Disk.grown_createFolders hd
  case kept => exact fun hfolder => Disk.createFolders_of_isFolder hfolder hd

/-- Any offer may be asked for, and anything may come back before the other side closes. A name that
is no file name is refused before anything is sent, and a longer one than a frame holds when it
should be sent; fewer bytes than a header are no offer; and in all these cases the disk stays as it
was. All other answers are saved, if the folder can be created and takes the file. -/
theorem download_survives (o : Offer) (folder : FilePath) (timeout : Span) (d : Disk) :
    (isFileName o.fileName = false → ∀ answer,
      download o folder timeout answer d = (.error (.invalidFileName o.fileName), d)) ∧
    (isFileName o.fileName = true → 65535 < (Text.bytes o.fileName).length → ∀ bytes,
      download o folder timeout (.received bytes) d =
        (.error (.nameTooLong (Text.bytes o.fileName).length), d)) ∧
    (isFileName o.fileName = true → (Text.bytes o.fileName).length ≤ 65535 →
      (∀ bytes, bytes.length < 8 → download o folder timeout (.received bytes) d =
        (.error (.notOffered o.fileName), d)) ∧
      ∀ header content d₁, header.length = 8 → d.createFolders folder = .ok d₁ →
        d₁.Takes (folder.child o.fileName) → ∃ report e parent place,
          download o folder timeout (.received (header ++ content)) d = (.ok report, e) ∧
          Saved o folder (Frame.ofBigEndian header) content d d₁ e report parent place) := by
  refine ⟨download_invalid, fun h hlong bytes => download_long h hlong, fun h hlength => ⟨?_, ?_⟩⟩
  · intro bytes hshort
    exact download_silent h hlength (if_pos hshort)
  · intro header content d₁ hheader hd ht
    rw [download_headed h hlength (Frame.readHeader_append hheader content)]
    exact saved_keep h hd ht (Frame.ofBigEndian header) content

theorem download_survives_short : ∃ report e,
    Disk.createFolders {} ⟨"/in"⟩ = .ok (Disk.set {} [Text.bytes "in"] .folder) ∧
    (Disk.set {} [Text.bytes "in"] .folder).Takes ⟨"/in/a.txt"⟩ ∧
    download ⟨"a.txt", "localhost", 80⟩ ⟨"/in"⟩ default
      (.received (Frame.bigEndian 8 5 ++ [104, 105])) {} = (.ok report, e) ∧
    report.declared = 5 ∧ report.received = 2 ∧ report.isComplete = false ∧
    e.content? ⟨"/in/a.txt"⟩ = some [104, 105] := by
  let downloads : Disk := Disk.set {} [Text.bytes "in"] .folder
  have created : Disk.createFolders {} ⟨"/in"⟩ = .ok downloads := by decide +kernel
  have found : downloads.locate ⟨"/in"⟩ = .ok ⟨[Text.bytes "in"], some .folder⟩ := rfl
  have takes : downloads.Takes (FilePath.child ⟨"/in"⟩ "a.txt") :=
    Disk.takes_child found (by decide) (by decide) (by decide) rfl Disk.not_isWay_none
  have header : Frame.ofBigEndian (Frame.bigEndian 8 5) = 5 := Frame.ofBigEndian_bigEndian (by decide)
  obtain ⟨report, e, _, _, hdown, hsaved⟩ :=
    ((download_survives ⟨"a.txt", "localhost", 80⟩ ⟨"/in"⟩ default {}).2.2 (by decide)
      (by decide)).2 (Frame.bigEndian 8 5) [104, 105] downloads rfl created takes
  rw [header] at hsaved
  have hreceived : report.received = 2 := hsaved.received
  have hholds := hsaved.holds
  rw [hreceived, hsaved.path] at hholds
  refine ⟨report, e, created, takes, hdown, hsaved.size, hreceived, ?_, hholds⟩
  rw [← Bool.not_eq_true, hsaved.complete]
  decide

end PeerShare.Transfer
