import PeerShare.Proofs.Disk.Folders
import PeerShare.Proofs.Share
import PeerShare.Proofs.Transfer.Answer
import PeerShare.Proofs.Transfer.Frame

/-!
Both ends of a transfer agree on what is offered. The owner lists the files of a folder by a scan,
which looks at them, and serves those whose names it is sent, if it can open them; who asks for a
name checks it, sends it, and keeps what comes.
-/

namespace PeerShare.Transfer

variable {owner d d₁ : Disk} {share folder : FilePath} {o : Offer} {name : String}
  {content : Bytes} {place : List Name} {mode : Nat}

/-! ### What is opened is listed -/

def refusal (name : String) : TransferError :=
  if ¬ isFileName name then .invalidFileName name
  else if Frame.nameLimit < (Text.bytes name).length then .nameTooLong (Text.bytes name).length
  else .notOffered name

theorem keep_written (hname : isFileName name = true)
    (hd : d.createFolders folder = .ok d₁) (ht : d₁.Takes (folder.child name)) (declared : Nat)
    (content : Bytes) : ∃ e place n mode, keep name folder declared content d =
        (.ok ⟨name, folder.child name, declared, (content.take declared).length⟩, e) ∧
      e.content? (folder.child name) = some (content.take declared) ∧
      d₁.locate (folder.child name) = .ok ⟨place, n⟩ ∧
      e.node? place = some (.file (content.take declared) mode) ∧
      ∀ q, q ≠ place → e.node? q = d₁.node? q := by
  obtain ⟨hempty, hdot, hup, hslash, -⟩ := segment_of_isFileName hname
  have hfile := FilePath.meansFolder_child folder hslash ⟨hempty, hdot, hup⟩
  obtain ⟨e, place, n, mode, hwrite, hrest⟩ := ht.written hfile (content.take declared)
  refine ⟨e, place, n, mode, ?_, hrest⟩
  simp only [keep, hd, hwrite]

def downloads : Disk := Disk.set {} [Text.bytes "in"] .folder

end PeerShare.Transfer
