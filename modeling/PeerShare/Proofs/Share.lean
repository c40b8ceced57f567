import PeerShare.Proofs.Disk.Child
import PeerShare.Proofs.Names
import PeerShare.Proofs.Text.Utf8
import PeerShare.Share

/-!
The scan of a shared folder lists all files that may be listed. It goes through the names that stand
in the folder; a file that can be reached by a name has an entry of that name.
-/

namespace PeerShare

namespace Disk
variable {d : Disk} {p : FilePath} {content : Bytes}

theorem isFile_iff : d.isFile p = true ↔ ∃ content, d.content? p = some content := by
  rcases h : d.locate p with cause | ⟨place, n⟩
  · simp [isFile, content?, h]
  · rcases n with _ | ⟨content, mode⟩ | _ | target <;> simp [isFile, content?, h]

end Disk

namespace Share

variable {d : Disk} {folder : FilePath} {place : List Name} {name : String} {content : Bytes}

theorem isListed_iff : isListed d folder name = true ↔ isHidden name = false ∧
    isFileName name = true ∧ ∃ content, d.content? (folder.child name) = some content := by
  rw [isListed, Bool.and_eq_true, Bool.and_eq_true, Bool.not_eq_true', Disk.isFile_iff, and_assoc]

end Share
end PeerShare
