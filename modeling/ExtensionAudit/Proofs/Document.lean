import ExtensionAudit.Disk.Document
import ExtensionAudit.Proofs.Disk
import ExtensionAudit.Proofs.Outcome

/-!
# Document — what saving leaves on the disk

A document that is saved can be read back, octet for octet (`Document.read_of_save`).
Where there is a directory it cannot be saved, and then the disk is as it was
(`Document.save_of_directory`).
-/

namespace ExtensionAudit

namespace Utf8

theorem encodeStrict_ok {t : Text} {octets : Bytes}
    (h : encodeStrict t = .ok octets) : octets = encode t := by
  rw [encodeStrict] at h
  split at h
  · exact (Except.ok.inj h).symm
  · cases h

end Utf8

namespace Disk

/-- What was written can be read back. -/
theorem read_of_write {disk later : Disk} {path : Path} {content : Bytes}
    (h : disk.write path content = .ok later) : later.read path = .ok content := by
  obtain ⟨hl, hn, rfl⟩ := write_ok h
  have hkeeps : disk.Keeps (disk.put path.place (.file content)) := .put hn _
  exact read_eq_ok (hkeeps.locate hl) (node?_put_self (not_fixed_of_node? hn) disk _)

/-- A directory that is there is not written over. -/
theorem write_of_directory {disk : Disk} {path : Path}
    (h : disk.status path = .ok .directory)
    (content : Bytes) : disk.write path content = .error ⟨.isDirectory, path.text⟩ := by
  obtain ⟨hl, hn⟩ := status_eq_ok h
  simp only [write, about, hl, hn, bind, Except.bind, Except.mapError]

/-- A directory that is there does not have to be made. -/
theorem makeDirectories_of_directory {disk : Disk} {path : Path}
    (h : disk.status path = .ok .directory) :
    disk.makeDirectories path = (disk, .ok ()) := by
  obtain ⟨hl, hn⟩ := status_eq_ok h
  have hmake : disk.makeDirectory path = .error ⟨.present, path.text⟩ := by
    simp only [makeDirectory, about, hl, hn, bind, Except.bind, Except.mapError]
  have hdirectory : disk.isDirectory path = true := by rw [isDirectory, h]
  rw [makeDirectories, hmake]
  simp [hdirectory]

end Disk

namespace Document

/-- Pieces that can all be written come to the text that they make. -/
theorem written_ok {pieces : List Text} {octets : Bytes}
    (h : written pieces = (octets, .ok ())) :
    octets = Utf8.encode pieces.flatten := by
  induction pieces generalizing octets with
  | nil =>
    cases h
    rfl
  | cons piece rest ih =>
    rw [written] at h
    cases hpiece : Utf8.encodeStrict piece with
    | error fault =>
      rw [hpiece] at h
      cases h
    | ok first =>
      rw [hpiece] at h
      cases hrest : written rest with
      | mk more outcome =>
        simp only [hrest, Prod.mk.injEq] at h
        obtain ⟨rfl, rfl⟩ := h
        rw [List.flatten_cons, Utf8.encode_append, ih hrest, Utf8.encodeStrict_ok hpiece]

/-- A document that is saved can be read back. -/
theorem read_of_save {value : Json} {path : Path} {disk later : Disk}
    (h : save value path disk = (later, .ok ())) :
    later.read path = .ok (Utf8.encode value.indented) := by
  rw [save] at h
  split at h
  · cases h
  · rename_i made _
    cases hwritten : written value.pieces with
    | mk octets outcome =>
      simp only [hwritten] at h
      split at h
      · cases h
      · rename_i found hput
        cases h
        have hwrite : made.write path octets = .ok later := by
          rw [put] at hput
          split at hput
          · cases hput
          · exact mapError_eq_ok.mp hput
        rw [Disk.read_of_write hwrite, written_ok hwritten, Json.indented]

/-- Nothing is saved in the place of a directory. -/
theorem save_of_directory {path : Path} {disk : Disk}
    (hparent : path.parent.misspelling? = none)
    (habove : disk.status path.parent = .ok .directory)
    (hspelt : path.misspelling? = none) (h : disk.status path = .ok .directory)
    (value : Json) :
    save value path disk = (disk, .error (.system ⟨.isDirectory, path.text⟩)) := by
  have hroom : makeRoom path.parent disk = (disk, .ok ()) := by
    rw [makeRoom, hparent]
    simp only [Disk.makeDirectories_of_directory habove]
    rfl
  rw [save, hroom]
  simp only [put, hspelt, Disk.write_of_directory h, Except.mapError]

end Document

end ExtensionAudit
