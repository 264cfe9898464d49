import MicroDebug.Host.FileWriter

/-! What a file comes to that is written through a writer without a limit. What is in the file and what is held back
    make up all that has been written, in order, however much is held back at a time. -/

namespace MicroDebug

namespace Folder

theorem find?_put {path : String} (h : Path.isVoid path = false) (f : Folder) (contents : ByteArray) :
    (f.put path contents).find? path = some contents := by
  rw [find?, put, if_neg (by simp [h]), if_neg (by simp [h]), List.lookup_cons_self]

/-- Bytes that are written at the end of a file come after what is in it. -/
theorem overlay_end (contents bytes : ByteArray) : overlay contents contents.size bytes = contents ++ bytes := by
  have hgap : ByteArray.mk (Array.replicate (contents.size - contents.size) 0) = ByteArray.empty := by
    rw [Nat.sub_self, Array.replicate_zero]
    rfl
  have hrest : contents.extract (contents.size + bytes.size) contents.size = ByteArray.empty :=
    ByteArray.extract_eq_empty_iff.mpr (by omega)
  rw [overlay, hgap, hrest, ByteArray.extract_zero_size, ByteArray.append_empty, ByteArray.append_empty]

end Folder

namespace FileWriter

theorem writeLine_of_room {w : FileWriter} (h : w.room = none) (f : Folder) (pieces : List String) :
    w.writeLine f pieces = (.ok (), w.writePieces f pieces) := by
  have hsame : { w with room := none } = w := by rw [← h]
  rw [writeLine, h]
  exact congrArg (fun v : FileWriter => (Except.ok (), v.writePieces f pieces)) hsame

/-- The file at a path, which the writer has to itself and without a limit, comes to the bytes: they are in it or held
    back. -/
structure Holds (w : FileWriter) (f : Folder) (path : String) (bytes : ByteArray) : Prop where
  named : w.path = path
  unlimited : w.room = none
  kept : Path.isVoid path = false
  written : ∃ contents, f.find? path = some contents ∧ contents.size = w.position ∧ contents ++ w.held = bytes

/-- A file that has just been made is empty. -/
theorem holds_put {path : String} (h : Path.isVoid path = false) (f : Folder) :
    { path := path : FileWriter }.Holds (f.put path ByteArray.empty) path ByteArray.empty :=
  ⟨rfl, rfl, h, ByteArray.empty, Folder.find?_put h f _, rfl, ByteArray.append_empty⟩

namespace Holds

variable {w : FileWriter} {f : Folder} {path : String} {bytes : ByteArray}

theorem flush (h : w.Holds f path bytes) : (w.flush f).1.Holds (w.flush f).2 path bytes := by
  obtain ⟨rfl, hroom, hkept, contents, hfind, hsize, hbytes⟩ := h
  rw [FileWriter.flush]
  split
  · exact ⟨rfl, hroom, hkept, contents, hfind, hsize, hbytes⟩
  · refine ⟨rfl, hroom, hkept, contents ++ w.held, ?_, ?_, ?_⟩
    · rw [Folder.write, Folder.find?_put hkept, hfind, Option.getD_some, ← hsize, Folder.overlay_end]
    · rw [ByteArray.size_append, hsize]
    · rw [ByteArray.append_empty, hbytes]

/-- When nothing is held back any more, all is in the file. -/
theorem find?_flush (h : w.Holds f path bytes) : (w.flush f).2.find? path = some bytes := by
  have hheld : (w.flush f).1.held = ByteArray.empty := by
    rw [FileWriter.flush]
    split
    · next hempty => exact ByteArray.size_eq_zero_iff.mp (beq_iff_eq.mp hempty)
    · rfl
  obtain ⟨contents, hfind, -, hbytes⟩ := h.flush.written
  rw [hheld, ByteArray.append_empty] at hbytes
  rw [hfind, hbytes]

theorem flush_if (h : w.Holds f path bytes) (reason : Prop) [Decidable reason] :
    (if reason then w.flush f else (w, f)).1.Holds (if reason then w.flush f else (w, f)).2 path bytes := by
  split
  · exact h.flush
  · exact h

theorem hold (h : w.Holds f path bytes) (more : ByteArray) :
    { w with held := w.held ++ more }.Holds f path (bytes ++ more) := by
  obtain ⟨contents, hfind, hsize, hbytes⟩ := h.written
  exact ⟨h.named, h.unlimited, h.kept, contents, hfind, hsize, by rw [← ByteArray.append_assoc, hbytes]⟩

theorem writePiece (h : w.Holds f path bytes) (piece : String) :
    (w.writePiece f piece).1.Holds (w.writePiece f piece).2 path (bytes ++ piece.toUTF8) :=
  ((h.flush_if _).hold _).flush_if _

theorem writePieces (h : w.Holds f path bytes) (pieces : List String) :
    (w.writePieces f pieces).1.Holds (w.writePieces f pieces).2 path (bytes ++ (String.join pieces).toUTF8) := by
  induction pieces generalizing w f bytes with
  | nil => simpa [FileWriter.writePieces] using h
  | cons piece pieces ih =>
    have hrest := ih (h.writePiece piece)
    rw [ByteArray.append_assoc] at hrest
    simpa [FileWriter.writePieces] using hrest

/-- A line is taken, and comes after all that has been written. -/
theorem writeLine (h : w.Holds f path bytes) (pieces : List String) :
    ∃ v g, w.writeLine f pieces = (.ok (), v, g) ∧ v.Holds g path (bytes ++ (String.join pieces).toUTF8) :=
  ⟨_, _, writeLine_of_room h.unlimited f pieces, h.writePieces pieces⟩

end Holds

end FileWriter
end MicroDebug
