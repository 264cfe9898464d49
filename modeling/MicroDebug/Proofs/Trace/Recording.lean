import MicroDebug.Proofs.Host.FileWriter
import MicroDebug.Trace.Recorder

/-! What a recorder does to the files. A file without a limit takes every line, and what goes into it and when depends
    on nothing that is in the folder, so all that a trace changes there is its own file. -/

namespace MicroDebug

/-! ### Files -/

namespace Folder

theorem lookup_filter_ne {α : Type} {name key : String} (files : List (String × α)) (h : name ≠ key) :
    (files.filter (·.1 != key)).lookup name = files.lookup name := by
  induction files with
  | nil => rfl
  | cons x files ih =>
    obtain ⟨other, contents⟩ := x
    by_cases hother : other = key
    · subst hother
      rw [List.filter_cons_of_neg (by simp), ih, List.lookup_cons, beq_false_of_ne h]
    · rw [List.filter_cons_of_pos (by simpa using hother), List.lookup_cons, List.lookup_cons, ih]

theorem lookup_put (f : Folder) (path : String) (contents : ByteArray) (name : String) :
    (f.put path contents).files.lookup name =
      if Path.isVoid path = false ∧ name = Path.key path then some contents else f.files.lookup name := by
  rw [put]
  split
  · next hvoid => rw [if_neg fun h => by rw [hvoid] at h; cases h.1]
  · next hkept =>
    by_cases hname : name = Path.key path
    · rw [if_pos ⟨by simpa using hkept, hname⟩, hname, List.lookup_cons_self]
    · rw [if_neg fun h => hname h.2, List.lookup_cons, beq_false_of_ne hname]
      exact lookup_filter_ne f.files hname

theorem refusal_put (f : Folder) (path : String) (contents : ByteArray) :
    (f.put path contents).refusal = f.refusal := by
  rw [put]
  split <;> rfl

/-- The folder after several stretches of bytes have been written into one file. -/
def store (f : Folder) (path : String) (writes : List (Nat × ByteArray)) : Folder :=
  writes.foldl (fun f x => f.write path x.1 x.2) f

theorem store_append (f : Folder) (path : String) (xs ys : List (Nat × ByteArray)) :
    f.store path (xs ++ ys) = (f.store path xs).store path ys := List.foldl_append

/-- The folder when bytes have been written into a new file, if one can be made. -/
def written (f : Folder) (path : String) (bytes : ByteArray) : Folder :=
  match f.create path with
  | .error _ => f
  | .ok g => g.write path 0 bytes

/-- The folders hold files of the same names, with the same contents but for some names, and refuse the same. -/
structure Agree (names : List String) (f g : Folder) : Prop where
  refusal : g.refusal = f.refusal
  holds : g.holds = f.holds
  files : ∀ name ∉ names, g.files.lookup name = f.files.lookup name

/-- What is written to a path is lost, or it goes into a file of one of the names. -/
def Spares (names : List String) (f : Folder) (path : String) : Prop :=
  Path.isVoid path = true ∨ Path.key path ∈ names ∧ f.holds (Path.key path) = true

theorem Spares.put {names : List String} {f : Folder} {path : String} (h : f.Spares names path) (other : String)
    (contents : ByteArray) : (f.put other contents).Spares names path := by
  refine h.imp_right (And.imp_right fun hheld => ?_)
  rw [holds, lookup_put]
  split
  · rfl
  · exact hheld

theorem Spares.store {names : List String} {f : Folder} {path : String} (h : f.Spares names path) (other : String)
    (writes : List (Nat × ByteArray)) : (f.store other writes).Spares names path := by
  induction writes generalizing f with
  | nil => exact h
  | cons x writes ih => exact ih (h.put other _)

namespace Agree

variable {names : List String} {f g : Folder} (h : f.Agree names g)
include h

theorem symm : g.Agree names f := ⟨h.refusal.symm, h.holds.symm, fun name hname => (h.files name hname).symm⟩

theorem put (path : String) {contents contents' : ByteArray} (hsame : Path.key path ∉ names → contents' = contents) :
    (f.put path contents).Agree names (g.put path contents') := by
  refine ⟨?_, funext fun name => ?_, fun name hname => ?_⟩
  · rw [refusal_put, refusal_put, h.refusal]
  · have hholds := congrFun h.holds name
    rw [Folder.holds, Folder.holds] at hholds ⊢
    rw [lookup_put, lookup_put]
    split
    · rfl
    · exact hholds
  · rw [lookup_put, lookup_put, h.files name hname]
    split
    · next hput => rw [hsame (hput.2 ▸ hname)]
    · rfl

/-- A file that may differ may be given new contents in one of the folders. -/
theorem put_right {path : String} (hpath : g.Spares names path) (contents : ByteArray) :
    f.Agree names (g.put path contents) := by
  refine ⟨?_, funext fun name => ?_, fun name hname => ?_⟩
  · rw [refusal_put, h.refusal]
  · have hholds := congrFun h.holds name
    rw [Folder.holds] at hholds ⊢
    rw [lookup_put]
    split
    · next hput =>
      obtain hvoid | ⟨-, hheld⟩ := hpath
      · rw [hvoid] at hput
        cases hput.1
      · rw [Option.isSome_some, ← h.holds, hput.2, hheld]
    · exact hholds
  · rw [lookup_put, if_neg, h.files name hname]
    rintro ⟨hkept, rfl⟩
    obtain hvoid | ⟨hname', -⟩ := hpath
    · rw [hvoid] at hkept
      cases hkept
    · exact hname hname'

theorem find? {path : String} (hpath : Path.key path ∉ names) : g.find? path = f.find? path := by
  rw [Folder.find?, Folder.find?, h.files _ hpath]

theorem store (path : String) (writes : List (Nat × ByteArray)) :
    (f.store path writes).Agree names (g.store path writes) := by
  induction writes generalizing f g with
  | nil => exact h
  | cons x writes ih => exact ih (h.put path fun hpath => by rw [h.find? hpath])

theorem store_right {path : String} (hpath : g.Spares names path) (writes : List (Nat × ByteArray)) :
    f.Agree names (g.store path writes) := by
  induction writes generalizing g with
  | nil => exact h
  | cons x writes ih => exact ih (h.put_right hpath _) (hpath.put path _)

end Agree

end Folder

/-! ### Writers -/

namespace FileWriter

/-- One writer comes from another by writing, with a file and a limit that stay. -/
structure Onward (w v : FileWriter) : Prop where
  path : v.path = w.path
  room : v.room = w.room

theorem Onward.trans {w v u : FileWriter} (h : w.Onward v) (h' : v.Onward u) : w.Onward u :=
  ⟨h'.path.trans h.path, h'.room.trans h.room⟩

/-- What is held back is put into the file if there is a reason to. -/
theorem flush_eq (w : FileWriter) (reason : Prop) [Decidable reason] :
    ∃ v writes, w.Onward v ∧ ∀ f, (if reason then w.flush f else (w, f)) = (v, f.store w.path writes) := by
  by_cases h : reason ∧ ¬w.held.isEmpty
  · refine ⟨{ w with position := w.position + w.held.size, held := ByteArray.empty }, [(w.position, w.held)],
      ⟨rfl, rfl⟩, fun f => ?_⟩
    rw [if_pos h.1, flush, if_neg h.2]
    rfl
  · refine ⟨w, [], ⟨rfl, rfl⟩, fun f => ?_⟩
    split
    · next hreason =>
      rw [flush, if_pos (Classical.not_not.mp fun hheld => h ⟨hreason, hheld⟩)]
      rfl
    · rfl

theorem writePiece_eq (w : FileWriter) (piece : String) :
    ∃ v writes, w.Onward v ∧ ∀ f, w.writePiece f piece = (v, f.store w.path writes) := by
  obtain ⟨v, xs, hv, hfirst⟩ := w.flush_eq (w.capacity < w.held.size + piece.toUTF8.size)
  obtain ⟨u, ys, hu, hsecond⟩ :=
    { v with held := v.held ++ piece.toUTF8 }.flush_eq (v.capacity ≤ piece.toUTF8.size)
  refine ⟨u, xs ++ ys, hv.trans ⟨hu.path, hu.room⟩, fun f => ?_⟩
  rw [Folder.store_append, ← hv.path]
  simp only [writePiece, hfirst, hsecond]
  rw [hv.path]

theorem writePieces_eq (w : FileWriter) (pieces : List String) :
    ∃ v writes, w.Onward v ∧ ∀ f, w.writePieces f pieces = (v, f.store w.path writes) := by
  induction pieces generalizing w with
  | nil => exact ⟨w, [], ⟨rfl, rfl⟩, fun f => rfl⟩
  | cons piece pieces ih =>
    obtain ⟨v, xs, hv, hpiece⟩ := w.writePiece_eq piece
    obtain ⟨u, ys, hu, hpieces⟩ := ih v
    refine ⟨u, xs ++ ys, hv.trans hu, fun f => ?_⟩
    rw [Folder.store_append, ← hv.path, ← hpieces, hv.path, writePieces, List.foldl_cons, hpiece]
    rfl

/-- A file without a limit takes every line. -/
theorem writeLine_eq {w : FileWriter} (h : w.room = none) (pieces : List String) :
    ∃ v writes, w.Onward v ∧ ∀ f, w.writeLine f pieces = (.ok (), v, f.store w.path writes) := by
  obtain ⟨v, writes, hv, hpieces⟩ := w.writePieces_eq pieces
  exact ⟨v, writes, hv, fun f => by rw [writeLine_of_room h, hpieces]⟩

end FileWriter

/-! ### Recorders -/

namespace Recorder

/-- The file of a recorder has no limit. -/
def Reliable (r : Recorder) : Prop := r.writer.room = none

/-- One recorder comes from another by what it is told, with a file without a limit that stays. -/
structure Onward (r q : Recorder) : Prop where
  path : q.writer.path = r.writer.path
  reliable : q.Reliable

theorem leaveLoop_eq {r : Recorder} (h : r.Reliable) :
    ∃ t v writes, r.writer.Onward v ∧ ∀ f, r.tracer.leaveLoop writeLine (r.writer, f) =
      (.ok (), t, v, f.store r.writer.path writes) := by
  cases hline : r.tracer.loopLine? with
  | none => exact ⟨r.tracer, r.writer, [], ⟨rfl, rfl⟩, fun f => by rw [Tracer.leaveLoop, hline]; rfl⟩
  | some line =>
    obtain ⟨v, writes, hv, hwrite⟩ := FileWriter.writeLine_eq h line.pieces
    refine ⟨{ r.tracer with loop := none }, v, writes, hv, fun f => ?_⟩
    simp only [Tracer.leaveLoop, hline, writeLine, hwrite]

/-- A recorder without a limit takes every event. What it then holds and what it writes into its file have nothing to
    do with what is in the folder. -/
theorem observe_eq {r : Recorder} (h : r.Reliable) (m : Machine) (e : Event) :
    ∃ q writes, r.Onward q ∧ ∀ f, r.observe f m e = (.ok (), q, f.store r.writer.path writes) := by
  cases habsorb : r.tracer.absorb? e.pc with
  | some t =>
    refine ⟨{ r with tracer := t }, [], ⟨rfl, h⟩, fun f => ?_⟩
    simp only [observe, Tracer.observe, habsorb]
    rfl
  | none =>
    obtain ⟨t, v, xs, hv, hleave⟩ := leaveLoop_eq h
    obtain ⟨u, ys, hu, hwrite⟩ := FileWriter.writeLine_eq (hv.room.trans h) (Tracer.eventLine m e).pieces
    refine ⟨⟨t.record e, u⟩, xs ++ ys, ⟨(hv.trans hu).path, (hv.trans hu).room.trans h⟩, fun f => ?_⟩
    rw [Folder.store_append, ← hv.path]
    simp only [observe, Tracer.observe, habsorb, hleave, writeLine, hwrite]
    rw [hv.path]

theorem finish_eq {r : Recorder} (h : r.Reliable) :
    ∃ q writes, ∀ f, r.finish f = (.ok (), q, f.store r.writer.path writes) := by
  obtain ⟨t, v, xs, hv, hleave⟩ := leaveLoop_eq h
  obtain ⟨u, ys, hu, hflush⟩ := v.flush_eq True
  refine ⟨⟨{ r.tracer with loop := none }, u⟩, xs ++ ys, fun f => ?_⟩
  simp only [if_true] at hflush
  rw [Folder.store_append, ← hv.path]
  simp only [finish, Tracer.finish, hleave, hflush]
  rw [hv.path]

/-! ### Two traces -/

/-- A trace that may be off writes into a file of one of the names. -/
def Spares (names : List String) (r : Option Recorder) (f : Folder) : Prop :=
  ∀ x, r = some x → f.Spares names x.writer.path

/-- The folders differ in files of some names at most. The traces are the same, or write into such files. -/
structure Agree (names : List String) (r r' : Option Recorder) (f f' : Folder) : Prop where
  folders : f.Agree names f'
  recorders : r' = r ∨ Spares names r f ∧ Spares names r' f'

variable {names : List String} {r r' : Option Recorder} {f f' : Folder}

theorem Spares.put (h : Spares names r f) (path : String) (contents : ByteArray) :
    Spares names r (f.put path contents) := fun x hx => (h x hx).put path contents

theorem Agree.put (h : Agree names r r' f f') (path : String) {contents contents' : ByteArray}
    (hsame : Path.key path ∉ names → contents' = contents) :
    Agree names r r' (f.put path contents) (f'.put path contents') :=
  ⟨h.folders.put path hsame, h.recorders.imp_right fun hspares => ⟨hspares.1.put path _, hspares.2.put path _⟩⟩

/-- A file is made in both folders or, for the same reason, in neither. -/
theorem Agree.create (h : Agree names r r' f f') (path : String) :
    (∃ reason, f.create path = .error reason ∧ f'.create path = .error reason) ∨
      ∃ g g', f.create path = .ok g ∧ f'.create path = .ok g' ∧ Agree names r r' g g' := by
  simp only [Folder.create, h.folders.refusal, h.folders.holds]
  cases f.refusal f.holds path with
  | some reason => exact .inl ⟨reason, rfl, rfl⟩
  | none => exact .inr ⟨_, _, rfl, rfl, h.put path fun _ => rfl⟩

theorem Agree.written (h : Agree names r r' f f') (path : String) (bytes : ByteArray) :
    Agree names r r' (f.written path bytes) (f'.written path bytes) := by
  obtain ⟨reason, hf, hf'⟩ | ⟨g, g', hf, hf', hagree⟩ := h.create path
  · simp only [Folder.written, hf, hf']
    exact h
  · simp only [Folder.written, hf, hf']
    exact hagree.put path fun hpath => by rw [hagree.folders.find? hpath]

/-- The folder when the trace, if there is one, has ended. -/
def ended (r : Option Recorder) (f : Folder) : Folder := (r.map fun x => (x.finish f).2.2).getD f

theorem Spares.ended (hr : ∀ x, r' = some x → x.Reliable) (hspares : Spares names r' f') (h : f.Agree names f') :
    f.Agree names (ended r' f') := by
  cases r' with
  | none => exact h
  | some x =>
    obtain ⟨q, writes, hfinish⟩ := finish_eq (hr x rfl)
    rw [Recorder.ended, Option.map_some, Option.getD_some, hfinish]
    exact h.store_right (hspares x rfl) writes

theorem Agree.ended (hr : ∀ x, r = some x → x.Reliable) (hr' : ∀ x, r' = some x → x.Reliable)
    (h : Agree names r r' f f') : (ended r f).Agree names (ended r' f') := by
  obtain ⟨hfolders, rfl | ⟨hspares, hspares'⟩⟩ := h
  · cases r' with
    | none => exact hfolders
    | some x =>
      obtain ⟨q, writes, hfinish⟩ := finish_eq (hr x rfl)
      simp only [Recorder.ended, Option.map_some, Option.getD_some, hfinish]
      exact hfolders.store _ writes
  · exact (hspares.ended hr (hspares'.ended hr' hfolders).symm).symm

/-- The trace and the folder when a trace into a new file has been asked for. -/
def begun (path : String) (r : Option Recorder) (f : Folder) : Option Recorder × Folder :=
  match f.create path with
  | .error _ => (r, f)
  | .ok g => (some { writer := { path := path } }, ended r g)

theorem Agree.begun (hr : ∀ x, r = some x → x.Reliable) (hr' : ∀ x, r' = some x → x.Reliable)
    (h : Agree names r r' f f') (path : String) :
    Agree names (begun path r f).1 (begun path r' f').1 (begun path r f).2 (begun path r' f').2 := by
  obtain ⟨reason, hf, hf'⟩ | ⟨g, g', hf, hf', hagree⟩ := h.create path
  · simp only [Recorder.begun, hf, hf']
    exact h
  · simp only [Recorder.begun, hf, hf']
    exact ⟨hagree.ended hr hr', .inl rfl⟩

theorem Spares.watch (hr : ∀ x, r' = some x → x.Reliable) (hspares : Spares names r' f') (h : f.Agree names f')
    (p : Processor) (e : Event) :
    f.Agree names (watch (r', f') p e).2.2 ∧ Spares names (watch (r', f') p e).2.1 (watch (r', f') p e).2.2 := by
  cases r' with
  | none => exact ⟨h, hspares⟩
  | some x =>
    obtain ⟨q, writes, hq, hobserve⟩ := observe_eq (hr x rfl) p.toMachine e
    simp only [Recorder.watch, hobserve]
    refine ⟨h.store_right (hspares x rfl) writes, fun y hy => ?_⟩
    cases hy
    rw [hq.path]
    exact (hspares x rfl).store _ writes

theorem Agree.watch (hr : ∀ x, r = some x → x.Reliable) (hr' : ∀ x, r' = some x → x.Reliable)
    (h : Agree names r r' f f') (p : Processor) (e : Event) :
    Agree names (watch (r, f) p e).2.1 (watch (r', f') p e).2.1 (watch (r, f) p e).2.2 (watch (r', f') p e).2.2 := by
  obtain ⟨hfolders, rfl | ⟨hspares, hspares'⟩⟩ := h
  · cases r' with
    | none => exact ⟨hfolders, .inl rfl⟩
    | some x =>
      obtain ⟨q, writes, -, hobserve⟩ := observe_eq (hr x rfl) p.toMachine e
      simp only [Recorder.watch, hobserve]
      exact ⟨hfolders.store _ writes, .inl rfl⟩
  · obtain ⟨hright, hkept'⟩ := hspares'.watch hr' hfolders p e
    obtain ⟨hleft, hkept⟩ := hspares.watch hr hright.symm p e
    exact ⟨hleft.symm, .inr ⟨hkept, hkept'⟩⟩

theorem watch_eq (hr : ∀ x, r = some x → x.Reliable) (p : Processor) (e : Event) :
    (watch (r, f) p e).1 = .ok () ∧ ∀ x, (watch (r, f) p e).2.1 = some x → x.Reliable := by
  cases r with
  | none => exact ⟨rfl, nofun⟩
  | some x =>
    obtain ⟨q, writes, hq, hobserve⟩ := observe_eq (hr x rfl) p.toMachine e
    simp only [Recorder.watch, hobserve]
    exact ⟨trivial, fun y hy => Option.some.inj hy ▸ hq.reliable⟩

end Recorder
end MicroDebug
