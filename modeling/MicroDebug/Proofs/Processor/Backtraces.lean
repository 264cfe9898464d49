import MicroDebug.Processor.CallStack
import Mathlib.Data.List.Induction

/-! What a backtrace tells about the calls and returns that were noted. The calls on the stack are those that have not
    returned, and a backtrace goes through them from the running function out to the one the program started in. -/

namespace MicroDebug.CallStack

/-! ### The entries of a backtrace -/

section

variable (s : CallStack) (f : Frame) (pc : UInt16)

theorem length_backtrace : (s.backtrace pc).length = s.depth + 1 := by
  rw [backtrace, List.length_zip, List.length_cons, List.length_append, List.length_map, List.length_map,
    List.length_singleton, Nat.min_self, depth]

theorem head?_backtrace : (s.backtrace pc).head? = some (pc, s.current) := by
  obtain ⟨entry, frames⟩ := s
  cases frames with
  | nil => rfl
  | cons f frames => rfl

/-- From the outside in, the site of a call stands beside the function that the call before it led to. -/
theorem reverse_backtrace :
    (s.backtrace pc).reverse =
      List.zip (s.frames.reverse.map Frame.site ++ [pc]) (s.entry :: s.frames.reverse.map Frame.function) := by
  have hlength : (pc :: s.frames.map Frame.site).length = (s.frames.map Frame.function ++ [s.entry]).length := by
    rw [List.length_cons, List.length_append, List.length_map, List.length_map, List.length_singleton]
  rw [backtrace, List.zip, List.reverse_zipWith hlength, List.reverse_cons, List.reverse_concat, List.map_reverse,
    List.map_reverse]

theorem getLast?_backtrace : (s.backtrace pc).getLast?.map Prod.snd = some s.entry := by
  rw [List.getLast?_eq_head?_reverse, reverse_backtrace]
  cases s.frames.reverse.map Frame.site with
  | nil => rfl
  | cons site sites => rfl

theorem backtrace_push : (s.push f).backtrace pc = (pc, f.function) :: s.backtrace f.site := rfl

theorem takeLatest_push : (s.push f).takeLatest = (some f, s) := rfl

theorem depth_eq_zero_iff : s.depth = 0 ↔ s = { entry := s.entry } := by
  obtain ⟨entry, frames⟩ := s
  cases frames with
  | nil => exact ⟨fun _ => rfl, fun _ => rfl⟩
  | cons f frames => exact ⟨fun h => absurd h (Nat.succ_ne_zero _), fun h => by cases h⟩

end

/-! ### Calls and returns -/

/-- What is noted of a run: a call, or a return. -/
inductive Change where
  | call (f : Frame)
  | ret

def Change.apply (s : CallStack) : Change → CallStack
  | call f => s.push f
  | ret => s.pop

/-- The stack after calls and returns one after another. -/
def changed (s : CallStack) (changes : List Change) : CallStack := changes.foldl Change.apply s

variable {xs ys : List Change} {f : Frame} {frames : List Frame}

theorem changed_append (s : CallStack) (xs ys : List Change) : s.changed (xs ++ ys) = (s.changed xs).changed ys :=
  List.foldl_append

theorem entry_changed (s : CallStack) (xs : List Change) : (s.changed xs).entry = s.entry := by
  induction xs generalizing s with
  | nil => rfl
  | cons x xs ih =>
    refine (ih (x.apply s)).trans ?_
    cases x with
    | call f => rfl
    | ret => rfl

/-- Calls that have all returned, and no other returns. -/
inductive Matched : List Change → Prop
  | nil : Matched []
  | call {inner rest : List Change} (f : Frame) (hinner : Matched inner) (hrest : Matched rest) :
      Matched (.call f :: (inner ++ .ret :: rest))

theorem Matched.append (hxs : Matched xs) (hys : Matched ys) : Matched (xs ++ ys) := by
  induction hxs with
  | nil => exact hys
  | call f hinner _ _ ih =>
    rw [List.cons_append, List.append_assoc, List.cons_append]
    exact .call f hinner ih

/-- Calls that have all returned leave the stack as it was. -/
theorem changed_of_matched (h : Matched xs) (s : CallStack) : s.changed xs = s := by
  induction h generalizing s with
  | nil => rfl
  | @call inner rest f _ _ ihinner ihrest =>
    calc s.changed (.call f :: (inner ++ .ret :: rest))
        = (((s.push f).changed inner).pop).changed rest := changed_append (s.push f) inner (.ret :: rest)
      _ = s := by rw [ihinner, ihrest]; rfl

/-- The calls that have not returned, the latest first. A return when there is none goes by unnoticed. -/
inductive Unreturned : List Change → List Frame → Prop
  | nil : Unreturned [] []
  | stray {xs : List Change} (h : Unreturned xs []) : Unreturned (xs ++ [.ret]) []
  | matched {xs ys : List Change} {frames : List Frame} (h : Unreturned xs frames) (hys : Matched ys) :
      Unreturned (xs ++ ys) frames
  | call {xs : List Change} {frames : List Frame} (h : Unreturned xs frames) (f : Frame) :
      Unreturned (xs ++ [.call f]) (f :: frames)

namespace Unreturned

theorem changed_eq (h : Unreturned xs frames) (entry : UInt16) :
    changed { entry := entry } xs = { entry := entry, frames := frames } := by
  induction h with
  | nil => rfl
  | stray _ ih =>
    rw [changed_append, ih]
    rfl
  | matched _ hys ih => rw [changed_append, ih, changed_of_matched hys]
  | call _ f ih =>
    rw [changed_append, ih]
    rfl

/-- Since the latest call that has not returned, all calls have. -/
theorem exists_latest (h : Unreturned xs (f :: frames)) :
    ∃ before inner, xs = before ++ .call f :: inner ∧ Unreturned before frames ∧ Matched inner := by
  -- the call stays the latest as long as what comes after it is matched, which adds to the calls within it
  generalize hall : f :: frames = all at h
  induction h with
  | nil => cases hall
  | stray _ _ => cases hall
  | @matched xs ys _ _ hys ih =>
    obtain ⟨before, inner, rfl, hbefore, hinner⟩ := ih hall
    exact ⟨before, inner ++ ys, by rw [List.append_assoc, List.cons_append], hbefore, hinner.append hys⟩
  | @call xs _ h _ _ =>
    cases hall
    exact ⟨xs, [], rfl, h, .nil⟩

/-- A return after them leaves the calls but the latest. -/
theorem ret (h : Unreturned xs frames) : Unreturned (xs ++ [.ret]) frames.tail := by
  cases frames with
  | nil => exact h.stray
  | cons f frames =>
    obtain ⟨before, inner, rfl, hbefore, hinner⟩ := h.exists_latest
    rw [List.append_assoc]
    exact hbefore.matched (.call f hinner .nil)

end Unreturned

theorem unreturned_changed (entry : UInt16) (xs : List Change) :
    Unreturned xs (changed { entry := entry } xs).frames := by
  -- from the end, since the last change acts on what the others have left
  induction xs using List.reverseRecOn with
  | nil => exact .nil
  | append_singleton xs x ih =>
    rw [changed_append]
    cases x with
    | call f => exact ih.call f
    | ret => exact ih.ret

/-- The calls on the stack are those that have not returned. -/
theorem unreturned_iff (entry : UInt16) (xs : List Change) (frames : List Frame) :
    Unreturned xs frames ↔ changed { entry := entry } xs = { entry := entry, frames := frames } := by
  refine ⟨fun h => h.changed_eq entry, fun h => ?_⟩
  have hframes := unreturned_changed entry xs
  rwa [h] at hframes

/-- After any calls and returns the stack holds the calls that have not returned. A backtrace has an entry for each of
    them and one for the function that the program started in, which is the last; the first is where the program is and
    the function that is running. A call adds itself to the backtrace from its own site, and the return from it gives
    it back and leaves all as it was before. A return without a call changes nothing. -/
theorem backtrace_mirrors_nesting (entry : UInt16) (changes : List Change) :
    let s := changed { entry := entry } changes
    (∀ frames, Unreturned changes frames ↔ s = { entry := entry, frames := frames }) ∧
      (∀ pc, (s.backtrace pc).length = s.depth + 1 ∧ (s.backtrace pc).head? = some (pc, s.current) ∧
        (s.backtrace pc).getLast?.map Prod.snd = some entry) ∧
      (∀ f pc, (s.push f).backtrace pc = (pc, f.function) :: s.backtrace f.site) ∧
      (∀ f, (s.push f).takeLatest = (some f, s)) ∧
      (s.depth = 0 ↔ s = { entry := entry }) ∧ takeLatest { entry := entry } = (none, { entry := entry }) := by
  intro s
  have hentry : s.entry = entry := entry_changed { entry := entry } changes
  refine ⟨unreturned_iff entry changes, fun pc => ⟨length_backtrace s pc, head?_backtrace s pc, ?_⟩,
    fun f pc => backtrace_push s f pc, takeLatest_push s, ?_, rfl⟩
  · rw [getLast?_backtrace, hentry]
  · rw [depth_eq_zero_iff, hentry]

example :
    (changed { entry := 0x4400 } [.ret, .call ⟨0x4404, 0x4500⟩, .call ⟨0x4508, 0x4700⟩, .ret,
        .call ⟨0x4510, 0x4600⟩]).backtrace 0x4602 =
      [(0x4602, 0x4600), (0x4510, 0x4500), (0x4404, 0x4400)] := rfl

end MicroDebug.CallStack
