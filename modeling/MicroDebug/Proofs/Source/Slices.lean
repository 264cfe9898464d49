import Mathlib.Data.String.Basic
import MicroDebug.Expression.Token

/-! The text at a span of a source. A span that lies between characters has exactly one text, since two beginnings of
    a source with the same number of bytes are the same. -/

namespace MicroDebug

namespace Token

theorem byteCount_eq (cs : List Char) : byteCount cs = (String.ofList cs).utf8ByteSize := by
  rw [String.utf8ByteSize_ofList]
  induction cs with
  | nil => rfl
  | cons c cs ih => rw [byteCount, List.foldr_cons, ← byteCount, ih, String.utf8Len_cons, Nat.add_comm]

theorem byteCount_nil : byteCount [] = 0 := rfl

theorem byteCount_cons (c : Char) (cs : List Char) : byteCount (c :: cs) = c.utf8Size + byteCount cs := rfl

theorem byteCount_append (cs ds : List Char) : byteCount (cs ++ ds) = byteCount cs + byteCount ds := by
  rw [byteCount_eq, byteCount_eq, byteCount_eq, String.ofList_append, String.utf8ByteSize_append]

theorem byteCount_pos {cs : List Char} (h : cs ≠ []) : 0 < byteCount cs := by
  obtain ⟨c, cs, rfl⟩ := List.exists_cons_of_ne_nil h
  have := c.utf8Size_pos
  rw [byteCount_cons]
  omega

theorem byteCount_eq_length {cs : List Char} (h : ∀ c ∈ cs, c.utf8Size = 1) : byteCount cs = cs.length := by
  induction cs with
  | nil => rfl
  | cons c cs ih =>
    obtain ⟨hc, hcs⟩ := List.forall_mem_cons.mp h
    rw [byteCount_cons, hc, ih hcs, List.length_cons, Nat.add_comm]

/-- Of two beginnings of a source the one with fewer bytes is a beginning of the other. -/
theorem exists_append_of_byteCount_le {before before' after after' : List Char}
    (h : before ++ after = before' ++ after') (hle : byteCount before ≤ byteCount before') :
    ∃ between, before' = before ++ between ∧ after = between ++ after' := by
  rcases List.append_eq_append_iff.mp h with ⟨between, rfl, rfl⟩ | ⟨between, rfl, rfl⟩
  · exact ⟨between, rfl, rfl⟩
  · rcases between with _ | ⟨c, between⟩
    · exact ⟨[], by simp, rfl⟩
    · have := byteCount_pos (List.cons_ne_nil c between)
      rw [byteCount_append] at hle
      omega

theorem eq_of_byteCount_eq {before before' after after' : List Char} (h : before ++ after = before' ++ after')
    (heq : byteCount before = byteCount before') : before = before' ∧ after = after' := by
  obtain ⟨between, rfl, rfl⟩ := exists_append_of_byteCount_le h (Nat.le_of_eq heq)
  rcases between with _ | ⟨c, between⟩
  · simp
  · have := byteCount_pos (List.cons_ne_nil c between)
    rw [byteCount_append] at heq
    omega

end Token

namespace Span

open Token

theorem ofLength_start (start length : Nat) : (ofLength start length).start = start := rfl

theorem ofLength_stop (start length : Nat) : (ofLength start length).stop = start + length := rfl

/-- The span is that of a text within a source. -/
def Covers (s : Span) (source text : String) : Prop :=
  ∃ before after, source = before ++ text ++ after ∧ before.utf8ByteSize = s.start ∧
    (before ++ text).utf8ByteSize = s.stop

theorem covers_iff {s : Span} {source text : String} :
    s.Covers source text ↔ ∃ before after, source.toList = before ++ text.toList ++ after ∧
      byteCount before = s.start ∧ byteCount (before ++ text.toList) = s.stop := by
  constructor
  · rintro ⟨before, after, rfl, hstart, hstop⟩
    refine ⟨before.toList, after.toList, by simp, ?_, ?_⟩
    · rw [byteCount_eq, String.ofList_toList, hstart]
    · rw [byteCount_eq, ← String.toList_append, String.ofList_toList, hstop]
  · rintro ⟨before, after, hsource, hstart, hstop⟩
    refine ⟨String.ofList before, String.ofList after, String.toList_injective (by simp [hsource]), ?_, ?_⟩
    · rw [← byteCount_eq, hstart]
    · rw [← hstop, byteCount_eq, String.ofList_append, String.ofList_toList]

end Span
end MicroDebug
