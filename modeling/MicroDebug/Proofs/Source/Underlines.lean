import MicroDebug.Proofs.Source.Slices

/-! Messages as they are shown under a source. Marks are put below a place by counting the bytes before it, which is
    right where each of the characters before it takes one byte. -/

namespace MicroDebug

open Token

namespace Span

/-- The span is that of a text within a source. -/
def LiesIn (s : Span) (source : String) : Prop := ∃ text, s.Covers source text

/-- The span is that of a text within a source, with so many characters of the source before it. -/
def LiesAfter (s : Span) (source : String) (count : Nat) : Prop :=
  ∃ before text after, source = before ++ text ++ after ∧ before.utf8ByteSize = s.start ∧
    (before ++ text).utf8ByteSize = s.stop ∧ before.length = count

/-! ### Boundaries -/

/-- The offset is between two characters of a source, or at one of its ends. -/
def Boundary (source : String) (offset : Nat) : Prop :=
  ∃ before after, source.toList = before ++ after ∧ byteCount before = offset

variable {source : String} {s t : Span}

theorem boundary_zero (source : String) : Boundary source 0 := ⟨[], source.toList, rfl, rfl⟩

theorem liesIn_iff : s.LiesIn source ↔ Boundary source s.start ∧ Boundary source s.stop := by
  constructor
  · rintro ⟨text, hcovers⟩
    obtain ⟨before, after, hsource, hstart, hstop⟩ := covers_iff.mp hcovers
    exact ⟨⟨before, text.toList ++ after, by rw [hsource, List.append_assoc], hstart⟩, _, after, hsource, hstop⟩
  · rintro ⟨⟨before, rest, hsource, hstart⟩, upto, after, hsource', hstop⟩
    obtain ⟨text, rfl, -⟩ := exists_append_of_byteCount_le (hsource.symm.trans hsource')
      (by rw [hstart, hstop]; exact s.start_le_stop)
    refine ⟨String.ofList text, covers_iff.mpr ⟨before, after, ?_, hstart, ?_⟩⟩ <;> rwa [String.toList_ofList]

theorem LiesIn.merge (hs : s.LiesIn source) (ht : t.LiesIn source) : (s.merge t).LiesIn source := by
  rw [liesIn_iff] at hs ht ⊢
  constructor
  · rcases Nat.le_total s.start t.start with hle | hle
    · simpa only [Span.merge, Nat.min_eq_left hle] using hs.1
    · simpa only [Span.merge, Nat.min_eq_right hle] using ht.1
  · rcases Nat.le_total s.stop t.stop with hle | hle
    · simpa only [Span.merge, Nat.max_eq_right hle] using ht.2
    · simpa only [Span.merge, Nat.max_eq_left hle] using hs.2

theorem LiesIn.endpoint (h : s.LiesIn source) : s.endpoint.LiesIn source :=
  have hstop := (liesIn_iff.mp h).2
  liesIn_iff.mpr ⟨hstop, hstop⟩

/-- Where characters take one byte each, as many of them come before a place as bytes. -/
theorem LiesIn.liesAfter (h : s.LiesIn source) (hsource : ∀ c ∈ source.toList, c.utf8Size = 1) :
    s.LiesAfter source s.start := by
  obtain ⟨text, before, after, rfl, hstart, hstop⟩ := h
  refine ⟨before, text, after, rfl, hstart, hstop, ?_⟩
  rw [← hstart, ← String.length_toList, ← byteCount_eq_length fun c hc => hsource c (by simp [hc]), byteCount_eq,
    String.ofList_toList]

end Span

namespace Diagnostic

/-! ### Marks -/

/-- The places that a message speaks of. -/
def places (d : Diagnostic) : List Span := d.span :: d.labels.map Prod.fst

/-- So many marks after so many blanks. -/
def marks (indent width : Nat) (mark : Char) : String :=
  String.ofList (List.replicate indent ' ' ++ List.replicate width mark)

/-- The message can be shown under a source: each place that it speaks of lies in the source, and under the source
    there is a mark at least for each, after a margin of two and as many blanks as characters come before the place. -/
def Printable (source : String) (d : Diagnostic) : Prop :=
  ∃ column width : Span → Nat, (∀ s ∈ d.places, s.LiesAfter source (column s) ∧ 0 < width s) ∧
    d.render source = "error: " ++ d.message ++ "\n  " ++ source ++ "\n" ++
      marks (2 + column d.span) (width d.span) '^' ++
      String.join (d.labels.map fun (s, text) => "\n" ++ marks (2 + column s) (width s) '-' ++ " " ++ text)

theorem underline_eq (s : Span) (mark : Char) : underline s mark = marks (2 + s.start) (max s.length 1) mark := by
  have hmargin : "  " = String.ofList (List.replicate 2 ' ') := rfl
  rw [underline, marks, List.replicate_add, List.append_assoc, hmargin, ← String.ofList_append]

theorem printable_of_liesAfter {source : String} {d : Diagnostic}
    (h : ∀ s ∈ d.places, s.LiesAfter source s.start) : d.Printable source := by
  refine ⟨Span.start, fun s => max s.length 1, fun s hs => ⟨h s hs, Nat.le_max_right ..⟩, ?_⟩
  simp only [render, underline_eq]

end Diagnostic
end MicroDebug
