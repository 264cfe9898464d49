import Mathlib.Data.List.Induction
import MicroDebug.Host.KeyLine

/-! The line that keys type and the row of the screen that shows it. The first key that ends the line settles the
    answer, and what earlier keys show keeps the row in step with the line, unless a character moves the cursor
    when it is shown. -/

namespace MicroDebug

/-! ### A row of the screen -/

/-- A row of a terminal: the cells to the left of the cursor, nearest first, and the cells from the cursor on. -/
structure Row where
  left : List Char := []
  right : List Char := []
deriving DecidableEq, Repr

namespace Row

/-- Backspace moves the cursor to the left, and any other character fills the cell at the cursor. -/
def put (r : Row) (c : Char) : Row :=
  if c = '\x08' then
    match r.left with
    | [] => r
    | cell :: cells => { left := cells, right := cell :: r.right }
  else { left := c :: r.left, right := r.right.tail }

def write (r : Row) (text : String) : Row := text.toList.foldl put r

/-- The line stands to the left of the cursor, and there is nothing to the right. -/
def Shows (r : Row) (line : List Char) : Prop := r.left.reverse = line ∧ ∀ cell ∈ r.right, cell = ' '

instance (r : Row) (line : List Char) : Decidable (r.Shows line) := inferInstanceAs (Decidable (_ ∧ _))

variable {r : Row} {line : List Char}

theorem write_append (r : Row) (s t : String) : r.write (s ++ t) = (r.write s).write t := by
  simp [write]

theorem Shows.write_singleton (h : r.Shows line) {c : Char} (hc : c ≠ '\x08') :
    (r.write (String.singleton c)).Shows (line ++ [c]) := by
  have hput : r.write (String.singleton c) = { left := c :: r.left, right := r.right.tail } := by
    simp [write, put, hc]
  rw [hput]
  exact ⟨by simp [h.1], fun cell hcell => h.2 cell (List.mem_of_mem_tail hcell)⟩

/-- Backspace, blank and backspace erase the last cell. -/
theorem Shows.write_erasing (h : r.Shows line) (hline : line ≠ []) : (r.write "\x08 \x08").Shows line.dropLast := by
  obtain ⟨left, right⟩ := r
  obtain ⟨rfl, hright⟩ := h
  cases left with
  | nil => exact absurd rfl hline
  | cons cell cells =>
    have hwrite : Row.write ⟨cell :: cells, right⟩ "\x08 \x08" = ⟨cells, ' ' :: right⟩ := rfl
    rw [hwrite]
    exact ⟨by simp, by simpa using hright⟩

end Row

namespace KeyLine

/-! ### Keys that go on with the line -/

/-- The line after a key that does not end it. -/
def edit (line : List Char) : Key → List Char
  | .typed c => line ++ [c]
  | .backspace => line.dropLast
  | .control _ | .enter | .other => line

/-- The line that is left of the characters typed and erased. -/
def lineAfter (keys : List Key) : List Char := keys.foldl edit []

/-- The key ends the line that has been typed so far. -/
def Ends (line : List Char) (k : Key) : Prop := k = .enter ∨ k = .control 'c' ∨ k = .control 'd' ∧ line = []

instance (line : List Char) (k : Key) : Decidable (Ends line k) := inferInstanceAs (Decidable (_ ∨ _))

/-- None of the keys ends the line that those before it leave. -/
def Open (keys : List Key) : Prop := ∀ before k, before ++ [k] <+: keys → ¬Ends (lineAfter before) k

variable {keys before : List Key} {k : Key} {line : List Char}

theorem open_iff_getElem : Open keys ↔ ∀ i (h : i < keys.length), ¬Ends (lineAfter (keys.take i)) keys[i] := by
  constructor
  · intro h i hi
    exact h (keys.take i) keys[i] (by rw [← List.take_succ_eq_append_getElem hi]; exact List.take_prefix _ keys)
  · rintro h before k ⟨rest, rfl⟩
    simpa using h before.length (by simp)

instance (keys : List Key) : Decidable (Open keys) := decidable_of_iff _ open_iff_getElem.symm

theorem lineAfter_concat (keys : List Key) (k : Key) : lineAfter (keys ++ [k]) = edit (lineAfter keys) k := by
  simp [lineAfter]

theorem open_nil : Open [] := fun before k h => by simp at h

theorem open_concat_iff : Open (keys ++ [k]) ↔ Open keys ∧ ¬Ends (lineAfter keys) k := by
  constructor
  · intro h
    exact ⟨fun before k' hk => h before k' (hk.trans (List.prefix_append keys [k])), h keys k List.prefix_rfl⟩
  · rintro ⟨hkeys, hk⟩ before k' hbegins
    obtain he | hbefore := List.prefix_concat_iff.1 hbegins
    · obtain ⟨rfl, rfl⟩ := List.append_singleton_inj.1 he
      exact hk
    · exact hkeys before k' hbefore

/-- The line is never ended, or there is a first key that ends it. -/
theorem open_or_exists_ends (keys : List Key) :
    Open keys ∨ ∃ before k, before ++ [k] <+: keys ∧ Open before ∧ Ends (lineAfter before) k := by
  induction keys using List.reverseRecOn with
  | nil => exact .inl open_nil
  | append_singleton keys k ih =>
    obtain hopen | ⟨before, k', hbegins, hopen, hends⟩ := ih
    · by_cases hk : Ends (lineAfter keys) k
      · exact .inr ⟨keys, k, List.prefix_rfl, hopen, hk⟩
      · exact .inl (open_concat_iff.2 ⟨hopen, hk⟩)
    · exact .inr ⟨before, k', hbegins.trans (List.prefix_append keys [k]), hopen, hends⟩

theorem press_control {c : Char} (h : ¬Ends line (.control c)) : press line (.control c) = (.editing line, "") := by
  simp only [Ends, reduceCtorEq, Key.control.injEq, false_or, not_or] at h
  simp [press, h.1, h.2]

theorem press_of_not_ends (h : ¬Ends line k) : press line k = (.editing (edit line k), (press line k).2) := by
  cases k with
  | typed c | other => rfl
  | enter => exact absurd (.inl rfl) h
  | backspace =>
    simp only [press, edit]
    split <;> simp_all
  | control c =>
    rw [press_control h]
    rfl

/-- Keys that go on with the line leave it and what they have shown to the keys after them. -/
theorem read_append (h : Open before) (rest : List Key) :
    read [] "" (before ++ rest) = read (lineAfter before) (read [] "" before).1.echo rest := by
  induction before using List.reverseRecOn generalizing rest with
  | nil => rfl
  | append_singleton before k ih =>
    obtain ⟨hbefore, hk⟩ := open_concat_iff.1 h
    have hstep : ∀ rest, read [] "" (before ++ k :: rest) =
        read (edit (lineAfter before) k) ((read [] "" before).1.echo ++ (press (lineAfter before) k).2) rest := by
      intro rest
      rw [ih hbefore, read, press_of_not_ends hk]
    rw [List.append_assoc, List.singleton_append, hstep, hstep, lineAfter_concat]
    rfl

theorem read_concat_echo (h : Open (before ++ [k])) :
    (read [] "" (before ++ [k])).1.echo = (read [] "" before).1.echo ++ (press (lineAfter before) k).2 := by
  obtain ⟨hbefore, hk⟩ := open_concat_iff.1 h
  rw [read_append hbefore, read, press_of_not_ends hk]
  rfl

theorem exists_read_echo (line : List Char) (echo : String) (keys : List Key) :
    ∃ later, (read line echo keys).1.echo = echo ++ later := by
  induction keys generalizing line echo with
  | nil => exact ⟨"", by simp [read]⟩
  | cons k rest ih =>
    rw [read]
    split
    · next line' text _ =>
      obtain ⟨later, hlater⟩ := ih line' (echo ++ text)
      exact ⟨text ++ later, by rw [hlater, String.append_assoc]⟩
    · next text _ => exact ⟨text, rfl⟩

/-! ### Answers -/

theorem answer_of_open (h : Open keys) : (read [] "" keys).1.answer = .ended := by
  have hread := read_append h []
  rw [List.append_nil] at hread
  rw [hread, read]

theorem answer_of_finished {answer : Answer} (hopen : Open before) (hbegins : before ++ [k] <+: keys)
    (h : (press (lineAfter before) k).1 = .finished answer) : (read [] "" keys).1.answer = answer := by
  obtain ⟨rest, rfl⟩ := hbegins
  rw [List.append_assoc, List.singleton_append, read_append hopen, read]
  split
  · next hpress => simp [hpress] at h
  · next hpress => simpa [hpress] using h

theorem answer_of_cancel (h : before ++ [.control 'c'] <+: keys) (hopen : Open before) :
    (read [] "" keys).1.answer = .cancelled :=
  answer_of_finished hopen h rfl

theorem answer_of_end (h : before ++ [.control 'd'] <+: keys) (hopen : Open before) (hline : lineAfter before = []) :
    (read [] "" keys).1.answer = .ended :=
  answer_of_finished hopen h (by simp [press, hline])

theorem answer_of_enter (h : before ++ [.enter] <+: keys) (hopen : Open before) :
    (read [] "" keys).1.answer = .line (String.ofList (lineAfter before)) :=
  answer_of_finished hopen h rfl

theorem Open.enter_notMem (h : Open keys) : .enter ∉ keys := by
  intro hmem
  obtain ⟨before, after, rfl⟩ := List.append_of_mem hmem
  exact h before .enter ⟨after, by simp⟩ (.inl rfl)

theorem answer_eq_cancelled_iff :
    (read [] "" keys).1.answer = .cancelled ↔ ∃ before, before ++ [.control 'c'] <+: keys ∧ Open before := by
  constructor
  · intro h
    obtain hopen | ⟨before, k, hbegins, hopen, rfl | rfl | ⟨rfl, hline⟩⟩ := open_or_exists_ends keys
    · cases h.symm.trans (answer_of_open hopen)
    · cases h.symm.trans (answer_of_enter hbegins hopen)
    · exact ⟨before, hbegins, hopen⟩
    · cases h.symm.trans (answer_of_end hbegins hopen hline)
  · rintro ⟨before, hbegins, hopen⟩
    exact answer_of_cancel hbegins hopen

theorem answer_eq_ended_iff :
    (read [] "" keys).1.answer = .ended ↔
      (∃ before, before ++ [.control 'd'] <+: keys ∧ lineAfter before = [] ∧ Open before) ∨ Open keys := by
  constructor
  · intro h
    obtain hopen | ⟨before, k, hbegins, hopen, rfl | rfl | ⟨rfl, hline⟩⟩ := open_or_exists_ends keys
    · exact .inr hopen
    · cases h.symm.trans (answer_of_enter hbegins hopen)
    · cases h.symm.trans (answer_of_cancel hbegins hopen)
    · exact .inl ⟨before, hbegins, hline, hopen⟩
  · rintro (⟨before, hbegins, hline, hopen⟩ | hopen)
    · exact answer_of_end hbegins hopen hline
    · exact answer_of_open hopen

theorem answer_cases (keys : List Key) :
    (read [] "" keys).1.answer = .cancelled ∨ (read [] "" keys).1.answer = .ended ∨
      ∃ before, before ++ [.enter] <+: keys ∧ .enter ∉ before ∧
        (read [] "" keys).1.answer = .line (String.ofList (lineAfter before)) := by
  obtain hopen | ⟨before, k, hbegins, hopen, rfl | rfl | ⟨rfl, hline⟩⟩ := open_or_exists_ends keys
  · exact .inr (.inl (answer_of_open hopen))
  · exact .inr (.inr ⟨before, hbegins, hopen.enter_notMem, answer_of_enter hbegins hopen⟩)
  · exact .inl (answer_of_cancel hbegins hopen)
  · exact .inr (.inl (answer_of_end hbegins hopen hline))

/-! ### Lines and rows -/

/-- A key that goes on with the line changes the row as it changes the line. -/
theorem shows_press {r : Row} (h : r.Shows line) (hends : ¬Ends line k) (hk : k ≠ .typed '\x08') :
    (r.write (press line k).2).Shows (edit line k) := by
  cases k with
  | typed c => exact h.write_singleton fun hc => hk (hc ▸ rfl)
  | enter => exact absurd (.inl rfl) hends
  | other => exact h
  | backspace =>
    by_cases hline : line = []
    · subst hline
      exact h
    · simpa [press, edit, hline] using h.write_erasing hline
  | control c =>
    rw [press_control hends]
    exact h

theorem shows_read (hopen : Open keys) (hkeys : .typed '\x08' ∉ keys) :
    (Row.write {} (read [] "" keys).1.echo).Shows (lineAfter keys) := by
  induction keys using List.reverseRecOn with
  | nil => exact ⟨rfl, fun cell h => absurd h List.not_mem_nil⟩
  | append_singleton keys k ih =>
    obtain ⟨hbefore, hends⟩ := open_concat_iff.1 hopen
    simp only [List.mem_append, List.mem_singleton, not_or] at hkeys
    rw [read_concat_echo hopen, Row.write_append, lineAfter_concat]
    exact shows_press (ih hbefore hkeys.1) hends (Ne.symm hkeys.2)

/-- The first key that ends the line settles the answer, and until then the row of the screen shows what has been
    typed and not erased. -/
theorem read_matches_screen (keys : List Key) :
    ((read [] "" keys).1.answer = .cancelled ↔ ∃ before, before ++ [.control 'c'] <+: keys ∧ Open before) ∧
    ((read [] "" keys).1.answer = .ended ↔
      (∃ before, before ++ [.control 'd'] <+: keys ∧ lineAfter before = [] ∧ Open before) ∨ Open keys) ∧
    ((read [] "" keys).1.answer = .cancelled ∨ (read [] "" keys).1.answer = .ended ∨
      ∃ before, before ++ [.enter] <+: keys ∧ .enter ∉ before ∧
        (read [] "" keys).1.answer = .line (String.ofList (lineAfter before))) ∧
    ∀ before, before <+: keys → Open before →
      (∃ later, (read [] "" keys).1.echo = (read [] "" before).1.echo ++ later) ∧
        (.typed '\x08' ∉ before → (Row.write {} (read [] "" before).1.echo).Shows (lineAfter before)) := by
  refine ⟨answer_eq_cancelled_iff, answer_eq_ended_iff, answer_cases keys, ?_⟩
  rintro before ⟨rest, rfl⟩ hopen
  have hecho := exists_read_echo (lineAfter before) (read [] "" before).1.echo rest
  exact ⟨by rwa [read_append hopen], shows_read hopen⟩

/-- The end key does nothing while there is a line, and keys after enter are left alone. -/
theorem read_matches_screen_ab :
    (read [] "" [.typed 'a', .typed 'b', .backspace, .control 'd', .other, .typed 'é', .enter, .typed 'x']).1.answer =
        .line "aé" ∧
      (Row.write {} (read [] "" [.typed 'a', .typed 'b', .backspace]).1.echo).Shows ['a'] := by
  obtain ⟨-, -, -, hscreen⟩ := read_matches_screen
    [.typed 'a', .typed 'b', .backspace, .control 'd', .other, .typed 'é', .enter, .typed 'x']
  exact ⟨by decide +kernel, (hscreen [.typed 'a', .typed 'b', .backspace] (by decide) (by decide)).2 (by decide)⟩

/-- No reading of the screen that erases a cell as backspace does will do for backspaces that were typed as
    characters. -/
theorem no_screen_of_typed_backspaces :
    ¬∃ shows : String → List Char, (∀ text, shows (text ++ "\x08 \x08") = (shows text).dropLast) ∧
      ∀ before, before <+: [.typed 'a', .typed '\x08', .typed ' ', .typed '\x08'] →
        shows (read [] "" before).1.echo = lineAfter before := by
  rintro ⟨shows, herase, hshows⟩
  have hfirst : shows "a" = ['a'] := hshows [.typed 'a'] (by decide)
  have hlast : shows ("a" ++ "\x08 \x08") = ['a', '\x08', ' ', '\x08'] := hshows _ List.prefix_rfl
  rw [herase, hfirst] at hlast
  cases hlast

end KeyLine
end MicroDebug
