import AspKernel.StaticApi

/-! A text is kept in rows, each with the file and the line it comes from. -/

namespace AspKernel.Toppers
set_option autoImplicit true
open Itronx (Str TextLine)

/-- `line_buf` -/
structure Row where
  line : TextLine
  buf : Str
  deriving DecidableEq, Repr

/-- `basic_text`: the rows and the line that comes next. -/
structure Text where
  rows : List Row
  line : TextLine
  deriving DecidableEq, Repr

namespace Text

def setLine (t : Text) (line : TextLine) : Text := { t with line }

def initialLine (t : Text) : TextLine :=
  if 0 < t.line.line then t.line
  else match t.rows.getLast? with
    | none => ⟨"unknown".toList, 1⟩
    | some r => r.line

/-- A character begins a row behind a row of another file, and behind the end of a line. -/
def pushBack (t : Text) (c : Char) : Text :=
  match t.rows.getLast? with
  | none => { t with rows := [⟨t.initialLine, [c]⟩] }
  | some r =>
    if r.line.file ≠ t.line.file then { t with rows := t.rows ++ [⟨t.initialLine, [c]⟩] }
    else if r.buf.getLast? = some '\n' then
      let t := t.setLine ⟨t.line.file, t.line.line + 1⟩
      { t with rows := t.rows ++ [⟨t.initialLine, [c]⟩] }
    else { t with rows := t.rows.dropLast ++ [{ r with buf := r.buf ++ [c] }] }

/-- The characters of a text with their lines. -/
def chars (t : Text) : List (Char × TextLine) := t.rows.flatMap fun r => r.buf.map fun c => (c, r.line)

end Text

/-- Where the next character goes that is pushed: its line, the rows before it, and what its row has so far. -/
inductive Text.At (t : Text) (l : TextLine) : List Row → Str → Prop
  | fresh (h : ∀ r ∈ t.rows.getLast?, r.line.file ≠ l.file) (hl : t.line = l) : At t l t.rows []
  | next (h : t.rows.getLast? = some r) (hf : r.line.file = l.file) (hn : r.buf.getLast? = some '\n')
      (hl : t.line = ⟨l.file, l.line - 1⟩) : At t l t.rows []
  | within (h : t.rows = rs ++ [⟨l, row⟩]) (hr : row ≠ []) (hn : row.getLast? ≠ some '\n') (hl : t.line = l) :
    At t l rs row

theorem Text.At.pushBack_eq (h : At t l rs row) (hl : 0 < l.line) :
    t.pushBack c = ⟨rs ++ [⟨l, row ++ [c]⟩], l⟩ := by
  cases h with
  | fresh h ht =>
    have hi : t.initialLine = l := by rw [initialLine, ht, if_pos hl]
    cases hr : t.rows.getLast? with
    | none =>
      have he := List.getLast?_eq_none_iff.1 hr
      simp [pushBack, hi, he, ht]
    | some r =>
      have hf : r.line.file ≠ l.file := h r hr
      simp [pushBack, hr, hf, hi, ht]
  | next h hf hn ht =>
    simp [pushBack, h, hf, hn, ht, setLine, initialLine, hl]
  | within h hr hn ht =>
    simp [pushBack, h, hn, ht]

theorem Text.At.chars_eq (h : At t l rs row) :
    t.chars = (rs.flatMap fun r => r.buf.map fun c => (c, r.line)) ++ row.map fun c => (c, l) := by
  cases h with
  | fresh h ht => simp [chars]
  | next h hf hn ht => simp [chars]
  | within h hr hn ht => simp [chars, h]

/-- The line of the character behind `c`. -/
def after (l : TextLine) (c : Char) : TextLine := if c = '\n' then ⟨l.file, l.line + 1⟩ else l

theorem after_pos (h : 0 < l.line) : 0 < (after l c).line := by
  unfold after
  split
  · exact Int.add_pos h Int.one_pos
  · exact h

theorem after_file : (after l c).file = l.file := by
  unfold after
  split
  · rfl
  · rfl

/-- The characters with the lines they are on, from the line `l` on. -/
def number (l : TextLine) : Str → List (Char × TextLine)
  | [] => []
  | c :: t => (c, l) :: number (after l c) t

theorem number_append (l : TextLine) (s t : Str) : number l (s ++ t) = number l s ++ number (s.foldl after l) t := by
  induction s generalizing l with
  | nil => rfl
  | cons c s ih => exact congrArg ((c, l) :: ·) (ih (after l c))

section
variable (h : Text.At t l rs row) (hl : 0 < l.line)
include h hl

/-- A character that is pushed goes to its line. -/
theorem Text.At.chars_pushBack : (t.pushBack c).chars = t.chars ++ [(c, l)] := by
  rw [h.pushBack_eq hl, h.chars_eq]
  simp [chars]

theorem Text.At.pushBack (hc : c ≠ '\n') : (t.pushBack c).At l rs (row ++ [c]) := by
  rw [h.pushBack_eq hl]
  exact .within rfl (by simp) (by simpa using hc) rfl

theorem Text.At.newline : (t.pushBack '\n').At (after l '\n') (rs ++ [⟨l, row ++ ['\n']⟩]) [] := by
  rw [h.pushBack_eq hl]
  have hr : (rs ++ [Row.mk l (row ++ ['\n'])]).getLast? = some ⟨l, row ++ ['\n']⟩ := by simp
  refine .next (t := ⟨_, l⟩) hr ?_ (by simp) ?_
  · rfl
  · simp [after]

theorem Text.At.getLast_pushBack : (t.pushBack c).rows.getLast? = some ⟨l, row ++ [c]⟩ := by
  rw [h.pushBack_eq hl]
  simp

end

/-- The rows of a text from the place on where a row begins with `row`. -/
def rowsFrom (l : TextLine) (row : Str) : Str → List Row
  | [] => if row = [] then [] else [⟨l, row⟩]
  | c :: t => if c = '\n' then ⟨l, row ++ [c]⟩ :: rowsFrom (after l c) [] t else rowsFrom l (row ++ [c]) t

theorem flatMap_rowsFrom (l : TextLine) (row t : Str) : (rowsFrom l row t).flatMap Row.buf = row ++ t := by
  induction t generalizing l row with
  | nil =>
    by_cases hr : row = []
    · simp [rowsFrom, hr]
    · simp [rowsFrom, hr]
  | cons c t ih =>
    by_cases hc : c = '\n'
    · simp [rowsFrom, hc, ih]
    · simp [rowsFrom, hc, ih]

theorem rowsFrom_cons (l : TextLine) (row : Str) (c : Char) (t : Str) : ∃ u rest,
    rowsFrom l row (c :: t) = ⟨l, row ++ c :: u⟩ :: rest ∧ t = u ++ rest.flatMap Row.buf := by
  induction t generalizing row c with
  | nil =>
    by_cases hc : c = '\n'
    · exact ⟨[], [], by simp [rowsFrom, hc], rfl⟩
    · exact ⟨[], [], by simp [rowsFrom, hc], rfl⟩
  | cons d t ih =>
    by_cases hc : c = '\n'
    · refine ⟨[], rowsFrom (after l c) [] (d :: t), by rw [rowsFrom, if_pos hc], ?_⟩
      rw [flatMap_rowsFrom, List.nil_append, List.nil_append]
    · obtain ⟨u, rest, hr, ht⟩ := ih (row ++ [c]) d
      refine ⟨d :: u, rest, ?_, congrArg (d :: ·) ht⟩
      rw [rowsFrom, if_neg hc, hr, List.append_assoc]
      rfl

theorem rowsFrom_append (hs : '\n' ∉ s) : rowsFrom l row (s ++ t) = rowsFrom l (row ++ s) t := by
  induction s generalizing row with
  | nil => rw [List.nil_append, List.append_nil]
  | cons c s ih =>
    obtain ⟨hc, hs⟩ := not_or.1 (mt List.mem_cons.2 hs)
    rw [List.cons_append, rowsFrom, if_neg (Ne.symm hc), ih hs, List.append_assoc]
    rfl

theorem Text.At.rows_foldl (h : At t l rs row) (hl : 0 < l.line) (s : Str) :
    (s.foldl Text.pushBack t).rows = rs ++ rowsFrom l row s := by
  induction s generalizing t l rs row with
  | nil =>
    cases h with
    | fresh h ht => simp [rowsFrom]
    | next h hf hn ht => simp [rowsFrom]
    | within h hr hn ht => simp [rowsFrom, h, hr]
  | cons c s ih =>
    by_cases hc : c = '\n'
    · subst hc
      have hs := ih (h.newline hl) (after_pos hl)
      rw [List.append_assoc] at hs
      exact hs
    · rw [rowsFrom, if_neg hc]
      exact ih (h.pushBack hl hc) hl

/-- The text that is written to an empty one. -/
def Text.ofStr (file : Str) (s : Str) : Text := s.foldl Text.pushBack ⟨[], ⟨file, 1⟩⟩

theorem Text.rows_ofStr (file : Str) (s : Str) : (Text.ofStr file s).rows = rowsFrom ⟨file, 1⟩ [] s :=
  Text.At.rows_foldl (.fresh (by simp) rfl) Int.one_pos s

end AspKernel.Toppers
