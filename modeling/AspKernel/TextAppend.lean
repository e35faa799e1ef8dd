import AspKernel.Text

/-! Characters that are added to a text at once. -/

namespace AspKernel.Toppers
set_option autoImplicit true
open Itronx (Str TextLine)

namespace Text

def appendDirective (container : List Row) (buf : Row) : List Row × Row :=
  (container ++ [buf], ⟨⟨buf.line.file, buf.line.line + 1⟩, []⟩)

/-- A turn of the loop of `init`. -/
def initStep (st : Text × Row) (ch : Char) : Text × Row :=
  let buf : Row := { st.2 with buf := st.2.buf ++ [ch] }
  if ch = '\n' then
    let (rows, buf) := appendDirective st.1.rows buf
    (⟨rows, buf.line⟩, buf)
  else (st.1, buf)

/-- The end of `init`. -/
def initEnd (st : Text × Row) : Text := ⟨if st.2.buf = [] then st.1.rows else st.1.rows ++ [st.2], st.2.line⟩

def init (t : Text) (s : Str) : Text := initEnd (s.foldl initStep (t, ⟨t.initialLine, []⟩))

def append (t : Text) (s : Str) : Text := if s = [] then t else t.init s

/-- The loop of `init` over a stream: where `get` fails it leaves `ch` as it is, and the loop ends behind this turn. -/
def streamLoop (ch : Char) : Str → Text × Row → Text × Row
  | [], st => initStep st ch
  | c :: istr, st => streamLoop ch istr (initStep st c)

/-- `append` of a stream, with the value that its `ch` has before it is got. -/
def appendStream (t : Text) (ch : Char) (istr : Str) : Text :=
  initEnd (streamLoop ch istr (t, ⟨t.initialLine, []⟩))

/-- The characters of a text are these, with the lines from `line` on. -/
def Faithful (t : Text) (line : TextLine) (s : Str) : Prop := t.chars = number line s

theorem streamLoop_eq (ch : Char) (istr : Str) (st : Text × Row) :
    streamLoop ch istr st = (istr ++ [ch]).foldl initStep st := by
  induction istr generalizing st with
  | nil => rfl
  | cons c istr ih => exact ih (initStep st c)

theorem rows_initEnd (t : Text) (l : TextLine) (row s : Str) :
    (initEnd (s.foldl initStep (t, ⟨l, row⟩))).rows = t.rows ++ rowsFrom l row s := by
  induction s generalizing t l row with
  | nil =>
    unfold initEnd rowsFrom
    by_cases hrow : row = []
    · simp [hrow]
    · simp [hrow]
  | cons c s ih =>
    rw [List.foldl_cons, rowsFrom]
    by_cases hc : c = '\n'
    · subst hc
      have hstep : initStep (t, ⟨l, row⟩) '\n' =
          (⟨t.rows ++ [⟨l, row ++ ['\n']⟩], after l '\n'⟩, ⟨after l '\n', []⟩) := rfl
      rw [if_pos rfl, hstep, ih, List.append_assoc]
      rfl
    · have hstep : initStep (t, ⟨l, row⟩) c = (t, ⟨l, row ++ [c]⟩) := if_neg hc
      rw [if_neg hc, hstep]
      exact ih t l (row ++ [c])

theorem chars_rowsFrom (l : TextLine) (row s : Str) :
    ((rowsFrom l row s).flatMap fun r => r.buf.map fun c => (c, r.line)) =
      (row.map fun c => (c, l)) ++ number l s := by
  induction s generalizing l row with
  | nil =>
    by_cases hrow : row = []
    · simp [rowsFrom, hrow, number]
    · simp [rowsFrom, hrow, number]
  | cons c s ih =>
    rw [rowsFrom]
    by_cases hc : c = '\n'
    · rw [if_pos hc, List.flatMap_cons, ih]
      simp [number]
    · rw [if_neg hc, ih]
      simp [number, after, hc]

theorem number_length (l : TextLine) (s : Str) : (number l s).length = s.length := by
  induction s generalizing l with
  | nil => rfl
  | cons c s ih => exact congrArg (· + 1) (ih (after l c))

/-- A text without rows gets its characters with the lines from its first one on. -/
theorem chars_init (line : TextLine) (s : Str) :
    (initEnd (s.foldl initStep (⟨[], line⟩, ⟨initialLine ⟨[], line⟩, []⟩))).chars =
      number (initialLine ⟨[], line⟩) s := by
  unfold chars
  rw [rows_initEnd]
  exact chars_rowsFrom _ [] s

theorem initialLine_of_pos {line : TextLine} (h : 0 < line.line) : initialLine ⟨[], line⟩ = line := if_pos h

theorem initialLine_of_not_pos {line : TextLine} (h : ¬0 < line.line) : initialLine ⟨[], line⟩ = ⟨"unknown".toList, 1⟩ := if_neg h

/-- The first character has the line where the text begins. -/
theorem number_inj (h : number l (c :: s) = number l' (c :: s)) : l = l' := (Prod.mk.inj (List.cons.inj h).1).2

theorem append_faithful (line : TextLine) (s : Str) :
    Faithful (append ⟨[], line⟩ s) line s ↔ s = [] ∨ 0 < line.line := by
  unfold Faithful append
  cases s with
  | nil => exact iff_of_true rfl (.inl rfl)
  | cons c s =>
    rw [if_neg (List.cons_ne_nil c s)]
    unfold init
    rw [chars_init]
    by_cases hpos : 0 < line.line
    · rw [initialLine_of_pos hpos]
      exact iff_of_true rfl (.inr hpos)
    · rw [initialLine_of_not_pos hpos]
      apply iff_of_false
      · intro h
        rw [← number_inj h] at hpos
        exact hpos Int.one_pos
      · rintro (h | h)
        · cases h
        · exact hpos h

/-- A stream leaves one character more. -/
theorem appendStream_not_faithful (line : TextLine) (ch : Char) (istr : Str) :
    ¬Faithful (appendStream ⟨[], line⟩ ch istr) line istr := by
  intro h
  unfold Faithful appendStream at h
  rw [streamLoop_eq, chars_init] at h
  have hlen := congrArg List.length h
  rw [number_length, number_length, List.length_append] at hlen
  exact absurd hlen (Nat.succ_ne_self _)

/-- A character that is pushed comes behind the others. -/
theorem chars_pushBack (t : Text) (c : Char) : ∃ l, (t.pushBack c).chars = t.chars ++ [(c, l)] := by
  unfold pushBack
  cases hr : t.rows.getLast? with
  | none => exact ⟨t.initialLine, by simp [chars, List.getLast?_eq_none_iff.1 hr]⟩
  | some r =>
    dsimp only
    split
    · exact ⟨t.initialLine, by simp [chars]⟩
    · split
      · exact ⟨(t.setLine ⟨t.line.file, t.line.line + 1⟩).initialLine, by simp [chars, setLine]⟩
      · refine ⟨r.line, ?_⟩
        have hrows : t.rows = t.rows.dropLast ++ [r] := by
          obtain ⟨rs, hrs⟩ := List.getLast?_eq_some_iff.1 hr
          rw [hrs, List.dropLast_concat]
        unfold chars
        conv => rhs; rw [hrows]
        simp

theorem chars_foldl (t : Text) (s : Str) : ∃ cs, (s.foldl pushBack t).chars = t.chars ++ cs := by
  induction s generalizing t with
  | nil => exact ⟨[], (List.append_nil _).symm⟩
  | cons c s ih =>
    obtain ⟨l, hl⟩ := chars_pushBack t c
    obtain ⟨cs, hcs⟩ := ih (t.pushBack c)
    exact ⟨(c, l) :: cs, by rw [List.foldl_cons, hcs, hl, List.append_assoc]; rfl⟩

theorem pushBack_faithful (line : TextLine) (s : Str) :
    Faithful (s.foldl pushBack ⟨[], line⟩) line s ↔ s = [] ∨ 0 < line.line := by
  unfold Faithful
  by_cases hpos : 0 < line.line
  · apply iff_of_true _ (.inr hpos)
    have hfresh : Text.At ⟨[], line⟩ line [] [] := .fresh (fun r hr => by cases hr) rfl
    unfold chars
    rw [hfresh.rows_foldl hpos]
    exact chars_rowsFrom line [] s
  · cases s with
    | nil => exact iff_of_true rfl (.inl rfl)
    | cons c s =>
      -- the first character has another line
      have hfirst : (pushBack ⟨[], line⟩ c).chars = [(c, ⟨"unknown".toList, 1⟩)] := by
        rw [← initialLine_of_not_pos hpos]
        rfl
      obtain ⟨cs, hcs⟩ := chars_foldl (pushBack ⟨[], line⟩ c) s
      rw [List.foldl_cons, hcs, hfirst]
      apply iff_of_false
      · intro h
        have hline : line = ⟨"unknown".toList, 1⟩ := (Prod.mk.inj (List.cons.inj h).1).2.symm
        rw [hline] at hpos
        exact hpos Int.one_pos
      · rintro (h | h)
        · cases h
        · exact hpos h

/-- A text that is built from a range of characters or by pushing them is the one it should be unless its lines begin
before 1; from a stream it never is. -/
theorem construction_exact (file : Str) (n : Int) (s : Str) (ch : Char) :
    (Faithful ((Text.setLine ⟨[], ⟨[], 0⟩⟩ ⟨file, n⟩).append s) ⟨file, n⟩ s ↔ s = [] ∨ 0 < n) ∧
    (Faithful (s.foldl pushBack (Text.setLine ⟨[], ⟨[], 0⟩⟩ ⟨file, n⟩)) ⟨file, n⟩ s ↔ s = [] ∨ 0 < n) ∧
    ¬Faithful ((Text.setLine ⟨[], ⟨[], 0⟩⟩ ⟨file, n⟩).appendStream ch s) ⟨file, n⟩ s :=
  ⟨append_faithful ⟨file, n⟩ s, pushBack_faithful ⟨file, n⟩ s, appendStream_not_faithful ⟨file, n⟩ ch s⟩

/-- The empty stream gives a text of one character, and a line that ends with a newline an additional row. -/
theorem not_construction_exact :
    (Text.appendStream ⟨[], ⟨"a".toList, 1⟩⟩ 'x' []).chars = [('x', ⟨"a".toList, 1⟩)] ∧
    (Text.appendStream ⟨[], ⟨"a".toList, 1⟩⟩ 'x' ['b', '\n']).chars =
      [('b', ⟨"a".toList, 1⟩), ('\n', ⟨"a".toList, 1⟩), ('x', ⟨"a".toList, 2⟩)] ∧
    ¬Faithful (Text.appendStream ⟨[], ⟨"a".toList, 1⟩⟩ 'x' ['b', '\n']) ⟨"a".toList, 1⟩ ['b', '\n'] :=
  ⟨by decide, by decide, fun h => absurd (congrArg List.length h) (by decide)⟩

end Text
end AspKernel.Toppers
