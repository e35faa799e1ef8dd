import AspKernel.Preprocess

/-! The loops of `expand_include` come from token to token. -/

namespace AspKernel.Itronx.Preprocess
set_option autoImplicit true
open Toppers (Text Row rowsFrom rowsFrom_cons rowsFrom_append flatMap_rowsFrom after)
open Toppers.RemoveComment (Codeset Lead Quote removeComment)

/-- The loops within a row that begins with `row`, in front of the text `t`. -/
def loopAt (w : World) (pre : Str → State → Result) (n : Nat) (l : TextLine) (row t : Str) (literal : Option Char)
    (st : State) : Result :=
  match rowsFrom l row t with
  | [] => .ok st
  | r :: rest => expandLoop w pre n (r :: rest) r.buf row.length literal st

section
variable {w : World} {pre : Str → State → Result} {l : TextLine} {row t u : Str} {rest : List Row} {c : Char}

theorem loopAt_here (h : rowsFrom l row (c :: t) = ⟨l, row ++ c :: u⟩ :: rest) :
    loopAt w pre n l row (c :: t) literal st =
      expandLoop w pre n (⟨l, row ++ c :: u⟩ :: rest) (row ++ c :: u) row.length literal st := by
  rw [loopAt, h]

theorem loopAt_next (h : rowsFrom l row (c :: t) = ⟨l, row ++ c :: u⟩ :: rest) (hc : c ≠ '\n') :
    loopAt w pre n l (row ++ [c]) t literal st =
      expandLoop w pre n (⟨l, row ++ c :: u⟩ :: rest) (row ++ c :: u) (row.length + 1) literal st := by
  rw [rowsFrom, if_neg hc] at h
  rw [loopAt, h, List.length_append]
  rfl

theorem row_next (row : Str) (c : Char) (u : Str) :
    row.length ≠ (row ++ c :: u).length ∧ (row ++ c :: u)[row.length]? = some c := by
  constructor
  · simp
  · simp

/-- At the end of its row the loop goes on with the next one. -/
theorem loop_endRow (r : Row) (t : Str) : expandLoop w pre (n + 1) (r :: rowsFrom l [] t) buf buf.length literal st =
    loopAt w pre n l [] t none st := by
  rw [loopAt]
  cases rowsFrom l [] t with
  | nil => exact if_pos rfl
  | cons r' rest => exact if_pos rfl

theorem loopAt_end : loopAt w pre (n + 1) l row [] none st = .ok st := by
  by_cases hr : row = []
  · simp [loopAt, rowsFrom, hr]
  · simp [loopAt, rowsFrom, hr, expandLoop]

theorem loopAt_open (hq : Quote c) :
    loopAt w pre (n + 1) l row (c :: t) none st = loopAt w pre n l (row ++ [c]) t (some c) (st.push c) := by
  obtain ⟨u, rest, hr, -⟩ := rowsFrom_cons l row c t
  have hc : c ≠ '\n' := by
    rcases hq with rfl | rfl
    · decide
    · decide
  obtain ⟨hi, hg⟩ := row_next row c u
  rw [loopAt_here hr, loopAt_next hr hc]
  refine (if_neg hi).trans ?_
  rw [hg]
  exact if_pos hq

theorem escaped_row (h : row ≠ []) (u : Str) : escaped cs (row ++ u) row.length ↔ escaped cs row row.length := by
  have hpos := List.length_pos_of_ne_nil h
  have h1 : (row ++ u)[row.length - 1]? = row[row.length - 1]? := List.getElem?_append_left (by omega)
  have h2 : (row ++ u)[row.length - 2]? = row[row.length - 2]? := List.getElem?_append_left (by omega)
  rw [escaped, escaped, h1, h2]

/-- Whether a quote ends a literal is seen from the literal. -/
theorem escaped_literal (hq : Quote q) (row b : Str) :
    escaped cs (row ++ q :: b) (row ++ q :: b).length ↔ escaped cs (q :: b) (b.length + 1) := by
  cases b with
  | nil =>
    have h1 : (row ++ [q])[(row ++ [q]).length - 1]? = some q := by simp
    have h2 : ([q] : Str)[0 + 1 - 1]? = some q := rfl
    rw [escaped, escaped, List.length_nil, h1, h2]
    simp [hq.ne]
  | cons d b =>
    have hlen : (row ++ q :: d :: b).length = row.length + (b.length + 2) := by simp
    have h1 : (row ++ q :: d :: b)[row.length + (b.length + 2) - 1]? = (q :: d :: b)[b.length + 1]? := by
      rw [List.getElem?_append_right (by omega)]
      congr 1
      omega
    have h2 : (row ++ q :: d :: b)[row.length + (b.length + 2) - 2]? = (q :: d :: b)[b.length]? := by
      rw [List.getElem?_append_right (by omega)]
      congr 1
      omega
    have h3 : 2 ≤ row.length + (b.length + 2) := by omega
    rw [escaped, escaped, hlen, h1, h2]
    simp [h3]

theorem loopAt_inside (hc : ¬Quote c) (hn : c ≠ '\n') :
    loopAt w pre (n + 1) l row (c :: t) (some q) st = loopAt w pre n l (row ++ [c]) t (some q) (st.push c) := by
  obtain ⟨u, rest, hr, -⟩ := rowsFrom_cons l row c t
  obtain ⟨hi, hg⟩ := row_next row c u
  rw [loopAt_here hr, loopAt_next hr hn]
  refine (if_neg hi).trans ?_
  rw [hg]
  refine (if_neg hc).trans ?_
  rfl

theorem loopAt_quote (hq : Quote c) (hrow : row ≠ []) :
    loopAt w pre (n + 1) l row (c :: t) (some q) st =
      loopAt w pre n l (row ++ [c]) t (if escaped w.codeset row row.length then some q else none) (st.push c) := by
  obtain ⟨u, rest, hr, -⟩ := rowsFrom_cons l row c t
  have hc : c ≠ '\n' := by
    rcases hq with rfl | rfl
    · decide
    · decide
  obtain ⟨hi, hg⟩ := row_next row c u
  rw [loopAt_here hr, loopAt_next hr hc]
  refine (if_neg hi).trans ?_
  rw [hg]
  refine (if_pos hq).trans ?_
  simp only [escaped_row hrow]

def State.pushAll (st : State) (s : Str) : State := s.foldl State.push st

theorem loopAt_body (hq : Quote q) {b : Str} (hn : '\n' ∉ b)
    (hb : ∀ b₁ c b₂, b = b₁ ++ c :: b₂ → Quote c → escaped w.codeset (q :: b₁) (b₁.length + 1))
    (b₁ b₂ : Str) (he : b = b₁ ++ b₂) (st : State) :
    loopAt w pre (n + b₂.length) l (row ++ q :: b₁) (b₂ ++ t) (some q) st =
      loopAt w pre n l (row ++ q :: b) t (some q) (st.pushAll b₂) := by
  induction b₂ generalizing b₁ st with
  | nil =>
    rw [he, List.append_nil]
    rfl
  | cons c b₂ ih =>
    have hne : row ++ q :: b₁ ≠ [] := by simp
    have hc : c ≠ '\n' := fun h => hn (by simp [he, h])
    have hrow : row ++ q :: b₁ ++ [c] = row ++ q :: (b₁ ++ [c]) := by simp
    have hs := ih (b₁ ++ [c]) (by rw [he, List.append_assoc]; rfl) (st.push c)
    rw [List.length_cons, ← Nat.add_assoc, List.cons_append]
    by_cases hqc : Quote c
    · have hesc := (escaped_literal hq row b₁).2 (hb b₁ c b₂ he hqc)
      rw [loopAt_quote hqc hne, if_pos hesc, hrow]
      exact hs
    · rw [loopAt_inside hqc hc, hrow]
      exact hs

theorem loopAt_literal (hk : (Tok.literal q b).Wf w.codeset row t) (st : State) :
    loopAt w pre (n + (b.length + 2)) l row ((Tok.literal q b).text ++ t) none st =
      loopAt w pre n l (row ++ (Tok.literal q b).text) t none (st.pushAll (Tok.literal q b).text) := by
  obtain ⟨hq, hn, hb, he⟩ := hk
  have hne : row ++ q :: b ≠ [] := by simp
  have hesc := (not_congr (escaped_literal hq row b)).2 he
  have ht : (Tok.literal q b).text ++ t = q :: (b ++ q :: t) := by simp [Tok.text]
  have hrow : row ++ q :: b ++ [q] = row ++ (Tok.literal q b).text := by simp [Tok.text]
  have hst : ((st.push q).pushAll b).push q = st.pushAll (Tok.literal q b).text := by
    simp [Tok.text, State.pushAll]
  calc
    loopAt w pre (n + (b.length + 2)) l row ((Tok.literal q b).text ++ t) none st =
        loopAt w pre (n + 1 + b.length + 1) l row (q :: (b ++ q :: t)) none st := by
      rw [ht]
      congr 1
      omega
    _ = loopAt w pre (n + 1 + b.length) l (row ++ [q]) (b ++ q :: t) (some q) (st.push q) := loopAt_open hq
    _ = loopAt w pre (n + 1) l (row ++ q :: b) (q :: t) (some q) ((st.push q).pushAll b) :=
      loopAt_body hq hn hb [] b rfl _
    _ = loopAt w pre n l (row ++ q :: b ++ [q]) t none (((st.push q).pushAll b).push q) := by
      rw [loopAt_quote hq hne, if_neg hesc]
    _ = _ := by rw [hrow, hst]

/-- What the loop does at a character outside a literal where no `INCLUDE` begins. -/
def State.copy (st : State) (l : TextLine) (t : Str) (c : Char) : State :=
  (if illegalInclude t then st.warn l else st).push c

theorem textFrom_here (ht : t = u ++ rest.flatMap Row.buf) :
    textFrom ⟨l, row ++ c :: u⟩ rest row.length = c :: t := by
  obtain ⟨hi, -⟩ := row_next row c u
  rw [textFrom, if_neg hi, List.drop_left, ht]
  rfl

theorem loop_char (hr : rowsFrom l row (c :: t) = ⟨l, row ++ c :: u⟩ :: rest) (ht : t = u ++ rest.flatMap Row.buf)
    (hk : (Tok.char c).Wf w.codeset row t) :
    loopAt w pre (n + 1) l row (c :: t) none st =
      expandLoop w pre n (⟨l, row ++ c :: u⟩ :: rest) (row ++ c :: u) (row.length + 1) none (st.copy l (c :: t) c) := by
  obtain ⟨hq, hinc, honce⟩ := hk
  obtain ⟨hi, hg⟩ := row_next row c u
  have hlen : ¬(row ++ c :: u).length < row.length := by simp
  have hno : (if row.length = 0 then onceDirective (c :: t) else none) = none := by
    split
    · next h => exact honce (List.length_eq_zero_iff.1 h)
    · rfl
  rw [loopAt_here hr]
  refine (if_neg hi).trans ?_
  rw [hg]
  refine (if_neg hq).trans ((if_neg (not_not.2 rfl)).trans ((if_neg hlen).trans ?_))
  simp only [textFrom_here ht, hinc, hno]
  rfl

end

/-- The loops come to an end, whatever bounds of depth and rounds from some one on they are given. -/
def Scans (w : World) (l : TextLine) (row t : Str) (st st' : State) : Prop :=
  ∃ N, ∀ m ≥ N, ∀ n ≥ N, loopAt w (preprocess w m) n l row t none st = .ok st'

section
variable {w : World} {l : TextLine} {row t : Str}

theorem Scans.of_steps (k : Nat)
    (h : ∀ pre n, loopAt w pre (n + k) l row s none st = loopAt w pre n l' row' t none st₁)
    (hs : Scans w l' row' t st₁ st') : Scans w l row s st st' := by
  obtain ⟨N, hN⟩ := hs
  refine ⟨N + k, fun m hm n hn => ?_⟩
  obtain ⟨n, rfl⟩ := Nat.exists_eq_add_of_le' (Nat.le_of_add_left_le hn)
  rw [h]
  exact hN m (by omega) n (by omega)

theorem Scans.done : Scans w l row [] st st := by
  refine ⟨1, fun m _ n hn => ?_⟩
  obtain ⟨n, rfl⟩ := Nat.exists_eq_add_of_le' hn
  exact loopAt_end

theorem Scans.char (hk : (Tok.char c).Wf w.codeset row t)
    (hs : Scans w (after l c) ((Tok.char c).rowAfter row) t (st.copy l (c :: t) c) st') :
    Scans w l row (c :: t) st st' := by
  by_cases hc : c = '\n'
  · subst hc
    have hr : rowsFrom l row ('\n' :: t) = ⟨l, row ++ ['\n']⟩ :: rowsFrom (after l '\n') [] t := if_pos rfl
    have hlen : row.length + 1 = (row ++ ['\n']).length := by simp
    refine hs.of_steps 2 fun pre n => ?_
    rw [loop_char hr (flatMap_rowsFrom (after l '\n') [] t).symm hk, hlen]
    exact loop_endRow _ t
  · obtain ⟨u, rest, hr, ht⟩ := rowsFrom_cons l row c t
    rw [Tok.rowAfter, if_neg hc, after, if_neg hc] at hs
    refine hs.of_steps 1 fun pre n => ?_
    rw [loop_char hr ht hk, loopAt_next hr hc]

theorem Scans.literal (hk : (Tok.literal q b).Wf w.codeset row t)
    (hs : Scans w l (row ++ (Tok.literal q b).text) t (st.pushAll (Tok.literal q b).text) st') :
    Scans w l row ((Tok.literal q b).text ++ t) st st' :=
  hs.of_steps (b.length + 2) fun _ _ => loopAt_literal hk st

end

theorem strP_length (h : strP s t = some t') : t.length = s.length + t'.length := by
  induction s generalizing t with
  | nil =>
    cases h
    rw [List.length_nil, Nat.zero_add]
  | cons c s ih =>
    cases t with
    | nil => cases h
    | cons d t =>
      rw [strP] at h
      split at h
      · rw [List.length_cons, List.length_cons, ih h]
        omega
      · cases h

theorem strP_cons (h : strP (c :: s) t = some t') : ∃ t₁, t = c :: t₁ := by
  cases t with
  | nil => cases h
  | cons d t =>
    rw [strP] at h
    split at h
    · next hc => exact ⟨t, by rw [hc]⟩
    · cases h

/-- The statement begins with its name, and the text behind it is shorter. -/
theorem includeStatement_some (h : includeStatement t = some p) : (∃ t₁, t = 'I' :: t₁) ∧ p.2.length < t.length := by
  obtain ⟨headername, t'⟩ := p
  simp only [includeStatement, Option.bind_eq_bind, Option.bind_eq_some_iff] at h
  obtain ⟨t₁, h1, t₂, h2, t₃, h3, h⟩ := h
  split at h
  · cases h
  · simp only [Option.bind_eq_some_iff, Option.some.injEq, Prod.mk.injEq] at h
    obtain ⟨t₄, h4, t₅, h5, t₆, h6, -, rfl⟩ := h
    refine ⟨strP_cons h1, ?_⟩
    change t₆.length < t.length
    have hle (p : Char → Bool) (t : Str) : (t.dropWhile p).length ≤ t.length :=
      (List.dropWhile_sublist p).length_le
    have e1 := strP_length h1
    have e2 := strP_length h2
    have e3 := strP_length h3
    have e4 := strP_length h4
    have e5 := strP_length h5
    have e6 := strP_length h6
    have d2 := hle isSpace t₁
    have d3 := hle isSpace t₂
    have d4 := hle (· ≠ '"') t₃
    have d5 := hle isSpace t₄
    have d6 := hle isSpace t₅
    simp only [spaces] at e2 e3 e5 e6
    rw [List.length_cons] at e2
    omega

theorem eolP_length (h : eolP t = some t') : t'.length < t.length := by
  unfold eolP at h
  split at h
  · cases h
    simp
  · cases h
    simp
  · cases h
    simp
  · cases h

theorem onceDirective_some (h : onceDirective t = some t') :
    (∃ c t₁, t = c :: t₁ ∧ ¬Quote c ∧ c ≠ 'I') ∧ t'.length < t.length := by
  simp only [onceDirective, Option.bind_eq_bind, Option.bind_eq_some_iff] at h
  obtain ⟨t₁, h1, t₂, h2, t₃, h3, h4⟩ := h
  have hle (t : Str) : (blanks t).length ≤ t.length := (List.dropWhile_sublist _).length_le
  constructor
  · cases t with
    | nil => cases h1
    | cons c t =>
      refine ⟨c, t, rfl, ?_⟩
      by_cases hb : isSpace c ∧ c ≠ '\r' ∧ c ≠ '\n'
      · have hc := hb.1
        simp only [isSpace, decide_eq_true_eq] at hc
        constructor
        · rintro (rfl | rfl)
          · revert hc
            decide
          · revert hc
            decide
        · rintro rfl
          revert hc
          decide
      · rw [blanks, List.dropWhile_cons_of_neg (by simpa using hb)] at h1
        obtain ⟨t₄, ht⟩ := strP_cons h1
        obtain ⟨rfl, -⟩ := List.cons.inj ht
        constructor
        · rintro (h | h)
          · cases h
          · cases h
        · exact nofun
  · have e1 := strP_length h1
    have e2 := strP_length h2
    have e3 := strP_length h3
    have e4 := eolP_length h4
    have d1 := hle t
    have d2 := hle t₁
    have d3 := hle t₂
    have d4 := hle t₃
    rw [List.length_cons] at e1
    omega

/-- A file is expanded, whatever bound from some one on is given. -/
def Runs (w : World) (f : Str) (st st' : State) : Prop := ∃ N, ∀ n ≥ N, preprocess w n f st = .ok st'

/-- The loop from a statement on, whose end `advance` has found. -/
def resume (w : World) (pre : Str → State → Result) (n : Nat) (buf : Str) (st : State) : List Row × Nat → Result
  | ([], i) => expandLoop w pre n [] buf i none st
  | (r :: rest, i) => expandLoop w pre n (r :: rest) buf i none (st.setLine r.line)

section
variable {w : World} {pre : Str → State → Result} {l : TextLine} {row t t' u : Str} {rest : List Row} {c : Char}

theorem quote_I : ¬Quote 'I' := by
  rintro (h | h)
  · cases h
  · cases h

theorem Tok.Wf.statement_ne (hk : (Tok.statement s headername).Wf cs row t) : ∃ s', s = 'I' :: s' := by
  obtain ⟨-, hinc, -⟩ := hk
  obtain ⟨⟨t₁, ht⟩, hlen⟩ := includeStatement_some hinc
  cases s with
  | nil => exact absurd hlen (Nat.lt_irrefl _)
  | cons c s => exact ⟨s, by rw [(List.cons.inj ht).1]⟩

theorem consumed (s t : Str) : (s ++ t).length - t.length = s.length := by
  rw [List.length_append, Nat.add_sub_cancel]

theorem loop_statement (hk : (Tok.statement s headername).Wf w.codeset row t)
    (hr : rowsFrom l row (s ++ t) = ⟨l, row ++ (s ++ u)⟩ :: rest) (ht : t = u ++ rest.flatMap Row.buf)
    (hname : searchIncludeFile w headername ≠ []) (honce : searchIncludeFile w headername ∉ st.onces.getD [])
    (hpre : pre (searchIncludeFile w headername) ((st.depend (searchIncludeFile w headername)).push ' ') = .ok st₁) :
    loopAt w pre (n + 1) l row (s ++ t) none st =
      resume w pre n (row ++ (s ++ u)) st₁ (advance (⟨l, row ++ (s ++ u)⟩ :: rest) row.length s.length) := by
  have hinc := hk.2.1
  have hs := consumed s t
  obtain ⟨s, rfl⟩ := hk.statement_ne
  simp only [List.cons_append] at hr hinc hs ⊢
  obtain ⟨hi, hg⟩ := row_next row 'I' (s ++ u)
  have hlen : ¬(row ++ 'I' :: (s ++ u)).length < row.length := by simp
  have hfrom : textFrom ⟨l, row ++ 'I' :: (s ++ u)⟩ rest row.length = 'I' :: (s ++ t) :=
    textFrom_here (by rw [ht, List.append_assoc])
  rw [loopAt_here hr]
  refine (if_neg hi).trans ?_
  rw [hg]
  refine (if_neg quote_I).trans ((if_neg (not_not.2 rfl)).trans ((if_neg hlen).trans ?_))
  simp only [hfrom, hinc, if_neg hname, if_pos honce, hpre, hs]
  cases advance (⟨l, row ++ 'I' :: (s ++ u)⟩ :: rest) row.length ('I' :: s).length with
  | mk rows i =>
    cases rows with
    | nil => rfl
    | cons r rest => rfl

theorem advance_within (s : Str) : advance (⟨l, row ++ (s ++ c :: u)⟩ :: rest) row.length s.length =
    (⟨l, row ++ (s ++ c :: u)⟩ :: rest, row.length + s.length) := by
  rw [advance, if_pos (by simp)]

theorem advance_row (s : Str) : advance (⟨l, row ++ s⟩ :: rest) row.length s.length = advance rest 0 0 := by
  have hlen : s.length - ((row ++ s).length - row.length) = 0 := by simp
  rw [advance, if_neg (by simp), hlen]

/-- At the end of the text the loop begins its last row again, up to a character outside a literal. -/
theorem loop_past (hc : ¬Quote c) (b : Str) : expandLoop w pre (n + 1) [] (c :: b) 0 none st = .ok st := by
  obtain ⟨h1, h2⟩ := not_or.1 hc
  simp [expandLoop, h1, h2]

/-- Behind an `INCLUDE` the loop goes on in the same row. -/
theorem Scans.statement (hk : (Tok.statement s headername).Wf w.codeset row (d :: t))
    (hname : searchIncludeFile w headername ≠ []) (honce : searchIncludeFile w headername ∉ st.onces.getD [])
    (hpre : Runs w (searchIncludeFile w headername) ((st.depend (searchIncludeFile w headername)).push ' ') st₁)
    (hs : Scans w l (row ++ s) (d :: t) (st₁.setLine l) st') : Scans w l row (s ++ d :: t) st st' := by
  obtain ⟨u, rest, hr, ht⟩ := rowsFrom_cons l (row ++ s) d t
  have hr' : rowsFrom l row (s ++ d :: t) = ⟨l, row ++ (s ++ d :: u)⟩ :: rest := by
    rw [rowsFrom_append hk.1, hr, List.append_assoc]
  obtain ⟨N₁, hN₁⟩ := hpre
  obtain ⟨N₂, hN₂⟩ := hs
  refine ⟨N₁ + N₂ + 1, fun m hm n hn => ?_⟩
  obtain ⟨n, rfl⟩ := Nat.exists_eq_add_of_le' (Nat.le_of_add_left_le hn)
  have hrest := hN₂ m (by omega) n (by omega)
  rw [loopAt_here hr, List.append_assoc, List.length_append] at hrest
  rw [loop_statement hk hr' (congrArg (d :: ·) ht) hname honce (hN₁ m (by omega)), advance_within]
  exact hrest

/-- The last statement of a file, in a row that does not begin with a literal. -/
theorem Scans.statement_end (hk : (Tok.statement s headername).Wf w.codeset row [])
    (hname : searchIncludeFile w headername ≠ []) (honce : searchIncludeFile w headername ∉ st.onces.getD [])
    (hpre : Runs w (searchIncludeFile w headername) ((st.depend (searchIncludeFile w headername)).push ' ') st₁) :
    Scans w l row (s ++ []) st st₁ := by
  obtain ⟨s', rfl⟩ := hk.statement_ne
  have hne : row ++ 'I' :: s' ≠ [] := by simp
  have hr : rowsFrom l row ('I' :: s' ++ []) = [⟨l, row ++ ('I' :: s' ++ [])⟩] := by
    rw [rowsFrom_append hk.1, List.append_nil, rowsFrom, if_neg hne]
  obtain ⟨N, hN⟩ := hpre
  refine ⟨N + 2, fun m hm n hn => ?_⟩
  obtain ⟨n, rfl⟩ := Nat.exists_eq_add_of_le' (Nat.le_of_add_left_le hn)
  rw [loop_statement hk hr rfl hname honce (hN m (by omega)), List.append_nil, advance_row]
  cases hb : row ++ 'I' :: s' with
  | nil => exact absurd hb hne
  | cons c b =>
    have hc : ¬Quote c := hk.2.2 rfl c (by rw [hb]; rfl)
    exact loop_past hc b

theorem row_once (hn : '\n' ∉ s.dropLast) (hs : s ≠ []) (he : s.getLast? = some '\n' ∨ t = []) :
    rowsFrom l [] (s ++ t) = ⟨l, s⟩ :: rowsFrom (after l '\n') [] t := by
  by_cases hl : s.getLast? = some '\n'
  · have hd : s = s.dropLast ++ ['\n'] := (List.dropLast_append_getLast? '\n' hl).symm
    rw [hd, List.append_assoc, rowsFrom_append hn, List.nil_append, List.singleton_append, rowsFrom, if_pos rfl]
  · have ht := he.resolve_left hl
    have hn' : '\n' ∉ s := by
      intro h
      rw [← List.dropLast_append_getLast hs] at h
      rcases List.mem_append.1 h with h | h
      · exact hn h
      · rw [List.mem_singleton.1 h] at hl
        exact hl (List.getLast?_eq_some_getLast hs)
    rw [ht, rowsFrom_append hn', List.nil_append, rowsFrom, if_neg hs]
    rfl

theorem advance_start (l : TextLine) (t : Str) : advance (rowsFrom l [] t) 0 0 = (rowsFrom l [] t, 0) := by
  cases t with
  | nil => rfl
  | cons d t =>
    obtain ⟨u, rest, hr, -⟩ := rowsFrom_cons l [] d t
    rw [hr]
    exact if_pos (Nat.succ_pos _)

/-- A directive ends its row. -/
theorem Scans.once (hk : (Tok.once s).Wf w.codeset row t)
    (hs : Scans w (after l '\n') [] t ((st.once l.file).push '\n') st') : Scans w l row (s ++ t) st st' := by
  obtain ⟨rfl, honce, hn, he⟩ := hk
  obtain ⟨⟨c, t₁, hc, hq, hI⟩, hlen⟩ := onceDirective_some honce
  cases s with
  | nil => exact absurd hlen (Nat.lt_irrefl _)
  | cons d s =>
    obtain ⟨rfl, -⟩ := List.cons.inj hc
    have hr := row_once (l := l) hn (List.cons_ne_nil d s) he
    have hinc : includeStatement (d :: s ++ t) = none := by
      cases h : includeStatement (d :: s ++ t) with
      | none => rfl
      | some p =>
        obtain ⟨⟨t₂, ht⟩, -⟩ := includeStatement_some h
        exact absurd (List.cons.inj ht).1 hI
    have hfrom : textFrom ⟨l, [] ++ d :: s⟩ (rowsFrom (after l '\n') [] t) ([] : Str).length = d :: (s ++ t) :=
      textFrom_here (by rw [flatMap_rowsFrom, List.nil_append])
    have hcons := consumed (d :: s) t
    have hadv : advance (⟨l, [] ++ d :: s⟩ :: rowsFrom (after l '\n') [] t) ([] : Str).length (d :: s).length =
        (rowsFrom (after l '\n') [] t, 0) := (advance_row (d :: s)).trans (advance_start _ t)
    refine hs.of_steps 1 fun pre n => ?_
    refine (loopAt_here hr).trans ((if_neg (Nat.succ_ne_zero _).symm).trans ((if_neg hq).trans
      ((if_neg (not_not.2 rfl)).trans ((if_neg (Nat.not_lt_zero _)).trans ?_))))
    rw [List.cons_append] at hinc honce hcons
    simp only [List.nil_append, List.length_nil] at hfrom hadv
    simp only [List.nil_append, List.length_nil, hfrom, hinc, honce, hcons, hadv, if_true]
    rw [loopAt]
    cases rowsFrom (after l '\n') [] t with
    | nil => rfl
    | cons r rest => rfl

theorem expandInclude_ofStr (f : Str) (hs : s ≠ []) : expandInclude w pre n (Text.ofStr f s) st =
    loopAt w pre n ⟨f, 1⟩ [] s none (st.setLine ⟨f, 1⟩) := by
  cases s with
  | nil => exact absurd rfl hs
  | cons c s =>
    obtain ⟨u, rest, hr, -⟩ := rowsFrom_cons ⟨f, 1⟩ [] c s
    rw [expandInclude, Text.rows_ofStr, loopAt_here hr, hr]
    rfl

end

end AspKernel.Itronx.Preprocess
