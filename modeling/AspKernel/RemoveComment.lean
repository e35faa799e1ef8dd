import Mathlib.Data.List.Basic
import Mathlib.Data.List.Infix

/-! Comments are removed from a text. -/

namespace AspKernel.Toppers.RemoveComment
set_option autoImplicit true

inductive Codeset
  | ascii
  | shiftJis
  | eucJp
  | utf8
  deriving DecidableEq, Repr

/-- `is_lead< shift_jis >`, for the codeset that asks for it. -/
def Lead (codeset : Codeset) (c : Char) : Prop :=
  codeset = .shiftJis ∧ (0x81 ≤ c.toNat ∧ c.toNat ≤ 0x9f ∨ 0xe0 ≤ c.toNat ∧ c.toNat ≤ 0xef)

instance : Decidable (Lead codeset c) := inferInstanceAs (Decidable (_ ∧ _))

inductive State
  | none
  | lineComment
  | blockComment
  | singleQuote
  | doubleQuote
  deriving DecidableEq, Repr

structure Scan where
  state : State
  prev : Char
  result : List Char
  deriving DecidableEq, Repr

namespace Scan

def start : Scan := ⟨.none, '\x00', []⟩

def put (s : Scan) (c : Char) : Scan := { s with result := s.result ++ [c] }

/-- The cases of the two kinds of literal, with the closing quote `q`. -/
def quoted (codeset : Codeset) (q : Char) (s : Scan) (c next : Char) : Scan × Bool :=
  if c = '\\' ∧ ¬Lead codeset s.prev ∧ next = q then ((s.put c).put next, true)
  else if c = q then (put { s with state := .none } c, false)
  else (s.put c, false)

/-- The body of the loop at `c`, and whether it steps over `next` as well. -/
def step (codeset : Codeset) (s : Scan) (c next : Char) : Scan × Bool :=
  match s.state with
  | .lineComment => if c = '\n' then (put { s with state := .none } c, false) else (s, false)
  | .blockComment =>
    if c = '*' ∧ next = '/' then ({ s with state := .none }, true)
    else if c = '\n' then (s.put c, false)
    else (s, false)
  | .singleQuote => s.quoted codeset '\'' c next
  | .doubleQuote => s.quoted codeset '"' c next
  | .none =>
    if c = '/' then
      if next = '*' then ({ s with state := .blockComment }, true)
      else if next = '/' then ({ s with state := .lineComment }, true)
      else (s.put c, false)
    else if c = '\'' then (put { s with state := .singleQuote } c, false)
    else if c = '"' then (put { s with state := .doubleQuote } c, false)
    else (s.put c, false)

end Scan

def removeLoop (codeset : Codeset) (s : Scan) : List Char → Scan
  | [] => s
  | c :: first =>
    match s.step codeset c (first.headD '\x00') with
    | (s, false) => removeLoop codeset { s with prev := c } first
    | (s, true) =>
      match first with
      | [] => s
      | d :: first => removeLoop codeset { s with prev := d } first

/-- The text without its comments, and whether an unterminated comment is reported. -/
def removeComment (codeset : Codeset) (text : List Char) : List Char × Bool :=
  let s := removeLoop codeset .start text
  (s.result, s.state = .lineComment ∨ s.state = .blockComment)

/-- The body of a literal that `q` closes. -/
inductive Body (q : Char) : List Char → Prop
  | nil : Body q []
  | plain (h : c ≠ q ∧ c ≠ '\\' ∧ c ≠ '\n') : Body q b → Body q (c :: b)
  | escape : Body q b → Body q ('\\' :: c :: b)

/-- The lexical elements of a text; a line comment comes with its newline. -/
inductive Tok
  | char (c : Char)
  | literal (q : Char) (b : List Char)
  | line (b : List Char)
  | block (b : List Char)

namespace Tok

def text : Tok → List Char
  | char c => [c]
  | literal q b => q :: (b ++ [q])
  | line b => '/' :: '/' :: (b ++ ['\n'])
  | block b => '/' :: '*' :: (b ++ ['*', '/'])

/-- What is left without comments. -/
def stripped : Tok → List Char
  | line _ => ['\n']
  | block b => b.filter (· = '\n')
  | k => k.text

/-- The element is one of C in front of the text `t`. -/
def Wf (t : List Char) : Tok → Prop
  | char c => c ≠ '\'' ∧ c ≠ '"' ∧ (c = '/' → t.head? ≠ some '/' ∧ t.head? ≠ some '*')
  | literal q b => (q = '\'' ∨ q = '"') ∧ Body q b
  | line b => '\n' ∉ b
  | block b => ¬['*', '/'].IsInfix b

/-- A literal does not have a backslash in front of its closing quote. -/
def Clean : Tok → Prop
  | literal _ b => b.getLast? ≠ some '\\'
  | _ => True

end Tok

def text (ts : List Tok) : List Char := ts.flatMap Tok.text

def stripped (ts : List Tok) : List Char := ts.flatMap Tok.stripped

def WellFormed : List Tok → Prop
  | [] => True
  | k :: ts => k.Wf (text ts) ∧ WellFormed ts

/-- Iterations of the loop. -/
inductive Steps (codeset : Codeset) : Scan → List Char → Scan → List Char → Prop
  | refl : Steps codeset s t s t
  | one (h : s.step codeset c (t.headD '\x00') = (s₁, false)) :
      Steps codeset { s₁ with prev := c } t s' t' → Steps codeset s (c :: t) s' t'
  | two (h : s.step codeset c d = (s₁, true)) :
      Steps codeset { s₁ with prev := d } t s' t' → Steps codeset s (c :: d :: t) s' t'

/-- At each element of the text the scanner is outside comments and literals, and has written the text before it
without its comments. -/
def Follows (codeset : Codeset) (ts : List Tok) : Prop :=
  ∀ ts₁ ts₂, ts = ts₁ ++ ts₂ →
    ∃ prev, Steps codeset .start (text ts) ⟨.none, prev, stripped ts₁⟩ (text ts₂)

theorem Steps.trans (h : Steps cs s t s₁ t₁) (h' : Steps cs s₁ t₁ s₂ t₂) : Steps cs s t s₂ t₂ := by
  induction h with
  | refl => exact h'
  | one hs _ ih => exact .one hs (ih h')
  | two hs _ ih => exact .two hs (ih h')

theorem Steps.removeLoop_eq (h : Steps cs s t s' t') : removeLoop cs s t = removeLoop cs s' t' := by
  induction h with
  | refl => rfl
  | one hs _ ih => rw [← ih, removeLoop, hs]
  | two hs _ ih => rw [← ih, removeLoop, List.headD_cons, hs]

theorem Steps.length_le (h : Steps cs s t s' t') : t'.length ≤ t.length := by
  induction h with
  | refl => exact Nat.le_refl _
  | one _ _ ih => exact Nat.le_succ_of_le ih
  | two _ _ ih => exact Nat.le_succ_of_le (Nat.le_succ_of_le ih)

/-- The scanner comes to each place of the text in one state only. -/
theorem Steps.unique (h : Steps cs s t s₁ u) (h' : Steps cs s t s₂ u) : s₁ = s₂ := by
  induction h with
  | refl =>
    cases h' with
    | refl => rfl
    | one _ h =>
      have hlen := h.length_le
      rw [List.length_cons] at hlen
      omega
    | two _ h =>
      have hlen := h.length_le
      rw [List.length_cons, List.length_cons] at hlen
      omega
  | one hs h ih =>
    cases h' with
    | refl =>
      have hlen := h.length_le
      rw [List.length_cons] at hlen
      omega
    | one hs' h' =>
      rw [hs] at hs'
      cases hs'
      exact ih h'
    | two hs' h' =>
      rw [List.headD_cons, hs'] at hs
      cases hs
  | two hs h ih =>
    cases h' with
    | refl =>
      have hlen := h.length_le
      rw [List.length_cons, List.length_cons] at hlen
      omega
    | one hs' h' =>
      rw [List.headD_cons, hs] at hs'
      cases hs'
    | two hs' h' =>
      rw [hs] at hs'
      cases hs'
      exact ih h'

section
variable {cs : Codeset} {p q : Char} {r : List Char}

/-- The state within a literal. -/
def quoteState (q : Char) : State := if q = '\'' then .singleQuote else .doubleQuote

def Quote (q : Char) : Prop := q = '\'' ∨ q = '"'

theorem Quote.step (hq : Quote q) : Scan.step cs ⟨quoteState q, p, r⟩ c next =
    Scan.quoted cs q ⟨quoteState q, p, r⟩ c next := by
  rcases hq with rfl | rfl
  · rfl
  · rfl

theorem Quote.ne (hq : Quote q) : q ≠ '\\' := by
  rcases hq with rfl | rfl
  · decide
  · decide

theorem Quote.ne_nul (hq : Quote q) : q ≠ '\x00' := by
  rcases hq with rfl | rfl
  · decide
  · decide

theorem step_copy (hq : Quote q) (hc : c ≠ q) (hn : c = '\\' → next ≠ q) :
    Scan.step cs ⟨quoteState q, p, r⟩ c next = (⟨quoteState q, p, r ++ [c]⟩, false) := by
  rw [hq.step, Scan.quoted, if_neg fun h => hn h.1 h.2.2, if_neg hc]
  rfl

theorem step_escape (hq : Quote q) (hp : ¬Lead cs p) :
    Scan.step cs ⟨quoteState q, p, r⟩ '\\' q = (⟨quoteState q, p, r ++ ['\\', q]⟩, true) := by
  rw [hq.step, Scan.quoted, if_pos ⟨rfl, hp, rfl⟩, Scan.put, Scan.put, List.append_assoc]
  rfl

theorem step_close (hq : Quote q) :
    Scan.step cs ⟨quoteState q, p, r⟩ q next = (⟨.none, p, r ++ [q]⟩, false) := by
  rw [hq.step, Scan.quoted, if_neg fun h => hq.ne h.1, if_pos rfl]
  rfl

theorem headD_ne {t : List Char} (h : t.head? ≠ some q) (h0 : q ≠ '\x00') : t.headD '\x00' ≠ q := by
  cases t with
  | nil => exact h0.symm
  | cons d t => exact fun he => h (congrArg some he)

theorem getLast_tail {b : List Char} (h : (x :: b).getLast? ≠ some y) : b.getLast? ≠ some y := by
  intro he
  rw [List.getLast?_cons, he] at h
  exact h rfl

/-- The scanner copies the body of a literal, but where it ends in a backslash and is closed. -/
theorem body_steps {b t : List Char} (hq : Quote q) (hb : Body q b)
    (hlast : b.getLast? ≠ some '\\' ∨ t.head? ≠ some q) (hp : ¬Lead cs p)
    (hlead : ∀ c ∈ b, ¬Lead cs c) : ∃ prev',
      Steps cs ⟨quoteState q, p, r⟩ (b ++ t) ⟨quoteState q, prev', r ++ b⟩ t := by
  induction hb generalizing p r with
  | nil =>
    refine ⟨p, ?_⟩
    rw [List.append_nil]
    exact .refl
  | @plain c b hc hb ih =>
    obtain ⟨hcl, hbl⟩ := List.forall_mem_cons.1 hlead
    obtain ⟨prev', hs⟩ := ih (hlast.imp_left getLast_tail) (r := r ++ [c]) hcl hbl
    rw [List.append_assoc] at hs
    exact ⟨prev', .one (step_copy hq hc.1 fun h => absurd h hc.2.1) hs⟩
  | @escape b c hb ih =>
    obtain ⟨-, hcl, hbl⟩ := List.forall_mem_cons.1 hlead |>.imp_right List.forall_mem_cons.1
    obtain ⟨prev', hs⟩ := ih (hlast.imp_left fun h => getLast_tail (getLast_tail h))
      (r := r ++ ['\\', c]) hcl hbl
    rw [List.append_assoc] at hs
    refine ⟨prev', ?_⟩
    by_cases hc : c = q
    · subst hc
      exact .two (step_escape hq hp) hs
    · refine .one (step_copy hq hq.ne.symm fun _ => hc) (.one (step_copy hq hc ?_) ?_)
      · rintro rfl
        refine headD_ne ?_ hq.ne_nul
        cases hb with
        | nil => exact hlast.resolve_left fun h => h rfl
        | plain h => exact fun he => h.1 (Option.some.inj he)
        | escape => exact fun he => hq.ne (Option.some.inj he).symm
      · rw [List.append_assoc]
        exact hs

/-- A body that ends in a backslash ends in the escape of one. -/
theorem Body.backslash (hb : Body q b) (hlast : b.getLast? = some '\\') :
    ∃ b', b = b' ++ ['\\', '\\'] ∧ Body q b' := by
  induction hb with
  | nil => cases hlast
  | @plain c b hc hb ih =>
    cases b with
    | nil => exact absurd (Option.some.inj hlast) hc.2.1
    | cons d b =>
      rw [List.getLast?_cons_cons] at hlast
      obtain ⟨b', he, hb'⟩ := ih hlast
      exact ⟨c :: b', by rw [he]; rfl, .plain hc hb'⟩
  | @escape b c hb ih =>
    cases b with
    | nil =>
      cases hlast
      exact ⟨[], rfl, .nil⟩
    | cons d b =>
      rw [List.getLast?_cons_cons, List.getLast?_cons_cons] at hlast
      obtain ⟨b', he, hb'⟩ := ih hlast
      exact ⟨'\\' :: c :: b', by rw [he]; rfl, .escape hb'⟩

/-- A backslash in front of the closing quote keeps the scanner in the literal. -/
theorem body_missed {b : List Char} (hq : Quote q) (hb : Body q b) (hlast : b.getLast? = some '\\')
    (hp : ¬Lead cs p) (hlead : ∀ c ∈ b, ¬Lead cs c) (t : List Char) :
      ∃ r', Steps cs ⟨quoteState q, p, r⟩ (b ++ q :: t) ⟨quoteState q, q, r'⟩ t := by
  obtain ⟨b', rfl, hb'⟩ := hb.backslash hlast
  have hbl : ¬Lead cs '\\' := hlead _ (by simp)
  obtain ⟨prev', hs⟩ := body_steps (t := '\\' :: '\\' :: q :: t) (r := r) hq hb'
    (.inr fun h => hq.ne (Option.some.inj h).symm) hp fun c hc => hlead c (List.mem_append_left _ hc)
  refine ⟨r ++ b' ++ ['\\'] ++ ['\\', q], ?_⟩
  rw [List.append_assoc]
  apply hs.trans
  refine .one (t := '\\' :: q :: t) (step_copy hq hq.ne.symm fun _ => hq.ne.symm) ?_
  exact .two (step_escape hq hbl) .refl

theorem step_char (h : c ≠ '\'' ∧ c ≠ '"') (hn : c = '/' → next ≠ '/' ∧ next ≠ '*') :
    Scan.step cs ⟨.none, p, r⟩ c next = (⟨.none, p, r ++ [c]⟩, false) := by
  by_cases hc : c = '/'
  · exact (if_pos hc).trans ((if_neg (hn hc).2).trans (if_neg (hn hc).1))
  · exact (if_neg hc).trans ((if_neg h.1).trans (if_neg h.2))

theorem step_open (hq : Quote q) :
    Scan.step cs ⟨.none, p, r⟩ q next = (⟨quoteState q, p, r ++ [q]⟩, false) := by
  rcases hq with rfl | rfl
  · rfl
  · rfl

theorem line_steps {b : List Char} (hb : '\n' ∉ b) (t : List Char) :
    ∃ prev', Steps cs ⟨.lineComment, p, r⟩ (b ++ t) ⟨.lineComment, prev', r⟩ t := by
  induction b generalizing p with
  | nil => exact ⟨p, .refl⟩
  | cons c b ih =>
    obtain ⟨hc, hb⟩ := not_or.1 (mt List.mem_cons.2 hb)
    obtain ⟨prev', hs⟩ := ih (p := c) hb
    exact ⟨prev', .one (if_neg (Ne.symm hc)) hs⟩

theorem block_steps {b : List Char} (hb : ¬['*', '/'].IsInfix b) (t : List Char) : ∃ prev',
    Steps cs ⟨.blockComment, p, r⟩ (b ++ '*' :: t)
      ⟨.blockComment, prev', r ++ b.filter (· = '\n')⟩ ('*' :: t) := by
  induction b generalizing p r with
  | nil =>
    refine ⟨p, ?_⟩
    rw [List.filter_nil, List.append_nil]
    exact .refl
  | cons c b ih =>
    have hb' : ¬['*', '/'].IsInfix b := fun h => hb (List.infix_cons h)
    have hend : ¬(c = '*' ∧ (b ++ '*' :: t).headD '\x00' = '/') := by
      rintro ⟨rfl, hn⟩
      cases b with
      | nil =>
        have hn : '*' = '/' := hn
        exact absurd hn (by decide)
      | cons d b =>
        rw [List.cons_append, List.headD_cons] at hn
        exact hb (List.IsPrefix.isInfix ⟨b, by rw [hn]; rfl⟩)
    by_cases hc : c = '\n'
    · obtain ⟨prev', hs⟩ := ih (p := c) (r := r ++ [c]) hb'
      refine ⟨prev', .one ((if_neg hend).trans (if_pos hc)) ?_⟩
      rw [List.filter_cons_of_pos (by simpa using hc), List.append_cons]
      exact hs
    · obtain ⟨prev', hs⟩ := ih (p := c) (r := r) hb'
      refine ⟨prev', .one ((if_neg hend).trans (if_neg hc)) ?_⟩
      rw [List.filter_cons_of_neg (by simpa using hc)]
      exact hs

/-- An element that does not mislead the scanner. -/
theorem Tok.steps {k : Tok} {t : List Char} (hk : k.Wf t) (hc : k.Clean)
    (hlead : ∀ c ∈ k.text, ¬Lead cs c) : ∃ prev',
      Steps cs ⟨.none, p, r⟩ (k.text ++ t) ⟨.none, prev', r ++ k.stripped⟩ t := by
  cases k with
  | char c =>
    obtain ⟨hs, hd, hn⟩ := hk
    refine ⟨c, .one (step_char ⟨hs, hd⟩ fun h => ?_) .refl⟩
    exact ⟨headD_ne (hn h).1 (by decide), headD_ne (hn h).2 (by decide)⟩
  | literal q b =>
    obtain ⟨hq, hb⟩ := hk
    obtain ⟨hql, hl⟩ := List.forall_mem_cons.1 hlead
    obtain ⟨prev', hs⟩ := body_steps (t := q :: t) (r := r ++ [q]) hq hb (.inl hc) hql
      fun c hc => hl c (List.mem_append_left _ hc)
    refine ⟨q, ?_⟩
    rw [Tok.text, List.cons_append, List.append_assoc]
    refine .one (step_open hq) (hs.trans (.one (step_close hq) ?_))
    have he : (Tok.literal q b).stripped = q :: (b ++ [q]) := rfl
    rw [he, List.append_assoc, List.append_assoc]
    exact .refl
  | line b =>
    obtain ⟨prev', hs⟩ := @line_steps cs '/' r b hk ('\n' :: t)
    refine ⟨'\n', ?_⟩
    rw [Tok.text, List.cons_append, List.cons_append, List.append_assoc]
    exact .two rfl (hs.trans (.one rfl .refl))
  | block b =>
    obtain ⟨prev', hs⟩ := @block_steps cs '*' r b hk ('/' :: t)
    refine ⟨'/', ?_⟩
    rw [Tok.text, List.cons_append, List.cons_append, List.append_assoc]
    exact .two rfl (hs.trans (.two rfl .refl))

theorem WellFormed.append {ts₁ ts₂ : List Tok} (h : WellFormed (ts₁ ++ ts₂)) : WellFormed ts₂ := by
  induction ts₁ with
  | nil => exact h
  | cons k ts ih => exact ih h.2

theorem text_append (ts₁ ts₂ : List Tok) : text (ts₁ ++ ts₂) = text ts₁ ++ text ts₂ :=
  List.flatMap_append

theorem toks_steps {ts₁ ts₂ : List Tok} (hw : WellFormed (ts₁ ++ ts₂)) (hc : ∀ k ∈ ts₁, k.Clean)
    (hlead : ∀ c ∈ text ts₁, ¬Lead cs c) : ∃ prev',
      Steps cs ⟨.none, p, r⟩ (text (ts₁ ++ ts₂)) ⟨.none, prev', r ++ stripped ts₁⟩ (text ts₂) := by
  induction ts₁ generalizing p r with
  | nil =>
    refine ⟨p, ?_⟩
    rw [stripped, List.flatMap_nil, List.append_nil]
    exact .refl
  | cons k ts ih =>
    obtain ⟨hk, hw⟩ := hw
    obtain ⟨hck, hc⟩ := List.forall_mem_cons.1 hc
    obtain ⟨prev₁, hs⟩ := Tok.steps (p := p) (r := r) hk hck
      fun c hc => hlead c (List.mem_append_left _ hc)
    obtain ⟨prev₂, hs'⟩ := ih (p := prev₁) (r := r ++ k.stripped) hw hc
      fun c hc => hlead c (List.mem_append_right _ hc)
    refine ⟨prev₂, hs.trans ?_⟩
    rw [List.append_assoc] at hs'
    exact hs'

/-- Behind a literal that ends in a backslash the scanner is still within a literal. -/
theorem Tok.missed {k : Tok} (hk : k.Wf t) (hc : ¬k.Clean)
    (hlead : ∀ c ∈ k.text, ¬Lead cs c) :
    ∃ q r', Steps cs ⟨.none, p, r⟩ (k.text ++ t) ⟨quoteState q, q, r'⟩ t := by
  cases k with
  | char c => exact absurd trivial hc
  | line b => exact absurd trivial hc
  | block b => exact absurd trivial hc
  | literal q b =>
    obtain ⟨hq, hb⟩ := hk
    obtain ⟨hql, hl⟩ := List.forall_mem_cons.1 hlead
    obtain ⟨r', hs⟩ := body_missed (r := r ++ [q]) hq hb (not_not.1 hc) hql
      (fun c hc => hl c (List.mem_append_left _ hc)) t
    refine ⟨q, r', ?_⟩
    rw [Tok.text, List.cons_append, List.append_assoc]
    exact .one (step_open hq) hs

theorem quoteState_ne (q : Char) : quoteState q ≠ .none := by
  rw [quoteState]
  split
  · exact nofun
  · exact nofun

theorem follows_iff {ts : List Tok} (hw : WellFormed ts) (hlead : ∀ c ∈ text ts, ¬Lead cs c) :
    Follows cs ts ↔ ∀ k ∈ ts, k.Clean := by
  constructor
  · intro hf
    have hpre (ts₁ : List Tok) : ∀ ts₂, ts = ts₁ ++ ts₂ → ∀ k ∈ ts₁, k.Clean := by
      induction ts₁ using List.reverseRecOn with
      | nil => exact fun _ _ => nofun
      | append_singleton l k ih =>
        intro ts₂ he
        rw [List.append_assoc] at he
        have hl := ih _ he
        intro k' hk'
        rcases List.mem_append.1 hk' with hk' | hk'
        · exact hl k' hk'
        rw [List.mem_singleton.1 hk']
        by_contra hc
        subst he
        rw [text_append] at hlead
        obtain ⟨prev₁, hs⟩ := toks_steps (r := []) hw hl
          fun c hc => hlead c (List.mem_append_left _ hc)
        obtain ⟨q, r', hs'⟩ := Tok.missed (r := [] ++ stripped l) hw.append.1 hc
          fun c hc => hlead c (List.mem_append_right _ (List.mem_append_left _ hc))
        obtain ⟨prev₂, hs₂⟩ := hf (l ++ [k]) ts₂ (by rw [List.append_assoc])
        exact quoteState_ne q (congrArg Scan.state ((hs.trans hs').unique hs₂))
    exact hpre ts [] (List.append_nil ts).symm
  · rintro hc ts₁ ts₂ rfl
    rw [text_append] at hlead
    exact toks_steps hw (fun k hk => hc k (List.mem_append_left _ hk))
      fun c hc => hlead c (List.mem_append_left _ hc)

theorem Follows.removeComment (h : Follows cs ts) :
    removeComment cs (text ts) = (stripped ts, false) := by
  obtain ⟨p, hs⟩ := h ts [] (List.append_nil ts).symm
  rw [RemoveComment.removeComment, hs.removeLoop_eq]
  rfl

end

/-- In a text of ASCII characters whose comments and literals are terminated the scanner finds each element where
it is exactly if no literal has a backslash in front of its closing quote, and then just the comments are
removed. -/
theorem removeComment_exact (cs : Codeset) (ts : List Tok) (hw : WellFormed ts)
    (hascii : ∀ c ∈ text ts, c.toNat < 128) : (Follows cs ts ↔ ∀ k ∈ ts, k.Clean) ∧
      ((∀ k ∈ ts, k.Clean) → removeComment cs (text ts) = (stripped ts, false)) := by
  have hlead (c : Char) (hc : c ∈ text ts) : ¬Lead cs c := by
    rintro ⟨-, h⟩
    have hlt := hascii c hc
    omega
  have hf := follows_iff hw hlead
  exact ⟨hf, fun hc => (hf.2 hc).removeComment⟩

/-- The text `'a' /**/ "b\n" // c`, with a newline behind it. -/
def sample : List Tok :=
  [.literal '\'' ['a'], .char ' ', .block [], .char ' ', .literal '"' ['b', '\\', 'n'], .char ' ', .line [' ', 'c']]

theorem removeComment_sample : (Follows .ascii sample ↔ ∀ k ∈ sample, k.Clean) ∧
    ((∀ k ∈ sample, k.Clean) → removeComment .ascii (text sample) = (stripped sample, false)) := by
  have hbody : Body '"' ['b', '\\', 'n'] := .plain (by decide) (.escape .nil)
  have hascii : (text sample).all (fun c => c.toNat < 128) = true := rfl
  refine removeComment_exact .ascii sample ?_ fun c hc => of_decide_eq_true (List.all_eq_true.1 hascii c hc)
  refine ⟨⟨.inl rfl, .plain (by decide) .nil⟩, ?_, ?_, ?_, ⟨.inr rfl, hbody⟩, ?_, ?_, trivial⟩
  · exact ⟨by decide, by decide, fun h => absurd h (by decide)⟩
  · exact fun h => nomatch List.infix_nil.1 h
  · exact ⟨by decide, by decide, fun h => absurd h (by decide)⟩
  · exact ⟨by decide, by decide, fun h => absurd h (by decide)⟩
  · change '\n' ∉ [' ', 'c']
    decide

/-- A literal that holds a backslash hides the end of the literal, so that a comment behind it stays. -/
theorem not_removeComment : WellFormed [.literal '"' ['\\', '\\'], .block ['c']] ∧
    removeComment .ascii (text [.literal '"' ['\\', '\\'], .block ['c']]) =
      (text [.literal '"' ['\\', '\\'], .block ['c']], false) ∧
    stripped [.literal '"' ['\\', '\\'], .block ['c']] ≠ text [.literal '"' ['\\', '\\'], .block ['c']] := by
  refine ⟨⟨⟨.inr rfl, .escape .nil⟩, ?_, trivial⟩, by decide, by decide⟩
  intro h
  have hlen := h.length_le
  simp at hlen

end AspKernel.Toppers.RemoveComment
