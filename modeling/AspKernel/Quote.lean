import Mathlib.Data.List.Basic
import Mathlib.Data.List.Infix

/-! Strings in double quotes. -/

namespace AspKernel.Toppers.Quote
set_option autoImplicit true

/-- What `expand_quote` throws, or a look at what is behind the closing quote. -/
inductive Stop
  | outOfRange
  | invalidArgument
  | pastEnd
  deriving DecidableEq, Repr

def Octal (c : Char) : Prop := '0' ≤ c ∧ c ≤ '7'

instance : DecidablePred Octal := fun _ => inferInstanceAs (Decidable (_ ∧ _))

/-- `isxdigit` -/
def XDigit (c : Char) : Prop := '0' ≤ c ∧ c ≤ '9' ∨ 'a' ≤ c ∧ c ≤ 'f' ∨ 'A' ≤ c ∧ c ≤ 'F'

instance : DecidablePred XDigit := fun _ => inferInstanceAs (Decidable (_ ∨ _ ∨ _))

/-- The place of a character among `0123456789abcdef`, of either case. -/
def xdigit (c : Char) : Nat :=
  if c ≤ '9' then c.toNat - '0'.toNat
  else if 'a' ≤ c then c.toNat - 'a'.toNat + 10
  else c.toNat - 'A'.toNat + 10

/-- The loop of an octal escape: its value as a `char`, and the text it leaves. The closing quote is no digit. -/
def octalLoop : Nat → Nat → List Char → Nat × List Char
  | n + 1, c, d :: iter =>
    if Octal d then octalLoop n ((c * 8 + (d.toNat - '0'.toNat)) % 256) iter else (c, d :: iter)
  | _, c, iter => (c, iter)

def hexLoop : Nat → Nat → List Char → Nat × List Char
  | n + 1, c, d :: iter =>
    if XDigit d then hexLoop n ((c * 16 + xdigit d) % 256) iter else (c, d :: iter)
  | _, c, iter => (c, iter)

/-- What an escape of one character stands for. -/
def escaped (c : Char) : Char :=
  match c with
  | 'a' => '\x07'
  | 'b' => '\x08'
  | 'f' => '\x0c'
  | 'n' => '\n'
  | 'r' => '\r'
  | 't' => '\t'
  | 'v' => '\x0b'
  | _ => c

/-- An escape at its character `c`: what it stands for, and the text from where the iterator is then. -/
def escape (c : Char) (iter : List Char) : Char × List Char :=
  if c = 'x' then
    -- the test is made at the `x` itself
    if XDigit c then (hexLoop 2 0 (c :: iter)).map Char.ofNat id else (c, c :: iter)
  else if Octal c then (octalLoop 3 0 (c :: iter)).map Char.ofNat id
  else (escaped c, c :: iter)

/-- The step of the loop from where the iterator is: to the next character, or behind the closing quote. -/
def next (c : Char) : List Char → Except Stop (Char × List Char)
  | [] => .error .pastEnd
  | _ :: iter => .ok (c, iter)

/-- The body of the loop at the character `ch`, with its step. -/
def expandStep (ch : Char) (iter : List Char) : Except Stop (Char × List Char) :=
  if ch = '\\' then
    match iter with
    | [] => .error .invalidArgument
    | c :: iter =>
      let (c, iter) := escape c iter
      next c iter
  else next ch (ch :: iter)

theorem octalLoop_suffix (n c : Nat) (t : List Char) : (octalLoop n c t).2.IsSuffix t := by
  induction n generalizing c t with
  | zero => exact List.suffix_rfl
  | succ n ih =>
    cases t with
    | nil => exact List.suffix_rfl
    | cons d t =>
      rw [octalLoop]
      split
      · exact (ih _ t).trans (List.suffix_cons d t)
      · exact List.suffix_rfl

theorem escape_octal (h : Octal c) :
    escape c iter = (octalLoop 3 0 (c :: iter)).map Char.ofNat id := by
  have hx : c ≠ 'x' := by
    rintro rfl
    exact absurd h (by decide)
  rw [escape, if_neg hx, if_pos h]

/-- The digits of a hexadecimal escape are never looked at. -/
theorem escape_other (h : ¬Octal c) : escape c iter = (escaped c, c :: iter) := by
  by_cases hx : c = 'x'
  · subst hx
    rfl
  · rw [escape, if_neg hx, if_neg h]

theorem escape_suffix (c : Char) (iter : List Char) : (escape c iter).2.IsSuffix (c :: iter) := by
  by_cases h : Octal c
  · rw [escape_octal h]
    exact octalLoop_suffix 3 0 (c :: iter)
  · rw [escape_other h]

theorem expandStep_plain (h : ch ≠ '\\') : expandStep ch iter = .ok (ch, iter) := by
  unfold expandStep
  exact if_neg h

theorem expandStep_escape (c : Char) (iter : List Char) :
    expandStep '\\' (c :: iter) = next (escape c iter).1 (escape c iter).2 := rfl

theorem expandStep_escaped (h : ¬Octal c) : expandStep '\\' (c :: iter) = .ok (escaped c, iter) := by
  rw [expandStep_escape, escape_other h]
  rfl

theorem next_ok (h : next c t = .ok (x, iter)) : x = c ∧ ∃ y, t = y :: iter := by
  cases t with
  | nil => cases h
  | cons y t =>
    cases h
    exact ⟨rfl, y, rfl⟩

/-- The step leaves a part of the text behind its first character. -/
theorem next_suffix (h : next c t = .ok (x, iter)) (hs : t.IsSuffix (y :: u)) : iter.IsSuffix u := by
  obtain ⟨-, z, rfl⟩ := next_ok h
  rcases List.suffix_cons_iff.1 hs with he | hs
  · rw [(List.cons.inj he).2]
  · exact (List.suffix_cons z iter).trans hs

/-- A step takes one character, or a backslash and at least one more. -/
theorem expandStep_ok (h : expandStep ch iter = .ok (c, iter')) :
    ch ≠ '\\' ∧ iter' = iter ∨ ∃ y t, ch = '\\' ∧ iter = y :: t ∧ iter'.IsSuffix t := by
  by_cases hch : ch = '\\'
  · subst hch
    cases iter with
    | nil => cases h
    | cons y t =>
      rw [expandStep_escape] at h
      exact .inr ⟨y, t, rfl, rfl, next_suffix h (escape_suffix y t)⟩
  · rw [expandStep_plain hch] at h
    cases h
    exact .inl ⟨hch, rfl⟩

theorem expandStep_length (h : expandStep ch iter = .ok (c, iter')) : iter'.length ≤ iter.length := by
  obtain ⟨-, rfl⟩ | ⟨y, t, -, rfl, ht⟩ := expandStep_ok h
  · exact Nat.le_refl _
  · exact Nat.le_succ_of_le ht.length_le

/-- The loop, with the text up to the closing quote. -/
def expandLoop (result : List Char) : List Char → Except Stop (List Char)
  | [] => .ok result
  | ch :: iter =>
    match h : expandStep ch iter with
    | .error e => .error e
    | .ok (c, iter') =>
      have := expandStep_length h
      expandLoop (result ++ [c]) iter'
termination_by iter => iter.length

def expandQuote (str : List Char) : Except Stop (List Char) :=
  -- a text of blanks has no position to start from
  match str.dropWhile (· ∈ [' ', '\t', '\r', '\n']) with
  | [] => .error .outOfRange
  | ch :: quoted =>
    if quoted = [] ∨ ch ≠ '"' ∨ quoted.getLast? ≠ some '"' then .error .invalidArgument
    else expandLoop [] quoted.dropLast

/-- What `quote_string` writes for a character. -/
def quoteChar (c : Char) : List Char :=
  match c with
  | '\'' => ['\\', '\'']
  | '"' => ['\\', '"']
  | '\x00' => ['\\', '0']
  | '\x07' => ['\\', 'a']
  | '\x08' => ['\\', 'b']
  | '\x0c' => ['\\', 'f']
  | '\n' => ['\\', 'n']
  | '\r' => ['\\', 'r']
  | '\t' => ['\\', 't']
  | '\x0b' => ['\\', 'v']
  | '\\' => ['\\', '\\']
  | c => [c]

def quoteString (str : List Char) : List Char :=
  '"' :: str.flatMap quoteChar ++ ['"']

theorem expandLoop_ok (h : expandStep ch iter = .ok (c, iter')) (result : List Char) :
    expandLoop result (ch :: iter) = expandLoop (result ++ [c]) iter' := by
  rw [expandLoop]
  split
  · next he =>
    rw [h] at he
    cases he
  · next he =>
    rw [h] at he
    cases he
    rfl

theorem expandLoop_error (h : expandStep ch iter = .error e) (result : List Char) :
    expandLoop result (ch :: iter) = .error e := by
  rw [expandLoop]
  split
  · next he =>
    rw [h] at he
    cases he
    rfl
  · next he =>
    rw [h] at he
    cases he

theorem expandLoop_result (result t : List Char) :
    expandLoop result t = (expandLoop [] t).map (result ++ ·) := by
  induction hn : t.length using Nat.strong_induction_on generalizing result t with
  | _ n ih =>
    cases t with
    | nil =>
      rw [expandLoop, expandLoop, Except.map, List.append_nil]
    | cons ch iter =>
      cases h : expandStep ch iter with
      | error e =>
        rw [expandLoop_error h, expandLoop_error h]
        rfl
      | ok p =>
        obtain ⟨c, iter'⟩ := p
        have hlt : iter'.length < n := by
          rw [← hn, List.length_cons]
          exact Nat.lt_succ_of_le (expandStep_length h)
        rw [expandLoop_ok h, expandLoop_ok h, ih _ hlt (result ++ [c]) iter' rfl,
          ih _ hlt ([] ++ [c]) iter' rfl]
        cases expandLoop [] iter' with
        | error e => rfl
        | ok out => simp [Except.map]

/-- The first character that is expanded, and the rest. -/
theorem expandLoop_cons (h : expandStep ch iter = .ok (c, iter')) :
    expandLoop [] (ch :: iter) = .ok (x :: out) ↔ c = x ∧ expandLoop [] iter' = .ok out := by
  rw [expandLoop_ok h, expandLoop_result]
  cases expandLoop [] iter' with
  | error e => simp [Except.map]
  | ok out' => simp [Except.map]

/-- What a string spells between its quotes. -/
def spell (s : List Char) : List Char := s.flatMap quoteChar

theorem spell_cons (c : Char) (s : List Char) : spell (c :: s) = quoteChar c ++ spell s := rfl

/-- A character whose escape ends in the character itself. -/
def Mark (c : Char) : Prop := c = '\'' ∨ c = '"'

/-- A character is written as it is, or as a backslash and a letter, which stands for the character unless that
is NUL. -/
theorem quoteChar_cases (c : Char) : quoteChar c = [c] ∧ c ≠ '\\' ∧ c ≠ '\x00' ∧ ¬Mark c ∨
    c = '\x00' ∧ quoteChar c = ['\\', '0'] ∨
    ∃ y, quoteChar c = ['\\', y] ∧ c ≠ '\x00' ∧ ¬Octal y ∧ escaped y = c ∧
      (c = '\\' ∧ y = '\\' ∨ Mark c ∧ y = c ∨ c ≠ '\\' ∧ ¬Mark c ∧ y ≠ c ∧ y ≠ '\\') := by
  unfold quoteChar
  split
  case h_3 => exact .inr (.inl ⟨rfl, rfl⟩)
  case h_12 hm hq h0 _ _ _ _ _ _ _ hb => exact .inl ⟨rfl, hb, h0, not_or.2 ⟨hm, hq⟩⟩
  all_goals exact .inr (.inr ⟨_, rfl, by decide, by decide, rfl, by unfold Mark; decide⟩)

/-- A text spells at most `n` characters, where the first of them may have lost its backslash. -/
def Spells (n : Nat) (t : List Char) : Prop :=
  (∃ s, s.length ≤ n ∧ t = spell s) ∨ ∃ y s, s.length + 1 ≤ n ∧ t = y :: spell s

theorem Spells.mono (h : Spells n t) (hn : n ≤ m) : Spells m t := by
  rcases h with ⟨s, hs, rfl⟩ | ⟨y, s, hs, rfl⟩
  · exact .inl ⟨s, by omega, rfl⟩
  · exact .inr ⟨y, s, by omega, rfl⟩

/-- Without its first character a text spells no more, and one less where that is no backslash. -/
theorem Spells.tail (h : Spells n (y :: t)) : Spells n t ∧ (y ≠ '\\' → Spells (n - 1) t ∧ 0 < n) := by
  rcases h with ⟨s, hs, he⟩ | ⟨y', s, hs, he⟩
  · cases s with
    | nil => cases he
    | cons c s =>
      rw [List.length_cons] at hs
      rw [spell_cons] at he
      rcases quoteChar_cases c with ⟨hc, -⟩ | ⟨-, hc⟩ | ⟨x, hc, -⟩
      · rw [hc] at he
        cases he
        exact ⟨.inl ⟨s, by omega, rfl⟩, fun _ => ⟨.inl ⟨s, by omega, rfl⟩, by omega⟩⟩
      · rw [hc] at he
        cases he
        exact ⟨.inr ⟨'0', s, by omega, rfl⟩, fun h => absurd rfl h⟩
      · rw [hc] at he
        cases he
        exact ⟨.inr ⟨x, s, by omega, rfl⟩, fun h => absurd rfl h⟩
  · cases he
    exact ⟨.inl ⟨s, by omega, rfl⟩, fun _ => ⟨.inl ⟨s, by omega, rfl⟩, by omega⟩⟩

theorem Spells.escape (h : Spells n ('\\' :: y :: t)) : Spells (n - 1) t ∧ 0 < n := by
  rcases h with ⟨s, hs, he⟩ | ⟨y', s, hs, he⟩
  · cases s with
    | nil => cases he
    | cons c s =>
      rw [List.length_cons] at hs
      rw [spell_cons] at he
      rcases quoteChar_cases c with ⟨hc, hne, -⟩ | ⟨-, hc⟩ | ⟨x, hc, -⟩
      · rw [hc] at he
        exact absurd (List.cons.inj he).1.symm hne
      · rw [hc] at he
        cases he
        exact ⟨.inl ⟨s, by omega, rfl⟩, by omega⟩
      · rw [hc] at he
        cases he
        exact ⟨.inl ⟨s, by omega, rfl⟩, by omega⟩
  · obtain ⟨-, he⟩ := List.cons.inj he
    have ht : Spells (n - 1) (y :: t) := .inl ⟨s, by omega, he⟩
    exact ⟨ht.tail.1, by omega⟩

theorem Spells.suffix (h : Spells n t) (hs : t'.IsSuffix t) : Spells n t' := by
  obtain ⟨u, rfl⟩ := hs
  induction u with
  | nil => exact h
  | cons y u ih => exact ih h.tail.1

theorem expandLoop_length (h : Spells n t) (ho : expandLoop [] t = .ok out) : out.length ≤ n := by
  induction out generalizing n t with
  | nil => exact Nat.zero_le n
  | cons x out ih =>
    cases t with
    | nil =>
      rw [expandLoop] at ho
      cases ho
    | cons ch iter =>
      cases hs : expandStep ch iter with
      | error e =>
        rw [expandLoop_error hs] at ho
        cases ho
      | ok p =>
        obtain ⟨c, iter'⟩ := p
        obtain ⟨-, hout⟩ := (expandLoop_cons hs).1 ho
        rw [List.length_cons]
        obtain ⟨hch, rfl⟩ | ⟨y, t, rfl, rfl, ht⟩ := expandStep_ok hs
        · obtain ⟨hn, hpos⟩ := h.tail.2 hch
          have hlen := ih hn hout
          omega
        · obtain ⟨hn, hpos⟩ := h.escape
          have hlen := ih (hn.suffix ht) hout
          omega

/-- A text that starts with a quotation mark behind any number of backslashes. -/
def QuoteFollows : List Char → Prop
  | [] => False
  | c :: t => Mark c ∨ c = '\\' ∧ QuoteFollows t

/-- The string comes back from its spelling. -/
def Back (s : List Char) : Prop := expandLoop [] (spell s) = .ok s

/-- The string comes back when the last character before it has left a backslash. -/
def Late (s : List Char) : Prop := expandLoop [] ('\\' :: spell s) = .ok ('\\' :: s)

theorem back_nil : Back [] := by
  rw [Back, spell, List.flatMap_nil, expandLoop]

theorem back_plain (h : quoteChar c = [c]) (hc : c ≠ '\\') : Back (c :: s) ↔ Back s := by
  rw [Back, spell_cons, h, List.singleton_append, expandLoop_cons (expandStep_plain hc)]
  exact and_iff_right rfl

theorem back_letter (h : quoteChar c = ['\\', y]) (hy : ¬Octal y) (he : escaped y = c) :
    Back (c :: s) ↔ Back s := by
  rw [Back, spell_cons, h, List.cons_append, List.singleton_append, expandLoop_cons (expandStep_escaped hy)]
  exact and_iff_right he

theorem not_mark_nul : ¬Mark '\x00' := by
  unfold Mark
  decide

theorem not_mark_backslash : ¬Mark '\\' := by
  unfold Mark
  decide

theorem Mark.ne (h : Mark c) : c ≠ '\\' := by
  rintro rfl
  exact not_mark_backslash h

/-- From the letter of an escape on, only a quotation mark or a backslash comes back. -/
theorem letter_back (h : quoteChar c = ['\\', y]) (hc : c ≠ '\x00') :
    expandLoop [] (y :: spell s) = .ok (c :: s) ↔ Mark c ∧ Back s ∨ c = '\\' ∧ Late s := by
  rcases quoteChar_cases c with ⟨hq, -⟩ | ⟨h0, -⟩ | ⟨y', hq, -, -, -, hcase⟩
  · rw [hq] at h
    cases h
  · exact absurd h0 hc
  · rw [hq] at h
    cases h
    rcases hcase with ⟨rfl, rfl⟩ | ⟨hm, rfl⟩ | ⟨hb, hm, hne, hy⟩
    · rw [or_iff_right fun h => not_mark_backslash h.1, and_iff_right rfl]
      rfl
    · rw [expandLoop_cons (expandStep_plain hm.ne), or_iff_left fun h => hm.ne h.1, and_iff_right rfl,
        and_iff_right hm]
      rfl
    · rw [expandLoop_cons (expandStep_plain hy)]
      exact iff_of_false (fun h => hne h.1) fun h => h.elim (fun h => hm h.1) fun h => hb h.1

/-- A step that takes all of `c` before `s` leaves too little to come back. -/
theorem not_back (h : ∀ x iter', expandStep ch iter = .ok (x, iter') → iter'.IsSuffix (spell s)) :
    expandLoop [] (ch :: iter) ≠ .ok (x :: c :: s) := by
  intro ho
  cases hs : expandStep ch iter with
  | error e =>
    rw [expandLoop_error hs] at ho
    cases ho
  | ok p =>
    obtain ⟨x', iter'⟩ := p
    obtain ⟨-, hout⟩ := (expandLoop_cons hs).1 ho
    have hspell : Spells s.length (spell s) := .inl ⟨s, Nat.le_refl _, rfl⟩
    have hlen := expandLoop_length (hspell.suffix (h _ _ hs)) hout
    rw [List.length_cons] at hlen
    omega

theorem late_cons : Late (c :: s) ↔ Mark c ∧ Back s ∨ c = '\\' ∧ Late s := by
  rw [Late, spell_cons]
  rcases quoteChar_cases c with ⟨hq, hb, h0, hm⟩ | ⟨rfl, hq⟩ | ⟨y, hq, h0, hy, he, -⟩
  · rw [hq]
    refine iff_of_false ?_ fun h => h.elim (fun h => hm h.1) fun h => hb h.1
    apply not_back
    intro x iter' hs
    obtain ⟨hch, -⟩ | ⟨y, t, -, he, ht⟩ := expandStep_ok hs
    · exact absurd rfl hch
    · cases he
      exact ht
  · rw [hq, List.cons_append, expandLoop_cons (expandStep_escaped (by decide)), List.singleton_append,
      expandLoop_cons (expandStep_plain (by decide))]
    refine iff_of_false (fun h => absurd h.2.1 (by decide)) fun h => ?_
    exact h.elim (fun h => not_mark_nul h.1) fun h => absurd h.1 (by decide)
  · rw [hq, List.cons_append, expandLoop_cons (expandStep_escaped (by decide)), List.singleton_append,
      and_iff_right (by rfl)]
    exact letter_back hq h0

/-- The code of NUL takes what follows it for one of its digits or loses it, unless that starts with a backslash. -/
theorem expandStep_nul (t : List Char) : expandStep '\\' ('0' :: t) =
    next (Char.ofNat (octalLoop 2 0 t).1) (octalLoop 2 0 t).2 := rfl

theorem octalLoop_stop (n v : Nat) (h : ¬Octal c) : octalLoop (n + 1) v (c :: t) = (v, c :: t) := by
  rw [octalLoop, if_neg h]

theorem not_late_nil : ¬Late [] := by
  have hs : expandStep '\\' (spell []) = .error .invalidArgument := rfl
  rw [Late, expandLoop_error hs]
  nofun

theorem back_nul : Back ('\x00' :: s) ↔ Late s := by
  have hspell : spell ('\x00' :: s) = '\\' :: '0' :: spell s := rfl
  rw [Back, hspell]
  cases s with
  | nil =>
    have hs : expandStep '\\' ('0' :: spell []) = .error .pastEnd := rfl
    rw [expandLoop_error hs]
    exact iff_of_false nofun not_late_nil
  | cons c t =>
    have hstop (u : List Char) : expandStep '\\' ('0' :: '\\' :: u) = .ok ('\x00', u) := by
      rw [expandStep_nul, octalLoop_stop 1 0 (by decide)]
      rfl
    rw [late_cons, spell_cons]
    rcases quoteChar_cases c with ⟨hq, hb, h0, hm⟩ | ⟨rfl, hq⟩ | ⟨y, hq, h0, hy, he, -⟩
    · rw [hq]
      refine iff_of_false ?_ fun h => h.elim (fun h => hm h.1) fun h => hb h.1
      apply not_back
      intro x iter' hs
      rw [expandStep_nul] at hs
      exact next_suffix hs (octalLoop_suffix 2 0 (c :: spell t))
    · rw [hq, List.cons_append, expandLoop_cons (hstop _), List.singleton_append,
        expandLoop_cons (expandStep_plain (by decide))]
      refine iff_of_false (fun h => absurd h.2.1 (by decide)) fun h => ?_
      exact h.elim (fun h => not_mark_nul h.1) fun h => absurd h.1 (by decide)
    · rw [hq, List.cons_append, expandLoop_cons (hstop _), List.singleton_append, and_iff_right rfl]
      exact letter_back hq h0

/-- Every NUL of the string stands in front of a quotation mark, but for backslashes. -/
def NulsCovered (s : List Char) : Prop := ∀ t, ('\x00' :: t).IsSuffix s → QuoteFollows t

theorem nulsCovered_nil : NulsCovered [] := by
  intro t h
  have h := List.suffix_nil.1 h
  cases h

theorem nulsCovered_cons : NulsCovered (c :: s) ↔ (c = '\x00' → QuoteFollows s) ∧ NulsCovered s := by
  constructor
  · intro h
    refine ⟨fun hc => ?_, fun t ht => h t (ht.trans (List.suffix_cons c s))⟩
    rw [hc] at h
    exact h s List.suffix_rfl
  · rintro ⟨hc, hs⟩ t ht
    rcases List.suffix_cons_iff.1 ht with he | ht
    · cases he
      exact hc rfl
    · exact hs t ht

theorem nulsCovered_of_ne (h : c ≠ '\x00') : NulsCovered (c :: s) ↔ NulsCovered s := by
  rw [nulsCovered_cons, and_iff_right fun hc => absurd hc h]

theorem back_iff (s : List Char) :
    (Back s ↔ NulsCovered s) ∧ (Late s ↔ QuoteFollows s ∧ NulsCovered s) := by
  induction s with
  | nil => exact ⟨iff_of_true back_nil nulsCovered_nil, iff_of_false not_late_nil fun h => h.1⟩
  | cons c s ih =>
    obtain ⟨hback, hlate⟩ := ih
    refine ⟨?_, ?_⟩
    · rcases quoteChar_cases c with ⟨hq, hb, h0, hm⟩ | ⟨rfl, hq⟩ | ⟨y, hq, h0, hy, he, -⟩
      · rw [back_plain hq hb, nulsCovered_of_ne h0, hback]
      · rw [back_nul, nulsCovered_cons, hlate, imp_iff_right rfl]
      · rw [back_letter hq hy he, nulsCovered_of_ne h0, hback]
    · rw [late_cons, hback, hlate, QuoteFollows, or_and_right, and_assoc]
      by_cases h0 : c = '\x00'
      · subst h0
        refine iff_of_false (fun h => ?_) fun h => ?_
        · exact h.elim (fun h => not_mark_nul h.1) fun h => absurd h.1 (by decide)
        · exact h.elim (fun h => not_mark_nul h.1) fun h => absurd h.1 (by decide)
      · rw [nulsCovered_of_ne h0]

theorem expandQuote_quoted (t : List Char) : expandQuote ('"' :: t ++ ['"']) = expandLoop [] t := by
  unfold expandQuote
  simp

theorem quote_round_trip (s : List Char) : expandQuote (quoteString s) = .ok s ↔ NulsCovered s := by
  rw [← (back_iff s).1]
  exact (expandQuote_quoted (spell s)).congr_left

/-- A character of a C literal, as such or as an escape sequence, and what is left of the text. -/
inductive Elem : List Char → Char → List Char → Prop
  | plain (h : c ≠ '\\') : Elem (c :: t) c t
  | simple (h : ¬Octal c) (hx : c = 'x' → ∀ d ∈ t.head?, ¬XDigit d) : Elem ('\\' :: c :: t) (escaped c) t
  | octal (ds : List Char) (hne : ds ≠ []) (hn : ds.length ≤ 3) (h : ∀ d ∈ ds, Octal d)
      (hmax : ds.length = 3 ∨ ∀ d ∈ t.head?, ¬Octal d) :
      Elem ('\\' :: (ds ++ t)) (Char.ofNat (ds.foldl (fun v d => v * 8 + (d.toNat - '0'.toNat)) 0 % 256)) t
  | hex (ds : List Char) (hne : ds ≠ []) (hn : ds.length ≤ 2) (h : ∀ d ∈ ds, XDigit d)
      (hmax : ds.length = 2 ∨ ∀ d ∈ t.head?, ¬XDigit d) :
      Elem ('\\' :: 'x' :: (ds ++ t)) (Char.ofNat (ds.foldl (fun v d => v * 16 + xdigit d) 0)) t

/-- The loop gives the characters of a text one by one, each in a step that leaves what is behind it. A text that
ends in a lone backslash, and so takes the closing quote for a part of it, is refused. -/
inductive Decodes : List Char → Except Stop (List Char) → Prop
  | nil : Decodes [] (.ok [])
  | lone : Decodes ['\\'] (.error .invalidArgument)
  | cons (h : Elem (ch :: iter) c iter') (hs : expandStep ch iter = .ok (c, iter'))
      (hrest : Decodes iter' out) : Decodes (ch :: iter) (out.map (c :: ·))

/-- No escape sequence of the text is written in digits. -/
def NumericFree : List Char → Prop
  | '\\' :: c :: t => ¬Octal c ∧ (c = 'x' → ∀ d ∈ t.head?, ¬XDigit d) ∧ NumericFree t
  | _ :: t => NumericFree t
  | [] => True

theorem numericFree_plain (h : c ≠ '\\') : NumericFree (c :: t) ↔ NumericFree t := by
  rw [NumericFree]
  exact fun _ _ he => absurd he h

theorem octalLoop_digits {ds : List Char} (h : ∀ d ∈ ds, Octal d) (hn : ds.length ≤ n) :
    (octalLoop n v (ds ++ t)).2.IsSuffix t := by
  induction ds generalizing n v with
  | nil => exact octalLoop_suffix n v t
  | cons d ds ih =>
    cases n with
    | zero => cases hn
    | succ n =>
      rw [List.cons_append, octalLoop, if_pos (h d List.mem_cons_self)]
      exact ih (fun d hd => h d (List.mem_cons_of_mem _ hd)) (Nat.le_of_succ_le_succ hn)

/-- An octal escape loses the character behind it. -/
theorem expandStep_octal {ds : List Char} (hne : ds ≠ []) (hn : ds.length ≤ 3) (h : ∀ d ∈ ds, Octal d)
    (hs : expandStep '\\' (ds ++ t) = .ok (c, iter)) : iter.length < t.length := by
  cases ds with
  | nil => exact absurd rfl hne
  | cons d ds =>
    rw [List.cons_append, expandStep_escape, escape_octal (h d List.mem_cons_self)] at hs
    obtain ⟨-, y, hy⟩ := next_ok hs
    have hsuf : (octalLoop 3 0 (d :: ds ++ t)).2.IsSuffix t := octalLoop_digits h hn
    have hlen := hsuf.length_le
    rw [show (octalLoop 3 0 (d :: ds ++ t)).2 = y :: iter from hy, List.length_cons] at hlen
    exact hlen

theorem Decodes.numericFree (h : Decodes t out) : NumericFree t := by
  induction h with
  | nil => trivial
  | lone => trivial
  | cons he hs hrest ih =>
    cases he with
    | plain hc => exact (numericFree_plain hc).2 ih
    | simple hc hx => exact ⟨hc, hx, ih⟩
    | octal ds hne hn hd hmax => exact absurd (expandStep_octal hne hn hd hs) (Nat.lt_irrefl _)
    | hex ds hne hn hd hmax =>
      rw [expandStep_escaped (by decide)] at hs
      have hlen := congrArg List.length (Prod.mk.inj (Except.ok.inj hs)).2
      rw [List.length_append] at hlen
      exact absurd (List.length_eq_zero_iff.1 (by omega)) hne

theorem NumericFree.decodes (h : NumericFree t) : Decodes t (expandLoop [] t) := by
  have hcons {ch c : Char} {iter iter' : List Char} (he : Elem (ch :: iter) c iter')
      (hs : expandStep ch iter = .ok (c, iter')) (hrest : Decodes iter' (expandLoop [] iter')) :
      Decodes (ch :: iter) (expandLoop [] (ch :: iter)) := by
    rw [expandLoop_ok hs, expandLoop_result]
    exact .cons he hs hrest
  induction t using NumericFree.induct with
  | case1 c t ih =>
    obtain ⟨hc, hx, ht⟩ := h
    exact hcons (.simple hc hx) (expandStep_escaped hc) (ih ht)
  | case2 c t hne ih =>
    by_cases hc : c = '\\'
    · cases t with
      | nil =>
        subst hc
        rw [expandLoop_error rfl]
        exact .lone
      | cons c' t => exact (hne c' t hc rfl).elim
    · rw [numericFree_plain hc] at h
      exact hcons (.plain hc) (expandStep_plain hc) (ih h)
  | case3 =>
    rw [expandLoop]
    exact .nil

/-- A string comes back from its quoted form exactly where its NULs are covered, and a quoted text is decoded
character by character exactly where none of its escape sequences is written in digits. -/
theorem expandQuote_exact (s t : List Char) : (expandQuote (quoteString s) = .ok s ↔ NulsCovered s) ∧
    (Decodes t (expandQuote ('"' :: t ++ ['"'])) ↔ NumericFree t) := by
  refine ⟨quote_round_trip s, ?_⟩
  rw [expandQuote_quoted]
  exact ⟨Decodes.numericFree, NumericFree.decodes⟩

/-- The character behind an octal escape is lost, the closing quote with it, and a hexadecimal escape is not
decoded. -/
theorem not_expandQuote : expandQuote (quoteString ['\x00', 'z']) = .ok ['\x00'] ∧
    expandQuote (quoteString ['\x00']) = .error .pastEnd ∧
    expandQuote "\"\\101B\"".toList = .ok ['A'] ∧ expandQuote "\"\\x41\"".toList = .ok ['x', '4', '1'] := by
  have hoct : "\"\\101B\"".toList = '"' :: ['\\', '1', '0', '1', 'B'] ++ ['"'] := rfl
  have hhex : "\"\\x41\"".toList = '"' :: ['\\', 'x', '4', '1'] ++ ['"'] := rfl
  have hz : quoteString ['\x00', 'z'] = '"' :: ['\\', '0', 'z'] ++ ['"'] := rfl
  have h0 : quoteString ['\x00'] = '"' :: ['\\', '0'] ++ ['"'] := rfl
  rw [hoct, hhex, hz, h0]
  simp only [expandQuote_quoted]
  have hz : expandStep '\\' ['0', 'z'] = .ok ('\x00', []) := rfl
  have hB : expandStep '\\' ['1', '0', '1', 'B'] = .ok ('A', []) := rfl
  refine ⟨?_, ?_, ?_, ?_⟩
  · rw [expandLoop_ok hz, expandLoop]
    rfl
  · rw [expandLoop_error rfl]
  · rw [expandLoop_ok hB, expandLoop]
    rfl
  · rw [expandLoop_ok rfl, expandLoop_ok rfl, expandLoop_ok rfl, expandLoop]
    rfl

end AspKernel.Toppers.Quote
