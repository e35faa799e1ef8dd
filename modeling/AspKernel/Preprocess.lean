import AspKernel.RemoveComment
import AspKernel.Text

/-! Configuration files are expanded into the text of the one that includes them. -/

namespace AspKernel.Itronx.Preprocess
set_option autoImplicit true
open Toppers (Text Row rowsFrom after)
open Toppers.RemoveComment (Codeset Lead Quote removeComment)

local instance : LawfulBEq Str := inferInstance

/-- The files there are, and what the configurator is started with. -/
structure World where
  codeset : Codeset
  files : Str → Option Str
  includePath : List Str
  /-- the path of a file in a directory -/
  join : Str → Str → Str
  maxErrors : Nat

/-- The name is empty if there is no such file. -/
def searchIncludeFile (w : World) (headername : Str) : Str :=
  if (w.files headername).isSome then headername
  else match w.includePath.find? fun path => (w.files (w.join path headername)).isSome with
    | some path => w.join path headername
    | none => []

/-- What `preprocess` works on; a set is there if it is asked for. -/
structure State where
  out : Text
  dependencies : Option (List Str)
  onces : Option (List Str)
  errors : Nat
  warnings : List TextLine

namespace State

def start (dependencies onces : Option (List Str)) : State := ⟨⟨[], ⟨[], 0⟩⟩, dependencies, onces, 0, []⟩

def push (st : State) (c : Char) : State := { st with out := st.out.pushBack c }

def setLine (st : State) (line : TextLine) : State := { st with out := st.out.setLine line }

def depend (st : State) (file : Str) : State := { st with dependencies := st.dependencies.map (List.insert file) }

def once (st : State) (file : Str) : State := { st with onces := st.onces.map (List.insert file) }

def warn (st : State) (line : TextLine) : State := { st with warnings := st.warnings ++ [line] }

end State

/-- Why there is no result. The behaviour of C++ may be `undefined`. -/
inductive Halt
  | fatal (line : TextLine) (headername : Str)
  | ioError (file : Str)
  | tooManyErrors
  | undefined
  | fuel
  deriving DecidableEq, Repr

abbrev Result := Except Halt State

/-- `str_p` -/
def strP : Str → Str → Option Str
  | [], t => some t
  | _ :: _, [] => none
  | c :: s, d :: t => if c = d then strP s t else none

/-- `eol_p` -/
def eolP : Str → Option Str
  | '\r' :: '\n' :: t => some t
  | '\r' :: t => some t
  | '\n' :: t => some t
  | _ => none

/-- `*space_p` -/
def spaces (t : Str) : Str := t.dropWhile isSpace

/-- `*( space_p - eol_p )` -/
def blanks (t : Str) : Str := t.dropWhile fun c => isSpace c ∧ c ≠ '\r' ∧ c ≠ '\n'

/-- The name that an `INCLUDE` at the head of the text has, and the text behind it. -/
def includeStatement (t : Str) : Option (Str × Str) := do
  let t ← strP "INCLUDE".toList t
  let t ← strP ['('] (spaces t)
  let t ← strP ['"'] (spaces t)
  let headername := t.takeWhile (· ≠ '"')
  if headername = [] then none
  else
    let t ← strP ['"'] (t.dropWhile (· ≠ '"'))
    let t ← strP [')'] (spaces t)
    let t ← strP [';'] (spaces t)
    some (headername, t)

/-- `#pragma once` at the head of the text. -/
def onceDirective (t : Str) : Option Str := do
  let t ← strP ['#'] (blanks t)
  let t ← strP "pragma".toList (blanks t)
  let t ← strP "once".toList (blanks t)
  eolP (blanks t)

/-- An `INCLUDE` with an argument of another kind. -/
def illegalInclude (t : Str) : Bool :=
  (do
    let t ← strP "INCLUDE".toList t
    let t ← strP ['('] (spaces t)
    if t.takeWhile (· ≠ ')') = [] then none
    else
      let t ← strP [')'] (t.dropWhile (· ≠ ')'))
      strP [';'] (spaces t)).isSome

/-- The quote at `i` does not end a literal. -/
def escaped (codeset : Codeset) (buf : Str) (i : Nat) : Prop :=
  buf[i - 1]? = some '\\' ∧ ¬(2 ≤ i ∧ ∃ c ∈ buf[i - 2]?, Lead codeset c)

instance (codeset : Codeset) (buf : Str) (i : Nat) : Decidable (escaped codeset buf i) :=
  inferInstanceAs (Decidable (_ ∧ ¬(_ ∧ _)))

/-- The text from an iterator on. At the end of a string that is not the one of the loop there is its terminator. -/
def textFrom (r : Row) (rest : List Row) (i : Nat) : Str :=
  if i = r.buf.length then ['\x00'] else r.buf.drop i ++ rest.flatMap Row.buf

/-- Where an iterator is `n` characters further on. -/
def advance : List Row → Nat → Nat → List Row × Nat
  | [], i, _ => ([], i)
  | r :: rest, i, n => if i + n < r.buf.length then (r :: rest, i + n) else advance rest 0 (n - (r.buf.length - i))

/-- The loops of `expand_include`. The row iterator `rows` may go on while the loop stays in `buf`. -/
def expandLoop (w : World) (pre : Str → State → Result) :
    Nat → List Row → Str → Nat → Option Char → State → Result
  | 0, _, _, _, _, _ => .error .fuel
  | n + 1, rows, buf, i, literal, st =>
    if i = buf.length then
      match rows with
      | [] => .error .undefined
      | [_] => .ok st
      | _ :: r :: rest => expandLoop w pre n (r :: rest) r.buf 0 none st
    else match buf[i]? with
      | none => .error .undefined
      | some c =>
        if c = '\'' ∨ c = '"' then
          match literal with
          | none => expandLoop w pre n rows buf (i + 1) (some c) (st.push c)
          | some q =>
            expandLoop w pre n rows buf (i + 1) (if escaped w.codeset buf i then some q else none) (st.push c)
        else if literal ≠ none then expandLoop w pre n rows buf (i + 1) literal (st.push c)
        else match rows with
          | [] => .ok st
          | r :: rest =>
            if r.buf.length < i then .error .undefined
            else
              let t := textFrom r rest i
              match includeStatement t with
              | some (headername, t') =>
                let hname := searchIncludeFile w headername
                if hname = [] then .error (.fatal r.line headername)
                else if hname ∉ st.onces.getD [] then
                  match pre hname ((st.depend hname).push ' ') with
                  | .error h => .error h
                  | .ok st =>
                    match advance (r :: rest) i (t.length - t'.length) with
                    | ([], i) => expandLoop w pre n [] buf i none st
                    | (r :: rest, i) => expandLoop w pre n (r :: rest) buf i none (st.setLine r.line)
                else expandLoop w pre n (r :: rest) buf (i + 1) none st
              | none =>
                match (if i = 0 then onceDirective t else none) with
                | some t' =>
                  match advance (r :: rest) i (t.length - t'.length) with
                  | ([], _) => .ok ((st.once r.line.file).push '\n')
                  | (r' :: rest, _) =>
                    expandLoop w pre n (r' :: rest) r'.buf 0 none ((st.once r.line.file).push '\n')
                | none =>
                  expandLoop w pre n (r :: rest) buf (i + 1) none
                    ((if illegalInclude t then st.warn r.line else st).push c)

def expandInclude (w : World) (pre : Str → State → Result) (n : Nat) (txt : Text) (st : State) : Result :=
  match txt.rows with
  | [] => .error .undefined
  | r :: rest => expandLoop w pre n (r :: rest) r.buf 0 none (st.setLine r.line)

/-- `preprocess`, with a bound on the depth of files and on the rounds of the loops. -/
def preprocess (w : World) : Nat → Str → State → Result
  | 0, _, _ => .error .fuel
  | n + 1, file, st =>
    match w.files file with
    | none => .error (.ioError file)
    | some [] => .ok st
    | some buf =>
      match removeComment w.codeset buf with
      | (t, false) => expandInclude w (preprocess w n) n (Text.ofStr file t) st
      | (t, true) =>
        if w.maxErrors ≤ st.errors + 1 then .error .tooManyErrors
        else expandInclude w (preprocess w n) n (Text.ofStr file t) { st with errors := st.errors + 1 }

/-- What a file is made of: a directive takes a whole row. -/
inductive Tok
  | char (c : Char)
  | literal (q : Char) (b : Str)
  | statement (s headername : Str)
  | once (s : Str)

namespace Tok

def text : Tok → Str
  | char c => [c]
  | literal q b => q :: (b ++ [q])
  | statement s _ => s
  | once s => s

/-- The token stands in front of the text `t`, and behind the text `row` of the same row. -/
def Wf (codeset : Codeset) (row t : Str) : Tok → Prop
  | char c => ¬Quote c ∧ includeStatement (c :: t) = none ∧ (row = [] → onceDirective (c :: t) = none)
  | literal q b =>
    Quote q ∧ '\n' ∉ b ∧
      (∀ b₁ c b₂, b = b₁ ++ c :: b₂ → Quote c → escaped codeset (q :: b₁) (b₁.length + 1)) ∧
      ¬escaped codeset (q :: b) (b.length + 1)
  | statement s headername =>
    '\n' ∉ s ∧ includeStatement (s ++ t) = some (headername, t) ∧ (t = [] → ∀ c ∈ (row ++ s).head?, ¬Quote c)
  | once s =>
    row = [] ∧ onceDirective (s ++ t) = some t ∧ '\n' ∉ s.dropLast ∧ (s.getLast? = some '\n' ∨ t = [])

/-- What of the row is before the next token. -/
def rowAfter (row : Str) : Tok → Str
  | char c => if c = '\n' then [] else row ++ [c]
  | once _ => []
  | k => row ++ k.text

def lineAfter (l : TextLine) : Tok → TextLine
  | char c => after l c
  | once _ => after l '\n'
  | _ => l

end Tok

def text (ts : List Tok) : Str := ts.flatMap Tok.text

def WellFormed (codeset : Codeset) (row : Str) : List Tok → Prop
  | [] => True
  | k :: ts => k.Wf codeset row (text ts) ∧ WellFormed codeset (k.rowAfter row) ts

/-- A set of files with what they include, in which no file comes to itself. Each of them is empty, or there is some text
in it beside its comments. -/
structure Project (w : World) where
  mem : Str → Prop
  toks : Str → List Tok
  rank : Str → Nat
  reads : mem f → w.files f = some [] ∧ toks f = [] ∨
    ∃ t, w.files f = some t ∧ t ≠ [] ∧ toks f ≠ [] ∧ removeComment w.codeset t = (text (toks f), false)
  wellFormed : mem f → WellFormed w.codeset [] (toks f)
  closed : mem f → .statement s headername ∈ toks f → searchIncludeFile w headername ≠ [] ∧
    mem (searchIncludeFile w headername) ∧ rank (searchIncludeFile w headername) < rank f

section
variable {w : World}

/-- The characters of a file with their lines, where an `INCLUDE` makes `dummy` and the characters of the other file. -/
def expandToks (w : World) (dummy : Str) (expand : Str → List (Char × TextLine)) (l : TextLine) :
    List Tok → List (Char × TextLine)
  | [] => []
  | k :: ts =>
    (match k with
    | .char c => [(c, l)]
    | .literal q b => (Tok.literal q b).text.map fun c => (c, l)
    | .statement _ headername => (dummy.map fun c => (c, l)) ++ expand (searchIncludeFile w headername)
    | .once _ => [('\n', l)]) ++ expandToks w dummy expand (k.lineAfter l) ts

def expandAt (p : Project w) (dummy : Str) : Nat → Str → List (Char × TextLine)
  | 0, _ => []
  | n + 1, f => expandToks w dummy (expandAt p dummy n) ⟨f, 1⟩ (p.toks f)

/-- The expansion of a file. -/
def expansion (p : Project w) (dummy : Str) (f : Str) : List (Char × TextLine) :=
  expandAt p dummy (p.rank f + 1) f

def includedToks (w : World) (included : Str → List Str) (ts : List Tok) : List Str :=
  ts.flatMap fun
    | .statement _ headername => included (searchIncludeFile w headername)
    | _ => []

def includedAt (p : Project w) : Nat → Str → List Str
  | 0, _ => []
  | n + 1, f => f :: includedToks w (includedAt p n) (p.toks f)

/-- The files that are expanded, in order. -/
def included (p : Project w) (f : Str) : List Str := includedAt p (p.rank f + 1) f

/-- The file has the directive. -/
def Project.Once (p : Project w) (f : Str) : Prop := ∃ s, .once s ∈ p.toks f

end

end AspKernel.Itronx.Preprocess
