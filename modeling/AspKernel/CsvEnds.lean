import AspKernel.Csv
import Mathlib.Data.List.Count

/-! What the reader of CSV texts makes of the places where a text can end. -/

namespace AspKernel.Toppers.Csv
set_option autoImplicit true

/-- Where a text stops. A quoted field is taken to end at the last of the adjacent double quotes behind its text. -/
inductive Place
  | outside
  | inside
  | quote
  | behind
  | illegal
  deriving DecidableEq, Repr

def Place.next (p : Place) (ch : Char) : Place :=
  match p with
  | .outside => if ch = '"' then .inside else .outside
  | .inside => if ch = '"' then .quote else .inside
  | .quote => if ch = '"' then .quote else if ch = ',' ∨ ch = '\n' then .outside else .behind
  | .behind => if ch = '"' then .illegal else if ch = ',' ∨ ch = '\n' then .outside else .behind
  | .illegal => .illegal

def place (text : List Char) : Place := text.foldl Place.next .outside

/-- Each double quote opens a quoted field, closes one or is half of a pair. -/
def Unclosed (text : List Char) : Prop := text.count '"' % 2 = 1

/-- The reader is total and keeps what it reads. -/
structure Kept (text : List Char) : Prop where
  noPastEnd : read text ≠ .error .pastEnd
  lastRecord : ∀ records, read text = .ok records → text ≠ [] → text.getLast? ≠ some '\n' →
    read (text ++ ['\n']) = .ok records
  unclosed : Unclosed text → ∃ line, read text = .error (.csvError line)

def State.place : State → Place
  | .none => .outside
  | .escapeOpened => .inside
  | _ => .behind

/-- The place in which a reading ends. -/
def ending : Except Stop Reader → Place
  | .ok s => s.state.place
  | .error .pastEnd => .quote
  | .error (.csvError _) => .illegal

section
variable {s s' : Reader}

end

end AspKernel.Toppers.Csv
