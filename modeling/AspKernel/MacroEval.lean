import AspKernel.Lib.Numeral
import AspKernel.MacroSeq
import AspKernel.Quote

/-! The evaluation of templates: nodes leave their values on one stack. -/

namespace AspKernel.Toppers.Macro
set_option autoImplicit true
open Itronx (Str TextLine showLong isSpace)

/-- The expressions that are chains of binary operators. -/
inductive Level
  | or
  | xor
  | and
  | equality
  | relational
  | shift
  | additive
  | multiplicative
  deriving DecidableEq, Repr

/-- A node of an expression, with the line where it begins. -/
inductive Expr
  | expression (line : TextLine) (e : Expr)
  | logicalOrExpr (line : TextLine) (lhs : Expr) (rest : List Expr)
  | logicalAndExpr (line : TextLine) (lhs : Expr) (rest : List Expr)
  | chainExpr (level : Level) (line : TextLine) (lhs : Expr) (rest : List (Str × Expr))
  | unaryExpr (line : TextLine) (ops : List (TextLine × Str)) (operand : Expr)
  /-- `identifier >> '(' >> *( expression % ',' ) >> ')'`: lists of arguments, with the lines of the commas -/
  | callExpr (line : TextLine) (name : Expr) (args : List (Expr × List (TextLine × Expr)))
  | postfixExpr (line : TextLine) (e : Expr)
  | primaryExpr (line : TextLine) (e : Expr)
  | primaryLvalue (line : TextLine) (lvalue : Expr)
  | primaryParen (line : TextLine) (e : Expr)
  | lvalueExpr (line : TextLine) (name : Expr) (subscript : Option Expr)
  | identifier (line : TextLine) (text : Str)
  | constant (line : TextLine) (text : Str)
  | stringLiteral (line : TextLine) (text : Str)
  | orderedList (line : TextLine) (items : List Expr)
  | orderedSequence (line : TextLine) (first second last : Expr)
  | orderedItem (line : TextLine) (lhs : Expr) (rest : List Expr)

def Expr.line : Expr → TextLine
  | .expression l _ | .logicalOrExpr l _ _ | .logicalAndExpr l _ _ | .chainExpr _ l _ _ | .unaryExpr l _ _
  | .callExpr l _ _ | .postfixExpr l _ | .primaryExpr l _ | .primaryLvalue l _ | .primaryParen l _
  | .lvalueExpr l _ _ | .identifier l _ | .constant l _ | .stringLiteral l _ | .orderedList l _
  | .orderedSequence l _ _ _ | .orderedItem l _ _ => l

mutual

/-- A command of a template. -/
inductive Stmt
  | function (line : TextLine) (name : Expr) (body : Top)
  | if_ (line : TextLine) (cond : Expr) (body : Top) (elifs : List (Expr × Top)) (els : Option Top)
  | foreach (line : TextLine) (name orderList : Expr) (body : Top)
  | joineach (line : TextLine) (name orderList delimitor : Expr) (body : Top)
  | while_ (line : TextLine) (cond : Expr) (body : Top)
  | joinwhile (line : TextLine) (cond delimitor : Expr) (body : Top)
  /-- `$ERROR` or `$WARNING` -/
  | message (line : TextLine) (isError : Bool) (expr : Option Expr) (body : Top)
  | file (line : TextLine) (name : Expr)
  | assignmentExpr (line : TextLine) (lhs rhs : Expr)
  | expr (line : TextLine) (e : Expr)
  | plain (line : TextLine) (text : Str)

/-- A sequence of commands, each with the text it begins with. -/
inductive Top
  | mk (line : TextLine) (items : List (Str × Stmt))

end

def Stmt.line : Stmt → TextLine
  | .function l _ _ | .if_ l _ _ _ _ | .foreach l _ _ _ | .joineach l _ _ _ _ | .while_ l _ _ | .joinwhile l _ _ _
  | .message l _ _ _ | .file l _ | .assignmentExpr l _ _ | .expr l _ | .plain l _ => l

/-- `func_t`; `call_user_function` makes an entry of neither kind for a name it does not know. -/
inductive Func
  | builtin (f : Str)
  | user (body : Top)
  | unset

/-- `context`, less its stack. -/
structure Env where
  varMap : Str → Var
  funcMap : Str → Option Func
  line : TextLine
  inFunction : Bool
  targetFile : Str
  output : Str → Str
  location : Str
  programName : Str
  errors : Nat
  maxErrors : Nat
  log : List (Str × TextLine × Str)

/-- What happens in an evaluation: a node is evaluated, or a call is done with its operands. -/
inductive Event
  | node (e : Expr)
  | call (name : Str)

structure Context where
  env : Env
  trace : List Event

/-- Why an evaluation has no result. It is `lost` where a guard stops it. -/
inductive Halt
  | stop (s : Stop)
  | fuel
  | lost
  deriving DecidableEq, Repr

abbrev Eff := StateT Context (Except Halt)

def stop (s : Stop) : Eff α := throw (.stop s)

def modifyEnv (f : Env → Env) : Eff Unit := modify fun c => { c with env := f c.env }

def getEnv : Eff Env := do return (← get).env

def note (e : Event) : Eff Unit := modify fun c => { c with trace := c.trace ++ [e] }

def setLine (line : TextLine) : Eff Unit := modifyEnv fun env => { env with line }

/-- What `eval_node` does first. -/
def enter (e : Expr) : Eff Unit := do
  setLine e.line
  note (.node e)

/-- `error` counts, and throws as soon as there are too many. -/
def error (line : TextLine) (msg : Str) : Eff Unit := do
  modifyEnv fun env => { env with errors := env.errors + 1, log := env.log ++ [(env.location, line, msg)] }
  let env ← getEnv
  if env.maxErrors ≤ env.errors then stop .tooManyErrors

/-- `get_i` -/
def int (var : Var) : Eff Int := do
  match getI (← getEnv).line var with
  | .ok i => return i
  | .error s => stop s

def getVar (name : Str) : Eff Var := do return (← getEnv).varMap name

def setVar (name : Str) (var : Var) : Eff Unit :=
  modifyEnv fun env => { env with varMap := Function.update env.varMap name var }

/-- `target_file << s` -/
def print (s : Str) : Eff Unit :=
  modifyEnv fun env =>
    { env with output := Function.update env.output env.targetFile (env.output env.targetFile ++ s) }

def errors (line : TextLine) : List Str → Eff Unit
  | [] => return
  | msg :: msgs => do
    error line msg
    errors line msgs

/-- The report of an operator, and what it sets. -/
def report (line : TextLine) : Out → Eff (Option Int)
  | none => stop .undefined
  | some (msgs, i) => do
    errors line msgs
    return i

def truth (b : Bool) : Option Int := some b.toNat

def bits (f : BitVec 64 → BitVec 64 → BitVec 64) (x y : Int) : Option Int :=
  some (f (BitVec.ofInt 64 x) (BitVec.ofInt 64 y)).toInt

/-- What a binary operator sets. -/
def Level.apply (level : Level) (op : Str) (line : TextLine) (x y : Int) (lhs rhs : Str) : Eff (Option Int) :=
  match level with
  | .or => return bits (· ||| ·) x y
  | .xor => return bits (· ^^^ ·) x y
  | .and => return bits (· &&& ·) x y
  | .equality => return if op = "==".toList then truth (x = y) else truth (x ≠ y)
  | .relational =>
    return if op = "<".toList then truth (x < y)
      else if op = "<=".toList then truth (x ≤ y)
      else if op = ">".toList then truth (x > y)
      else truth (x ≥ y)
  | .shift => report line (shiftStep (if op = "<<".toList then .shl else .shr) x y)
  | .additive => report line (additiveStep (if op = "+".toList then .add else .sub) x y lhs rhs)
  | .multiplicative =>
    report line (multiplicativeStep
      (if op = "*".toList then .mul else if op = "/".toList then .div else .mod) x y lhs rhs)

/-- The loop body of a chain: `lhs[ 0 ]` takes the result. -/
def binary (level : Level) (op : Str) (line : TextLine) (lhs rhs : Var) : Eff Var := do
  let x ← int lhs
  let y ← int rhs
  let i ← level.apply op line x y (getS lhs) (getS rhs)
  return lhs.set 0 ⟨i, [], []⟩

def unaryValue (line : TextLine) (op : Str) (value : Int) : Eff (Option Int) :=
  if op = "+".toList then return some value
  else if op = "-".toList then report line (negateStep value)
  else if op = "~".toList then return some (-value - 1)
  else return truth (value = 0)

/-- One operator of `unary_expr`. -/
def applyUnary (line : TextLine) (op : Str) (expr : Var) : Eff Var :=
  if op ≠ "@".toList then do
    let value ← int expr
    let i ← unaryValue line op value
    return expr.set 0 ⟨i, [], []⟩
  else
    match expr with
    | [] => stop .undefined
    | e :: _ =>
      return expr.set 0 ⟨none, [], match e.i with
        | some i => showLong i
        | none => e.v⟩

/-- `iss >> value` without a fixed base; a value out of range becomes the nearest one. -/
def readConstant (text : Str) : Int :=
  let digits : Str → Option Nat
    | '0' :: 'x' :: t | '0' :: 'X' :: t => Numeral.read 16 t
    | '0' :: t => Numeral.read 8 ('0' :: t)
    | t => Numeral.read 10 t
  match text with
  | '-' :: t => max INT64_MIN (-(digits t).getD 0)
  | '+' :: t => min INT64_MAX ((digits t).getD 0)
  | t => min INT64_MAX ((digits t).getD 0)

def constantValue (text : Str) : Var :=
  let s := text.dropWhile fun c => c = ' ' ∨ c = '\t' ∨ c = '\n'
  constant (readConstant s) s

def identifierValue (text : Str) : Var :=
  [⟨none, [], text.dropWhile fun c => c = ' ' ∨ c = '\t' ∨ c = '\r' ∨ c = '\n'⟩]

def stringValue (text : Str) : Eff Var :=
  match Quote.expandQuote text with
  | .ok s => return [⟨none, [], s⟩]
  | .error .outOfRange => stop .outOfRange
  | .error .invalidArgument => stop .invalidArgument
  | .error .pastEnd => stop .undefined

/-- The name of an element of a variable. -/
def element (name expr : Var) : Eff Var := do
  let i ← int expr
  return [⟨none, [], getS name ++ "[".toList ++ showLong i ++ "]".toList⟩]

/-- `ordered_sequence` from the values of its operands on. -/
def sequence (line : TextLine) (first second last : Var) : Eff Var := do
  let a0 ← int first
  let a1 ← int second
  let an ← int last
  match sequenceStep first second last a0 a1 an with
  | none => stop .undefined
  | some (msgs, var) => do
    errors line msgs
    return var

/-- `lhs.push_back( rhs[ 0 ] )` -/
def pushBack (lhs rhs : Var) : Eff Var :=
  match rhs with
  | [] => stop .undefined
  | e :: _ => return lhs ++ [e]

def argv (i : Nat) : Str := "ARGV[".toList ++ showLong i ++ "]".toList

def passArgv : Nat → List Var → Eff Unit
  | i, [] => setVar (argv i) []
  | i, arg :: args => do
    setVar (argv i) arg
    passArgv (i + 1) args

/-- The arguments of a user function, and the place of errors, which is returned as it was. -/
def passArgs (funcName : Str) (args : List Var) : Eff Str := do
  setVar "ARGC".toList [⟨some (args.length + 1), [], []⟩]
  setVar (argv 0) [⟨none, [], funcName⟩]
  passArgv 1 args
  let env ← getEnv
  modifyEnv fun env => { env with location := funcName }
  return env.location

/-- The variable `RESULT` is read and cleared. -/
def takeResult (prevLocation : Str) : Eff Var := do
  modifyEnv fun env => { env with location := prevLocation }
  let result ← getVar "RESULT".toList
  setVar "RESULT".toList []
  return result

/-- The children of a call between its parentheses. -/
def callChildren (args : List (Expr × List (TextLine × Expr))) : List (TextLine ⊕ Expr) :=
  args.flatMap fun (e, rest) => .inr e :: rest.flatMap fun (comma, e) => [.inl comma, .inr e]

def undefinedFunction (funcName : Str) : Str := "function `".toList ++ funcName ++ "\' is undefined".toList

/-- A builtin function: it works on the context, and may have functions of the template evaluated. -/
inductive Prog
  | done (env : Env) (v : Var)
  | stop (s : Stop)
  | call (env : Env) (body : Top) (k : Bool → Env → Prog)

abbrev Builtins := Str → TextLine → List Var → Env → Prog

abbrev Run := StateT (List Var) Eff

def push (v : Var) : Run Unit := modify (v :: ·)

/-- `stack.top()` and `stack.pop()` -/
def pop : Run Var := do
  match ← get with
  | [] => stop .undefined
  | v :: stack =>
    set stack
    return v

/-- The evaluation of a leaf, which is of no rule. -/
def evalLeaf (line : TextLine) : Run Bool := do
  setLine line
  return false

section
variable (eval : Expr → Run Bool)

/-- The loops of `logical_or_expr` and `logical_and_expr`, which break at different values. -/
def logicalLoop (isOr : Bool) (result : Bool) (lhs : Var) : List Expr → Run (Bool × Var)
  | [] => return (result, lhs)
  | e :: rest => do
    let value ← int lhs
    if (value ≠ 0) = isOr then return (result, lhs)
    else
      let result ← eval e
      let rhs ← pop
      let value2 ← int rhs
      let i := if isOr then truth (value ≠ 0 ∨ value2 ≠ 0) else truth (value ≠ 0 ∧ value2 ≠ 0)
      logicalLoop isOr result (lhs.set 0 ⟨i, [], []⟩) rest

def logicalExpr (isOr : Bool) (lhs : Expr) (rest : List Expr) : Run Bool := do
  if ← eval lhs then
    match rest with
    | [] => return true
    | rest => do
      let lhs ← pop
      let (result, lhs) ← logicalLoop eval isOr true lhs rest
      push lhs
      return result
  else return true

def chainLoop (level : Level) (line : TextLine) (lhs : Var) : List (Str × Expr) → Run Var
  | [] => return lhs
  | (op, e) :: rest => do
    if ← eval e then
      let rhs ← pop
      let lhs ← binary level op line lhs rhs
      chainLoop level line lhs rest
    else return lhs

def chainExpr (level : Level) (line : TextLine) (lhs : Expr) (rest : List (Str × Expr)) : Run Bool := do
  if ← eval lhs then
    match rest with
    | [] => return true
    | rest => do
      let lhs ← pop
      let lhs ← chainLoop eval level line lhs rest
      push lhs
      return true
  else return true

/-- The loop of `unary_expr` from its first body on. At the next operator its condition evaluates the one behind, a leaf,
which ends the loop. -/
def unaryBody (line leaf : TextLine) (op : Str) (outer : List (TextLine × Str)) (expr : Var) : Run Bool := do
  let expr ← applyUnary line op expr
  if outer = [] then
    push expr
    return true
  else
    let _ ← evalLeaf leaf
    push expr
    return true

/-- The condition of the loop evaluates the operand once more, and its value stays on the stack. -/
def unaryExpr (line : TextLine) (ops : List (TextLine × Str)) (operand : Expr) : Run Bool := do
  if ← eval operand then
    match ops.reverse with
    | [] => return true
    | (leaf, op) :: outer => do
      let expr ← pop
      if ← eval operand then
        unaryBody line leaf op outer expr
      else
        push expr
        return true
  else return true

/-- The loop over the arguments of a call takes every other child. -/
def argsLoop : List (TextLine ⊕ Expr) → Run (List Var)
  | [] => return []
  | c :: cs => do
    let rest := match cs with
      | [] => return []
      | _ :: cs => argsLoop cs
    if ← c.elim evalLeaf eval then
      let arg ← pop
      let args ← rest
      return arg :: args
    else rest

def runProg (evalTop : Top → Run Bool) : Prog → Run Var
  | .done env v => do
    modifyEnv fun _ => env
    return v
  | .stop s => stop s
  | .call env body k => do
    modifyEnv fun _ => env
    let b ← evalTop body
    let env ← getEnv
    runProg evalTop (k b env)

def callFunc (evalTop : Top → Run Bool) (builtins : Builtins) (line : TextLine) (funcName : Str) (args : List Var) :
    Func → Run Bool
  | .builtin f => do
    let env ← getEnv
    let result ← runProg evalTop (builtins f line args env)
    push result
    return true
  | .user body => do
    let prevLocation ← passArgs funcName args
    if ← evalTop body then
      let result ← takeResult prevLocation
      push result
      return true
    else
      push []
      return false
  | .unset => do
    push []
    return true

def callExpr (evalTop : Top → Run Bool) (builtins : Builtins) (name : Expr)
    (args : List (Expr × List (TextLine × Expr))) : Run Bool := do
  if ← eval name then
    let ident ← pop
    let funcName := getS ident
    let env ← getEnv
    match env.funcMap funcName with
    | none => do
      error name.line (undefinedFunction funcName)
      note (.call funcName)
      push []
      return true
    | some func => do
      let argList ← argsLoop eval (callChildren args)
      note (.call funcName)
      callFunc evalTop builtins name.line funcName argList func
  else return true

def primaryLvalue (lvalue : Expr) : Run Bool := do
  let result ← eval lvalue
  let ident ← pop
  let value ← getVar (getS ident)
  push value
  return result

def lvalueExpr (name : Expr) (subscript : Option Expr) : Run Bool := do
  if ← eval name then
    match subscript with
    | none => return true
    | some e => do
      if ← eval e then
        let expr ← pop
        let ident ← pop
        let v ← element ident expr
        push v
        return true
      else return true
  else return true

def listLoop (lhs : Var) : List Expr → Run Var
  | [] => return lhs
  | e :: rest => do
    if ← eval e then
      let rhs ← pop
      listLoop (lhs ++ rhs) rest
    else return lhs

def orderedList : List Expr → Run Bool
  | [] => do
    push []
    return true
  | e :: rest => do
    if ← eval e then
      let lhs ← pop
      let lhs ← listLoop eval lhs rest
      push lhs
      return true
    else return true

def orderedSequence (line : TextLine) (first second last : Expr) : Run Bool := do
  if ← eval first then
    let first ← pop
    if ← eval second then
      let second ← pop
      if ← eval last then
        let last ← pop
        let v ← sequence line first second last
        push v
        return true
      else return true
    else return true
  else return true

def itemLoop (lhs : Var) : List Expr → Run Var
  | [] => return lhs
  | e :: rest => do
    if ← eval e then
      let rhs ← pop
      let lhs ← pushBack lhs rhs
      itemLoop lhs rest
    else return lhs

def orderedItem (lhs : Expr) (rest : List Expr) : Run Bool := do
  if ← eval lhs then
    let lhs ← pop
    let lhs ← itemLoop eval lhs rest
    push lhs
    return true
  else return true

end

/-- `eval_node` at an expression, with what evaluates the nodes below it and the bodies of functions. -/
def evalStep (eval : Expr → Run Bool) (evalTop : Top → Run Bool) (builtins : Builtins) (e : Expr) : Run Bool := do
  enter e
  match e with
  | .expression _ e => eval e
  | .logicalOrExpr _ lhs rest => logicalExpr eval true lhs rest
  | .logicalAndExpr _ lhs rest => logicalExpr eval false lhs rest
  | .chainExpr level line lhs rest => chainExpr eval level line lhs rest
  | .unaryExpr line ops operand => unaryExpr eval line ops operand
  | .callExpr _ name args => callExpr eval evalTop builtins name args
  | .postfixExpr _ e => do
    if ← eval e then return true else return true
  | .primaryExpr _ e => eval e
  | .primaryLvalue _ lvalue => primaryLvalue eval lvalue
  | .primaryParen _ e => eval e
  | .lvalueExpr _ name subscript => lvalueExpr eval name subscript
  | .identifier _ text => do
    push (identifierValue text)
    return true
  | .constant _ text => do
    push (constantValue text)
    return true
  | .stringLiteral _ text => do
    let v ← stringValue text
    push v
    return true
  | .orderedList _ items => orderedList eval items
  | .orderedSequence line first second last => orderedSequence eval line first second last
  | .orderedItem _ lhs rest => orderedItem eval lhs rest

/-- The blanks in front of a command, and its text without line ends and with `$` for `$$`. -/
def leading (text : Str) : Str := (text.takeWhile isSpace).filter (· ≠ '\n')

def plainText : Str → Str
  | '$' :: c :: t => if c = '\r' ∨ c = '\n' then plainText t else c :: plainText t
  | c :: t => if c = '\r' ∨ c = '\n' then plainText t else c :: plainText t
  | [] => []

def plain (text : Str) : Eff Unit :=
  match text with
  | [] => return
  | c :: t => print (plainText (if isSpace c then t else c :: t))

section
variable (eval : Expr → Run Bool) (evalTop : Top → Run Bool)

/-- The value of a condition. -/
def condition (cond : Expr) (k : Bool → Run Bool) (otherwise : Run Bool) : Run Bool := do
  if ← eval cond then
    let expr ← pop
    let value ← int expr
    k (value ≠ 0)
  else otherwise

def elifLoop (els : Option Top) : List (Expr × Top) → Run Bool
  | [] =>
    match els with
    | none => return true
    | some top => evalTop top
  | (cond, top) :: elifs =>
    condition eval cond (fun c => if c then evalTop top else elifLoop els elifs) (elifLoop els elifs)

def ifStmt (cond : Expr) (body : Top) (elifs : List (Expr × Top)) (els : Option Top) : Run Bool :=
  condition eval cond (fun c => if c then evalTop body else elifLoop eval evalTop els elifs) (return true)

def foreachLoop (name : Str) (body : Top) (result : Bool) : Var → Run Bool
  | [] => return result
  | e :: rest => do
    setVar name [e]
    let b ← evalTop body
    foreachLoop name body (result && b) rest

def foreachStmt (name orderList : Expr) (body : Top) : Run Bool := do
  if ← eval name then
    let ident ← pop
    if ← eval orderList then
      let list ← pop
      foreachLoop evalTop (getS ident) body true list
    else return true
  else return true

def joineachLoop (name : Str) (delimitor : Str) (body : Top) (result : Bool) : Var → Run Bool
  | [] => return result
  | e :: rest => do
    setVar name [e]
    let b ← evalTop body
    if rest ≠ [] then print delimitor
    joineachLoop name delimitor body (result && b) rest

def joineachStmt (name orderList delimitor : Expr) (body : Top) : Run Bool := do
  if ← eval name then
    let ident ← pop
    if ← eval orderList then
      let list ← pop
      match list with
      | [] => return true
      | list => do
        if ← eval delimitor then
          let delim ← pop
          joineachLoop evalTop (getS ident) (getS delim) body true list
        else return true
    else return true
  else return true

def whileLoop (cond : Expr) (body : Top) : Nat → Bool → Run Bool
  | 0, _ => throw Halt.fuel
  | n + 1, result =>
    condition eval cond
      (fun c => do
        if c then
          let b ← evalTop body
          whileLoop cond body n (result && b)
        else return result)
      (whileLoop cond body n result)

def joinwhileLoop (cond delimitor : Expr) (body : Top) : Nat → Bool → Bool → Run Bool
  | 0, _, _ => throw Halt.fuel
  | n + 1, first, result =>
    let rest : Run Bool := do
      let b ← evalTop body
      joinwhileLoop cond delimitor body n false (result && b)
    condition eval cond
      (fun c => do
        if c then
          if first then rest
          else
            if ← eval delimitor then
              let delim ← pop
              print (getS delim)
              rest
            else rest
        else return result)
      rest

def messagePlace (var : Var) : Eff Unit :=
  match var with
  | [] => return
  | e :: _ => do
    if e.s ≠ [] then print (e.s ++ ":".toList)
    match e.i with
    | none => return
    | some i => print (showLong i ++ ":".toList)

def messageHead : Option Expr → Run Unit
  | none => return
  | some e => do
    if ← eval e then
      let v ← pop
      messagePlace v
    else return

/-- What `$ERROR` and `$WARNING` print goes to the standard error output. -/
def beginMessage : Eff Str := do
  let env ← getEnv
  modifyEnv fun env => { env with targetFile := "stderr".toList }
  print (env.programName ++ ":".toList)
  return env.targetFile

def endMessage (isError : Bool) (file : Str) : Eff Unit := do
  print "\n".toList
  modifyEnv fun env => { env with
    targetFile := file, errors := if isError then env.errors + 1 else env.errors }

def messageStmt (isError : Bool) (expr : Option Expr) (body : Top) : Run Bool := do
  let file ← beginMessage
  messageHead eval expr
  print (if isError then " error: ".toList else " warning: ".toList)
  let result ← evalTop body
  endMessage isError file
  return result

def beginFunction (line : TextLine) : Eff Unit := do
  let env ← getEnv
  if env.inFunction then stop (.fatal line "function cannot be nested".toList)
  modifyEnv fun env => { env with inFunction := true }

def endFunction (name : Str) (body : Top) : Eff Unit :=
  modifyEnv fun env => { env with
    funcMap := Function.update env.funcMap name (some (.user body)), inFunction := false }

def functionStmt (line : TextLine) (name : Expr) (body : Top) : Run Bool := do
  beginFunction line
  if ← eval name then
    let ident ← pop
    endFunction (getS ident) body
    return true
  else
    modifyEnv fun env => { env with inFunction := false }
    return false

def changeFile (name : Str) : Eff Unit := do
  print "\n".toList
  modifyEnv fun env => { env with targetFile := name }

def fileStmt (name : Expr) : Run Bool := do
  if ← eval name then
    let v ← pop
    changeFile (getS v)
    return true
  else return true

def assignmentStmt (lhs rhs : Expr) : Run Bool := do
  if ← eval lhs then
    let lhs ← pop
    if ← eval rhs then
      let rhs ← pop
      setVar (getS lhs) rhs
      return true
    else return true
  else return true

def exprStmt (e : Expr) : Run Bool := do
  if ← eval e then
    let v ← pop
    print (getS v)
    return true
  else return true

/-- `eval_node` at a command. -/
def stmtStep (fuel : Nat) (s : Stmt) : Run Bool := do
  setLine s.line
  match s with
  | .function line name body => functionStmt eval line name body
  | .if_ _ cond body elifs els => ifStmt eval evalTop cond body elifs els
  | .foreach _ name list body => foreachStmt eval evalTop name list body
  | .joineach _ name list delimitor body => joineachStmt eval evalTop name list delimitor body
  | .while_ _ cond body => whileLoop eval evalTop cond body fuel true
  | .joinwhile _ cond delimitor body => joinwhileLoop eval evalTop cond delimitor body fuel true true
  | .message _ isError expr body => messageStmt eval evalTop isError expr body
  | .file _ name => fileStmt eval name
  | .assignmentExpr _ lhs rhs => assignmentStmt eval lhs rhs
  | .expr _ e => exprStmt eval e
  | .plain _ text => do
    plain text
    return true

def topLoop (fuel : Nat) (result : Bool) : List (Str × Stmt) → Run Bool
  | [] => return result
  | (text, s) :: items => do
    print (leading text)
    let b ← stmtStep eval evalTop fuel s
    topLoop fuel (result && b) items

/-- `eval_node` at a sequence of commands. -/
def topStep (fuel : Nat) : Top → Run Bool
  | .mk line items => do
    setLine line
    topLoop eval evalTop fuel true items

end

/-- `eval_node` with a bound on the depth of the nodes and on the rounds of a loop. -/
def evalNodes (builtins : Builtins) : Nat → (Expr → Run Bool) × (Top → Run Bool)
  | 0 => (fun _ => throw Halt.fuel, fun _ => throw Halt.fuel)
  | n + 1 =>
    (evalStep (evalNodes builtins n).1 (evalNodes builtins n).2 builtins,
      topStep (evalNodes builtins n).1 (evalNodes builtins n).2 n)

def evalNode (builtins : Builtins) (fuel : Nat) (e : Expr) : Run Bool := (evalNodes builtins fuel).1 e

end AspKernel.Toppers.Macro
