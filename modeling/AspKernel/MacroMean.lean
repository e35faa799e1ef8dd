import AspKernel.MacroEval

/-! What templates mean: a value for each node, from those of its operands. -/

namespace AspKernel.Toppers.Macro
set_option autoImplicit true
open Itronx (Str TextLine showLong)

section
variable (mean : Expr → Eff Var)

/-- A chain of `||` or `&&`; what is behind the operand that decides it is skipped. -/
def meanLogicalLoop (isOr : Bool) (lhs : Var) : List Expr → Eff Var
  | [] => return lhs
  | e :: rest => do
    let value ← int lhs
    if (value ≠ 0) = isOr then return lhs
    else
      let rhs ← mean e
      let value2 ← int rhs
      let i := if isOr then truth (value ≠ 0 ∨ value2 ≠ 0) else truth (value ≠ 0 ∧ value2 ≠ 0)
      meanLogicalLoop isOr (lhs.set 0 ⟨i, [], []⟩) rest

def meanChainLoop (level : Level) (line : TextLine) (lhs : Var) : List (Str × Expr) → Eff Var
  | [] => return lhs
  | (op, e) :: rest => do
    let rhs ← mean e
    let lhs ← binary level op line lhs rhs
    meanChainLoop level line lhs rest

/-- The operators from the innermost one on. -/
def meanOps (line : TextLine) (v : Var) : List (TextLine × Str) → Eff Var
  | [] => return v
  | (_, op) :: ops => do
    let v ← applyUnary line op v
    meanOps line v ops

/-- The operands of a call. -/
def operands (args : List (Expr × List (TextLine × Expr))) : List Expr :=
  args.flatMap fun (e, rest) => e :: rest.map Prod.snd

def meanArgs : List Expr → Eff (List Var)
  | [] => return []
  | e :: es => do
    let arg ← mean e
    let args ← meanArgs es
    return arg :: args

def meanListLoop (lhs : Var) : List Expr → Eff Var
  | [] => return lhs
  | e :: rest => do
    let rhs ← mean e
    meanListLoop (lhs ++ rhs) rest

def meanList : List Expr → Eff Var
  | [] => return []
  | e :: rest => do
    let lhs ← mean e
    meanListLoop mean lhs rest

def meanItemLoop (lhs : Var) : List Expr → Eff Var
  | [] => return lhs
  | e :: rest => do
    let rhs ← mean e
    let lhs ← pushBack lhs rhs
    meanItemLoop lhs rest

def meanSubscript (name : Var) : Option Expr → Eff Var
  | none => return name
  | some e => do
    let expr ← mean e
    element name expr

def meanCondition (cond : Expr) (k : Bool → Eff Unit) : Eff Unit := do
  let expr ← mean cond
  let value ← int expr
  k (value ≠ 0)

def meanMessageHead : Option Expr → Eff Unit
  | none => return
  | some e => do
    let v ← mean e
    messagePlace v

end

section
variable (mean : Expr → Eff Var) (meanTop : Top → Eff Unit)

def meanProg : Prog → Eff Var
  | .done env v => do
    modifyEnv fun _ => env
    return v
  | .stop s => stop s
  | .call env body k => do
    modifyEnv fun _ => env
    meanTop body
    let env ← getEnv
    meanProg (k true env)

def meanFunc (builtins : Builtins) (line : TextLine) (funcName : Str) (args : List Var) : Func → Eff Var
  | .builtin f => do
    let env ← getEnv
    meanProg meanTop (builtins f line args env)
  | .user body => do
    let prevLocation ← passArgs funcName args
    meanTop body
    takeResult prevLocation
  | .unset => return []

/-- A guarded evaluation stops where a call does not evaluate its operands one after the other. -/
def meanCall (guard : Bool) (builtins : Builtins) (name : Expr) (args : List (Expr × List (TextLine × Expr))) :
    Eff Var := do
  let ident ← mean name
  let funcName := getS ident
  let env ← getEnv
  match env.funcMap funcName with
  | none => do
    if guard ∧ args ≠ [] then throw Halt.lost
    else
      let _ ← meanArgs mean (operands args)
      error name.line (undefinedFunction funcName)
      note (.call funcName)
      return []
  | some func => do
    if guard ∧ 1 < args.length then throw Halt.lost
    else
      let argList ← meanArgs mean (operands args)
      note (.call funcName)
      meanFunc meanTop builtins name.line funcName argList func

/-- It stops at a unary operator as well. -/
def meanUnary (guard : Bool) (line : TextLine) (ops : List (TextLine × Str)) (operand : Expr) : Eff Var := do
  if guard ∧ ops ≠ [] then throw Halt.lost
  else
    let v ← mean operand
    meanOps line v ops.reverse

/-- The value of an expression, with what gives those of the nodes below it. -/
def meanStep (guard : Bool) (builtins : Builtins) (e : Expr) : Eff Var := do
  enter e
  match e with
  | .expression _ e => mean e
  | .logicalOrExpr _ lhs rest => do
    let lhs ← mean lhs
    meanLogicalLoop mean true lhs rest
  | .logicalAndExpr _ lhs rest => do
    let lhs ← mean lhs
    meanLogicalLoop mean false lhs rest
  | .chainExpr level line lhs rest => do
    let lhs ← mean lhs
    meanChainLoop mean level line lhs rest
  | .unaryExpr line ops operand => meanUnary mean guard line ops operand
  | .callExpr _ name args => meanCall mean meanTop guard builtins name args
  | .postfixExpr _ e => mean e
  | .primaryExpr _ e => mean e
  | .primaryLvalue _ lvalue => do
    let ident ← mean lvalue
    getVar (getS ident)
  | .primaryParen _ e => mean e
  | .lvalueExpr _ name subscript => do
    let name ← mean name
    meanSubscript mean name subscript
  | .identifier _ text => return identifierValue text
  | .constant _ text => return constantValue text
  | .stringLiteral _ text => stringValue text
  | .orderedList _ items => meanList mean items
  | .orderedSequence line first second last => do
    let first ← mean first
    let second ← mean second
    let last ← mean last
    sequence line first second last
  | .orderedItem _ lhs rest => do
    let lhs ← mean lhs
    meanItemLoop mean lhs rest

def meanElifLoop (els : Option Top) : List (Expr × Top) → Eff Unit
  | [] =>
    match els with
    | none => return
    | some top => meanTop top
  | (cond, top) :: elifs =>
    meanCondition mean cond fun c => if c then meanTop top else meanElifLoop els elifs

def meanForeach (name : Str) (body : Top) : Var → Eff Unit
  | [] => return
  | e :: rest => do
    setVar name [e]
    meanTop body
    meanForeach name body rest

def meanJoineach (name : Str) (delimitor : Str) (body : Top) : Var → Eff Unit
  | [] => return
  | e :: rest => do
    setVar name [e]
    meanTop body
    if rest ≠ [] then print delimitor
    meanJoineach name delimitor body rest

def meanWhile (cond : Expr) (body : Top) : Nat → Eff Unit
  | 0 => throw Halt.fuel
  | n + 1 =>
    meanCondition mean cond fun c => do
      if c then
        meanTop body
        meanWhile cond body n
      else return

def meanJoinwhile (cond delimitor : Expr) (body : Top) : Nat → Bool → Eff Unit
  | 0, _ => throw Halt.fuel
  | n + 1, first =>
    meanCondition mean cond fun c => do
      if c then
        if first then
          meanTop body
          meanJoinwhile cond delimitor body n false
        else
          let delim ← mean delimitor
          print (getS delim)
          meanTop body
          meanJoinwhile cond delimitor body n false
      else return

def meanStmt (fuel : Nat) (s : Stmt) : Eff Unit := do
  setLine s.line
  match s with
  | .function line name body => do
    beginFunction line
    let ident ← mean name
    endFunction (getS ident) body
  | .if_ _ cond body elifs els =>
    meanCondition mean cond fun c => if c then meanTop body else meanElifLoop mean meanTop els elifs
  | .foreach _ name list body => do
    let ident ← mean name
    let list ← mean list
    meanForeach meanTop (getS ident) body list
  | .joineach _ name list delimitor body => do
    let ident ← mean name
    let list ← mean list
    match list with
    | [] => return
    | list => do
      let delim ← mean delimitor
      meanJoineach meanTop (getS ident) (getS delim) body list
  | .while_ _ cond body => meanWhile mean meanTop cond body fuel
  | .joinwhile _ cond delimitor body => meanJoinwhile mean meanTop cond delimitor body fuel true
  | .message _ isError expr body => do
    let file ← beginMessage
    meanMessageHead mean expr
    print (if isError then " error: ".toList else " warning: ".toList)
    meanTop body
    endMessage isError file
  | .file _ name => do
    let v ← mean name
    changeFile (getS v)
  | .assignmentExpr _ lhs rhs => do
    let lhs ← mean lhs
    let rhs ← mean rhs
    setVar (getS lhs) rhs
  | .expr _ e => do
    let v ← mean e
    print (getS v)
  | .plain _ text => plain text

def meanTopLoop (fuel : Nat) : List (Str × Stmt) → Eff Unit
  | [] => return
  | (text, s) :: items => do
    print (leading text)
    meanStmt mean meanTop fuel s
    meanTopLoop fuel items

def meanTopStep (fuel : Nat) : Top → Eff Unit
  | .mk line items => do
    setLine line
    meanTopLoop mean meanTop fuel items

end

def meanNodes (guard : Bool) (builtins : Builtins) : Nat → (Expr → Eff Var) × (Top → Eff Unit)
  | 0 => (fun _ => throw Halt.fuel, fun _ => throw Halt.fuel)
  | n + 1 =>
    (meanStep (meanNodes guard builtins n).1 (meanNodes guard builtins n).2 guard builtins,
      meanTopStep (meanNodes guard builtins n).1 (meanNodes guard builtins n).2 n)

/-- The value of a node from those of its operands, each of them evaluated once. -/
def meanNode (guard : Bool) (builtins : Builtins) (fuel : Nat) (e : Expr) : Eff Var :=
  (meanNodes guard builtins fuel).1 e

end AspKernel.Toppers.Macro
