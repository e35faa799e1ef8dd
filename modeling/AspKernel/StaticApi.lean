import AspKernel.Lib.Numbering
import AspKernel.Lib.Numeral

/-! The configurator gives the objects that static APIs create their numbers. -/

namespace AspKernel.Itronx
set_option autoImplicit true

/-- `std::string` -/
abbrev Str := List Char

structure TextLine where
  file : Str
  line : Int
  deriving DecidableEq, Repr

/-- The specification of a static API. -/
structure Info where
  type : Str
  apiName : Str
  idPos : Int
  slave : Bool
  deriving DecidableEq, Repr

/-- An argument of a static API; the parser takes no empty token. -/
structure Parameter where
  symbol : Str
  text : Str
  value : Option Int
  text_ne : text ≠ []
  deriving DecidableEq, Repr

structure StaticApi where
  info : Info
  params : List Parameter
  line : TextLine
  deriving DecidableEq, Repr

/-- A message, with the line it is about where it has one. -/
structure Diag where
  line : Option TextLine
  msg : Str
  deriving DecidableEq, Repr

/-- An integer as a stream writes it. -/
def showLong (v : Int) : Str :=
  if v < 0 then '-' :: Numeral.write 10 Nat.digitChar v.natAbs
  else Numeral.write 10 Nat.digitChar v.natAbs

/-- `fatal` throws; `error` counts, and throws as soon as there are too many. -/
def error (threshold : Nat) (log : List Diag) (d : Diag) : Except Diag (List Diag) :=
  if threshold ≤ log.length + 1 then .error ⟨none, "too many errors".toList⟩ else .ok (log ++ [d])

/-- `E_OBJ` for a name. -/
def duplicated (line : Option TextLine) (name : Str) : Diag :=
  ⟨line, "E_OBJ: `".toList ++ name ++ "\' is duplicated".toList⟩

/-- `params_.at( pos )` throws where there is no such argument. -/
def StaticApi.atPos (a : StaticApi) (pos : Int) : Except Diag Parameter :=
  match a.params[pos.toNat]? with
  | none => .error ⟨none, "out of range".toList⟩
  | some p => .ok p

/-- `iter->at( info->id_pos ).value = value` -/
def StaticApi.setValue (a : StaticApi) (value : Int) : StaticApi :=
  { a with params := a.params.modify a.info.idPos.toNat fun p => { p with value := some value } }

/-- `symbol[0] == '#'` -/
def Parameter.isAuto (p : Parameter) : Bool := p.symbol.head? = some '#'

/-- One step of the first loop of `static_api::assign_id`: the table takes a reserved number. -/
def reserveId (idRes : List Str) (a : StaticApi) : Except Diag (List Str) :=
  if a.info.idPos < 0 then .ok idRes
  else if a.info.slave then .ok idRes
  else do
    let p ← a.atPos a.info.idPos
    if p.isAuto then
      match p.value with
      | none => .error ⟨none, "assertion failed".toList⟩
      | some id =>
        if 0 < id then
          if Numbering.slot idRes id.toNat ≠ [] then
            .error ⟨none, "E_OBJ: ".toList ++ p.symbol.tail ++ " `".toList ++ showLong id ++
              "\' in ".toList ++ a.info.apiName ++ " is duplicated".toList⟩
          else .ok (Numbering.put idRes id.toNat p.text)
        else .ok idRes
    else .ok idRes

/-- The variables of the second loop. -/
structure Loop where
  id : Nat
  idRes : List Str
  idMap : Str → Option Int
  slaveIdSet : Str → List Str

/-- The number of a name: that of the slot where it stands, or else the first free one. -/
def giveId (s : Loop) (a : StaticApi) (name : Str) : Int × Loop × StaticApi :=
  match Numbering.find s.idRes name with
  | some i => (i, s, a)
  | none =>
    let id := Numbering.next s.idRes s.id
    (id, { s with id, idRes := Numbering.put s.idRes id name }, a.setValue id)

/-- One step of the second loop. -/
def assignStep (s : Loop) (a : StaticApi) : Except Diag (Loop × StaticApi) :=
  if a.info.idPos < 0 then .ok (s, a)
  else do
    let p ← a.atPos a.info.idPos
    let name := p.text
    if !a.info.slave then
      if p.isAuto then
        let (idValue, s, a) := giveId s a name
        if (s.idMap name).isSome then .error (duplicated a.line name)
        else .ok ({ s with idMap := Function.update s.idMap name (some idValue) }, a)
      else
        let idValue := p.value.getD (-1)
        .ok ({ s with idMap := Function.update s.idMap name (some idValue) }, a)
    else
      -- `id_map[ name ]` is zero for a name that is not there
      if (s.idMap name).getD 0 < 1 then
        .error ⟨a.line, "E_NOEXS: `".toList ++ name ++ "\' is undefined".toList⟩
      else
        let set := s.slaveIdSet a.info.apiName
        if name ∈ set then .error (duplicated a.line name)
        else .ok ({ s with
          slaveIdSet := Function.update s.slaveIdSet a.info.apiName (name :: set) }, a)

def assignLoop (s : Loop) : List StaticApi → Except Diag (Loop × List StaticApi)
  | [] => .ok (s, [])
  | a :: apis => do
    let (s, a) ← assignStep s a
    let (s, apis) ← assignLoop s apis
    .ok (s, a :: apis)

/-- `static_api::assign_id`, with the errors that have been reported; a fatal one ends it. -/
def assignId (threshold : Nat) (log : List Diag) (apis : List StaticApi) :
    Except Diag (List StaticApi × List Diag) := do
  let idRes ← apis.foldlM reserveId []
  let (s, out) ← assignLoop ⟨1, idRes, fun _ => none, fun _ => []⟩ apis
  if s.idRes ≠ [] ∧ [] ∈ s.idRes.tail then
    let type := (apis.head?.map (·.info.type)).getD []
    let log ← error threshold log ⟨none, "`".toList ++ type ++ "\' id numbers do not continue".toList⟩
    .ok (out, log)
  else .ok (out, log)

/-! The files of `factory.cpp`. -/

/-- `std::isspace` -/
def isSpace (c : Char) : Bool := c ∈ [' ', '\t', '\n', '\x0b', '\x0c', '\r']

/-- `LONG_MAX` of a 64-bit host -/
def LONG_MAX : Int := 2 ^ 63 - 1

/-- `iss >> name` -/
def readName (l : Str) : Option (Str × Str) :=
  let l := l.dropWhile isSpace
  let name := l.takeWhile (!isSpace ·)
  if name = [] then none else some (name, l.dropWhile (!isSpace ·))

/-- `iss >> value` -/
def readLong (l : Str) : Option Int :=
  let digits (l : Str) := Numeral.read 10 (l.takeWhile Char.isDigit)
  let value := match l.dropWhile isSpace with
    | '-' :: l => (digits l).map fun n : Nat => -(n : Int)
    | '+' :: l => (digits l).map fun n : Nat => (n : Int)
    | l => (digits l).map fun n : Nat => (n : Int)
  value.bind fun v => if -LONG_MAX - 1 ≤ v ∧ v ≤ LONG_MAX then some v else none

/-- A line of the id-input file, and whether it has been used. -/
structure IdEntry where
  name : Str
  value : Int
  used : Bool
  deriving DecidableEq, Repr

def idFileInvalid (file : Str) : Diag :=
  ⟨none, "id file `".toList ++ file ++ "\' is invalid".toList⟩

/-- The lines of the id-input file, up to the first empty one. -/
def readIds (file : Str) (idMap : List IdEntry) : List Str → Except Diag (List IdEntry)
  | [] => .ok idMap
  | linebuf :: lines =>
    if linebuf = [] ∨ linebuf = ['\r'] then .ok idMap
    else
      match readName linebuf with
      | none => .error (idFileInvalid file)
      | some (name, rest) =>
        match readLong rest with
        | none => .error (idFileInvalid file)
        | some value =>
          if idMap.any (·.name = name) then .error (duplicated none name)
          else readIds file (idMap ++ [⟨name, value, false⟩]) lines

/-- One step of the loop that reserves the numbers of the id-input file. -/
def inputStep (idMap : List IdEntry) (a : StaticApi) : Except Diag (List IdEntry × StaticApi) :=
  if a.info.idPos < 0 then .ok (idMap, a)
  else do
    let p ← a.atPos a.info.idPos
    if !a.info.slave && p.isAuto then
      match idMap.find? (·.name = p.text) with
      | none => .ok (idMap, a)
      | some hit =>
        if 0 < hit.value then
          .ok (idMap.map fun e => if e.name = p.text then { e with used := true } else e,
            a.setValue hit.value)
        else .ok (idMap, a)
    else .ok (idMap, a)

def inputLoop (idMap : List IdEntry) : List StaticApi → Except Diag (List IdEntry × List StaticApi)
  | [] => .ok (idMap, [])
  | a :: apis => do
    let (idMap, a) ← inputStep idMap a
    let (idMap, apis) ← inputLoop idMap apis
    .ok (idMap, a :: apis)

/-- The static APIs of each type of object. -/
abbrev StaticApiMap := List (Str × List StaticApi)

/-- Without an id-input file. -/
def assignTypes (threshold : Nat) (log : List Diag) :
    StaticApiMap → Except Diag (StaticApiMap × List Diag)
  | [] => .ok ([], log)
  | (type, apis) :: m => do
    let (apis, log) ← assignId threshold log apis
    let (m, log) ← assignTypes threshold log m
    .ok ((type, apis) :: m, log)

/-- With an id-input file. -/
def inputTypes (threshold : Nat) (idMap : List IdEntry) (log : List Diag) :
    StaticApiMap → Except Diag (StaticApiMap × List IdEntry × List Diag)
  | [] => .ok ([], idMap, log)
  | (type, apis) :: m => do
    let (idMap, apis) ← inputLoop idMap apis
    let (apis, log) ← assignId threshold log apis
    let (m, idMap, log) ← inputTypes threshold idMap log m
    .ok ((type, apis) :: m, idMap, log)

/-- What the id-output file says about a static API. -/
def writeId (a : StaticApi) : Except Diag Str :=
  if a.info.idPos < 0 then .ok []
  else do
    let p ← a.atPos a.info.idPos
    if !a.info.slave && p.isAuto then
      match p.value with
      | none => .error ⟨none, "assertion failed".toList⟩
      | some value => .ok (p.text ++ '\t' :: showLong value ++ ['\n'])
    else .ok []

def writeIds : List StaticApi → Except Diag Str
  | [] => .ok []
  | a :: apis => do
    let line ← writeId a
    let lines ← writeIds apis
    .ok (line ++ lines)

/-- The part of `assign_id` before the id-output file is written; the warnings stand in the order of
the id-input file. -/
def numberTypes (threshold : Nat) (idInput : Option (Str × Str)) (log : List Diag)
    (apiMap : StaticApiMap) : Except Diag (StaticApiMap × List Diag × List Diag) :=
  match idInput with
  | none => do
    let (apiMap, log) ← assignTypes threshold log apiMap
    .ok (apiMap, log, [])
  | some (file, text) => do
    let idMap ← readIds file [] (text.splitOn '\n')
    let (apiMap, idMap, log) ← inputTypes threshold idMap log apiMap
    .ok (apiMap, log, (idMap.filter (!·.used)).map fun e =>
      ⟨none, "object identifier `".toList ++ e.name ++ "\' is not used".toList⟩)

/-- What is left of a run of `assign_id`. -/
structure Assignment where
  apiMap : StaticApiMap
  log : List Diag
  warnings : List Diag
  output : Option Str

/-- `assign_id` of `factory.cpp`, with the name and the text of the id-input file if there is one, and
whether there is an id-output file. -/
def assignIds (threshold : Nat) (idInput : Option (Str × Str)) (idOutput : Bool) (log : List Diag)
    (apiMap : StaticApiMap) : Except Diag Assignment := do
  let (apiMap, log, warnings) ← numberTypes threshold idInput log apiMap
  if idOutput then
    let text ← writeIds (apiMap.flatMap (·.2))
    .ok ⟨apiMap, log, warnings, some text⟩
  else .ok ⟨apiMap, log, warnings, none⟩

end AspKernel.Itronx
