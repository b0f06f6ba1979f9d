import Emend.Json.Token

/-! JSON values from tokens. The containers that are still open wait on a stack. -/
namespace Emend.Json

/-- A container that is still open, its parts last first. An object waits for the value of
`name`. -/
inductive Frame
  | array (items : List Json)
  | object (fields : List (ByteArray × Json)) (name : ByteArray)

/-- What may come next. -/
inductive Expect
  | value
  | itemOrClose
  | nameOrClose
  | name (fields : List (ByteArray × Json))
  | colon (fields : List (ByteArray × Json)) (name : ByteArray)
  | after (done : Json)

structure Parser where
  expect : Expect
  stack : List Frame

namespace Parser

def initial : Parser := ⟨.value, []⟩

/-- A value begins. -/
def begin? (stack : List Frame) : Token → Option Parser
  | .scalar v => some ⟨.after v, stack⟩
  | .openArray => some ⟨.itemOrClose, stack⟩
  | .openObject => some ⟨.nameOrClose, stack⟩
  | _ => none

/-- A value is complete: the container around it goes on or is closed. -/
def continue? (done : Json) : List Frame → Token → Option Parser
  | .array items :: stack, .comma => some ⟨.value, .array (done :: items) :: stack⟩
  | .array items :: stack, .closeArray => some ⟨.after (.array (done :: items).reverse), stack⟩
  | .object fields name :: stack, .comma => some ⟨.name ((name, done) :: fields), stack⟩
  | .object fields name :: stack, .closeObject =>
    some ⟨.after (.object ((name, done) :: fields).reverse), stack⟩
  | _, _ => none

def feed (p : Parser) (t : Token) : Option Parser :=
  match p.expect, t with
  | .value, t => begin? p.stack t
  | .itemOrClose, .closeArray => some ⟨.after (.array []), p.stack⟩
  | .itemOrClose, t => begin? (.array [] :: p.stack) t
  | .nameOrClose, .closeObject => some ⟨.after (.object []), p.stack⟩
  | .nameOrClose, .scalar (.string name) => some ⟨.colon [] name, p.stack⟩
  | .name fields, .scalar (.string name) => some ⟨.colon fields name, p.stack⟩
  | .colon fields name, .colon => some ⟨.value, .object fields name :: p.stack⟩
  | .after done, t => continue? done p.stack t
  | _, _ => none

def feedAll (p : Parser) : Option Token → Option Parser
  | none => some p
  | some t => p.feed t

end Parser

/-- A scanner and the parser that takes its tokens. -/
structure Machine where
  scanner : Scanner
  parser : Parser

namespace Machine

def initial : Machine := ⟨.between, .initial⟩

/-- The tokens up to here are complete. -/
def finishNumber (m : Machine) : Option Machine :=
  match m.scanner with
  | .number reversed => do
    let t ← Scanner.finishNumber reversed
    let parser ← m.parser.feed t
    return ⟨.between, parser⟩
  | _ => some m

def advance (m : Machine) (b : UInt8) : Option Machine := do
  let (scanner, token) ← m.scanner.step b
  let parser ← m.parser.feedAll token
  return ⟨scanner, parser⟩

/-- A number ends before the first byte that cannot belong to it. -/
def step (m : Machine) (b : UInt8) : Option Machine := do
  let m ← if isNumberByte b then some m else m.finishNumber
  m.advance b

def run (m : Machine) : List UInt8 → Option Machine
  | [] => some m
  | b :: bs => match m.step b with
    | some m => m.run bs
    | none => none

/-- The one value that has been read, if nothing is left open. -/
def result (m : Machine) : Option Json :=
  match m.finishNumber with
  | some ⟨.between, ⟨.after v, []⟩⟩ => some v
  | _ => none

end Machine

/-- The value that a text holds, with nothing but white space around it. -/
def parse (bytes : List UInt8) : Option Json := (Machine.initial.run bytes).bind Machine.result

end Emend.Json
