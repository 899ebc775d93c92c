import FrontEnd.Parser.Grammar.Operators

/-!
The scripts of operands: literals and names, what may follow them, and types.
-/

namespace FrontEnd

/-- The form of a symbol that is an operand by itself. -/
def Symbol.leaf? (s : Symbol) : Option (Form Tree) :=
  match s.kind with
  | .identifier => some (.identifier s.text)
  | .builtinName => some (.builtin s.text)
  | .decimalInteger => some (.integer s.text .decimal)
  | .binaryInteger => some (.integer s.text .binary)
  | .hexInteger => some (.integer s.text .hexadecimal)
  | .octalInteger => some (.integer s.text .octal)
  | .float => some (.float s.text false)
  | .imaginary => some (.float s.text true)
  | .rune => some (.rune s.text)
  | .string => some (.string s.text .plain)
  | .rawString => some (.string s.text .raw)
  | .tripleString => some (.string s.text .triple)
  | .litTrue => some (.bool true)
  | .litFalse => some (.bool false)
  | .kwNil => some .nil
  | .kwUnreachable => some .unreachable
  | _ => none

def Suffix.form (target : Tree) : Suffix → Form Tree
  | .access name => .access target name
  | .index position => .index target position
  | .slice start stop sentinel => .slice target start stop sentinel
  | .call args => .call target args

/-- Whether the current symbol is the size of an array type whose length is inferred. -/
def Sight.infersLength (s : Sight) : Bool :=
  s.kind = .identifier && s.current.text = "_" && (s.next = .rightBracket || s.next = .colon)

namespace Grammar

open Script

/-- A function type, or a function if a block follows. -/
def functionValue : Script Tree := do
  let token ← here
  let signature ← run (.prototype false false)
  match ← run (.block none) with
  | some body => return .node token (.function signature body)
  | none => return signature

/-- LITERAL | NAME | Function | Match | LPAREN Expression RPAREN -/
def primary : Script (Option Tree) := do
  let s ← sight
  match s.current.leaf? with
  | some form =>
    take (done ())
    return some (.node s.position form)
  | none =>
    match s.kind with
    | .kwFunc => return some (← functionValue)
    | .kwMatch => return some (← run .selection)
    | .leftParen =>
      take (done ())
      let inner ← require .expression expression
      let _ ← expect .rightParen
      return some inner
    | _ => return none

/-- Primary Suffix* -/
def suffixed : Script (Option Tree) := do
  match ← run .primary with
  | none => return none
  | some first =>
    let rest ← run .suffixes
    return some (rest.foldl (fun target (token, suffix) => .node token (suffix.form target)) first)

/-- (COLON Expression)? -/
def sentinel : Script (Option Tree) := do
  if ← accept .colon then return some (← require .expression expression)
  return none

/-- What stands between brackets behind an operand, with the closing one. -/
def subscript : Script Suffix := do
  let start ← require .expression expression
  if ← accept .dotDot then
    let stop ← require .expression expression
    let sentinel ← sentinel
    let _ ← expect .rightBracket
    return .slice start stop sentinel
  let _ ← expect .rightBracket
  return .index start

def suffixes : Script (List (Nat × Suffix)) := do
  let s ← sight
  match s.kind with
  | .dot =>
    take (done ())
    let name ← expect .identifier
    return (s.position, .access name) :: (← run .suffixes)
  | .leftBracket =>
    take (done ())
    let suffix ← subscript
    return (s.position, suffix) :: (← run .suffixes)
  | .leftParen =>
    take (done ())
    let args ← run (.listed .round)
    return (s.position, .call args) :: (← run .suffixes)
  | _ => return []

/-- The kind and the size of an array type, read behind its opening bracket. -/
def arraySize : Script (ArrayKind × Option Tree) := do
  let s ← sight
  if s.kind = .rightBracket then return (.slice, none)
  if s.infersLength then
    take (done ())
    return (.inferred, none)
  return (.sized, some (← require .arrayLength expression))

/-- QUESTION Type | LBRACKET Size? Sentinel RBRACKET Type | Suffixed -/
def type : Script (Option Tree) := do
  let token ← here
  if ← accept .question then
    return some (.node token (.optional (← deeper .innerType)))
  if ← accept .leftBracket then
    let (kind, size) ← arraySize
    let sentinel ← sentinel
    let _ ← expect .rightBracket
    return some (.node token (.array kind size sentinel (← deeper .innerType)))
  run .suffixed

def innerType : Script Tree := require .type (run .type)

end Grammar

end FrontEnd
