import FrontEnd.Parser.Grammar.Operators

/-!
The scripts of declarations: functions, structures and unions, enumerations and
variables.
-/

namespace FrontEnd

namespace Sight

/-- Whether one of the words begins here, `export` before it or not. -/
def opens (s : Sight) (words : List TokenKind) : Bool :=
  words.contains s.kind || (s.kind = .kwExport && words.contains s.next)

def opensFunction (s : Sight) : Bool :=
  s.opens [.kwFunc] || (s.kind = .kwExtern && s.next = .kwFunc)

/-- A variable begins with a modifier, a type mark or two names in a row. -/
def opensVariable (s : Sight) : Bool :=
  [.kwExport, .kwMutable, .kwConst, .question, .leftBracket].contains s.kind ||
    (s.kind = .identifier && s.next = .identifier)

/-- Whether the name of a variable stands here and no type before it. -/
def omitsType (s : Sight) : Bool :=
  s.kind = .identifier && (s.next = .assign || s.next = .semicolon)

end Sight

namespace Grammar

open Script

/-- (ASSIGN Expression)? -/
def initializer : Script (Option Tree) := do
  if ← accept .assign then return some (← require .expression expression)
  return none

/-- (EXPORT | EXTERN)? Prototype (Block | SEMICOLON) -/
def function : Script Tree := do
  let token ← here
  let isExport ← accept .kwExport
  let isExtern ← accept .kwExtern
  let signature ← run (.prototype isExport isExtern)
  match ← run (.block none) with
  | some body => return .node token (.function signature body)
  | none =>
    let _ ← expect .semicolon
    return signature

/-- FUNC IDENTIFIER? LPAREN Params RPAREN Type -/
def prototype (isExport isExtern : Bool) : Script Tree := do
  let token ← here
  let _ ← expect .kwFunc
  let name ← acceptText .identifier
  let _ ← expect .leftParen
  let params ← run .params
  let _ ← expect .rightParen
  let result ← require .returnType (run .type)
  return .node token (.prototype name params result isExport isExtern)

/-- Type ELLIPSIS? IDENTIFIER, separated by commas. A variadic parameter is the last. -/
def params : Script (List (Param Tree)) := do
  let token ← here
  match ← run .type with
  | none => return []
  | some type =>
    let variadic ← accept .ellipsis
    let name ← expect .identifier
    if variadic then return [⟨token, name, type, true⟩]
    if ← accept .comma then return ⟨token, name, type, false⟩ :: (← run .params)
    return [⟨token, name, type, false⟩]

/-- EXPORT? (STRUCT | UNION) IDENTIFIER LBRACE Field* RBRACE -/
def record : Script Tree := do
  let token ← here
  let isExport ← accept .kwExport
  let isUnion ← accept .kwUnion
  if !isUnion then
    let _ ← expect .kwStruct
  let name ← expect .identifier
  let _ ← expect .leftBrace
  return .node token (.record name isExport isUnion (← run .fields))

/-- Type IDENTIFIER Initializer SEMICOLON -/
def field : Script Tree := do
  let token ← here
  let type ← require (.token .rightBrace) (run .type)
  let name ← expect .identifier
  let default ← initializer
  let _ ← expect .semicolon
  return .node token (.field name type default)

def fields : Script (List Tree) := do
  if ← accept .rightBrace then return []
  return (← field) :: (← run .fields)

/-- EXPORT? ENUM IDENTIFIER LBRACE Variant (COMMA Variant)* COMMA? RBRACE -/
def enumeration : Script Tree := do
  let token ← here
  let isExport ← accept .kwExport
  let _ ← expect .kwEnum
  let name ← expect .identifier
  let _ ← expect .leftBrace
  return .node token (.enumeration name isExport (← run .variants))

def variants : Script (List (Variant Tree)) := do
  let token ← here
  let name ← expect .identifier
  let value ← initializer
  if ← accept .comma then
    if ← accept .rightBrace then return [⟨token, name, value⟩]
    return ⟨token, name, value⟩ :: (← run .variants)
  let _ ← expect .rightBrace
  return [⟨token, name, value⟩]

/-- Whether `mutable` and whether `const` stands in a row of the two words. -/
def modifiers : Script (Bool × Bool) := do
  if ← accept .kwMutable then return (true, (← run .modifiers).2)
  if ← accept .kwConst then return ((← run .modifiers).1, true)
  return (false, false)

/-- EXPORT? (MUTABLE | CONST)* Type? IDENTIFIER Initializer SEMICOLON -/
def declaration : Script Tree := do
  let token ← here
  let isExport ← accept .kwExport
  let (isMutable, isConst) ← run .modifiers
  if isMutable && isConst then fail .mutableConstant
  let s ← sight
  let type ← if s.omitsType then pure none else some <$> require .type (run .type)
  let name ← expect .identifier
  let init ← initializer
  let _ ← expect .semicolon
  return .node token (.declaration name type init isExport isMutable isConst)

/-- A declaration of a function, a structure, a union or an enumeration if one begins here. -/
def containerIfAny : Script (Option Tree) := do
  let s ← sight
  if s.opensFunction then return some (← run .function)
  if s.opens [.kwStruct, .kwUnion] then return some (← run .record)
  if s.opens [.kwEnum] then return some (← run .enumeration)
  return none

/-- A variable declaration if one begins here. -/
def variableIfAny : Script (Option Tree) := do
  if (← sight).opensVariable then return some (← run .declaration)
  return none

end Grammar

end FrontEnd
