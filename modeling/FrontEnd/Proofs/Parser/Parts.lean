import FrontEnd.Parser.Run

/-!
Parts of productions that more than one way leads to, as scripts of their own.
-/

namespace FrontEnd.Grammar

open Script

/-- A function behind the words before it. -/
def signed (token : Nat) (isExport isExtern : Bool) : Script Tree := do
  let signature ← run (.prototype isExport isExtern)
  match ← run (.block none) with
  | some body => return .node token (.function signature body)
  | none =>
    let _ ← expect .semicolon
    return signature

/-- A structure or union behind its keyword. -/
def recorded (token : Nat) (isExport isUnion : Bool) : Script Tree := do
  let name ← expect .identifier
  let _ ← expect .leftBrace
  return .node token (.record name isExport isUnion (← run .fields))

/-- An enumeration behind its keyword. -/
def enumerated (token : Nat) (isExport : Bool) : Script Tree := do
  let name ← expect .identifier
  let _ ← expect .leftBrace
  return .node token (.enumeration name isExport (← run .variants))

/-- The end of a declaration, behind its type. -/
def declared (token : Nat) (type : Option Tree) (isExport isMutable isConst : Bool) :
    Script Tree := do
  let name ← expect .identifier
  let init ← initializer
  let _ ← expect .semicolon
  return .node token (.declaration name type init isExport isMutable isConst)

/-- A declaration behind its modifiers. -/
def modified (token : Nat) (isExport isMutable isConst : Bool) : Script Tree := do
  if isMutable && isConst then fail .mutableConstant
  let s ← sight
  let type ← if s.omitsType then pure none else some <$> require .type (run .type)
  declared token type isExport isMutable isConst

/-- What follows `if` or `elseif`. -/
def branched (token : Nat) : Script Tree := do
  let condition ← condition
  let thenBody ← run .body
  if ← accept .kwElse then
    let elseBody ← require .statement nestedStatement
    return .node token (.conditional condition thenBody (some elseBody))
  if (← sight).kind = .kwElseIf then
    return .node token (.conditional condition thenBody (some (← run .conditional)))
  return .node token (.conditional condition thenBody none)

/-- A loop behind its opening parenthesis. -/
def headed (token : Nat) (label : Option String) : Script Tree := do
  let s ← sight
  if s.kind = .identifier && s.next = .kwIn then
    take (take (done ()))
    let iterable ← require .expression expression
    let _ ← expect .rightParen
    return .node token (.eachLoop label s.current.text iterable (← requiredBlock))
  if let some init ← variableIfAny then return ← stepped token label (some init)
  if ← accept .semicolon then return ← stepped token label none
  let first ← require .expression assignment
  if ← accept .semicolon then return ← stepped token label (some first)
  let _ ← expect .rightParen
  return .node token (.loop label (some first) (← requiredBlock))

/-- A branch behind its items. -/
def marked (token : Nat) (items : List (MatchItem Tree)) : Script (MatchBranch Tree) := do
  branchMark
  let (body, _) ← blockOrAssignment
  return ⟨token, items, body⟩

/-- A branch behind the word before it. -/
def itemized (token : Nat) : Script (MatchBranch Tree) := do
  let default ← if ← accept .kwElse then pure true else accept .kwDefault
  let items ← if default then pure [] else run .items
  marked token items

end FrontEnd.Grammar
