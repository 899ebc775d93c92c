import FrontEnd.Parser.Grammar.Declarations

/-!
The scripts of statements: blocks, branches, loops, selections and jumps.
-/

namespace FrontEnd.Grammar

open Script

/-- A statement, which is one level of nesting. -/
def nestedStatement : Script (Option Tree) := deeper .statement

/-- Statement* up to the end of the source -/
def unit : Script (List Tree) := do
  if (← sight).kind = .endOfFile then return []
  let item ← require .statement nestedStatement
  return item :: (← run .unit)

/-- LBRACE Statement* RBRACE -/
def block (label : Option String) : Script (Option Tree) := do
  let token ← here
  if ← accept .leftBrace then return some (.node token (.block label (← run .statements)))
  return none

def statements : Script (List Tree) := do
  if ← accept .rightBrace then return []
  let statement ← require (.token .rightBrace) nestedStatement
  return statement :: (← run .statements)

def requiredBlock : Script Tree := require (.token .leftBrace) (run (.block none))

/-- Block | Assignment, where a block and an expression are told apart by the brace -/
def blockOrAssignment : Script (Tree × Bool) := do
  match ← run (.block none) with
  | some block => return (block, true)
  | none => return (← require .expression assignment, false)

/-- Block | Assignment SEMICOLON -/
def body : Script Tree := do
  let (body, isBlock) ← blockOrAssignment
  if !isBlock then
    let _ ← expect .semicolon
  return body

/-- DEFER Body -/
def deferral : Script Tree := do
  let token ← here
  let _ ← expect .kwDefer
  return .node token (.deferral (← run .body))

/-- LPAREN Expression RPAREN -/
def condition : Script Tree := do
  let _ ← expect .leftParen
  let condition ← require .expression expression
  let _ ← expect .rightParen
  return condition

/-- (IF | ELSEIF) Condition Body (ELSE Statement | ELSEIF ...)? -/
def conditional : Script Tree := do
  let token ← here
  if !(← accept .kwElseIf) then
    let _ ← expect .kwIf
  let condition ← condition
  let thenBody ← run .body
  if ← accept .kwElse then
    let elseBody ← require .statement nestedStatement
    return .node token (.conditional condition thenBody (some elseBody))
  if (← sight).kind = .kwElseIf then
    return .node token (.conditional condition thenBody (some (← run .conditional)))
  return .node token (.conditional condition thenBody none)

/-- WHILE Condition Block -/
def whileLoop (label : Option String) : Script Tree := do
  let token ← here
  let _ ← expect .kwWhile
  let condition ← condition
  return .node token (.loop label (some condition) (← requiredBlock))

/-- The rest of `for (init; condition; step)` behind its first semicolon. -/
def stepped (token : Nat) (label : Option String) (init : Option Tree) : Script Tree := do
  let condition ← expression
  let _ ← expect .semicolon
  let step ← assignment
  let _ ← expect .rightParen
  return .node token (.steppedLoop label init condition step (← requiredBlock))

/-- FOR Block
| FOR LPAREN IDENTIFIER IN Expression RPAREN Block
| FOR LPAREN Init? SEMICOLON Expression? SEMICOLON Assignment? RPAREN Block
| FOR LPAREN Assignment RPAREN Block -/
def loop (label : Option String) : Script Tree := do
  let token ← here
  let _ ← expect .kwFor
  if let some body ← run (.block none) then return .node token (.loop label none body)
  let _ ← expect .leftParen
  let s ← sight
  if s.kind = .identifier && s.next = .kwIn then
    take (take (done ()))
    let iterable ← require .expression expression
    let _ ← expect .rightParen
    return .node token (.eachLoop label s.current.text iterable (← requiredBlock))
  if let some init ← variableIfAny then return ← stepped token label (some init)
  if ← accept .semicolon then return ← stepped token label none
  let first ← require .expression assignment
  if ← accept .semicolon then return ← stepped token label (some first)
  let _ ← expect .rightParen
  return .node token (.loop label (some first) (← requiredBlock))

/-- MATCH LPAREN? Expression RPAREN? LBRACE Branch (COMMA Branch)* COMMA? RBRACE -/
def selection : Script Tree := do
  let token ← here
  let _ ← expect .kwMatch
  let parenthesized ← accept .leftParen
  let subject ← require .expression expression
  if parenthesized then
    let _ ← expect .rightParen
  let _ ← expect .leftBrace
  return .node token (.selection subject (← run .branches))

def branches : Script (List (MatchBranch Tree)) := do
  let branch ← run .branch
  if ← accept .comma then
    if ← accept .rightBrace then return [branch]
    return branch :: (← run .branches)
  let _ ← expect .rightBrace
  return [branch]

/-- COLON | FATARROW -/
def branchMark : Script Unit := do
  if ← accept .colon then return
  if ← accept .fatArrow then return
  failing .branchMark

/-- CASE? (Item (COMMA Item)* | ELSE | DEFAULT) (COLON | FATARROW) (Block | Assignment) -/
def branch : Script (MatchBranch Tree) := do
  let token ← here
  let _ ← accept .kwCase
  let default ← if ← accept .kwElse then pure true else accept .kwDefault
  let items ← if default then pure [] else run .items
  branchMark
  let (body, _) ← blockOrAssignment
  return ⟨token, items, body⟩

/-- Expression (ELLIPSIS Expression)? -/
def item : Script (MatchItem Tree) := do
  let start ← require .expression expression
  if ← accept .ellipsis then return .range start (← require .expression expression)
  return .single start

def items : Script (List (MatchItem Tree)) := do
  let first ← item
  if ← accept .comma then return first :: (← run .items)
  return [first]

/-- (COLON IDENTIFIER)? -/
def jumpLabel : Script (Option String) := do
  if ← accept .colon then return some (← expect .identifier)
  return none

/-- BREAK JumpLabel Expression? SEMICOLON -/
def breaking : Script Tree := do
  let token ← here
  let _ ← expect .kwBreak
  let label ← jumpLabel
  let value ← expression
  let _ ← expect .semicolon
  return .node token (.breaking label value)

/-- CONTINUE JumpLabel SEMICOLON -/
def continuing : Script Tree := do
  let token ← here
  let _ ← expect .kwContinue
  let label ← jumpLabel
  let _ ← expect .semicolon
  return .node token (.continuing label)

/-- RETURN Expression? SEMICOLON -/
def returning : Script Tree := do
  let token ← here
  let _ ← expect .kwReturn
  let value ← expression
  let _ ← expect .semicolon
  return .node token (.returning value)

/-- RAISE Expression SEMICOLON -/
def raising : Script Tree := do
  let token ← here
  let _ ← expect .kwRaise
  let value ← require .expression expression
  let _ ← expect .semicolon
  return .node token (.raising value)

/-- (IDENTIFIER COLON)? -/
def label : Script (Option String) := do
  let s ← sight
  if s.kind = .identifier && s.next = .colon then
    take (take (done ()))
    return some s.current.text
  return none

/-- A loop if one begins here. -/
def loopIfAny (label : Option String) : Script (Option Tree) := do
  match (← sight).kind with
  | .kwFor => return some (← run (.loop label))
  | .kwWhile => return some (← run (.whileLoop label))
  | _ => return none

/-- Label? (Block | Loop) -/
def labelled : Script (Option Tree) := do
  let label ← label
  if let some block ← run (.block label) then return some block
  if let some loop ← loopIfAny label then return some loop
  if label.isSome then failing .blockOrLoop else return none

/-- Assignment SEMICOLON -/
def expressionStatement : Script (Option Tree) := do
  match ← assignment with
  | none => return none
  | some value =>
    let _ ← expect .semicolon
    return some value

def statement : Script (Option Tree) := do
  if let some declaration ← containerIfAny then return some declaration
  if let some declaration ← variableIfAny then return some declaration
  match (← sight).kind with
  | .kwDefer => return some (← deferral)
  | .kwIf => return some (← run .conditional)
  | .kwMatch =>
    let selection ← run .selection
    let _ ← accept .semicolon
    return some selection
  | .kwBreak => return some (← breaking)
  | .kwContinue => return some (← continuing)
  | .kwReturn => return some (← returning)
  | .kwRaise => return some (← raising)
  | _ =>
    match ← run .labelled with
    | some statement => return some statement
    | none => expressionStatement

end FrontEnd.Grammar
