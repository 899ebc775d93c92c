import FrontEnd.Parser.Script

/-!
Which tokens are operators, and the scripts of operator expressions.
-/

namespace FrontEnd

namespace Level

/-- The operators of a level. -/
def table : Level → TokenKind → Option BinaryOp
  | .assignment, .assign => some .assign
  | .assignment, .plusAssign => some .addAssign
  | .assignment, .minusAssign => some .subtractAssign
  | .assignment, .starAssign => some .multiplyAssign
  | .assignment, .slashAssign => some .divideAssign
  | .assignment, .percentAssign => some .moduloAssign
  | .assignment, .andAssign => some .bitAndAssign
  | .assignment, .orAssign => some .bitOrAssign
  | .assignment, .xorAssign => some .bitXorAssign
  | .assignment, .shiftLeftAssign => some .shiftLeftAssign
  | .assignment, .shiftRightAssign => some .shiftRightAssign
  | .conjunction, .andAnd | .conjunction, .kwAnd => some .boolAnd
  | .disjunction, .orOr | .disjunction, .kwOr => some .boolOr
  | .comparison, .equal => some .equal
  | .comparison, .notEqual => some .notEqual
  | .comparison, .less => some .less
  | .comparison, .greater => some .greater
  | .comparison, .lessEqual => some .lessEqual
  | .comparison, .greaterEqual => some .greaterEqual
  | .bitwise, .ampersand => some .bitAnd
  | .bitwise, .pipe => some .bitOr
  | .bitwise, .caret => some .bitXor
  | .bitwise, .andNot => some .bitAndNot
  | .bitwise, .kwOrElse => some .orElse
  | .shift, .shiftLeft => some .shiftLeft
  | .shift, .shiftRight => some .shiftRight
  | .sum, .plus => some .add
  | .sum, .minus => some .subtract
  | .product, .star => some .multiply
  | .product, .slash => some .divide
  | .product, .percent => some .modulo
  | _, _ => none

/-- The band that a kind has to be of before it is looked up. -/
def band? : Level → Option OperatorBand
  | .assignment => some .assignment
  | .comparison => some .comparison
  | _ => none

def operator? (l : Level) (k : TokenKind) : Option BinaryOp :=
  if l.band?.any (!k.isOperatorOf ·) then none else l.table k

/-- Whether more than one operator of the level may stand in a row. -/
def chains : Level → Bool
  | .assignment | .comparison => false
  | _ => true

end Level

def UnaryOp.ofKind? : TokenKind → Option UnaryOp
  | .kwNot => some .boolNot
  | .bang => some .negation
  | .ampersand => some .addressOf
  | .kwTry => some .attempt
  | .minus => some .minus
  | .tilde => some .bitNot
  | _ => none

namespace Grammar

open Script

/-- An expression, which is one level of nesting. -/
def expression : Script (Option Tree) := deeper .expression

def assignment : Script (Option Tree) := run (.level .assignment)

/-- What an operator of the level stands between. -/
def operandOf : Level → Script (Option Tree)
  | .assignment => expression
  | .conjunction => run (.level .disjunction)
  | .disjunction => run (.level .comparison)
  | .comparison => run .recovery
  | .bitwise => run (.level .shift)
  | .shift => run (.level .sum)
  | .sum => run (.level .product)
  | .product => run .unary

/-- TRY* Conjunction -/
def attempted : Script (Option Tree) := do
  let tries ← run .attempts
  match ← run (.level .conjunction) with
  | some operand =>
    return some (tries.foldr (fun token inner => .node token (.unary .attempt inner)) operand)
  | none => if tries.isEmpty then return none else failing .expression

def attempts : Script (List Nat) := do
  let token ← here
  if ← accept .kwTry then return token :: (← run .attempts)
  return []

/-- Operand (OPERATOR Operand)*, grouped to the left -/
def level (l : Level) : Script (Option Tree) := do
  match ← operandOf l with
  | none => return none
  | some first =>
    let rest ← run (.operands l)
    return some (rest.foldl (fun lhs (token, op, rhs) => .node token (.binary op lhs rhs)) first)

def operands (l : Level) : Script (List (Nat × BinaryOp × Tree)) := do
  let s ← sight
  match l.operator? s.kind with
  | none => return []
  | some op =>
    take (done ())
    let rhs ← require .expression (operandOf l)
    let rest ← if l.chains then run (.operands l) else pure []
    return (s.position, op, rhs) :: rest

/-- Bitwise (CATCH Payload? (Block | Bitwise))* -/
def recovery : Script (Option Tree) := do
  match ← run (.level .bitwise) with
  | none => return none
  | some first =>
    let rest ← run .handlers
    return some
      (rest.foldl (fun lhs (token, name, rhs) => .node token (.recovery lhs name rhs)) first)

/-- PIPE IDENTIFIER PIPE -/
def payload : Script (Option String) := do
  if ← accept .pipe then
    let name ← expect .identifier
    let _ ← expect .pipe
    return some name
  return none

def handlers : Script (List (Nat × Option String × Tree)) := do
  let token ← here
  if ← accept .kwCatch then
    let name ← payload
    let rhs ← match ← run (.block none) with
      | some block => pure block
      | none => require .expression (run (.level .bitwise))
    return (token, name, rhs) :: (← run .handlers)
  return []

/-- LBRACE Listed -/
def elements : Script (Option Tree) := do
  let token ← here
  if ← accept .leftBrace then return some (.node token (.elements (← run (.listed .curly))))
  return none

/-- Elements | Suffixed -/
def simple : Script (Option Tree) := do
  if (← sight).kind = .leftBrace then elements else run .suffixed

/-- UNARY* Simple, each operand one level further in -/
def unary : Script (Option Tree) := do
  let s ← sight
  match UnaryOp.ofKind? s.kind with
  | some op =>
    take (done ())
    return some (.node s.position (.unary op (← deeper .operand)))
  | none => simple

def operand : Script Tree := require .expression (run .unary)

/-- Expressions separated by commas, up to the closing mark. A comma may stand
before it. -/
def listed (bracket : Bracket) : Script (List Tree) := do
  if ← accept bracket.closing then return []
  let item ← require .expression expression
  if ← accept .comma then return item :: (← run (.listed bracket))
  let _ ← expect bracket.closing
  return [item]

end Grammar

end FrontEnd
