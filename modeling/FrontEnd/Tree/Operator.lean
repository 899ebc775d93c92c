/-!
Operators of expressions, with the symbol that a written tree shows and the name
that stands for the operator in data.
-/

namespace FrontEnd

inductive BinaryOp where
  | boolAnd | boolOr
  | equal | notEqual | less | greater | lessEqual | greaterEqual
  | bitAnd | bitOr | bitXor | bitAndNot | orElse
  | shiftLeft | shiftRight
  | add | subtract | multiply | divide | modulo
  | assign | addAssign | subtractAssign | multiplyAssign | divideAssign | moduloAssign
  | bitAndAssign | bitOrAssign | bitXorAssign | shiftLeftAssign | shiftRightAssign
  deriving DecidableEq, Repr

namespace BinaryOp

def all : List BinaryOp :=
  [.boolAnd, .boolOr, .equal, .notEqual, .less, .greater, .lessEqual, .greaterEqual, .bitAnd,
   .bitOr, .bitXor, .bitAndNot, .orElse, .shiftLeft, .shiftRight, .add, .subtract, .multiply,
   .divide, .modulo, .assign, .addAssign, .subtractAssign, .multiplyAssign, .divideAssign,
   .moduloAssign, .bitAndAssign, .bitOrAssign, .bitXorAssign, .shiftLeftAssign,
   .shiftRightAssign]

def symbol : BinaryOp → String
  | .boolAnd => "and"
  | .boolOr => "or"
  | .equal => "=="
  | .notEqual => "!="
  | .less => "<"
  | .greater => ">"
  | .lessEqual => "<="
  | .greaterEqual => ">="
  | .bitAnd => "&"
  | .bitOr => "|"
  | .bitXor => "^"
  | .bitAndNot => "&^"
  | .orElse => "orelse"
  | .shiftLeft => "<<"
  | .shiftRight => ">>"
  | .add => "+"
  | .subtract => "-"
  | .multiply => "*"
  | .divide => "/"
  | .modulo => "%"
  | .assign => "="
  | .addAssign => "+="
  | .subtractAssign => "-="
  | .multiplyAssign => "*="
  | .divideAssign => "/="
  | .moduloAssign => "%="
  | .bitAndAssign => "&="
  | .bitOrAssign => "|="
  | .bitXorAssign => "^="
  | .shiftLeftAssign => "<<="
  | .shiftRightAssign => ">>="

def name : BinaryOp → String
  | .boolAnd => "bool_and"
  | .boolOr => "bool_or"
  | .equal => "equal"
  | .notEqual => "not_equal"
  | .less => "less"
  | .greater => "greater"
  | .lessEqual => "less_equal"
  | .greaterEqual => "greater_equal"
  | .bitAnd => "bit_and"
  | .bitOr => "bit_or"
  | .bitXor => "bit_xor"
  | .bitAndNot => "bit_and_not"
  | .orElse => "or_else"
  | .shiftLeft => "shift_left"
  | .shiftRight => "shift_right"
  | .add => "add"
  | .subtract => "subtract"
  | .multiply => "multiply"
  | .divide => "divide"
  | .modulo => "modulo"
  | .assign => "assign"
  | .addAssign => "add_assign"
  | .subtractAssign => "subtract_assign"
  | .multiplyAssign => "multiply_assign"
  | .divideAssign => "divide_assign"
  | .moduloAssign => "modulo_assign"
  | .bitAndAssign => "bit_and_assign"
  | .bitOrAssign => "bit_or_assign"
  | .bitXorAssign => "bit_xor_assign"
  | .shiftLeftAssign => "shift_left_assign"
  | .shiftRightAssign => "shift_right_assign"

def ofName? (text : String) : Option BinaryOp := all.find? fun o => o.name == text

end BinaryOp

/-- `boolNot` is the word `not`, `negation` the mark `!`. -/
inductive UnaryOp where
  | boolNot | negation | addressOf | attempt | minus | bitNot
  deriving DecidableEq, Repr

namespace UnaryOp

def all : List UnaryOp := [.boolNot, .negation, .addressOf, .attempt, .minus, .bitNot]

def symbol : UnaryOp → String
  | .boolNot => "not"
  | .negation => "!"
  | .addressOf => "&"
  | .attempt => "try"
  | .minus => "-"
  | .bitNot => "~"

def name : UnaryOp → String
  | .boolNot => "bool_not"
  | .negation => "negation"
  | .addressOf => "address_of"
  | .attempt => "try"
  | .minus => "minus"
  | .bitNot => "bit_not"

def ofName? (text : String) : Option UnaryOp := all.find? fun o => o.name == text

end UnaryOp

end FrontEnd
