import FrontEnd.Token.Kind
import FrontEnd.Tree.Basic

/-!
Productions as data. A script is what a production does, told in steps: look at
the current token and the kind of the next one, take the current token, fail, or
read by another rule, at the same depth of nesting or one level further in. All
that a script can do is in this type, so what holds of every step holds of every
production.
-/

namespace FrontEnd

/-- What parsing sees of a token. -/
structure Symbol where
  kind : TokenKind
  text : String
  deriving DecidableEq, Repr

/-- The symbol behind the last one of every source. -/
def Symbol.last : Symbol := ⟨.endOfFile, ""⟩

/-- `position` counts the symbols before the current one. -/
structure Sight where
  position : Nat
  current : Symbol
  next : TokenKind
  deriving DecidableEq, Repr

def Sight.kind (s : Sight) : TokenKind := s.current.kind

inductive Expectation where
  | token (kind : TokenKind)
  | statement | expression | type | returnType | arrayLength | blockOrLoop | branchMark
  deriving DecidableEq, Repr

def Expectation.message : Expectation → String
  | .token kind => s!"`{kind.name}`"
  | .statement => "statement"
  | .expression => "expression"
  | .type => "type"
  | .returnType => "return type"
  | .arrayLength => "array length"
  | .blockOrLoop => "block or loop after label"
  | .branchMark => "`:` or `=>`"

/-- Why a source has no tree. -/
inductive Cause where
  | expected (what : Expectation) (found : TokenKind)
  | mutableConstant
  | nestedTooDeeply (limit : Nat)
  deriving DecidableEq, Repr

def Cause.message : Cause → String
  | .expected what found => s!"expected {what.message}, got `{found.name}`"
  | .mutableConstant => "a variable cannot be both `mutable` and `const`"
  | .nestedTooDeeply limit => s!"nested too deeply (maximum {limit} levels)"

/-- Levels of binary operators, from the loosest to the tightest. Recovery by
`catch` stands between comparisons and bitwise operators. -/
inductive Level where
  | assignment | conjunction | disjunction | comparison | bitwise | shift | sum | product
  deriving DecidableEq, Repr

/-- What may follow an operand. -/
inductive Suffix where
  | access (name : String)
  | index (position : Tree)
  | slice (start stop : Tree) (sentinel : Option Tree)
  | call (args : List Tree)

/-- What encloses a list of expressions. -/
inductive Bracket where
  | round | curly
  deriving DecidableEq, Repr

def Bracket.closing : Bracket → TokenKind
  | .round => .rightParen
  | .curly => .rightBrace

/-- The productions. Repetitions are rules of their own, which read the rest of
a list up to and with what closes it. -/
inductive Rule where
  | unit | statement | labelled
  | function | prototype (isExport isExtern : Bool) | params
  | record | fields | enumeration | variants | declaration | modifiers
  | block (label : Option String) | statements | body | conditional
  | loop (label : Option String) | whileLoop (label : Option String)
  | selection | branches | branch | items
  | expression | attempts | level (l : Level) | operands (l : Level)
  | recovery | handlers | unary | operand | suffixed | suffixes
  | listed (bracket : Bracket) | primary | type | innerType
  deriving DecidableEq, Repr

/-- A production that may find nothing to read gives an option. -/
@[reducible] def Rule.Result : Rule → Type
  | .unit | .fields | .statements | .listed _ => List Tree
  | .statement | .labelled | .block _ | .expression | .level _ | .recovery | .unary
  | .suffixed | .primary | .type => Option Tree
  | .function | .prototype _ _ | .record | .enumeration | .declaration | .body | .conditional
  | .loop _ | .whileLoop _ | .selection | .operand | .innerType => Tree
  | .params => List (Param Tree)
  | .variants => List (Variant Tree)
  | .modifiers => Bool × Bool
  | .branches => List (MatchBranch Tree)
  | .branch => MatchBranch Tree
  | .items => List (MatchItem Tree)
  | .attempts => List Nat
  | .operands _ => List (Nat × BinaryOp × Tree)
  | .handlers => List (Nat × Option String × Tree)
  | .suffixes => List (Nat × Suffix)

inductive Script (α : Type) : Type where
  | done (value : α)
  | fail (cause : Cause)
  | look (next : Sight → Script α)
  | take (next : Script α)
  | call (r : Rule) (next : r.Result → Script α)
  | nest (r : Rule) (next : r.Result → Script α)

namespace Script

variable {α β : Type}

def bind : Script α → (α → Script β) → Script β
  | done value, f => f value
  | fail cause, _ => fail cause
  | look next, f => look fun s => (next s).bind f
  | take next, f => take (next.bind f)
  | call r next, f => call r fun x => (next x).bind f
  | nest r next, f => nest r fun x => (next x).bind f

instance : Monad Script where
  pure := done
  bind := bind

def sight : Script Sight := look done

/-- The position of the current symbol. -/
def here : Script Nat := look fun s => done s.position

def run (r : Rule) : Script r.Result := call r done

/-- Reads by `r` one level further in. -/
def deeper (r : Rule) : Script r.Result := nest r done

def failing (what : Expectation) : Script α := look fun s => fail (.expected what s.kind)

/-- Takes the current symbol if it is of the kind, and tells whether it was. -/
def accept (kind : TokenKind) : Script Bool :=
  look fun s => if s.kind = kind then take (done true) else done false

def acceptText (kind : TokenKind) : Script (Option String) :=
  look fun s => if s.kind = kind then take (done (some s.current.text)) else done none

/-- Takes a symbol that must be of the kind, and gives its text. -/
def expect (kind : TokenKind) : Script String :=
  look fun s => if s.kind = kind then take (done s.current.text) else failing (.token kind)

def require (what : Expectation) (script : Script (Option α)) : Script α :=
  script.bind fun
    | some value => done value
    | none => failing what

end Script

end FrontEnd
