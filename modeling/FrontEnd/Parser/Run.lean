import FrontEnd.Parser.Grammar.Primaries
import FrontEnd.Parser.Grammar.Statements

/-!
Running the productions on the symbols of a source. The state of a run is the
number of symbols before the current one and the depth of nesting. Rules call
each other through a budget that counts nested calls, and `budget` is enough for
every source.
-/

namespace FrontEnd

/-- What each rule does. -/
def Rule.script : (r : Rule) → Script r.Result
  | .unit => Grammar.unit
  | .statement => Grammar.statement
  | .labelled => Grammar.labelled
  | .function => Grammar.function
  | .prototype isExport isExtern => Grammar.prototype isExport isExtern
  | .params => Grammar.params
  | .record => Grammar.record
  | .fields => Grammar.fields
  | .enumeration => Grammar.enumeration
  | .variants => Grammar.variants
  | .declaration => Grammar.declaration
  | .modifiers => Grammar.modifiers
  | .block label => Grammar.block label
  | .statements => Grammar.statements
  | .body => Grammar.body
  | .conditional => Grammar.conditional
  | .loop label => Grammar.loop label
  | .whileLoop label => Grammar.whileLoop label
  | .selection => Grammar.selection
  | .branches => Grammar.branches
  | .branch => Grammar.branch
  | .items => Grammar.items
  | .expression => Grammar.attempted
  | .attempts => Grammar.attempts
  | .level l => Grammar.level l
  | .operands l => Grammar.operands l
  | .recovery => Grammar.recovery
  | .handlers => Grammar.handlers
  | .unary => Grammar.unary
  | .operand => Grammar.operand
  | .suffixed => Grammar.suffixed
  | .suffixes => Grammar.suffixes
  | .listed bracket => Grammar.listed bracket
  | .primary => Grammar.primary
  | .type => Grammar.type
  | .innerType => Grammar.innerType

/-- Where a run stands: how many symbols are before the current one, and how many
levels of nesting are around it. -/
structure ParseState where
  position : Nat
  depth : Nat
  deriving DecidableEq, Repr

namespace ParseState

/-- One level further in. -/
def inner (s : ParseState) : ParseState := ⟨s.position, s.depth + 1⟩

/-- One level further out. -/
def outer (s : ParseState) : ParseState := ⟨s.position, s.depth - 1⟩

end ParseState

/-- How a run ends, and where. `exhausted` means that the budget was too small. -/
inductive Outcome (α : Type) where
  | read (value : α) (state : ParseState)
  | failed (cause : Cause) (state : ParseState)
  | exhausted
  deriving DecidableEq, Repr

namespace Outcome

variable {α β : Type}

def andThen (f : α → ParseState → Outcome β) : Outcome α → Outcome β
  | read value s => f value s
  | failed cause s => failed cause s
  | exhausted => exhausted

/-- The same outcome one level further out, however the run ended. -/
def leave : Outcome α → Outcome α
  | read value s => read value s.outer
  | failed cause s => failed cause s.outer
  | exhausted => exhausted

end Outcome

abbrev Symbols := Array Symbol

namespace Symbols

/-- The symbol at a position. Behind the last one the source has ended. -/
def symbolAt (symbols : Symbols) (position : Nat) : Symbol := symbols[position]?.getD .last

def sight (symbols : Symbols) (position : Nat) : Sight :=
  ⟨position, symbols.symbolAt position, (symbols.symbolAt (position + 1)).kind⟩

/-- The position behind the symbol at `position`; the end is behind itself. -/
def next (symbols : Symbols) (position : Nat) : Nat :=
  if position < symbols.size then position + 1 else position

end Symbols

/-- Runs a script, the rules being run by `read`. -/
def Script.exec {α : Type} (symbols : Symbols) (limit : Nat)
    (read : (r : Rule) → ParseState → Outcome r.Result) : Script α → ParseState → Outcome α
  | .done value, s => .read value s
  | .fail cause, s => .failed cause s
  | .look next, s => (next (symbols.sight s.position)).exec symbols limit read s
  | .take next, s => next.exec symbols limit read ⟨symbols.next s.position, s.depth⟩
  | .call r next, s => (read r s).andThen fun value t => (next value).exec symbols limit read t
  | .nest r next, s =>
    if s.depth < limit then
      (read r s.inner).leave.andThen fun value t => (next value).exec symbols limit read t
    else .failed (.nestedTooDeeply limit) s

/-- Runs a rule with a budget of nested calls. -/
def Rule.exec (symbols : Symbols) (limit : Nat) :
    Nat → (r : Rule) → ParseState → Outcome r.Result
  | 0, _, _ => .exhausted
  | budget + 1, r, s => r.script.exec symbols limit (Rule.exec symbols limit budget) s

/-- Between two symbols taken no more than this many rules call each other. -/
def callsPerSymbol : Nat := 32

def budget (symbols : Symbols) : Nat := (symbols.size + 1) * callsPerSymbol

/-- Levels of nesting that a source may have. -/
def nestingLimit : Nat := 64

/-- Reads the symbols from a state to the end as a sequence of statements. -/
def readUnit (limit : Nat) (symbols : Symbols) (s : ParseState) : Outcome (List Tree) :=
  Rule.exec symbols limit (budget symbols) .unit s

end FrontEnd
