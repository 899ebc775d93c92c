import FrontEnd.Parser.Run
import FrontEnd.Token.Stream

/-!
A cursor on the tokens of a stream, comments left out, and parsing from where it
stands. The trees of a run are anchored at positions among these tokens; the
trees that leave this module at tokens of the whole stream.
-/

namespace FrontEnd

/-- Tokens other than comments before the end, each with its index in the stream. -/
def TokenStream.significant (s : TokenStream) : List (Token × Nat) :=
  s.body.zipIdx.filter fun (t, _) => !t.kind.isTrivia

def Token.symbol (t : Token) : Symbol := ⟨t.kind, t.text⟩

def TokenStream.symbols (s : TokenStream) : Symbols :=
  (s.significant.map fun (t, _) => t.symbol).toArray

/-- `position` counts the significant tokens before the current one, `depth` the
levels of nesting that parsing has entered and not left. -/
structure Cursor where
  stream : TokenStream
  position : Nat
  depth : Nat
  deriving DecidableEq, Repr

/-- Faults of the parser itself. -/
inductive Breach where
  | retreatAtStart
  | budgetExhausted
  deriving DecidableEq, Repr

def Breach.message : Breach → String
  | .retreatAtStart => "cannot put back a token at position 0"
  | .budgetExhausted => "the budget of the run is exhausted"

namespace Cursor

def start (s : TokenStream) : Cursor := ⟨s, 0, 0⟩

/-- The token at a position, with its index. Behind the significant tokens stands the last one. -/
def tokenAt (c : Cursor) (position : Nat) : Token × Nat :=
  c.stream.significant[position]?.getD (c.stream.last, c.stream.body.length)

def current (c : Cursor) : Token := (c.tokenAt c.position).1

def index (c : Cursor) : Nat := (c.tokenAt c.position).2

def atEnd (c : Cursor) : Bool := c.stream.significant.length ≤ c.position

def next? (c : Cursor) : Option Token :=
  if c.atEnd then none else some (c.tokenAt (c.position + 1)).1

/-- The current token and the cursor behind it, unless the stream ends here. -/
def take (c : Cursor) : Option (Token × Cursor) :=
  if c.atEnd then none else some (c.current, ⟨c.stream, c.position + 1, c.depth⟩)

def takeKind (kind : TokenKind) (c : Cursor) : Option (Token × Cursor) :=
  if c.current.kind = kind then c.take else none

private def rejected (c : Cursor) (cause : Cause) : Fault :=
  ⟨.structural, cause.message, c.current.location⟩

private def broken (c : Cursor) (breach : Breach) : Fault :=
  ⟨.internal, breach.message, c.current.location⟩

def expect (kind : TokenKind) (c : Cursor) : Except Fault (Token × Cursor) :=
  match c.takeKind kind with
  | some taken => .ok taken
  | none => .error (c.rejected (.expected (.token kind) c.current.kind))

def retreat (c : Cursor) : Except Fault Cursor :=
  match c.position with
  | 0 => .error (c.broken .retreatAtStart)
  | position + 1 => .ok ⟨c.stream, position, c.depth⟩

/-- Parses from the cursor to the end. A fault of structure leaves the cursor at
the token that is in the way. -/
def parseWithin (limit : Nat) (c : Cursor) : Except Fault Tree × Cursor :=
  match c.stream.illegal? with
  | some t => (.error ⟨.lexical, t.text, t.location⟩, c)
  | none =>
    match readUnit limit c.stream.symbols ⟨c.position, c.depth⟩ with
    | .read items s =>
      let root := Tree.node c.position (.root items)
      let indices := (c.stream.significant.map (·.2)).toArray
      (.ok (root.mapTokens fun i => indices[i]?.getD c.stream.body.length),
        ⟨c.stream, s.position, s.depth⟩)
    | .failed cause s =>
      let stopped : Cursor := ⟨c.stream, s.position, s.depth⟩
      (.error (stopped.rejected cause), stopped)
    | .exhausted => (.error (c.broken .budgetExhausted), c)

def parse (c : Cursor) : Except Fault Tree × Cursor := c.parseWithin nestingLimit

end Cursor

def parse (s : TokenStream) : Except Fault Tree := (Cursor.start s).parse.1

end FrontEnd
