/-!
Places in a source. A place counts bytes, lines and characters since the last
line end; `Place.after` moves it over a lexeme, given the text that follows.
Lines and characters are counted in 32 bits, so that they start again from zero
where they do not fit.
-/

namespace FrontEnd

/-- `column` is the number of characters on the line before the place. -/
structure Place where
  offset : Nat
  line : UInt32
  column : UInt32
  deriving DecidableEq, Repr

namespace Place

def start : Place := ⟨0, 1, 0⟩

/-- A line ends at a line feed, or at a carriage return that no line feed follows. -/
def endsLine (c : Char) (next : Option Char) : Bool :=
  c = '\n' || (c = '\r' && next != some '\n')

/-- The place behind `c` when the character after it is `next`. -/
def step (p : Place) (c : Char) (next : Option Char) : Place :=
  if endsLine c next then ⟨p.offset + c.utf8Size, p.line + 1, 0⟩
  else ⟨p.offset + c.utf8Size, p.line, p.column + 1⟩

/-- The place behind `lexeme` when `rest` follows it. -/
def after (p : Place) : List Char → List Char → Place
  | [], _ => p
  | c :: lexeme, rest => after (p.step c (lexeme.head?.or rest.head?)) lexeme rest

end Place

end FrontEnd
