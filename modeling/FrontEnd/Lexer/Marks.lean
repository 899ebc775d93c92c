import FrontEnd.Token.Kind

/-!
The marks that close a text, and the table of marks that are tokens by themselves.
-/

namespace FrontEnd

/-- What closes a text. -/
structure Closing where
  mark : List Char
  /-- A backslash escapes the character behind it. -/
  escapes : Bool
  /-- A line end cuts the text off. -/
  oneLine : Bool
  deriving DecidableEq, Repr

namespace Closing

def ofString : Closing := ⟨['"'], true, false⟩
def ofTriple : Closing := ⟨['"', '"', '"'], true, false⟩
def ofRaw : Closing := ⟨['`'], false, false⟩
def ofRune : Closing := ⟨['\''], true, true⟩
def ofComment : Closing := ⟨['*', '/'], false, false⟩

end Closing

/-- A character and the two behind it, of which any may stand for one that is left out. The mark
takes `extra` characters behind the first one. -/
structure Mark where
  first : Char
  second : Option Char
  third : Option Char
  kind : TokenKind
  extra : Nat
  deriving DecidableEq, Repr

namespace Mark

def fits (m : Mark) (c : Char) (next later : Option Char) : Bool :=
  m.first == c && m.second.all (next == some ·) && m.third.all (later == some ·)

/-- The first row that fits counts. -/
def table : List Mark :=
  [⟨'=', some '=', none, .equal, 1⟩,
   ⟨'=', some '>', none, .fatArrow, 1⟩,
   ⟨'=', none, none, .assign, 0⟩,
   ⟨'+', some '+', none, .plusPlus, 1⟩,
   ⟨'+', some '=', none, .plusAssign, 1⟩,
   ⟨'+', none, none, .plus, 0⟩,
   ⟨'-', some '-', none, .minusMinus, 1⟩,
   ⟨'-', some '=', none, .minusAssign, 1⟩,
   ⟨'-', some '>', none, .arrow, 1⟩,
   ⟨'-', none, none, .minus, 0⟩,
   ⟨'*', some '*', none, .starStar, 1⟩,
   ⟨'*', some '=', none, .starAssign, 1⟩,
   ⟨'*', none, none, .star, 0⟩,
   ⟨'/', some '=', none, .slashAssign, 1⟩,
   ⟨'/', none, none, .slash, 0⟩,
   ⟨'%', some '%', none, .percentPercent, 1⟩,
   ⟨'%', some '=', none, .percentAssign, 1⟩,
   ⟨'%', none, none, .percent, 0⟩,
   ⟨'&', some '&', none, .andAnd, 1⟩,
   ⟨'&', some '^', none, .andNot, 1⟩,
   ⟨'&', some '=', none, .andAssign, 1⟩,
   ⟨'&', none, none, .ampersand, 0⟩,
   ⟨'|', some '|', none, .orOr, 1⟩,
   ⟨'|', some '=', none, .orAssign, 1⟩,
   ⟨'|', none, none, .pipe, 0⟩,
   ⟨'^', some '=', none, .xorAssign, 1⟩,
   ⟨'^', none, none, .caret, 0⟩,
   ⟨'<', some '=', none, .lessEqual, 1⟩,
   ⟨'<', some '-', none, .leftArrow, 1⟩,
   ⟨'<', some '<', some '=', .shiftLeftAssign, 2⟩,
   ⟨'<', some '<', none, .shiftLeft, 1⟩,
   ⟨'<', none, none, .less, 0⟩,
   ⟨'>', some '=', none, .greaterEqual, 1⟩,
   ⟨'>', some '>', some '=', .shiftRightAssign, 2⟩,
   ⟨'>', some '>', none, .shiftRight, 1⟩,
   ⟨'>', none, none, .greater, 0⟩,
   ⟨'~', some '=', none, .tildeAssign, 1⟩,
   ⟨'~', none, none, .tilde, 0⟩,
   ⟨'!', some '=', none, .notEqual, 1⟩,
   ⟨'!', none, none, .bang, 0⟩,
   ⟨'.', some '.', some '.', .ellipsis, 2⟩,
   ⟨'.', some '.', none, .dotDot, 1⟩,
   ⟨'.', none, none, .dot, 0⟩,
   ⟨':', some ':', none, .colonColon, 1⟩,
   ⟨':', none, none, .colon, 0⟩,
   ⟨'?', none, none, .question, 0⟩,
   ⟨';', none, none, .semicolon, 0⟩,
   ⟨',', none, none, .comma, 0⟩,
   ⟨'\\', none, none, .backslash, 0⟩,
   ⟨'(', none, none, .leftParen, 0⟩,
   ⟨')', none, none, .rightParen, 0⟩,
   ⟨'[', none, none, .leftBracket, 0⟩,
   ⟨']', none, none, .rightBracket, 0⟩,
   ⟨'\x7b', none, none, .leftBrace, 0⟩,
   ⟨'\x7d', none, none, .rightBrace, 0⟩]

/-- The mark that begins with `c` when these characters are the next two. -/
def find? (c : Char) (next later : Option Char) : Option Mark :=
  table.find? (·.fits c next later)

end Mark

end FrontEnd
