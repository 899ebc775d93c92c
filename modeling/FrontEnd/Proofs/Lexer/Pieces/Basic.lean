import FrontEnd.Lexer.Problem
import FrontEnd.Token.Kind

/-!
A piece is the front of a source text with what it was found to be.
-/

namespace FrontEnd

inductive Reading where
  | trivia
  /-- A block comment that the source ends in. -/
  | openComment
  | token (kind : TokenKind) (text : List Char)
  | fault (cause : LexicalError)
  deriving DecidableEq, Repr

/-- The text read is `lexeme ++ rest`. -/
structure Piece where
  reading : Reading
  lexeme : List Char
  rest : List Char
  deriving DecidableEq, Repr

def Piece.isFault (p : Piece) : Bool :=
  match p.reading with
  | .fault _ => true
  | _ => false

end FrontEnd
