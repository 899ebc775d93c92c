import FrontEnd.Diagnostic
import FrontEnd.Text.Quoted
import FrontEnd.Token.Kind

/-!
Tokens and the stream that reading a source gives. Every stream ends with one
token of kind `endOfFile`, which is kept apart from the tokens before it.
-/

namespace FrontEnd

/-- `text` is the spelling, without the quotes of a literal, the `@` of a
builtin and the opening of a comment. `start` counts bytes. -/
structure Token where
  kind : TokenKind
  text : String
  start : Nat
  location : Location
  deriving DecidableEq, Repr

def Token.display (t : Token) : String :=
  s!"{t.location.line}:{t.location.column} {t.kind.tag} {Quoted.text t.text}"

def Token.toJson (t : Token) : Json :=
  .obj [("kind", .str t.kind.tag), ("text", .str t.text), ("start_offset", .num t.start),
    ("location", t.location.toJson)]

structure TokenStream where
  fileName : String
  body : List Token
  /-- Where the source, or the part of it that was read, ends. -/
  stop : Nat × Location
  warnings : List Diagnostic
  deriving DecidableEq, Repr

namespace TokenStream

def last (s : TokenStream) : Token := ⟨.endOfFile, "", s.stop.1, s.stop.2⟩

def tokens (s : TokenStream) : List Token := s.body ++ [s.last]

/-- The token that tells why reading stopped early, if it did. -/
def illegal? (s : TokenStream) : Option Token :=
  s.tokens.reverse.find? fun t => t.kind == .illegal

def toJson (s : TokenStream) : Json :=
  .obj [("file_name", .str s.fileName), ("tokens", .arr (s.tokens.map (·.toJson)))]

end TokenStream

end FrontEnd
