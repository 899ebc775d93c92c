/-!
What reading a source by its name gives: its text, or why there is none.
-/

namespace FrontEnd.CommandLine

inductive ReadError where
  | missing (name : String)
  | notFolder (name : String)
  | nameTooLong (name : String)
  | denied (name : String)
  | folder
  | notText
  | other (message : String)
  deriving DecidableEq, Repr

/-- Faults of opening tell the name, faults of reading do not. -/
def ReadError.message : ReadError → String
  | .missing name => s!"{name}: No such file or directory (os error 2)"
  | .notFolder name => s!"{name}: Not a directory (os error 20)"
  | .nameTooLong name => s!"{name}: File name too long (os error 36)"
  | .denied name => s!"{name}: Permission denied (os error 13)"
  | .folder => "Is a directory (os error 21)"
  | .notText => "stream did not contain valid UTF-8"
  | .other message => message

/-- The text of a source, which is encoded in UTF-8. -/
def decode (bytes : ByteArray) : Except ReadError String :=
  match String.fromUTF8? bytes with
  | some text => .ok text
  | none => .error .notText

end FrontEnd.CommandLine
