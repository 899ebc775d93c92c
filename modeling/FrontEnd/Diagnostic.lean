import FrontEnd.Json

/-!
Locations, diagnostics and the faults that end a parse, with the lines in which
they are reported.
-/

namespace FrontEnd

/-- Lines and columns count from one, in 32 bits. -/
structure Location where
  line : UInt32
  column : UInt32
  fileName : String
  deriving DecidableEq, Repr

def Location.display (l : Location) : String := s!"{l.fileName}:{l.line}:{l.column}"

def Location.toJson (l : Location) : Json :=
  .obj [("line", .num l.line.toNat), ("column", .num l.column.toNat),
    ("file_name", .str l.fileName)]

inductive Severity where
  | warning | error
  deriving DecidableEq, Repr

def Severity.label : Severity → String
  | .warning => "warning"
  | .error => "error"

structure Diagnostic where
  severity : Severity
  location : Location
  message : String
  deriving DecidableEq, Repr

def Diagnostic.display (d : Diagnostic) : String :=
  s!"{d.location.display}: {d.severity.label}: {d.message}"

def Diagnostic.toJson (d : Diagnostic) : Json :=
  .obj [("severity", .str d.severity.label), ("file_name", .str d.location.fileName),
    ("line", .num d.location.line.toNat), ("column", .num d.location.column.toNat),
    ("message", .str d.message)]

/-- A source is rejected for its tokens or for its structure. An internal fault
is one of the parser and not of the source. -/
inductive FaultKind where
  | lexical | structural | internal
  deriving DecidableEq, Repr

structure Fault where
  kind : FaultKind
  message : String
  location : Location
  deriving DecidableEq, Repr

namespace Fault

/-- The message, marked as internal where it is. -/
def notice (f : Fault) : String :=
  match f.kind with
  | .internal => s!"internal error: {f.message}"
  | _ => f.message

def display (f : Fault) : String := s!"{f.location.display}: {f.notice}"

def diagnostic (f : Fault) : Diagnostic := ⟨.error, f.location, f.notice⟩

end Fault

end FrontEnd
