/-!
The options of the command line. Options and files may be mixed. Arguments are
read from the left, and the first one that asks for the version, or that is in
error, decides.
-/

namespace FrontEnd.CommandLine

/-- The stage whose result is written. -/
inductive Emit where
  | tokens | ast
  deriving DecidableEq, Repr

inductive Format where
  | text | json
  deriving DecidableEq, Repr

structure Request where
  files : List String
  emit : Emit
  format : Format
  verbosity : Nat
  deriving DecidableEq, Repr

inductive Invocation where
  | run (request : Request)
  | version
  | refused
  deriving DecidableEq, Repr

/-- What has been given so far, the files latest first. -/
structure Given where
  files : List String
  emit : Option Emit
  format : Option Format
  verbosity : Nat
  deriving DecidableEq, Repr

/-- The options that take a value. -/
inductive Valued where
  | emit | format
  deriving DecidableEq, Repr

def Emit.ofName? : String → Option Emit
  | "tokens" => some .tokens
  | "ast" => some .ast
  | _ => none

def Format.ofName? : String → Option Format
  | "text" => some .text
  | "json" => some .json
  | _ => none

namespace Given

def nothing : Given := ⟨[], none, none, 0⟩

/-- Sets an option that has no value yet. -/
def set (g : Given) (option : Valued) (value : String) : Option Given :=
  match option, g.emit, g.format with
  | .emit, none, _ => (Emit.ofName? value).map fun e => ⟨g.files, some e, g.format, g.verbosity⟩
  | .format, _, none => (Format.ofName? value).map fun f => ⟨g.files, g.emit, some f, g.verbosity⟩
  | _, _, _ => none

def addFiles (g : Given) (names : List String) : Given :=
  ⟨names.reverse ++ g.files, g.emit, g.format, g.verbosity⟩

def raiseVerbosity (g : Given) : Given := ⟨g.files, g.emit, g.format, g.verbosity + 1⟩

/-- Without files the standard input is read. -/
def request (g : Given) : Request :=
  ⟨if g.files.isEmpty then ["-"] else g.files.reverse, g.emit.getD .ast, g.format.getD .text,
    g.verbosity⟩

end Given

/-- What one argument comes to. -/
inductive Step where
  | given (g : Given)
  | awaits (g : Given) (option : Valued)
  | version
  | refused
  deriving DecidableEq, Repr

def Step.ofSet (g : Given) (option : Valued) (value : String) : Step :=
  match g.set option value with
  | some g => .given g
  | none => .refused

/-- The value behind the letter of an option, `=` between them or not. -/
def Step.attached (g : Given) (option : Valued) : List Char → Step
  | [] => .awaits g option
  | '=' :: value => .ofSet g option (String.ofList value)
  | value => .ofSet g option (String.ofList value)

/-- The letters behind a single dash. -/
def readShort (g : Given) : List Char → Step
  | [] => .given g
  | 'v' :: letters => readShort g.raiseVerbosity letters
  | 'V' :: _ => .version
  | 'e' :: value => .attached g .emit value
  | 'f' :: value => .attached g .format value
  | _ => .refused

/-- The name behind two dashes, with the value behind `=` if there is one. -/
def readLong (g : Given) (letters : List Char) : Step :=
  let name := String.ofList (letters.takeWhile (· != '='))
  match name, letters.dropWhile (· != '=') with
  | "verbose", [] => .given g.raiseVerbosity
  | "version", [] => .version
  | "emit", [] => .awaits g .emit
  | "format", [] => .awaits g .format
  | "emit", _ :: value => .ofSet g .emit (String.ofList value)
  | "format", _ :: value => .ofSet g .format (String.ofList value)
  | _, _ => .refused

/-- A dash alone is the name of the standard input. -/
def isOption (arg : String) : Bool :=
  match arg.toList with
  | '-' :: _ :: _ => true
  | _ => false

def readArgument (g : Given) (arg : String) : Step :=
  match arg.toList with
  | '-' :: '-' :: letters => readLong g letters
  | '-' :: letter :: letters => readShort g (letter :: letters)
  | _ => .given (g.addFiles [arg])

/-- Behind `--` stand files only. -/
def readArguments (g : Given) : List String → Invocation
  | [] => .run g.request
  | "--" :: files => .run (g.addFiles files).request
  | arg :: args =>
    match readArgument g arg with
    | .given g => readArguments g args
    | .version => .version
    | .refused => .refused
    | .awaits g option =>
      match args with
      | [] => .refused
      | value :: args =>
        if isOption value then .refused
        else
          match g.set option value with
          | some g => readArguments g args
          | none => .refused

def Invocation.ofArguments (args : List String) : Invocation := readArguments .nothing args

end FrontEnd.CommandLine
