import FrontEnd.CommandLine.Options
import FrontEnd.CommandLine.ReadError
import FrontEnd.Lexer.Lexer
import FrontEnd.Parser.Cursor
import FrontEnd.Tree.Json
import FrontEnd.Tree.Sexpr

/-!
What the command line answers. Each input is read on its own, and its report is
what it would write if it were alone.
-/

namespace FrontEnd.CommandLine

structure Response where
  exitCode : Nat
  stdout : String
  stderr : String
  deriving DecidableEq, Repr

structure Report where
  stdout : String
  stderr : String
  succeeded : Bool
  deriving DecidableEq, Repr

def line (text : String) : String := text ++ "\n"

def lines (texts : List String) : String := String.join (texts.map line)

def Format.writeTokens (format : Format) (s : TokenStream) : String :=
  match format with
  | .text => lines (s.tokens.map (·.display))
  | .json => line (Json.arr (s.tokens.map (·.toJson))).pretty

def Format.writeTree (format : Format) (tree : Tree) : String :=
  match format with
  | .text => line tree.sexpr
  | .json => line tree.toJson.pretty

/-- What the requested stage writes, and the fault that it ends in. The listing
of tokens is written even if a fault ends it. -/
def Request.stage (r : Request) (s : TokenStream) : String × Option Fault :=
  match r.emit with
  | .tokens =>
    (r.format.writeTokens s, s.illegal?.map fun t => ⟨.lexical, t.text, t.location⟩)
  | .ast =>
    match parse s with
    | .ok tree => (r.format.writeTree tree, none)
    | .error fault => ("", some fault)

def displayName (file : String) : String := if file = "-" then "<stdin>" else file

def Request.report (r : Request) (file : String) : Except ReadError String → Report
  | .error e => ⟨"", line e.message, false⟩
  | .ok source =>
    let s := lex source (displayName file)
    let result := r.stage s
    let fault := result.2.map (·.diagnostic.display)
    ⟨result.1, lines (s.warnings.map (·.display) ++ fault.toList), result.2.isNone⟩

/-- The standard input cannot be read for two inputs. -/
def Request.repeatsInput (r : Request) : Bool := 1 < r.files.count "-"

def Request.respond (r : Request) (source : String → Except ReadError String) : Response :=
  if r.repeatsInput then ⟨1, "", line "standard input can only be read once"⟩
  else
    let reports := r.files.map fun file => r.report file (source file)
    let failed := reports.countP fun report => !report.succeeded
    let stdout := String.join (reports.map (·.stdout))
    let stderr := String.join (reports.map (·.stderr))
    if failed = 0 then ⟨0, stdout, stderr⟩
    else ⟨1, stdout, stderr ++ line s!"{failed} of {r.files.length} input(s) failed"⟩

/-- The files that are read. -/
def Invocation.inputs : Invocation → List String
  | .run request => if request.repeatsInput then [] else request.files
  | _ => []

def Invocation.respond (i : Invocation) (source : String → Except ReadError String) : Response :=
  match i with
  | .run request => request.respond source
  | .version => ⟨0, line "hazel 0.1.0", ""⟩
  | .refused => ⟨2, "", line "error: the arguments are not understood"⟩

end FrontEnd.CommandLine
