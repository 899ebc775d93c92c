import FrontEnd.Tree.Basic

/-!
Trees written as nested lists in parentheses, the head of a list naming the form.
Absent parts are left out, or written `_` where a later part would take their
place. The items of a root stand on lines of their own.
-/

namespace FrontEnd

/-- The items, each behind a blank. -/
def spaced (items : List String) : String := String.join (items.map (" " ++ ·))

def spacedIf (condition : Bool) (word : String) : String :=
  if condition then " " ++ word else ""

def spacedOption : Option String → String
  | none => ""
  | some item => " " ++ item

def spacedLabel : Option String → String
  | none => ""
  | some label => " :" ++ label

def orBlank (item : Option String) : String := " " ++ item.getD "_"

def Param.sexpr (p : Param String) : String :=
  "(" ++ p.type ++ (if p.variadic then "..." else "") ++ " " ++ p.name ++ ")"

def Variant.sexpr (v : Variant String) : String :=
  match v.value with
  | none => v.name
  | some value => "(" ++ v.name ++ " " ++ value ++ ")"

def MatchItem.sexpr : MatchItem String → String
  | .single value => value
  | .range start stop => "(... " ++ start ++ " " ++ stop ++ ")"

def MatchBranch.sexpr (b : MatchBranch String) : String :=
  (if b.items.isEmpty then "(else" else "(case") ++ spaced (b.items.map (·.sexpr)) ++ " => " ++
    b.body ++ ")"

def StringForm.quote : StringForm → String
  | .plain => "\""
  | .raw => "`"
  | .triple => "\"\"\""

/-- The size of an array type as it stands between the brackets. -/
def ArrayKind.size (kind : ArrayKind) (size : Option String) : String :=
  match kind with
  | .inferred => "_"
  | _ => size.getD ""

/-- One layer over subtrees that are written already. -/
def Form.sexpr : Form String → String
  | .root items => "\n".intercalate items
  | .identifier name => name
  | .block label statements => "(block" ++ spacedLabel label ++ spaced statements ++ ")"
  | .prototype name params result isExport isExtern =>
    "(func" ++ spacedIf isExport "export" ++ spacedIf isExtern "extern" ++ spacedOption name ++
      " (" ++ " ".intercalate (params.map (·.sexpr)) ++ ") " ++ result ++ ")"
  | .function signature body => "(def " ++ signature ++ " " ++ body ++ ")"
  | .integer text _ => text
  | .float text _ => text
  | .rune text => "'" ++ text ++ "'"
  | .string text form => form.quote ++ text ++ form.quote
  | .bool value => if value then "true" else "false"
  | .nil => "nil"
  | .unreachable => "unreachable"
  | .builtin name => "@" ++ name
  | .enumeration name isExport variants =>
    "(enum" ++ spacedIf isExport "export" ++ " " ++ name ++ spaced (variants.map (·.sexpr)) ++ ")"
  | .record name isExport isUnion fields =>
    (if isUnion then "(union" else "(struct") ++ spacedIf isExport "export" ++ " " ++ name ++
      spaced fields ++ ")"
  | .field name type default => "(field " ++ type ++ " " ++ name ++ spacedOption default ++ ")"
  | .declaration name type init isExport isMutable isConst =>
    "(var" ++ spacedIf isExport "export" ++ spacedIf isMutable "mutable" ++
      spacedIf isConst "const" ++ orBlank type ++ " " ++ name ++ spacedOption init ++ ")"
  | .call callee args => "(call " ++ callee ++ spaced args ++ ")"
  | .access target name => "(. " ++ target ++ " " ++ name ++ ")"
  | .index target position => "(index " ++ target ++ " " ++ position ++ ")"
  | .slice target start stop sentinel =>
    "(slice " ++ target ++ " " ++ start ++ " " ++ stop ++ spacedOption sentinel ++ ")"
  | .elements items => "(init" ++ spaced items ++ ")"
  | .conditional condition thenBody elseBody =>
    "(if " ++ condition ++ " " ++ thenBody ++ spacedOption elseBody ++ ")"
  | .loop label condition body =>
    "(for" ++ spacedLabel label ++ spacedOption condition ++ " " ++ body ++ ")"
  | .steppedLoop label init condition step body =>
    "(for-c" ++ spacedLabel label ++ orBlank init ++ orBlank condition ++ orBlank step ++ " " ++
      body ++ ")"
  | .eachLoop label binding iterable body =>
    "(for-in" ++ spacedLabel label ++ " " ++ binding ++ " " ++ iterable ++ " " ++ body ++ ")"
  | .selection subject branches =>
    "(match " ++ subject ++ spaced (branches.map (·.sexpr)) ++ ")"
  | .recovery lhs payload rhs =>
    "(catch " ++ lhs ++ spacedOption (payload.map fun name => "|" ++ name ++ "|") ++ " " ++ rhs ++
      ")"
  | .binary op lhs rhs => "(" ++ op.symbol ++ " " ++ lhs ++ " " ++ rhs ++ ")"
  | .unary op operand => "(" ++ op.symbol ++ " " ++ operand ++ ")"
  | .optional child => "(? " ++ child ++ ")"
  | .array kind size sentinel element =>
    "([" ++ kind.size size ++ (sentinel.map (" :" ++ ·)).getD "" ++ "] " ++ element ++ ")"
  | .deferral body => "(defer " ++ body ++ ")"
  | .returning value => "(return" ++ spacedOption value ++ ")"
  | .raising value => "(raise " ++ value ++ ")"
  | .breaking label value => "(break" ++ spacedLabel label ++ spacedOption value ++ ")"
  | .continuing label => "(continue" ++ spacedLabel label ++ ")"

def Tree.sexpr : Tree → String := fold fun _ form => form.sexpr

end FrontEnd
