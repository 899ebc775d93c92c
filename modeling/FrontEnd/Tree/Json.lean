import FrontEnd.Json
import FrontEnd.Tree.Basic

/-!
Trees as JSON. A tree is an object that holds its anchor under `token`, the name
of its form under `node`, and then the parts of the form under their own names.
Absent parts are null.
-/

namespace FrontEnd

def Base.name : Base → String
  | .decimal => "decimal"
  | .binary => "binary"
  | .hexadecimal => "hexadecimal"
  | .octal => "octal"

def Base.ofName? (text : String) : Option Base :=
  [.decimal, .binary, .hexadecimal, .octal].find? fun b => b.name == text

def StringForm.name : StringForm → String
  | .plain => "plain"
  | .raw => "raw"
  | .triple => "triple"

def StringForm.ofName? (text : String) : Option StringForm :=
  [.plain, .raw, .triple].find? fun f => f.name == text

def ArrayKind.name : ArrayKind → String
  | .slice => "slice"
  | .inferred => "inferred"
  | .sized => "sized"

def ArrayKind.ofName? (text : String) : Option ArrayKind :=
  [.slice, .inferred, .sized].find? fun k => k.name == text

def orNull : Option Json → Json := Json.ofOption id

def textOrNull : Option String → Json := Json.ofOption .str

def Param.toJson (p : Param Json) : Json :=
  .obj [("token", .num p.token), ("name", .str p.name), ("param_type", p.type),
    ("variadic", .bool p.variadic)]

def Variant.toJson (v : Variant Json) : Json :=
  .obj [("token", .num v.token), ("name", .str v.name), ("value", orNull v.value)]

def MatchItem.toJson : MatchItem Json → Json
  | .single value => .obj [("item", .str "single"), ("value", value)]
  | .range start stop => .obj [("item", .str "range"), ("start", start), ("end", stop)]

def MatchBranch.toJson (b : MatchBranch Json) : Json :=
  .obj [("token", .num b.token), ("items", .arr (b.items.map (·.toJson))), ("body", b.body)]

/-- The name of a form and its parts, over subtrees that are JSON already. -/
def Form.parts : Form Json → String × List (String × Json)
  | .root items => ("Root", [("items", .arr items)])
  | .identifier name => ("Identifier", [("name", .str name)])
  | .block name statements =>
    ("Block", [("label", textOrNull name), ("statements", .arr statements)])
  | .prototype name params result isExport isExtern =>
    ("FuncPrototype", [("name", textOrNull name), ("params", .arr (params.map (·.toJson))),
      ("return_type", result), ("is_export", .bool isExport), ("is_extern", .bool isExtern)])
  | .function signature body => ("FuncDef", [("prototype", signature), ("body", body)])
  | .integer text base => ("IntLiteral", [("text", .str text), ("base", .str base.name)])
  | .float text imaginary =>
    ("FloatLiteral", [("text", .str text), ("imaginary", .bool imaginary)])
  | .rune text => ("CharLiteral", [("text", .str text)])
  | .string text form => ("StringLiteral", [("text", .str text), ("form", .str form.name)])
  | .bool value => ("BoolLiteral", [("value", .bool value)])
  | .nil => ("NilLiteral", [])
  | .unreachable => ("Unreachable", [])
  | .builtin name => ("Builtin", [("name", .str name)])
  | .enumeration name isExport variants =>
    ("EnumDecl", [("name", .str name), ("is_export", .bool isExport),
      ("variants", .arr (variants.map (·.toJson)))])
  | .record name isExport isUnion fields =>
    ("StructDecl", [("name", .str name), ("is_export", .bool isExport),
      ("is_union", .bool isUnion), ("fields", .arr fields)])
  | .field name type default =>
    ("TypeField", [("name", .str name), ("field_type", type), ("default", orNull default)])
  | .declaration name type init isExport isMutable isConst =>
    ("VarDecl", [("name", .str name), ("var_type", orNull type), ("init", orNull init),
      ("is_export", .bool isExport), ("is_mutable", .bool isMutable),
      ("is_const", .bool isConst)])
  | .call callee args => ("FuncCallExpr", [("callee", callee), ("args", .arr args)])
  | .access target name => ("FieldAccess", [("target", target), ("field", .str name)])
  | .index target position => ("ArrayAccess", [("target", target), ("index", position)])
  | .slice target start stop sentinel =>
    ("SliceExpr", [("target", target), ("start", start), ("end", stop),
      ("sentinel", orNull sentinel)])
  | .elements items => ("ArrayInit", [("elements", .arr items)])
  | .conditional condition thenBody elseBody =>
    ("IfExpr", [("condition", condition), ("then_body", thenBody),
      ("else_body", orNull elseBody)])
  | .loop name condition body =>
    ("ForExpr", [("label", textOrNull name), ("condition", orNull condition), ("body", body)])
  | .steppedLoop name init condition step body =>
    ("ForCExpr", [("label", textOrNull name), ("init", orNull init),
      ("condition", orNull condition), ("step", orNull step), ("body", body)])
  | .eachLoop name binding iterable body =>
    ("ForInExpr", [("label", textOrNull name), ("binding", .str binding), ("iterable", iterable),
      ("body", body)])
  | .selection subject branches =>
    ("MatchExpr", [("subject", subject), ("branches", .arr (branches.map (·.toJson)))])
  | .recovery lhs payload rhs =>
    ("CatchExpr", [("lhs", lhs), ("payload", textOrNull payload), ("rhs", rhs)])
  | .binary op lhs rhs =>
    ("BinaryOpExpr", [("op", .str op.name), ("lhs", lhs), ("rhs", rhs)])
  | .unary op operand => ("PrefixOpExpr", [("op", .str op.name), ("operand", operand)])
  | .optional child => ("OptionalType", [("child", child)])
  | .array kind size sentinel element =>
    ("ArrayType", [("kind", .str kind.name), ("size", orNull size),
      ("sentinel", orNull sentinel), ("element", element)])
  | .deferral body => ("Defer", [("body", body)])
  | .returning value => ("Return", [("value", orNull value)])
  | .raising value => ("Raise", [("value", value)])
  | .breaking name value => ("Break", [("label", textOrNull name), ("value", orNull value)])
  | .continuing name => ("Continue", [("label", textOrNull name)])

def Tree.toJson : Tree → Json :=
  fold fun token form => .obj (("token", .num token) :: ("node", .str form.parts.1) :: form.parts.2)

/-! ## Reading trees -/

variable {T : Type}

def Json.under (j : Json) (key : String) (f : Json → Option α) : Option α :=
  (j.field? key).bind f

def Json.list? (f : Json → Option α) (j : Json) : Option (List α) := j.arr?.bind (·.mapM f)

def Json.named? (f : String → Option α) (j : Json) : Option α := j.str?.bind f

def Param.ofJson? (child : Json → Option T) (j : Json) : Option (Param T) := do
  return ⟨← j.under "token" (·.num?), ← j.under "name" (·.str?), ← j.under "param_type" child,
    ← j.under "variadic" (·.bool?)⟩

def Variant.ofJson? (child : Json → Option T) (j : Json) : Option (Variant T) := do
  return ⟨← j.under "token" (·.num?), ← j.under "name" (·.str?),
    ← j.under "value" (·.option? child)⟩

def MatchItem.ofJson? (child : Json → Option T) (j : Json) : Option (MatchItem T) := do
  match ← j.under "item" (·.str?) with
  | "single" => return .single (← j.under "value" child)
  | "range" => return .range (← j.under "start" child) (← j.under "end" child)
  | _ => none

def MatchBranch.ofJson? (child : Json → Option T) (j : Json) : Option (MatchBranch T) := do
  return ⟨← j.under "token" (·.num?), ← j.under "items" (·.list? (MatchItem.ofJson? child)),
    ← j.under "body" child⟩

/-- The form of that name with the parts of an object, its subtrees read by `child`. -/
def Form.ofParts? (child : Json → Option T) (j : Json) (name : String) : Option (Form T) := do
  let tree := (j.under · child)
  let trees := (j.under · (·.list? child))
  let tree? := (j.under · (·.option? child))
  let text := (j.under · (·.str?))
  let text? := (j.under · (·.option? (·.str?)))
  let flag := (j.under · (·.bool?))
  match name with
  | "Root" => return .root (← trees "items")
  | "Identifier" => return .identifier (← text "name")
  | "Block" => return .block (← text? "label") (← trees "statements")
  | "FuncPrototype" =>
    return .prototype (← text? "name") (← j.under "params" (·.list? (Param.ofJson? child)))
      (← tree "return_type") (← flag "is_export") (← flag "is_extern")
  | "FuncDef" => return .function (← tree "prototype") (← tree "body")
  | "IntLiteral" => return .integer (← text "text") (← j.under "base" (·.named? Base.ofName?))
  | "FloatLiteral" => return .float (← text "text") (← flag "imaginary")
  | "CharLiteral" => return .rune (← text "text")
  | "StringLiteral" =>
    return .string (← text "text") (← j.under "form" (·.named? StringForm.ofName?))
  | "BoolLiteral" => return .bool (← flag "value")
  | "NilLiteral" => return .nil
  | "Unreachable" => return .unreachable
  | "Builtin" => return .builtin (← text "name")
  | "EnumDecl" =>
    return .enumeration (← text "name") (← flag "is_export")
      (← j.under "variants" (·.list? (Variant.ofJson? child)))
  | "StructDecl" =>
    return .record (← text "name") (← flag "is_export") (← flag "is_union") (← trees "fields")
  | "TypeField" => return .field (← text "name") (← tree "field_type") (← tree? "default")
  | "VarDecl" =>
    return .declaration (← text "name") (← tree? "var_type") (← tree? "init")
      (← flag "is_export") (← flag "is_mutable") (← flag "is_const")
  | "FuncCallExpr" => return .call (← tree "callee") (← trees "args")
  | "FieldAccess" => return .access (← tree "target") (← text "field")
  | "ArrayAccess" => return .index (← tree "target") (← tree "index")
  | "SliceExpr" =>
    return .slice (← tree "target") (← tree "start") (← tree "end") (← tree? "sentinel")
  | "ArrayInit" => return .elements (← trees "elements")
  | "IfExpr" =>
    return .conditional (← tree "condition") (← tree "then_body") (← tree? "else_body")
  | "ForExpr" => return .loop (← text? "label") (← tree? "condition") (← tree "body")
  | "ForCExpr" =>
    return .steppedLoop (← text? "label") (← tree? "init") (← tree? "condition") (← tree? "step")
      (← tree "body")
  | "ForInExpr" =>
    return .eachLoop (← text? "label") (← text "binding") (← tree "iterable") (← tree "body")
  | "MatchExpr" =>
    return .selection (← tree "subject")
      (← j.under "branches" (·.list? (MatchBranch.ofJson? child)))
  | "CatchExpr" => return .recovery (← tree "lhs") (← text? "payload") (← tree "rhs")
  | "BinaryOpExpr" =>
    return .binary (← j.under "op" (·.named? BinaryOp.ofName?)) (← tree "lhs") (← tree "rhs")
  | "PrefixOpExpr" =>
    return .unary (← j.under "op" (·.named? UnaryOp.ofName?)) (← tree "operand")
  | "OptionalType" => return .optional (← tree "child")
  | "ArrayType" =>
    return .array (← j.under "kind" (·.named? ArrayKind.ofName?)) (← tree? "size")
      (← tree? "sentinel") (← tree "element")
  | "Defer" => return .deferral (← tree "body")
  | "Return" => return .returning (← tree? "value")
  | "Raise" => return .raising (← tree "value")
  | "Break" => return .breaking (← text? "label") (← tree? "value")
  | "Continue" => return .continuing (← text? "label")
  | _ => none

/-- The form that an object describes. -/
def Form.ofJson? (child : Json → Option T) (j : Json) : Option (Form T) :=
  (j.under "node" (·.str?)).bind (ofParts? child j)

/-- Reads a tree of at most `n` levels. -/
def Tree.ofJsonWithin : Nat → Json → Option Tree
  | 0, _ => none
  | n + 1, j => do
    return .node (← j.under "token" (·.num?)) (← Form.ofJson? (ofJsonWithin n) j)

def Tree.ofJson? (j : Json) : Option Tree := ofJsonWithin j.depth j

end FrontEnd
