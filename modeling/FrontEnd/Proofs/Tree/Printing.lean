import FrontEnd.Parser.Grammar.Operators
import FrontEnd.Proofs.Tree.Names

/-!
Printing trees. A tree is printed as the symbols of its production, its parts in
parentheses unless they are single symbols or stand where the grammar asks for a body, a
type or a statement. The text of the tree is the lexemes of its symbols with single spaces
between them.
-/

namespace FrontEnd

/-- The kind of token that the operator is written as. -/
def BinaryOp.kind : BinaryOp → TokenKind
  | .boolAnd => .kwAnd
  | .boolOr => .kwOr
  | .equal => .equal
  | .notEqual => .notEqual
  | .less => .less
  | .greater => .greater
  | .lessEqual => .lessEqual
  | .greaterEqual => .greaterEqual
  | .bitAnd => .ampersand
  | .bitOr => .pipe
  | .bitXor => .caret
  | .bitAndNot => .andNot
  | .orElse => .kwOrElse
  | .shiftLeft => .shiftLeft
  | .shiftRight => .shiftRight
  | .add => .plus
  | .subtract => .minus
  | .multiply => .star
  | .divide => .slash
  | .modulo => .percent
  | .assign => .assign
  | .addAssign => .plusAssign
  | .subtractAssign => .minusAssign
  | .multiplyAssign => .starAssign
  | .divideAssign => .slashAssign
  | .moduloAssign => .percentAssign
  | .bitAndAssign => .andAssign
  | .bitOrAssign => .orAssign
  | .bitXorAssign => .xorAssign
  | .shiftLeftAssign => .shiftLeftAssign
  | .shiftRightAssign => .shiftRightAssign

def UnaryOp.kind : UnaryOp → TokenKind
  | .boolNot => .kwNot
  | .negation => .bang
  | .addressOf => .ampersand
  | .attempt => .kwTry
  | .minus => .minus
  | .bitNot => .tilde

def BinaryOp.assigns (op : BinaryOp) : Bool := op.kind.band == .operator .assignment

theorem Level.assigns_of_operator {l : Level} {kind : TokenKind} {op : BinaryOp}
    (h : l.operator? kind = some op) : op.assigns = decide (l = .assignment) := by
  cases l <;> cases kind <;> cases h <;> rfl

/-- What a printed tree is, as far as its surroundings must know. -/
inductive Standing where
  | operand | assignment | type | signature | function | block | declaration | statement
  deriving DecidableEq, Repr

structure Printed where
  standing : Standing
  symbols : List Symbol
  deriving DecidableEq, Repr

namespace Printed

variable (p : Printed)

def enclosed : List Symbol := .word .leftParen :: p.symbols ++ [.word .rightParen]

/-- A single symbol, or the symbols in parentheses. -/
def operand : List Symbol := if p.symbols.length = 1 then p.symbols else p.enclosed

def type : List Symbol := if p.standing = .type then p.symbols else p.operand

/-- A block or an assignment as it is, and everything else as an operand. -/
def unended : List Symbol :=
  if p.standing = .block ∨ p.standing = .assignment then p.symbols else p.operand

def body : List Symbol :=
  if p.standing = .block then p.symbols else p.unended ++ [.word .semicolon]

/-- The first part of a loop in three parts. -/
def initial : List Symbol := if p.standing = .declaration then p.symbols else p.body

def statement : List Symbol :=
  match p.standing with
  | .operand | .assignment => p.unended ++ [.word .semicolon]
  | .signature => p.symbols ++ [.word .semicolon]
  | _ => p.symbols

end Printed

section Parts

def flag (present : Bool) (kind : TokenKind) : List Symbol := if present then [.word kind] else []

def commas (parts : List (List Symbol)) : List Symbol := [Symbol.word .comma].intercalate parts

@[simp] theorem commas_nil : commas [] = [] := rfl
@[simp] theorem commas_singleton (x : List Symbol) : commas [x] = x := by
  simp [commas, List.intercalate]
@[simp] theorem commas_cons_cons (x y : List Symbol) (parts : List (List Symbol)) :
    commas (x :: y :: parts) = x ++ .word .comma :: commas (y :: parts) := by
  simp [commas, List.intercalate]

/-- Parts with commas between them begin as the first part does. -/
theorem commas_cons_append (x : List Symbol) (parts : List (List Symbol)) (rest : List Symbol) :
    ∃ rest', commas (x :: parts) ++ rest = x ++ rest' := by
  cases parts with
  | nil => exact ⟨rest, by rw [commas_singleton]⟩
  | cons y parts => exact ⟨_, by rw [commas_cons_cons, List.append_assoc]⟩

/-- What stands behind a mark, if there is something. -/
def behind (kind : TokenKind) (value : Option Printed) : List Symbol :=
  value.elim [] fun p => .word kind :: p.operand

def labelMarks (label : Option String) : List Symbol :=
  label.elim [] fun name => [.name name, .word .colon]

def jumpMarks (label : Option String) : List Symbol :=
  label.elim [] fun name => [.word .colon, .name name]

def payloadMarks (payload : Option String) : List Symbol :=
  payload.elim [] fun name => [.word .pipe, .name name, .word .pipe]

def braces (parts : List Symbol) : List Symbol := .word .leftBrace :: parts ++ [.word .rightBrace]

def parens (parts : List Symbol) : List Symbol := .word .leftParen :: parts ++ [.word .rightParen]

def Param.printed (p : Param Printed) : List Symbol :=
  p.type.type ++ flag p.variadic .ellipsis ++ [.name p.name]

def Variant.printed (v : Variant Printed) : List Symbol := .name v.name :: behind .assign v.value

def MatchItem.printed : MatchItem Printed → List Symbol
  | .single value => value.operand
  | .range start stop => start.operand ++ .word .ellipsis :: stop.operand

def MatchBranch.printed (b : MatchBranch Printed) : List Symbol :=
  (if b.items.isEmpty then [.word .kwElse] else commas (b.items.map (·.printed))) ++
    .word .fatArrow :: b.body.unended

def sizeMarks (kind : ArrayKind) (size : Option Printed) : List Symbol :=
  (if kind = .inferred then [.name "_"] else []) ++ size.elim [] (·.enclosed)

end Parts

/-- The symbols of a layer, its parts being printed. -/
def Form.printed : Form Printed → Printed
  | .root items => ⟨.statement, items.flatMap (·.statement)⟩
  | .identifier name => ⟨.operand, [.name name]⟩
  | .integer text base => ⟨.operand, [⟨base.kind, text⟩]⟩
  | .float text imaginary => ⟨.operand, [⟨if imaginary then .imaginary else .float, text⟩]⟩
  | .rune text => ⟨.operand, [⟨.rune, text⟩]⟩
  | .string text form => ⟨.operand, [⟨form.kind, text⟩]⟩
  | .bool value => ⟨.operand, [.word (if value then .litTrue else .litFalse)]⟩
  | .nil => ⟨.operand, [.word .kwNil]⟩
  | .unreachable => ⟨.operand, [.word .kwUnreachable]⟩
  | .builtin name => ⟨.operand, [⟨.builtinName, name⟩]⟩
  | .block label statements =>
    ⟨.block, labelMarks label ++ braces (statements.flatMap (·.statement))⟩
  | .prototype name params result isExport isExtern =>
    ⟨.signature, flag isExport .kwExport ++ flag isExtern .kwExtern ++ .word .kwFunc ::
      labelNames name ++ parens (commas (params.map (·.printed))) ++ result.type⟩
  | .function signature body => ⟨.function, signature.symbols ++ body.symbols⟩
  | .enumeration name isExport variants =>
    ⟨.statement, flag isExport .kwExport ++ .word .kwEnum :: .name name ::
      braces (commas (variants.map (·.printed)))⟩
  | .record name isExport isUnion fields =>
    ⟨.statement, flag isExport .kwExport ++ .word (if isUnion then .kwUnion else .kwStruct) ::
      .name name :: braces (fields.flatMap (·.symbols))⟩
  | .field name type default =>
    ⟨.statement, type.type ++ .name name :: behind .assign default ++ [.word .semicolon]⟩
  | .declaration name type init isExport isMutable isConst =>
    ⟨.declaration, flag isExport .kwExport ++ flag isMutable .kwMutable ++ flag isConst .kwConst ++
      (type.elim [] (·.type)) ++ .name name :: behind .assign init ++ [.word .semicolon]⟩
  | .call callee args => ⟨.operand, callee.operand ++ parens (commas (args.map (·.operand)))⟩
  | .access target name => ⟨.operand, target.operand ++ [.word .dot, .name name]⟩
  | .index target position =>
    ⟨.operand, target.operand ++ .word .leftBracket :: position.operand ++ [.word .rightBracket]⟩
  | .slice target start stop sentinel =>
    ⟨.operand, target.operand ++ .word .leftBracket :: start.operand ++ .word .dotDot ::
      stop.operand ++ behind .colon sentinel ++ [.word .rightBracket]⟩
  | .elements items => ⟨.operand, braces (commas (items.map (·.operand)))⟩
  | .conditional condition thenBody elseBody =>
    ⟨.statement, .word .kwIf :: parens condition.operand ++ thenBody.body ++
      elseBody.elim [] fun p => .word .kwElse :: p.statement⟩
  | .loop label condition body =>
    ⟨.statement, labelMarks label ++ .word .kwFor ::
      (condition.elim [] fun p => parens p.unended) ++ body.symbols⟩
  | .steppedLoop label init condition step body =>
    ⟨.statement, labelMarks label ++ .word .kwFor ::
      parens (init.elim [.word .semicolon] (·.initial) ++
        condition.elim [] (·.operand) ++ .word .semicolon :: step.elim [] (·.unended)) ++
      body.symbols⟩
  | .eachLoop label binding iterable body =>
    ⟨.statement, labelMarks label ++ .word .kwFor ::
      parens (.name binding :: .word .kwIn :: iterable.operand) ++ body.symbols⟩
  | .selection subject branches =>
    ⟨.operand, .word .kwMatch :: subject.operand ++ braces (commas (branches.map (·.printed)))⟩
  | .recovery lhs payload rhs =>
    ⟨.operand, lhs.operand ++ .word .kwCatch :: payloadMarks payload ++ rhs.unended⟩
  | .binary op lhs rhs =>
    ⟨if op.assigns then .assignment else .operand, lhs.operand ++ .word op.kind :: rhs.operand⟩
  | .unary op operand => ⟨.operand, .word op.kind :: operand.operand⟩
  | .optional child => ⟨.type, .word .question :: child.type⟩
  | .array kind size sentinel element =>
    ⟨.type, .word .leftBracket :: sizeMarks kind size ++ behind .colon sentinel ++
      .word .rightBracket :: element.type⟩
  | .deferral body => ⟨.statement, .word .kwDefer :: body.body⟩
  | .returning value =>
    ⟨.statement, .word .kwReturn :: value.elim [] (·.operand) ++ [.word .semicolon]⟩
  | .raising value => ⟨.statement, .word .kwRaise :: value.operand ++ [.word .semicolon]⟩
  | .breaking label value =>
    ⟨.statement, .word .kwBreak :: jumpMarks label ++ value.elim [] (·.operand) ++
      [.word .semicolon]⟩
  | .continuing label =>
    ⟨.statement, .word .kwContinue :: jumpMarks label ++ [.word .semicolon]⟩

namespace Tree

def printed : Tree → Printed := fold fun _ form => form.printed

@[simp] theorem printed_node (token : Nat) (form : Form Tree) :
    (Tree.node token form).printed = (form.map printed).printed := fold_node _ _ _

end Tree

namespace Symbol

/-- What is written in a source for the symbol. -/
def lexeme (s : Symbol) : List Char :=
  match s.kind with
  | .string => ['"'] ++ s.text.toList ++ ['"']
  | .tripleString => ['"', '"', '"'] ++ s.text.toList ++ ['"', '"', '"']
  | .rawString => ['`'] ++ s.text.toList ++ ['`']
  | .rune => ['\''] ++ s.text.toList ++ ['\'']
  | .builtinName => '@' :: s.text.toList
  | _ => s.text.toList

/-- Lexemes with single spaces between them. -/
def spaced (symbols : List Symbol) : List Char := [' '].intercalate (symbols.map lexeme)

end Symbol

/-- The text of a printed tree. -/
def Tree.text (t : Tree) : String := String.ofList (Symbol.spaced t.printed.symbols)

end FrontEnd
