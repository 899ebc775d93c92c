/-!
The kinds of token, each with its name, its band and the tag that token listings
show. The name of a keyword or of an operator, delimiter or separator is its
spelling in a source.
-/

namespace FrontEnd

inductive OperatorBand where
  | arithmetic | comparison | assignment | arrow | bitwise
  deriving DecidableEq, Repr

inductive Band where
  | special | literal
  | operator (band : OperatorBand)
  | delimiter | separator | keyword
  deriving DecidableEq, Repr

/-- Names of builtins are the words written behind `@`. -/
inductive TokenKind where
  | illegal | endOfFile | comment | docComment
  | identifier | builtinName | decimalInteger | binaryInteger | hexInteger | octalInteger | float
  | imaginary | rune | string | rawString | tripleString | litTrue | litFalse
  | plus | minus | star | slash | percent | percentPercent | plusPlus | minusMinus | starStar
  | question
  | greater | less | greaterEqual | lessEqual | equal | notEqual
  | assign | plusAssign | minusAssign | starAssign | slashAssign | percentAssign | andAssign
  | orAssign | xorAssign | shiftLeftAssign | shiftRightAssign | tildeAssign
  | fatArrow | arrow | leftArrow
  | shiftLeft | shiftRight | ampersand | pipe | bang | caret | andNot | andAnd | orOr | tilde
  | leftParen | rightParen | leftBrace | rightBrace | leftBracket | rightBracket
  | colon | colonColon | semicolon | comma | dot | dotDot | ellipsis | backslash
  | kwAnd | kwBreak | kwCase | kwCatch | kwConst | kwContinue | kwDefault | kwDefer | kwElse
  | kwElseIf | kwEnum | kwExport | kwExtern | kwFor | kwFunc | kwIf | kwImport | kwIn | kwInclude
  | kwMatch | kwMutable | kwNil | kwNot | kwOr | kwOrElse | kwRaise | kwReturn | kwStruct | kwTry
  | kwUnion | kwUnreachable | kwWhile
  deriving DecidableEq, Repr

namespace TokenKind

def band : TokenKind → Band
  | .illegal | .endOfFile | .comment | .docComment =>
    .special
  | .identifier | .builtinName | .decimalInteger | .binaryInteger | .hexInteger | .octalInteger
  | .float | .imaginary | .rune | .string | .rawString | .tripleString | .litTrue | .litFalse =>
    .literal
  | .plus | .minus | .star | .slash | .percent | .percentPercent | .plusPlus | .minusMinus
  | .starStar | .question =>
    .operator .arithmetic
  | .greater | .less | .greaterEqual | .lessEqual | .equal | .notEqual =>
    .operator .comparison
  | .assign | .plusAssign | .minusAssign | .starAssign | .slashAssign | .percentAssign
  | .andAssign | .orAssign | .xorAssign | .shiftLeftAssign | .shiftRightAssign | .tildeAssign =>
    .operator .assignment
  | .fatArrow | .arrow | .leftArrow =>
    .operator .arrow
  | .shiftLeft | .shiftRight | .ampersand | .pipe | .bang | .caret | .andNot | .andAnd | .orOr
  | .tilde =>
    .operator .bitwise
  | .leftParen | .rightParen | .leftBrace | .rightBrace | .leftBracket | .rightBracket =>
    .delimiter
  | .colon | .colonColon | .semicolon | .comma | .dot | .dotDot | .ellipsis | .backslash =>
    .separator
  | .kwAnd | .kwBreak | .kwCase | .kwCatch | .kwConst | .kwContinue | .kwDefault | .kwDefer
  | .kwElse | .kwElseIf | .kwEnum | .kwExport | .kwExtern | .kwFor | .kwFunc | .kwIf | .kwImport
  | .kwIn | .kwInclude | .kwMatch | .kwMutable | .kwNil | .kwNot | .kwOr | .kwOrElse | .kwRaise
  | .kwReturn | .kwStruct | .kwTry | .kwUnion | .kwUnreachable | .kwWhile =>
    .keyword

def name : TokenKind → String
  | .illegal => "ILLEGAL"
  | .endOfFile => "EOF"
  | .comment => "COMMENT"
  | .docComment => "DOC_COMMENT"
  | .identifier => "IDENTIFIER"
  | .builtinName => "MACRO"
  | .decimalInteger => "INTEGER"
  | .binaryInteger => "BIN_INT"
  | .hexInteger => "HEX_INT"
  | .octalInteger => "OCT_INT"
  | .float => "FLOAT"
  | .imaginary => "IMAG"
  | .rune => "RUNE"
  | .string => "STRING"
  | .rawString => "RAW_STRING"
  | .tripleString => "TRIPLE_STRING"
  | .litTrue => "true"
  | .litFalse => "false"
  | .plus => "+"
  | .minus => "-"
  | .star => "*"
  | .slash => "/"
  | .percent => "%"
  | .percentPercent => "%%"
  | .plusPlus => "++"
  | .minusMinus => "--"
  | .starStar => "**"
  | .question => "?"
  | .greater => ">"
  | .less => "<"
  | .greaterEqual => ">="
  | .lessEqual => "<="
  | .equal => "=="
  | .notEqual => "!="
  | .assign => "="
  | .plusAssign => "+="
  | .minusAssign => "-="
  | .starAssign => "*="
  | .slashAssign => "/="
  | .percentAssign => "%="
  | .andAssign => "&="
  | .orAssign => "|="
  | .xorAssign => "^="
  | .shiftLeftAssign => "<<="
  | .shiftRightAssign => ">>="
  | .tildeAssign => "~="
  | .fatArrow => "=>"
  | .arrow => "->"
  | .leftArrow => "<-"
  | .shiftLeft => "<<"
  | .shiftRight => ">>"
  | .ampersand => "&"
  | .pipe => "|"
  | .bang => "!"
  | .caret => "^"
  | .andNot => "&^"
  | .andAnd => "&&"
  | .orOr => "||"
  | .tilde => "~"
  | .leftParen => "("
  | .rightParen => ")"
  | .leftBrace => "\x7b"
  | .rightBrace => "\x7d"
  | .leftBracket => "["
  | .rightBracket => "]"
  | .colon => ":"
  | .colonColon => "::"
  | .semicolon => ";"
  | .comma => ","
  | .dot => "."
  | .dotDot => ".."
  | .ellipsis => "..."
  | .backslash => "\\"
  | .kwAnd => "and"
  | .kwBreak => "break"
  | .kwCase => "case"
  | .kwCatch => "catch"
  | .kwConst => "const"
  | .kwContinue => "continue"
  | .kwDefault => "default"
  | .kwDefer => "defer"
  | .kwElse => "else"
  | .kwElseIf => "elseif"
  | .kwEnum => "enum"
  | .kwExport => "export"
  | .kwExtern => "extern"
  | .kwFor => "for"
  | .kwFunc => "func"
  | .kwIf => "if"
  | .kwImport => "import"
  | .kwIn => "in"
  | .kwInclude => "include"
  | .kwMatch => "match"
  | .kwMutable => "mutable"
  | .kwNil => "nil"
  | .kwNot => "not"
  | .kwOr => "or"
  | .kwOrElse => "orelse"
  | .kwRaise => "raise"
  | .kwReturn => "return"
  | .kwStruct => "struct"
  | .kwTry => "try"
  | .kwUnion => "union"
  | .kwUnreachable => "unreachable"
  | .kwWhile => "while"

/-- The tag of the kind in listings of tokens. -/
def tag : TokenKind → String
  | .illegal => "Illegal"
  | .endOfFile => "EndOfFile"
  | .comment => "Comment"
  | .docComment => "DocComment"
  | .identifier => "Identifier"
  | .builtinName => "Macro"
  | .decimalInteger => "IntegerDec"
  | .binaryInteger => "IntegerBin"
  | .hexInteger => "IntegerHex"
  | .octalInteger => "IntegerOct"
  | .float => "FloatLit"
  | .imaginary => "ImagLit"
  | .rune => "RuneLit"
  | .string => "StringLit"
  | .rawString => "RawStringLit"
  | .tripleString => "TripleStringLit"
  | .litTrue => "True"
  | .litFalse => "False"
  | .plus => "Plus"
  | .minus => "Minus"
  | .star => "Star"
  | .slash => "Slash"
  | .percent => "Percent"
  | .percentPercent => "PercentPercent"
  | .plusPlus => "PlusPlus"
  | .minusMinus => "MinusMinus"
  | .starStar => "StarStar"
  | .question => "Question"
  | .greater => "Gt"
  | .less => "Lt"
  | .greaterEqual => "Ge"
  | .lessEqual => "Le"
  | .equal => "EqEq"
  | .notEqual => "NotEq"
  | .assign => "Assign"
  | .plusAssign => "PlusAssign"
  | .minusAssign => "MinusAssign"
  | .starAssign => "StarAssign"
  | .slashAssign => "SlashAssign"
  | .percentAssign => "PercentAssign"
  | .andAssign => "AndAssign"
  | .orAssign => "OrAssign"
  | .xorAssign => "XorAssign"
  | .shiftLeftAssign => "LBitshiftEquals"
  | .shiftRightAssign => "RBitshiftEquals"
  | .tildeAssign => "TildeAssign"
  | .fatArrow => "FatArrow"
  | .arrow => "Arrow"
  | .leftArrow => "LeftArrow"
  | .shiftLeft => "LBitshift"
  | .shiftRight => "RBitshift"
  | .ampersand => "Ampersand"
  | .pipe => "Pipe"
  | .bang => "Bang"
  | .caret => "Caret"
  | .andNot => "AndNot"
  | .andAnd => "AndAnd"
  | .orOr => "OrOr"
  | .tilde => "Tilde"
  | .leftParen => "LParen"
  | .rightParen => "RParen"
  | .leftBrace => "LBrace"
  | .rightBrace => "RBrace"
  | .leftBracket => "LBracket"
  | .rightBracket => "RBracket"
  | .colon => "Colon"
  | .colonColon => "ColonColon"
  | .semicolon => "Semicolon"
  | .comma => "Comma"
  | .dot => "Dot"
  | .dotDot => "DotDot"
  | .ellipsis => "Ellipsis"
  | .backslash => "Backslash"
  | .kwAnd => "And"
  | .kwBreak => "Break"
  | .kwCase => "Case"
  | .kwCatch => "Catch"
  | .kwConst => "Const"
  | .kwContinue => "Continue"
  | .kwDefault => "Default"
  | .kwDefer => "Defer"
  | .kwElse => "Else"
  | .kwElseIf => "ElseIf"
  | .kwEnum => "Enum"
  | .kwExport => "Export"
  | .kwExtern => "Extern"
  | .kwFor => "For"
  | .kwFunc => "Func"
  | .kwIf => "If"
  | .kwImport => "Import"
  | .kwIn => "In"
  | .kwInclude => "Include"
  | .kwMatch => "Match"
  | .kwMutable => "Mutable"
  | .kwNil => "Nil"
  | .kwNot => "Not"
  | .kwOr => "Or"
  | .kwOrElse => "OrElse"
  | .kwRaise => "Raise"
  | .kwReturn => "Return"
  | .kwStruct => "Struct"
  | .kwTry => "Try"
  | .kwUnion => "Union"
  | .kwUnreachable => "Unreachable"
  | .kwWhile => "While"

def isLiteral (k : TokenKind) : Bool := k.band == .literal

def isKeyword (k : TokenKind) : Bool := k.band == .keyword

def isOperator (k : TokenKind) : Bool :=
  match k.band with
  | .operator _ => true
  | _ => false

def isOperatorOf (b : OperatorBand) (k : TokenKind) : Bool := k.band == .operator b

def isDelimiter (k : TokenKind) : Bool := k.band == .delimiter

def isSeparator (k : TokenKind) : Bool := k.band == .separator

/-- Comments, which take no part in parsing. -/
def isTrivia (k : TokenKind) : Bool := k == .comment || k == .docComment

/-- Kinds spelled as reserved words, the two truth values among them. -/
def reserved : List TokenKind :=
  [.litTrue, .litFalse, .kwAnd, .kwBreak, .kwCase, .kwCatch, .kwConst, .kwContinue, .kwDefault,
   .kwDefer, .kwElse, .kwElseIf, .kwEnum, .kwExport, .kwExtern, .kwFor, .kwFunc, .kwIf,
   .kwImport, .kwIn, .kwInclude, .kwMatch, .kwMutable, .kwNil, .kwNot, .kwOr, .kwOrElse,
   .kwRaise, .kwReturn, .kwStruct, .kwTry, .kwUnion, .kwUnreachable, .kwWhile]

def keyword? (text : String) : Option TokenKind := reserved.find? fun k => k.name == text

end TokenKind

end FrontEnd
