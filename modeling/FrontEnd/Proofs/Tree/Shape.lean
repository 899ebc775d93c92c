import FrontEnd.Parser.Run
import FrontEnd.Proofs.Tree.Induction

/-!
The grammar as rules about trees. `Shaped` tells which trees stand for what in a source
of the given symbols, and at which depth of nesting they are read; what a statement about
parsed trees needs of the productions is in its rules, so that such a statement goes by
induction on them and not by the runs of the parser.
-/

namespace FrontEnd

/-- What a tree may stand for. -/
inductive Category where
  | expression | assignment | typeMark | type | prototype (isExport isExtern : Bool)
  | block (label : Option String) | body | conditional (opener : TokenKind)
  | declaration | initial | field | statement
  /-- The same, one level of nesting further in. -/
  | deeper (category : Category)
  deriving DecidableEq, Repr

variable (symbols : Symbols) (limit : Nat)

/-- A tree that is read as the category, by a production that was entered at `depth`. -/
inductive Shaped : Category → (depth : Nat) → Tree → Prop where
  | deeper {c depth t} (hd : depth < limit) (h : Shaped c (depth + 1) t) :
    Shaped (.deeper c) depth t
  -- expressions
  | leaf {depth token form} (h : (symbols.symbolAt token).leaf? = some form) :
    Shaped .expression depth (.node token form)
  | enclosed {depth t} (h : Shaped (.deeper .expression) depth t) :
    Shaped .expression depth t
  | signature {depth t} (h : Shaped (.prototype false false) depth t) :
    Shaped .expression depth t
  | function {depth token t body} (ht : Shaped (.prototype false false) depth t)
    (hbody : Shaped (.block none) depth body) :
    Shaped .expression depth (.node token (.function t body))
  | selection {depth token subject branches}
    (hsubject : Shaped (.deeper .expression) depth subject) (hne : branches ≠ [])
    (hitems : ∀ b ∈ branches, ∀ i ∈ b.items, ∀ t ∈ i.children,
      Shaped (.deeper .expression) depth t)
    (hbodies : ∀ b ∈ branches, Shaped .body depth b.body) :
    Shaped .expression depth (.node token (.selection subject branches))
  | elements {depth token items}
    (h : ∀ t ∈ items, Shaped (.deeper .expression) depth t) :
    Shaped .expression depth (.node token (.elements items))
  | access {depth token target name} (h : Shaped .expression depth target) :
    Shaped .expression depth (.node token (.access target name))
  | index {depth token target position} (h : Shaped .expression depth target)
    (hp : Shaped (.deeper .expression) depth position) :
    Shaped .expression depth (.node token (.index target position))
  | slice {depth token target start stop} {sentinel : Option Tree}
    (h : Shaped .expression depth target)
    (hstart : Shaped (.deeper .expression) depth start)
    (hstop : Shaped (.deeper .expression) depth stop)
    (hsentinel : ∀ t ∈ sentinel, Shaped (.deeper .expression) depth t) :
    Shaped .expression depth (.node token (.slice target start stop sentinel))
  | call {depth token callee args} (h : Shaped .expression depth callee)
    (hargs : ∀ t ∈ args, Shaped (.deeper .expression) depth t) :
    Shaped .expression depth (.node token (.call callee args))
  | unary {depth token op t} (h : Shaped (.deeper .expression) depth t) :
    Shaped .expression depth (.node token (.unary op t))
  | attempt {depth token t} (h : Shaped .expression depth t) :
    Shaped .expression depth (.node token (.unary .attempt t))
  | recovery {depth token lhs payload rhs} (hl : Shaped .expression depth lhs)
    (hr : Shaped .expression depth rhs) :
    Shaped .expression depth (.node token (.recovery lhs payload rhs))
  | recoveryBlock {depth token lhs payload rhs} (hl : Shaped .expression depth lhs)
    (hr : Shaped (.block none) depth rhs) :
    Shaped .expression depth (.node token (.recovery lhs payload rhs))
  | binary {depth token op lhs rhs} {l : Level} {kind : TokenKind} (hlevel : l ≠ .assignment)
    (hop : l.operator? kind = some op) (hl : Shaped .expression depth lhs)
    (hr : Shaped .expression depth rhs) :
    Shaped .expression depth (.node token (.binary op lhs rhs))
  -- assignments
  | unassigned {depth t} (h : Shaped (.deeper .expression) depth t) :
    Shaped .assignment depth t
  | assignment {depth token op lhs rhs} {kind : TokenKind}
    (hop : Level.operator? .assignment kind = some op)
    (hl : Shaped (.deeper .expression) depth lhs)
    (hr : Shaped (.deeper .expression) depth rhs) :
    Shaped .assignment depth (.node token (.binary op lhs rhs))
  -- types
  | optional {depth token t} (h : Shaped (.deeper .type) depth t) :
    Shaped .typeMark depth (.node token (.optional t))
  | slices {depth token t} (h : Shaped (.deeper .type) depth t) :
    Shaped .typeMark depth (.node token (.array .slice none none t))
  | inferred {depth token t} {sentinel : Option Tree}
    (hsentinel : ∀ t ∈ sentinel, Shaped (.deeper .expression) depth t)
    (h : Shaped (.deeper .type) depth t) :
    Shaped .typeMark depth (.node token (.array .inferred none sentinel t))
  | sized {depth token size t} {sentinel : Option Tree}
    (hsize : Shaped (.deeper .expression) depth size)
    (hsentinel : ∀ t ∈ sentinel, Shaped (.deeper .expression) depth t)
    (h : Shaped (.deeper .type) depth t) :
    Shaped .typeMark depth (.node token (.array .sized (some size) sentinel t))
  | marked {depth t} (h : Shaped .typeMark depth t) :
    Shaped .type depth t
  | unmarked {depth t} (h : Shaped .expression depth t) :
    Shaped .type depth t
  | prototype {depth token name result isExport isExtern} {params : List (Param Tree)}
    (hparams : ∀ p ∈ params, Shaped .type depth p.type)
    (hlast : ∀ p ∈ params.dropLast, p.variadic = false)
    (hresult : Shaped .type depth result) :
    Shaped (.prototype isExport isExtern) depth
      (.node token (.prototype name params result isExport isExtern))
  -- bodies
  | block {depth token label statements}
    (h : ∀ t ∈ statements, Shaped (.deeper .statement) depth t) :
    Shaped (.block label) depth (.node token (.block label statements))
  | bodyBlock {depth t} (h : Shaped (.block none) depth t) :
    Shaped .body depth t
  | bodyAssignment {depth t} (h : Shaped .assignment depth t) :
    Shaped .body depth t
  -- declarations
  | field {depth token name type} {default : Option Tree}
    (htype : Shaped .type depth type)
    (hdefault : ∀ t ∈ default, Shaped (.deeper .expression) depth t) :
    Shaped .field depth (.node token (.field name type default))
  | flagged {depth token name isExport isMutable isConst} {type init : Option Tree}
    (hflags : isExport = true ∨ isMutable = true ∨ isConst = true)
    (hboth : ¬(isMutable = true ∧ isConst = true))
    (htype : ∀ t ∈ type, Shaped .type depth t)
    (hinit : ∀ t ∈ init, Shaped (.deeper .expression) depth t) :
    Shaped .declaration depth
      (.node token (.declaration name type init isExport isMutable isConst))
  | typed {depth token name type} {init : Option Tree}
    (htype : Shaped .typeMark depth type)
    (hinit : ∀ t ∈ init, Shaped (.deeper .expression) depth t) :
    Shaped .declaration depth
      (.node token (.declaration name (some type) init false false false))
  | named {depth token name place typeName} {init : Option Tree}
    (htype : Shaped .expression depth (.node place (.identifier typeName)))
    (hinit : ∀ t ∈ init, Shaped (.deeper .expression) depth t) :
    Shaped .declaration depth (.node token (.declaration name
      (some (.node place (.identifier typeName))) init false false false))
  -- statements
  | declared {depth t} (h : Shaped .declaration depth t) :
    Shaped .statement depth t
  | declaredFunction {depth token isExport isExtern t body}
    (hboth : ¬(isExport = true ∧ isExtern = true))
    (ht : Shaped (.prototype isExport isExtern) depth t)
    (hbody : Shaped (.block none) depth body) :
    Shaped .statement depth (.node token (.function t body))
  | declaredSignature {depth isExport isExtern t}
    (hboth : ¬(isExport = true ∧ isExtern = true))
    (h : Shaped (.prototype isExport isExtern) depth t) :
    Shaped .statement depth t
  | record {depth token name isExport isUnion fields}
    (h : ∀ t ∈ fields, Shaped .field depth t) :
    Shaped .statement depth (.node token (.record name isExport isUnion fields))
  | enumeration {depth token name isExport} {variants : List (Variant Tree)} (hne : variants ≠ [])
    (h : ∀ v ∈ variants, ∀ t ∈ v.value, Shaped (.deeper .expression) depth t) :
    Shaped .statement depth (.node token (.enumeration name isExport variants))
  | labelled {depth label t} (h : Shaped (.block label) depth t) :
    Shaped .statement depth t
  | conditional {depth t} (h : Shaped (.conditional .kwIf) depth t) :
    Shaped .statement depth t
  | branch {depth token opener condition thenBody} {elseBody : Option Tree}
    (hopener : (symbols.symbolAt token).kind = opener)
    (hcondition : Shaped (.deeper .expression) depth condition)
    (hthen : Shaped .body depth thenBody)
    (helse : ∀ t ∈ elseBody, Shaped (.deeper .statement) depth t) :
    Shaped (.conditional opener) depth
      (.node token (.conditional condition thenBody elseBody))
  | chain {depth token opener condition thenBody elseBody}
    (hopener : (symbols.symbolAt token).kind = opener)
    (hcondition : Shaped (.deeper .expression) depth condition)
    (hthen : Shaped .body depth thenBody)
    (helse : Shaped (.conditional .kwElseIf) depth elseBody) :
    Shaped (.conditional opener) depth
      (.node token (.conditional condition thenBody (some elseBody)))
  | whileLoop {depth token label condition body}
    (hcondition : Shaped (.deeper .expression) depth condition)
    (hbody : Shaped (.block none) depth body) :
    Shaped .statement depth (.node token (.loop label (some condition) body))
  /-- Only behind `for` the condition may be an assignment. -/
  | loop {depth token label body} {condition : Option Tree}
    (hopener : (symbols.symbolAt token).kind = .kwFor)
    (hcondition : ∀ t ∈ condition, Shaped .assignment depth t)
    (hbody : Shaped (.block none) depth body) :
    Shaped .statement depth (.node token (.loop label condition body))
  | declares {depth t} (h : Shaped .declaration depth t) :
    Shaped .initial depth t
  | assigns {depth t} (h : Shaped .assignment depth t) :
    Shaped .initial depth t
  | steppedLoop {depth token label body} {init condition step : Option Tree}
    (hinit : ∀ t ∈ init, Shaped .initial depth t)
    (hcondition : ∀ t ∈ condition, Shaped (.deeper .expression) depth t)
    (hstep : ∀ t ∈ step, Shaped .assignment depth t)
    (hbody : Shaped (.block none) depth body) :
    Shaped .statement depth
      (.node token (.steppedLoop label init condition step body))
  | eachLoop {depth token label binding iterable body}
    (hiterable : Shaped (.deeper .expression) depth iterable)
    (hbody : Shaped (.block none) depth body) :
    Shaped .statement depth (.node token (.eachLoop label binding iterable body))
  | deferral {depth token body} (h : Shaped .body depth body) :
    Shaped .statement depth (.node token (.deferral body))
  | breaking {depth token label} {value : Option Tree}
    (h : ∀ t ∈ value, Shaped (.deeper .expression) depth t) :
    Shaped .statement depth (.node token (.breaking label value))
  | continuing {depth token label} :
    Shaped .statement depth (.node token (.continuing label))
  | returning {depth token} {value : Option Tree}
    (h : ∀ t ∈ value, Shaped (.deeper .expression) depth t) :
    Shaped .statement depth (.node token (.returning value))
  | raising {depth token value} (h : Shaped (.deeper .expression) depth value) :
    Shaped .statement depth (.node token (.raising value))
  | performed {depth t} (h : Shaped .assignment depth t) :
    Shaped .statement depth t
  /-- A selection begins no expression as a statement, so it stands there without a level. -/
  | selected {depth t} (h : Shaped .expression depth t) :
    Shaped .statement depth t

end FrontEnd
