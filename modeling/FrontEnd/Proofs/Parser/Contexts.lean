import FrontEnd.Proofs.Parser.Frames
import FrontEnd.Proofs.Parser.Units

/-!
Expressions in their contexts. What `return E ;` reads as the value is what `E` is read as
behind every other opening of an expression, up to where its tokens stand, unless the other
place is one level too deep.
-/

namespace FrontEnd

namespace Grammar

open Script

variable {symbols : Symbols} {limit depth : Nat} {loose : Prop} {p q r : Nat} {x y : Tree}

/-! ## The source -/

/-- The value of a `return` is an expression one level further in, up to the semicolon. -/
theorem returning_inverts {t : Tree} (hreturn : (symbols.symbolAt p).kind = .kwReturn)
    (h : Rule.eval symbols limit .statement ⟨p, depth⟩ = .read (some t) ⟨r, depth⟩) :
    ∃ value q, t = .node p (.returning value) ∧
      Rule.eval symbols limit .expression ⟨p + 1, depth + 1⟩ = .read value ⟨q, depth + 1⟩ ∧
        r = symbols.next q ∧ (symbols.symbolAt q).kind = .semicolon := by
  let Q (v : Option Tree) (r : Nat) : Prop := ∀ t, v = some t →
    ∃ value q, t = .node p (.returning value) ∧
      Rule.eval symbols limit .expression ⟨p + 1, depth + 1⟩ = .read value ⟨q, depth + 1⟩ ∧
        r = symbols.next q ∧ (symbols.symbolAt q).kind = .semicolon
  rw [statement_eval_at hreturn (by decide)] at h
  refine Script.holds_of_eval (Q := Q) h ?_ t rfl
  simp only [statementAt, returning]
  rw [ensures_map, ensures_bind, ensures_here, ensures_bind, ensures_expect]
  intro _
  rw [Symbols.next_of_kind hreturn (by decide), ensures_bind]
  refine fun _ => ⟨trivial, fun value q hvalue => ?_⟩
  rw [ensures_done, ensures_bind, ensures_expect]
  rintro hsemicolon t ⟨⟩
  exact ⟨value, q, rfl, hvalue, rfl, hsemicolon⟩

end Grammar

/-! ## The contexts -/

/-- `x = E ;`, `raise E ;`, `mutable x = E ;`, `if ( E ) { }`, `while ( E ) { }`, `( E ) ;`,
`f ( E ) ;`, `xs [ E ] ;` and `x = { E } ;`. -/
inductive ExpressionContext where
  | assigned (x : String) | raised | declared (x : String) | condition | repetition | enclosed
  | argument (f : String) | subscript (xs : String) | element (x : String)
  deriving DecidableEq, Repr

namespace ExpressionContext

def before : ExpressionContext → List Symbol
  | assigned x => [.name x, .word .assign]
  | raised => [.word .kwRaise]
  | declared x => [.word .kwMutable, .name x, .word .assign]
  | condition => [.word .kwIf, .word .leftParen]
  | repetition => [.word .kwWhile, .word .leftParen]
  | enclosed => [.word .leftParen]
  | argument f => [.name f, .word .leftParen]
  | subscript xs => [.name xs, .word .leftBracket]
  | element x => [.name x, .word .assign, .word .leftBrace]

def after : ExpressionContext → List Symbol
  | assigned _ | raised | declared _ => [.word .semicolon]
  | condition | repetition => [.word .rightParen, .word .leftBrace, .word .rightBrace]
  | enclosed | argument _ => [.word .rightParen, .word .semicolon]
  | subscript _ => [.word .rightBracket, .word .semicolon]
  | element _ => [.word .rightBrace, .word .semicolon]

/-- The levels of nesting that the context opens, beyond those of `return E ;`. -/
def levels : ExpressionContext → Nat
  | assigned _ | raised | declared _ | condition | repetition => 0
  | enclosed | argument _ | subscript _ | element _ => 1

/-- What a source becomes that is the context with `n` tokens in it, which are read as `v`. -/
def item (n : Nat) (v : Tree) : ExpressionContext → Tree
  | assigned x => .node 1 (.binary .assign (.node 0 (.identifier x)) v)
  | raised => .node 0 (.raising v)
  | declared x => .node 0 (.declaration x none (some v) false true false)
  | condition => .node 0 (.conditional v (.node (n + 3) (.block none [])) none)
  | repetition => .node 0 (.loop none (some v) (.node (n + 3) (.block none [])))
  | enclosed => v
  | argument f => .node 1 (.call (.node 0 (.identifier f)) [v])
  | subscript xs => .node 1 (.index (.node 0 (.identifier xs)) v)
  | element x => .node 1 (.binary .assign (.node 0 (.identifier x)) (.node 2 (.elements [v])))

end ExpressionContext

namespace Grammar

open Script

variable {symbols : Symbols} {limit depth n : Nat} {loose : Prop} {p q r : Nat} {x y : Tree}
  {rest : List Symbol} {name : String}

/-- A statement that begins with a name, and not with two, a label or a declaration. -/
theorem statement_obtained_name (hname : symbols.symbolAt p = .name name)
    (hnext : (symbols.symbolAt (p + 1)).kind ≠ .identifier)
    (hcolon : (symbols.symbolAt (p + 1)).kind ≠ .colon)
    (h : assignment.Obtains symbols limit loose depth p (some x) q)
    (hend : (symbols.symbolAt q).kind = .semicolon) :
    Rule.statement.Obtains symbols limit loose depth p (some x) (q + 1) := by
  have hkind : (symbols.symbolAt p).kind = .identifier := by rw [hname, Symbol.name]
  have hlabelled : Rule.eval symbols limit .labelled ⟨p, depth⟩ = .read none ⟨p, depth⟩ :=
    labelled_none (by rw [hkind]; decide) fun _ => hcolon
  refine obtains_of_eval_eq (statement_eval_of (by rw [hkind]; decide) (by rw [hkind]; decide)
    fun _ => hnext) ?_
  rw [hkind]
  refine obtains_bind (.of_eval ((eval_run _).trans hlabelled)) ?_
  exact expressionStatement_obtained h hend

theorem assigned_obtained (hd : depth < limit ∨ loose)
    (hbefore : symbols.Stand 0 (.name name :: .word .assign :: rest))
    (h : Rule.expression.Obtains symbols limit loose (depth + 1) 2 (some x) q)
    (hend : (symbols.symbolAt q).kind = .semicolon) :
    Rule.statement.Obtains symbols limit loose depth 0
      (some (.node 1 (.binary .assign (.node 0 (.identifier name)) x))) (q + 1) := by
  have hassign : symbols.symbolAt 1 = .word .assign := hbefore.tail.symbolAt
  have hname := hbefore.symbolAt
  have hlhs : Rule.expression.Obtains symbols limit loose (depth + 1) 0
      (some (.node 0 (.identifier name))) 1 :=
    name_obtained hname (by rw [hassign]; rfl) (by rw [hassign]; decide)
  exact statement_obtained_name hname (by rw [hassign]; decide) (by rw [hassign]; decide)
    (assignment_obtained hd hlhs (by rw [hassign]; rfl) h) hend

theorem raised_obtained (hd : depth < limit ∨ loose)
    (hbefore : symbols.Stand 0 (.word .kwRaise :: rest))
    (h : Rule.expression.Obtains symbols limit loose (depth + 1) 1 (some x) q)
    (hend : (symbols.symbolAt q).kind = .semicolon) :
    Rule.statement.Obtains symbols limit loose depth 0 (some (.node 0 (.raising x)))
      (q + 1) := by
  have hraise : (symbols.symbolAt 0).kind = .kwRaise := hbefore.kind
  refine obtains_of_eval_eq (statement_eval_at hraise (by decide)) ?_
  refine obtains_map (obtains_bind obtains_here ?_)
  refine obtains_bind (obtains_expect hraise hbefore.next) ?_
  refine obtains_bind (obtains_require (obtains_deeper hd h)) ?_
  exact obtains_bind (obtains_expect hend (Symbols.next_of_kind hend (by decide))) (obtains_pure _)

theorem declared_obtained (hd : depth < limit ∨ loose)
    (hbefore : symbols.Stand 0 (.word .kwMutable :: .name name :: .word .assign :: rest))
    (h : Rule.expression.Obtains symbols limit loose (depth + 1) 3 (some x) q)
    (hend : (symbols.symbolAt q).kind = .semicolon) :
    Rule.statement.Obtains symbols limit loose depth 0
      (some (.node 0 (.declaration name none (some x) false true false))) (q + 1) := by
  have hmutable : (symbols.symbolAt 0).kind = .kwMutable := hbefore.kind
  have hsymbol : symbols.symbolAt 1 = .name name := hbefore.tail.symbolAt
  have hname : (symbols.symbolAt 1).kind = .identifier := by rw [hsymbol]; rfl
  have hassign : (symbols.symbolAt 2).kind = .assign := hbefore.tail.tail.kind
  have hmodifiers : Rule.modifiers.Obtains symbols limit loose depth 0 (true, false) 1 := by
    have hnone : Rule.modifiers.Obtains symbols limit loose depth 1 (false, false) 1 :=
      obtains_bind (obtains_accept_of_ne (by rw [hname]; decide))
        (obtains_bind (obtains_accept_of_ne (by rw [hname]; decide)) (obtains_pure _))
    refine obtains_bind (obtains_accept hmutable hbefore.next) ?_
    exact obtains_bind (obtains_run hnone) (obtains_pure _)
  have hinitializer : initializer.Obtains symbols limit loose depth 2 (some x) q := by
    refine obtains_bind (obtains_accept hassign hbefore.tail.tail.next) ?_
    exact obtains_bind (obtains_require (obtains_deeper hd h)) (obtains_pure _)
  have hdeclaration : Rule.declaration.Obtains symbols limit loose depth 0
      (.node 0 (.declaration name none (some x) false true false)) (q + 1) := by
    refine obtains_bind obtains_here ?_
    refine obtains_bind (obtains_accept_of_ne (by rw [hmutable]; decide)) ?_
    refine obtains_bind (obtains_run hmodifiers) ?_
    refine obtains_bind obtains_sight (obtains_ite_true ?_ ?_)
    · simp [Sight.omitsType, hname, hassign]
    refine obtains_bind (obtains_pure _) ?_
    refine obtains_bind (obtains_expect hname hbefore.tail.next) ?_
    refine obtains_bind hinitializer ?_
    refine obtains_bind (obtains_expect hend (Symbols.next_of_kind hend (by decide))) ?_
    rw [hsymbol]
    exact obtains_pure _
  have hopens : (symbols.sight 0).opensVariable = true := by
    simp [Sight.opensVariable, hmutable]
  exact statement_obtained_variable (containerIfAny_none (by rw [hmutable]; decide)) hopens
    hdeclaration

theorem condition_context_obtained (hd : depth < limit ∨ loose)
    (hbefore : symbols.Stand 0 (.word .kwIf :: .word .leftParen :: rest))
    (h : Rule.expression.Obtains symbols limit loose (depth + 1) 2 (some x) q)
    (hafter : symbols.Stand q [.word .rightParen, .word .leftBrace, .word .rightBrace]) :
    Rule.statement.Obtains symbols limit loose depth 0
      (some (.node 0 (.conditional x (.node (q + 1) (.block none [])) none))) (q + 3) := by
  have hif : (symbols.symbolAt 0).kind = .kwIf := hbefore.kind
  have hopen : (symbols.symbolAt 1).kind = .leftParen := hbefore.tail.kind
  have hclose : (symbols.symbolAt q).kind = .rightParen := hafter.kind
  have hbrace : (symbols.symbolAt (q + 1)).kind = .leftBrace := hafter.tail.kind
  have hbrace' : (symbols.symbolAt (q + 2)).kind = .rightBrace := hafter.tail.tail.kind
  have hend : (symbols.symbolAt (q + 3)).kind = .endOfFile := hafter.tail.tail.tail.kind
  have hbody : Rule.body.Obtains symbols limit loose depth (q + 1)
      (.node (q + 1) (.block none [])) (q + 3) := by
    have hblock : blockOrAssignment.Obtains symbols limit loose depth (q + 1)
        (.node (q + 1) (.block none []), true) (q + 3) :=
      obtains_bind (obtains_run (block_obtained_empty hbrace hbrace')) (obtains_pure _)
    exact obtains_bind hblock (obtains_pure _)
  have hconditional : Rule.conditional.Obtains symbols limit loose depth 0
      (.node 0 (.conditional x (.node (q + 1) (.block none [])) none)) (q + 3) := by
    refine obtains_bind obtains_here ?_
    refine obtains_bind (obtains_accept_of_ne (by rw [hif]; decide)) ?_
    refine obtains_bind (obtains_expect hif hbefore.next) ?_
    refine obtains_bind (condition_obtained hd hopen h hclose) ?_
    refine obtains_bind (obtains_run hbody) ?_
    refine obtains_bind (obtains_accept_of_ne (by rw [hend]; decide)) ?_
    exact obtains_bind obtains_sight (obtains_ite_false (by simp [hend]) (obtains_pure _))
  refine obtains_of_eval_eq (statement_eval_at hif (by decide)) ?_
  exact obtains_map (obtains_run hconditional)

theorem repetition_obtained (hd : depth < limit ∨ loose)
    (hbefore : symbols.Stand 0 (.word .kwWhile :: .word .leftParen :: rest))
    (h : Rule.expression.Obtains symbols limit loose (depth + 1) 2 (some x) q)
    (hafter : symbols.Stand q [.word .rightParen, .word .leftBrace, .word .rightBrace]) :
    Rule.statement.Obtains symbols limit loose depth 0
      (some (.node 0 (.loop none (some x) (.node (q + 1) (.block none []))))) (q + 3) := by
  have hwhile : (symbols.symbolAt 0).kind = .kwWhile := hbefore.kind
  have hopen : (symbols.symbolAt 1).kind = .leftParen := hbefore.tail.kind
  have hclose : (symbols.symbolAt q).kind = .rightParen := hafter.kind
  have hbrace : (symbols.symbolAt (q + 1)).kind = .leftBrace := hafter.tail.kind
  have hbrace' : (symbols.symbolAt (q + 2)).kind = .rightBrace := hafter.tail.tail.kind
  have hloop : (Rule.whileLoop none).Obtains symbols limit loose depth 0
      (.node 0 (.loop none (some x) (.node (q + 1) (.block none [])))) (q + 3) := by
    refine obtains_bind obtains_here ?_
    refine obtains_bind (obtains_expect hwhile hbefore.next) ?_
    refine obtains_bind (condition_obtained hd hopen h hclose) ?_
    exact obtains_bind (obtains_require (obtains_run (block_obtained_empty hbrace hbrace')))
      (obtains_pure _)
  have hany : (loopIfAny none).Obtains symbols limit loose depth 0
      (some (.node 0 (.loop none (some x) (.node (q + 1) (.block none []))))) (q + 3) := by
    refine obtains_bind obtains_sight ?_
    simp only [Symbols.sight_kind, hwhile]
    exact obtains_bind (obtains_run hloop) (obtains_pure _)
  refine statement_obtained_labelled (by rw [hwhile]; decide) ?_
  refine obtains_bind (.of_eval (label_none (by rw [hwhile]; rintro ⟨⟩))) ?_
  refine obtains_bind (.of_eval (block_none (by rw [hwhile]; decide))) ?_
  exact obtains_bind hany (obtains_pure _)

/-- What stands behind an operand that ends a statement. -/
theorem suffixed_statement_obtained (hd : depth < limit ∨ loose)
    (h : Rule.suffixed.Obtains symbols limit loose (depth + 1) p (some x) q)
    (hop : UnaryOp.ofKind? (symbols.symbolAt p).kind = none)
    (hbrace : (symbols.symbolAt p).kind ≠ .leftBrace)
    (hend : (symbols.symbolAt q).kind = .semicolon) :
    assignment.Obtains symbols limit loose depth p (some x) q := by
  have htry : (symbols.symbolAt p).kind ≠ .kwTry := by
    rintro hk
    rw [hk] at hop
    cases hop
  exact assignment_obtained_plain hd
    (operand_obtained htry (unary_obtained hop hbrace h) (by rw [hend]; rfl)) (by rw [hend]; rfl)

theorem enclosed_statement_obtained (hd : depth < limit ∨ loose) (hd' : depth + 1 < limit ∨ loose)
    (hbefore : symbols.Stand 0 (.word .leftParen :: rest))
    (h : Rule.expression.Obtains symbols limit loose (depth + 2) 1 (some x) q)
    (hafter : symbols.Stand q [.word .rightParen, .word .semicolon]) :
    Rule.statement.Obtains symbols limit loose depth 0 (some x) (q + 2) := by
  have hopen : (symbols.symbolAt 0).kind = .leftParen := hbefore.kind
  have hclose : (symbols.symbolAt q).kind = .rightParen := hafter.kind
  have hend : (symbols.symbolAt (q + 1)).kind = .semicolon := hafter.tail.kind
  have hsuffixed : Rule.suffixed.Obtains symbols limit loose (depth + 1) 0 (some x) (q + 1) :=
    suffixed_obtained (enclosed_obtained hopen hd' h hclose)
      (suffixes_obtained_nil (by rw [hend]; decide))
  have hassignment := suffixed_statement_obtained hd hsuffixed (by rw [hopen]; rfl)
    (by rw [hopen]; decide) hend
  have hlabelled : Rule.eval symbols limit .labelled ⟨0, depth⟩ = .read none ⟨0, depth⟩ :=
    labelled_none (by rw [hopen]; decide) (by rw [hopen]; rintro ⟨⟩)
  refine obtains_of_eval_eq (statement_eval_at hopen (by decide)) ?_
  refine obtains_bind (.of_eval ((eval_run _).trans hlabelled)) ?_
  exact expressionStatement_obtained hassignment hend

/-- A name with suffixes behind it. -/
theorem name_suffixed_obtained {suffixes : List (Nat × Suffix)} (hd : depth < limit ∨ loose)
    (hname : symbols.symbolAt 0 = .name name)
    (hsuffix : (symbols.symbolAt 1).kind ∈ TokenKind.suffixes)
    (h : Rule.suffixes.Obtains symbols limit loose (depth + 1) 1 suffixes q)
    (hend : (symbols.symbolAt q).kind = .semicolon) :
    Rule.statement.Obtains symbols limit loose depth 0
      (some (attach suffixes (.node 0 (.identifier name)))) (q + 1) := by
  have hkind : (symbols.symbolAt 0).kind = .identifier := by rw [hname, Symbol.name]
  have hnext {k : TokenKind} (hk : k ∉ TokenKind.suffixes) : (symbols.symbolAt 1).kind ≠ k := by
    rintro rfl
    exact hk hsuffix
  have hprimary : Rule.primary.Obtains symbols limit loose (depth + 1) 0
      (some (.node 0 (.identifier name))) 1 := leaf_obtained (by rw [hname]; rfl)
  exact statement_obtained_name hname (hnext (by decide)) (hnext (by decide))
    (suffixed_statement_obtained hd (suffixed_obtained hprimary h) (by rw [hkind]; rfl)
      (by rw [hkind]; decide) hend) hend

theorem argument_obtained (hd : depth < limit ∨ loose) (hd' : depth + 1 < limit ∨ loose)
    (hbefore : symbols.Stand 0 (.name name :: .word .leftParen :: rest))
    (hfirst : (symbols.symbolAt 2).kind ≠ .rightParen)
    (h : Rule.expression.Obtains symbols limit loose (depth + 2) 2 (some x) q)
    (hafter : symbols.Stand q [.word .rightParen, .word .semicolon]) :
    Rule.statement.Obtains symbols limit loose depth 0
      (some (.node 1 (.call (.node 0 (.identifier name)) [x]))) (q + 2) := by
  have hopen : (symbols.symbolAt 1).kind = .leftParen := hbefore.tail.kind
  have hclose : (symbols.symbolAt q).kind = .rightParen := hafter.kind
  have hend : (symbols.symbolAt (q + 1)).kind = .semicolon := hafter.tail.kind
  have hsuffixes : Rule.suffixes.Obtains symbols limit loose (depth + 1) 1 [(1, .call [x])]
      (q + 1) :=
    suffixes_obtained_call hopen (listed_obtained_single hd' hfirst h hclose)
      (suffixes_obtained_nil (by rw [hend]; decide))
  exact name_suffixed_obtained hd hbefore.symbolAt (by rw [hopen]; decide) hsuffixes hend

theorem subscript_obtained (hd : depth < limit ∨ loose) (hd' : depth + 1 < limit ∨ loose)
    (hbefore : symbols.Stand 0 (.name name :: .word .leftBracket :: rest))
    (h : Rule.expression.Obtains symbols limit loose (depth + 2) 2 (some x) q)
    (hafter : symbols.Stand q [.word .rightBracket, .word .semicolon]) :
    Rule.statement.Obtains symbols limit loose depth 0
      (some (.node 1 (.index (.node 0 (.identifier name)) x))) (q + 2) := by
  have hopen : (symbols.symbolAt 1).kind = .leftBracket := hbefore.tail.kind
  have hclose : (symbols.symbolAt q).kind = .rightBracket := hafter.kind
  have hend : (symbols.symbolAt (q + 1)).kind = .semicolon := hafter.tail.kind
  have hsuffixes : Rule.suffixes.Obtains symbols limit loose (depth + 1) 1 [(1, .index x)]
      (q + 1) :=
    suffixes_obtained_index hd' hopen h hclose (suffixes_obtained_nil (by rw [hend]; decide))
  exact name_suffixed_obtained hd hbefore.symbolAt (by rw [hopen]; decide) hsuffixes hend

theorem element_obtained (hd : depth < limit ∨ loose) (hd' : depth + 1 < limit ∨ loose)
    (hbefore : symbols.Stand 0 (.name name :: .word .assign :: .word .leftBrace :: rest))
    (hfirst : (symbols.symbolAt 3).kind ≠ .rightBrace)
    (h : Rule.expression.Obtains symbols limit loose (depth + 2) 3 (some x) q)
    (hafter : symbols.Stand q [.word .rightBrace, .word .semicolon]) :
    Rule.statement.Obtains symbols limit loose depth 0
      (some (.node 1 (.binary .assign (.node 0 (.identifier name)) (.node 2 (.elements [x])))))
      (q + 2) := by
  have hopen : (symbols.symbolAt 2).kind = .leftBrace := hbefore.tail.tail.kind
  have hclose : (symbols.symbolAt q).kind = .rightBrace := hafter.kind
  have hend : (symbols.symbolAt (q + 1)).kind = .semicolon := hafter.tail.kind
  have hunary : Rule.unary.Obtains symbols limit loose (depth + 1) 2
      (some (.node 2 (.elements [x]))) (q + 1) :=
    elements_obtained hopen (listed_obtained_single hd' hfirst h hclose)
  exact assigned_obtained hd hbefore
    (operand_obtained (by rw [hopen]; decide) hunary (by rw [hend]; rfl)) hend

end Grammar

namespace ExpressionContext

open Grammar

variable {symbols : Symbols} {limit depth : Nat} {loose : Prop} {p q r : Nat} {x y : Tree}

/-- An expression within a context, read up to the first symbol behind it, makes the context's
item. -/
theorem statement_obtained (c : ExpressionContext) {list : List Symbol} (hd : 1 < limit)
    (hloose : 0 < c.levels → loose)
    (hbefore : symbols.Stand 0 (c.before ++ (list ++ c.after)))
    (hfirst : (symbols.symbolAt c.before.length).kind.closes = false)
    (h : Rule.expression.Obtains symbols limit loose (2 + c.levels) c.before.length (some x)
      (c.before.length + list.length)) :
    Rule.statement.Obtains symbols limit loose 1 0 (some (c.item list.length x))
      symbols.size := by
  have hafter : symbols.Stand (c.before.length + list.length) c.after := by
    have hlist := hbefore.append.append
    rwa [Nat.zero_add] at hlist
  have hsize : symbols.size = c.before.length + list.length + c.after.length := by
    have hlength := congrArg List.length hbefore
    simp at hlength
    omega
  have hlevel : 1 < limit ∨ loose := .inl hd
  have hdeeper (hc : c.levels = 1) : 1 + 1 < limit ∨ loose := .inr (hloose (by omega))
  have hne {k : TokenKind} (hk : k.closes = true) :
      (symbols.symbolAt c.before.length).kind ≠ k := by
    rintro rfl
    rw [hk] at hfirst
    cases hfirst
  rw [hsize]
  cases c with
  | assigned name =>
    exact assigned_obtained hlevel hbefore h hafter.kind
  | raised => exact raised_obtained hlevel hbefore h hafter.kind
  | declared name =>
    exact declared_obtained hlevel hbefore h hafter.kind
  | condition =>
    have hitem := condition_context_obtained hlevel hbefore h hafter
    rw [Nat.add_right_comm, Nat.add_comm _ list.length] at hitem
    exact hitem
  | repetition =>
    have hitem := repetition_obtained hlevel hbefore h hafter
    rw [Nat.add_right_comm, Nat.add_comm _ list.length] at hitem
    exact hitem
  | enclosed => exact enclosed_statement_obtained hlevel (hdeeper rfl) hbefore h hafter
  | argument name => exact argument_obtained hlevel (hdeeper rfl) hbefore (hne rfl) h hafter
  | subscript name => exact subscript_obtained hlevel (hdeeper rfl) hbefore h hafter
  | element name => exact element_obtained hlevel (hdeeper rfl) hbefore (hne rfl) h hafter

end ExpressionContext

/-! ## Streams -/

namespace TokenStream

/-- The stream is `return E ;`. -/
def Returns (s : TokenStream) (list : List Symbol) : Prop :=
  s.body.map (·.symbol) = .word .kwReturn :: (list ++ [.word .semicolon])

/-- The stream is the context with `E` in it. -/
def Embeds (s : TokenStream) (c : ExpressionContext) (list : List Symbol) : Prop :=
  s.body.map (·.symbol) = c.before ++ (list ++ c.after)

variable {s s' : TokenStream} {c : ExpressionContext} {list : List Symbol}

theorem Returns.frames (h : s.Returns list) :
    s.Frames [.word .kwReturn] list [.word .semicolon] where
  body := h
  before := by decide
  after := by decide

theorem Embeds.frames (h : s.Embeds c list) : s.Frames c.before list c.after where
  body := h
  before := by cases c <;> simp [ExpressionContext.before, Symbol.word, Symbol.name] <;> decide
  after := by cases c <;> simp [ExpressionContext.after, Symbol.word] <;> decide

theorem Returns.symbols (h : s.Returns list) : s.symbols.Stand 0
    (.word .kwReturn :: (list.filter (!·.kind.isTrivia) ++ [.word .semicolon])) :=
  h.frames.symbols

theorem Embeds.symbols (h : s.Embeds c list) : s.symbols.Stand 0
    (c.before ++ (list.filter (!·.kind.isTrivia) ++ c.after)) :=
  h.frames.symbols

/-- Where the symbols of `return E ;` stand in the context, its end and all behind it
included. -/
def moved (c : ExpressionContext) (list : List Symbol) (i : Nat) : Nat :=
  min i ((list.filter (!·.kind.isTrivia)).length + 2) + (c.before.length - 1)

theorem tokenAt_moved (h : s.Returns list) (h' : s'.Embeds c list) (i : Nat) :
    ((Cursor.start s').tokenAt (moved c list i)).2 =
      ((Cursor.start s).tokenAt i).2 + (c.before.length - 1) :=
  h.frames.tokenAt_moved h'.frames (by cases c <;> rfl) (by cases c <;> nofun) i

end TokenStream

namespace ExpressionContext

theorem item_mapTokens (c : ExpressionContext) {m n : Nat} {g : Nat → Nat} (v : Tree)
    (hbefore : ∀ i < c.before.length, g i = i)
    (hafter : ∀ i < c.after.length, g (c.before.length + m + i) = c.before.length + n + i) :
    (c.item m v).mapTokens g = c.item n (v.mapTokens g) := by
  have hzero : g 0 = 0 := hbefore 0 (by cases c <;> simp [before])
  cases c with
  | assigned x =>
    have hone : g 1 = 1 := hbefore 1 (by simp [before])
    simp [item, hzero, hone]
  | raised => simp [item, hzero]
  | declared x => simp [item, hzero]
  | condition | repetition =>
    have hbrace := hafter 1 (by simp [after])
    simp only [before, List.length_cons, List.length_nil] at hbrace
    rw [Nat.add_right_comm, Nat.add_comm _ m, Nat.add_right_comm, Nat.add_comm _ n] at hbrace
    simpa [item, hzero] using hbrace
  | enclosed => rfl
  | argument f | subscript f =>
    have hone : g 1 = 1 := hbefore 1 (by simp [before])
    simp [item, hzero, hone]
  | element x =>
    have hone : g 1 = 1 := hbefore 1 (by simp [before])
    have htwo : g 2 = 2 := hbefore 2 (by simp [before])
    simp [item, hzero, hone, htwo]

end ExpressionContext

namespace TokenStream

variable {s s' : TokenStream} {c : ExpressionContext} {list : List Symbol}

/-- `E` in `return E ;` and in the context. -/
def window (h : s.Returns list) (h' : s'.Embeds c list) : Window where
  source := s.symbols
  target := s'.symbols
  start := 1
  stop := 1 + (list.filter (!·.kind.isTrivia)).length
  shift := c.before.length - 1
  extra := c.levels
  move := moved c list
  same p hs hp := by
    have hpositive : 1 ≤ c.before.length := by cases c <;> simp [ExpressionContext.before]
    obtain ⟨i, rfl⟩ := Nat.exists_eq_add_of_le hs
    have hsame := h.frames.symbolAt_eq h'.frames (i := i) (by omega)
    have hplace : c.before.length + i = 1 + i + (c.before.length - 1) := by omega
    rwa [hplace] at hsame
  stops := h.symbols.tail.append.kind
  closes := by
    have hpositive : 1 ≤ c.before.length := by cases c <;> simp [ExpressionContext.before]
    have hposition : 1 + (list.filter (!·.kind.isTrivia)).length + (c.before.length - 1) =
        0 + c.before.length + (list.filter (!·.kind.isTrivia)).length := by omega
    have hafter := h'.symbols.append.append
    rw [hposition]
    cases c <;> (rw [hafter.symbolAt]; rfl)
  move_eq p _ hp := by
    rw [moved, Nat.min_eq_left (by omega)]

theorem Returns.kind_ne_endOfFile (h : s.Returns list)
    (hlist : ∀ x ∈ list, x.kind ≠ .endOfFile) {p : Nat} (hp : p < s.symbols.size) :
    (s.symbols.symbolAt p).kind ≠ .endOfFile := by
  have hat : s.symbols.symbolAt p ∈ s.symbols.toList := by
    simp [Symbols.symbolAt, hp]
  have hsymbols : s.symbols.toList = _ := h.symbols
  simp only [hsymbols, List.mem_cons, List.mem_append, List.mem_filter, List.not_mem_nil,
    or_false] at hat
  rcases hat with hat | hat | hat
  · rw [hat]
    decide
  · exact hlist _ hat.1
  · rw [hat]
    decide

/-- What `return E ;` is read as. -/
theorem Returns.inverts (h : s.Returns list) (hlist : ∀ x ∈ list, x.kind ≠ .endOfFile)
    {a b : Nat} {v : Tree}
    (hparse : FrontEnd.parse s = .ok (.node a (.root [.node b (.returning (some v))]))) :
    ∃ u, v = u.mapTokens (fun i => ((Cursor.start s).tokenAt i).2) ∧
      Rule.eval s.symbols nestingLimit .expression ⟨1, 2⟩ =
        .read (some u) ⟨1 + (list.filter (!·.kind.isTrivia)).length, 2⟩ := by
  obtain ⟨items, r, hunit, hroot⟩ := eval_of_parse hparse
  have hitems : [Tree.node b (.returning (some v))] =
      items.map (Tree.mapTokens fun i => ((Cursor.start s).tokenAt i).2) := by
    simp at hroot
    exact hroot.2
  obtain ⟨item, rfl, hitem⟩ := List.map_eq_singleton_iff.mp hitems.symm
  obtain ⟨q, hstatement, hrest⟩ := Grammar.unit_inverts hunit
  have hreturn : (s.symbols.symbolAt 0).kind = .kwReturn := h.symbols.kind
  obtain ⟨value, e, rfl, hvalue, rfl, hsemicolon⟩ := Grammar.returning_inverts hreturn hstatement
  obtain ⟨u, rfl, rfl⟩ : ∃ u, value = some u ∧
      v = u.mapTokens fun i => ((Cursor.start s).tokenAt i).2 := by
    cases value with
    | none => simp at hitem
    | some u =>
      simp at hitem
      exact ⟨u, rfl, hitem.2.symm⟩
  refine ⟨u, rfl, ?_⟩
  have hstop : s.symbols.next e = s.symbols.size := by
    have hkeeps := Rule.eval_keeps s.symbols nestingLimit .statement ⟨0, 1⟩
    rw [hstatement] at hkeeps
    have hle := hkeeps.2.1 (Nat.zero_le _)
    refine Nat.le_antisymm hle (Nat.le_of_not_lt fun hlt => ?_)
    refine h.kind_ne_endOfFile hlist hlt (Grammar.unit_inverts_nil hrest)
  rw [Symbols.next_of_kind hsemicolon (by decide)] at hstop
  have hsize : s.symbols.size = (list.filter (!·.kind.isTrivia)).length + 2 := by
    have hlength := congrArg List.length h.symbols
    simpa using hlength
  have he : e = 1 + (list.filter (!·.kind.isTrivia)).length := by omega
  rw [← he]
  exact hvalue

/-- The symbol with which the value begins closes nothing, in both streams. -/
theorem Embeds.first_closes (h : s.Returns list) (h' : s'.Embeds c list) {u : Tree} {q : Nat}
    (hvalue : Rule.eval s.symbols nestingLimit .expression ⟨1, 2⟩ = .read (some u) ⟨q, 2⟩) :
    (s'.symbols.symbolAt c.before.length).kind.closes = false := by
  let w := window h h'
  have hsource : (s.symbols.symbolAt 1).kind.closes = false := by
    cases hcloses : (s.symbols.symbolAt 1).kind.closes with
    | false => rfl
    | true =>
      have hmark : (s.symbols.symbolAt 1).kind ∉
          [TokenKind.leftBrace, .kwFunc, .kwMatch, .leftParen] := by
        rcases TokenKind.eq_of_closes hcloses with hk | hk | hk | hk <;> rw [hk] <;> decide
      have hnone : Rule.expression.Obtains s.symbols nestingLimit False 2 1 none 1 :=
        Grammar.expression_obtained_none (UnaryOp.ofKind?_of_closes hcloses)
          (Symbol.leaf?_of_closes hcloses) hmark
      have hread := hnone.eval_eq not_false
      rw [hvalue] at hread
      cases hread
  have hlt : 1 < w.stop := by
    have hle : 1 ≤ w.stop := Nat.le_add_right 1 _
    refine Nat.lt_of_le_of_ne hle fun heq => ?_
    have hstop : (s.symbols.symbolAt w.stop).kind.closes = true := w.source_closes
    rw [← heq, hsource] at hstop
    cases hstop
  have hsame := w.same 1 (Nat.le_refl 1) hlt
  have hpositive : 1 ≤ c.before.length := by cases c <;> simp [ExpressionContext.before]
  have hposition : 1 + w.shift = c.before.length := by
    change 1 + (c.before.length - 1) = _
    omega
  rw [hposition] at hsame
  change s'.symbols.symbolAt _ = _ at hsame
  rw [hsame]
  exact hsource

theorem Embeds.illegal?_eq_none (h : s.Returns list) (h' : s'.Embeds c list) {root : Tree}
    (hparse : FrontEnd.parse s = .ok root) : s'.illegal? = none :=
  h'.frames.illegal?_eq_none (h.frames.kind_ne_illegal hparse)

end TokenStream

/-- The value that a source of one `return` returns. -/
def Tree.returned? : Tree → Option Tree
  | .node _ (.root [.node _ (.returning value)]) => value
  | _ => none

theorem parse_of_returned {s : TokenStream}
    (h : ((parse s).toOption.bind Tree.returned?).isSome = true) :
    ∃ a b v, parse s = .ok (.node a (.root [.node b (.returning (some v))])) := by
  obtain ⟨v, hv⟩ := Option.isSome_iff_exists.mp h
  obtain ⟨root, hroot, hreturned⟩ := Option.bind_eq_some_iff.mp hv
  cases hparse : parse s with
  | error fault =>
    rw [hparse] at hroot
    cases hroot
  | ok root' =>
    rw [hparse] at hroot
    cases hroot
    unfold Tree.returned? at hreturned
    split at hreturned
    · cases hreturned
      exact ⟨_, _, v, rfl⟩
    · cases hreturned

open TokenStream

variable {s s' : TokenStream} {c : ExpressionContext} {list : List Symbol}

/-- An expression that stands behind `return` is read in every context as it is there, with
its tokens moved to their new places; or the context opens a level of nesting that is one
too many. -/
theorem parse_in_context (hlist : ∀ x ∈ list, x.kind ≠ .endOfFile) (h : s.Returns list)
    (h' : s'.Embeds c list) {a b : Nat} {v : Tree}
    (hparse : parse s = .ok (.node a (.root [.node b (.returning (some v))]))) :
    parse s' = .ok (.node 0 (.root
        [c.item list.length (v.mapTokens fun i => i + (c.before.length - 1))])) ∨
      0 < c.levels ∧ ∃ location, parse s' =
        .error ⟨.structural, (Cause.nestedTooDeeply nestingLimit).message, location⟩ := by
  obtain ⟨u, rfl, hvalue⟩ := h.inverts hlist hparse
  have hpositive : 1 ≤ c.before.length := by cases c <;> simp [ExpressionContext.before]
  have hobtained : Rule.expression.Obtains s'.symbols nestingLimit (0 < c.levels) (2 + c.levels)
      c.before.length (some (u.mapTokens (moved c list)))
      (c.before.length + (list.filter (!·.kind.isTrivia)).length) := by
    have hwindow := (window h h').obtains hvalue (Nat.le_refl 1) (Nat.le_refl _)
    have hstart : 1 + (c.before.length - 1) = c.before.length := by omega
    have hstop : 1 + (list.filter (!·.kind.isTrivia)).length + (c.before.length - 1) =
        c.before.length + (list.filter (!·.kind.isTrivia)).length := by omega
    change Rule.Obtains _ _ (0 < c.levels) (2 + c.levels) _ (1 + (c.before.length - 1)) _
      (1 + (list.filter (!·.kind.isTrivia)).length + (c.before.length - 1)) at hwindow
    rw [hstart, hstop] at hwindow
    exact hwindow
  have hfirst : (s'.symbols.symbolAt 0).kind ≠ .endOfFile := by
    have hbefore := h'.symbols
    cases c <;> (rw [hbefore.symbolAt]; rintro ⟨⟩)
  have hend : (s'.symbols.symbolAt s'.symbols.size).kind = .endOfFile := by
    simp [Symbols.symbolAt, Symbol.last]
  have hunit := Grammar.unit_obtained hfirst (.inl (by decide))
    (c.statement_obtained (by decide) id h'.symbols (Embeds.first_closes h h' hvalue) hobtained)
    hend
  have hillegal := Embeds.illegal?_eq_none h h' hparse
  rcases hunit with hread | ⟨hlevels, t, hfailed⟩
  · rw [← Rule.eval_eq] at hread
    refine .inl ((Cursor.parseWithin_of_read (c := Cursor.start s') hillegal hread).trans ?_)
    have hmoved : (fun i => ((Cursor.start s').tokenAt i).2) ∘ moved c list =
        (fun i => i + (c.before.length - 1)) ∘ fun i => ((Cursor.start s).tokenAt i).2 :=
      funext fun i => tokenAt_moved h h' i
    have houtside := h'.frames.tokenAt_outside
    have hzero : ((Cursor.start s').tokenAt 0).2 = 0 := houtside.1 0 hpositive
    have hitem := c.item_mapTokens (u.mapTokens (moved c list)) houtside.1 houtside.2
    rw [Tree.mapTokens_mapTokens, hmoved, ← Tree.mapTokens_mapTokens] at hitem
    simp only [Tree.mapTokens_node, Cursor.start, Form.map, Form.mapTokens, List.map_cons,
      List.map_nil] at hzero hitem ⊢
    rw [hzero, hitem]
  · rw [← Rule.eval_eq] at hfailed
    exact .inr ⟨hlevels, _, Cursor.parseWithin_of_failed (c := Cursor.start s') hillegal hfailed⟩

theorem parse_in_context_of_sum :
    let s := lex "return a /* b */ + 1;" "c.hz"
    let s' := lex "f(a + 1);" "c.hz"
    let list : List Symbol := [.name "a", .word .plus, ⟨.decimalInteger, "1"⟩]
    s.Returns list ∧ s'.Embeds (.argument "f") list ∧ ∃ a b v,
      parse s = .ok (.node a (.root [.node b (.returning (some v))])) ∧
        parse s' = .ok (.node 0 (.root
          [.node 1 (.call (.node 0 (.identifier "f")) [v.mapTokens (· + 1)])])) := by
  intro s s' list
  have hs : s.Returns list := by
    change s.body.map (·.symbol) = _
    decide +kernel
  have hs' : s'.Embeds (.argument "f") list := by
    change s'.body.map (·.symbol) = _
    decide +kernel
  have hok : (parse s').isOk = true := by decide +kernel
  obtain ⟨a, b, v, hparse⟩ := parse_of_returned (s := s) (by decide +kernel)
  refine ⟨hs, hs', a, b, v, hparse, ?_⟩
  rcases parse_in_context (by decide) hs hs' hparse with hroot | ⟨-, location, herror⟩
  · exact hroot
  · rw [herror] at hok
    cases hok

end FrontEnd
