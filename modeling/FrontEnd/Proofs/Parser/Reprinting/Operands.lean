import FrontEnd.Proofs.Parser.Yielding

/-!
Printed expressions are read as the trees that they were printed from. In parentheses an
expression is read whole; a single symbol and an expression in parentheses are operands,
and an operand is an expression where no operator and no suffix follows.
-/

namespace FrontEnd

/-! ## Marks of operators -/

theorem Level.operator?_kind {l : Level} {kind : TokenKind} {op : BinaryOp}
    (h : l.operator? kind = some op) : l.operator? op.kind = some op := by
  cases l <;> cases kind <;> cases h <;> rfl

theorem UnaryOp.ofKind?_kind (op : UnaryOp) : ofKind? op.kind = some op := by
  cases op <;> rfl

namespace TokenKind

/-- Kinds behind which an expression does not go on. -/
def endsExpression (k : TokenKind) : Bool := k.tightness == 8 && !suffixes.contains k

/-- Kinds that an operand begins with. -/
def opensOperand (k : TokenKind) : Bool := k.isName || k == .leftParen

end TokenKind

/-- A single symbol that is an operand, or something in parentheses. -/
inductive IsOperand : List Symbol → Prop where
  | leaf {a : Symbol} (h : a.leaf?.isSome = true) : IsOperand [a]
  | enclosed {list : List Symbol} : IsOperand (.word .leftParen :: list ++ [.word .rightParen])

theorem IsOperand.ne_nil {list : List Symbol} (h : IsOperand list) : list ≠ [] := by
  cases h <;> exact List.cons_ne_nil _ _

theorem IsOperand.opens {list : List Symbol} (h : IsOperand list) :
    (kindOf list).opensOperand = true := by
  cases h with
  | @leaf a h =>
    obtain ⟨kind, text⟩ := a
    change kind.opensOperand = true
    cases kind <;> first | rfl | cases h
  | enclosed => rfl

/-- The kind of a symbol that an operand begins with. -/
def TokenKind.Opens (k : TokenKind) : Prop := k.opensOperand = true

theorem IsOperand.opens_append {list : List Symbol} (h : IsOperand list) (rest : List Symbol) :
    (kindOf (list ++ rest)).Opens := by
  have hopens := h.opens
  cases h <;> exact hopens

/-- A single symbol that is an operand is no parenthesis. -/
theorem IsOperand.kindOf_ne_leftParen {list : List Symbol} (h : IsOperand list)
    (hlength : list.length = 1) (rest : List Symbol) : kindOf (list ++ rest) ≠ .leftParen := by
  cases h with
  | @leaf a ha =>
    obtain ⟨kind, text⟩ := a
    rintro (rfl : kind = _)
    cases ha
  | enclosed => simp at hlength

/-- Behind a name that is an operand stands what follows the operand. -/
theorem IsOperand.tail_append {list rest : List Symbol} (h : IsOperand list)
    (hname : kindOf (list ++ rest) = .identifier) : (list ++ rest).tail = rest := by
  cases h with
  | leaf => rfl
  | enclosed => cases hname

namespace TokenKind.Opens

variable {k : TokenKind} (h : k.Opens)
include h

theorem ofKind?_eq : UnaryOp.ofKind? k = none := by
  revert h
  unfold Opens
  cases k <;> decide

theorem kind_ne {w : TokenKind} (hw : w.opensOperand = false) : k ≠ w := by
  rintro rfl
  rw [Opens, hw] at h
  cases h

theorem not_mem {ks : List TokenKind} (hks : ∀ w ∈ ks, w.opensOperand = false) : k ∉ ks :=
  fun hk => h.kind_ne (hks k hk) rfl

end TokenKind.Opens

namespace Grammar

open Script

variable {symbols : Symbols} {limit : Nat} {list rest : List Symbol} {t : Tree}

/-! ## From operands to expressions -/

theorem expression_yields (h : Rule.expression.Yields symbols limit list rest t.SomeLike) :
    expression.Yields symbols limit list rest t.SomeLike := yields_deeper h

theorem suffixed_yields (h : Rule.primary.Yields symbols limit list rest t.SomeLike)
    (hrest : kindOf rest ∉ TokenKind.suffixes) :
    Rule.suffixed.Yields symbols limit list rest t.SomeLike := by
  intro depth p hstand
  obtain ⟨_, ⟨u, rfl, hu⟩, hread⟩ := h depth p hstand
  refine ⟨some u, ⟨u, rfl, hu⟩, suffixed_obtained hread (suffixes_obtained_nil ?_)⟩
  rwa [hstand.append.kind]

/-- What no operator and no brace begins is read without regard to operators. -/
theorem unary_yields (hop : UnaryOp.ofKind? (kindOf (list ++ rest)) = none)
    (hbrace : kindOf (list ++ rest) ≠ .leftBrace)
    (h : Rule.suffixed.Yields symbols limit list rest t.SomeLike) :
    Rule.unary.Yields symbols limit list rest t.SomeLike := by
  intro depth p hstand
  obtain ⟨v, hv, hread⟩ := h depth p hstand
  rw [← hstand.kind] at hop hbrace
  exact ⟨v, hv, unary_obtained hop hbrace hread⟩

/-- Levels of operators read an operand before an operator that they do not take. -/
theorem climbing_yields {n : Nat} (hn : n ≤ 8)
    (h : Rule.unary.Yields symbols limit list rest t.SomeLike)
    (hrest : ∀ m, n ≤ m → m < 8 → (kindOf rest).tightness ≠ m) :
    (climbing n).Yields symbols limit list rest t.SomeLike := by
  intro depth p hstand
  obtain ⟨_, ⟨u, rfl, hu⟩, hread⟩ := h depth p hstand
  rw [← hstand.append.kind] at hrest
  exact ⟨some u, ⟨u, rfl, hu⟩, climbing_obtained hn hread hrest⟩

/-- A level that reads a tree is, for what is looser, as good as an operand. -/
theorem loosened_yields {n m : Nat} (hn : n ≤ m) (hm : m ≤ 8)
    (h : (climbing m).Yields symbols limit list rest t.SomeLike)
    (hrest : (kindOf rest).tightness = 8) :
    (climbing n).Yields symbols limit list rest t.SomeLike := by
  induction hn with
  | refl => exact h
  | @step m hn ih =>
    refine ih (by omega) fun depth p hstand => ?_
    obtain ⟨_, ⟨u, rfl, hu⟩, hread⟩ := h depth p hstand
    rw [← hstand.append.kind] at hrest
    exact ⟨some u, ⟨u, rfl, hu⟩, climbing_obtained_succ hm hread (by omega)⟩

theorem attempted_yields (htry : kindOf (list ++ rest) ≠ .kwTry)
    (h : (climbing 0).Yields symbols limit list rest t.SomeLike) :
    Rule.expression.Yields symbols limit list rest t.SomeLike := by
  intro depth p hstand
  obtain ⟨_, ⟨u, rfl, hu⟩, hread⟩ := h depth p hstand
  rw [← hstand.kind] at htry
  exact ⟨some u, ⟨u, rfl, hu⟩, attempted_obtained htry hread⟩

theorem expression_yields_of_unary (htry : kindOf (list ++ rest) ≠ .kwTry)
    (h : Rule.unary.Yields symbols limit list rest t.SomeLike)
    (hrest : (kindOf rest).tightness = 8) :
    Rule.expression.Yields symbols limit list rest t.SomeLike :=
  attempted_yields htry (climbing_yields (Nat.zero_le 8) h fun m _ hm => by omega)

/-- What begins with no mark of a prefix or a list is read by its suffixes alone. -/
theorem expression_yields_of_suffixed (hop : UnaryOp.ofKind? (kindOf (list ++ rest)) = none)
    (hbrace : kindOf (list ++ rest) ≠ .leftBrace)
    (h : Rule.suffixed.Yields symbols limit list rest t.SomeLike)
    (hrest : (kindOf rest).tightness = 8) :
    Rule.expression.Yields symbols limit list rest t.SomeLike := by
  refine expression_yields_of_unary ?_ (unary_yields hop hbrace h) hrest
  intro hk
  rw [hk] at hop
  cases hop

theorem expression_yields_of_primary (hopens : (kindOf (list ++ rest)).Opens)
    (h : Rule.primary.Yields symbols limit list rest t.SomeLike)
    (hrest : (kindOf rest).endsExpression = true) :
    Rule.expression.Yields symbols limit list rest t.SomeLike := by
  simp only [TokenKind.endsExpression, Bool.and_eq_true, beq_iff_eq, Bool.not_eq_true',
    List.contains_eq_mem, decide_eq_false_iff_not] at hrest
  exact expression_yields_of_suffixed hopens.ofKind?_eq (hopens.kind_ne rfl)
    (suffixed_yields h hrest.2) hrest.1

/-! ## Expressions in parentheses -/

/-- The printed tree is read as a statement that declares a function. -/
structure ReadsFunction (symbols : Symbols) (limit : Nat) (t : Tree) : Prop where
  standing : t.printed.standing = .signature ∨ t.printed.standing = .function
  opens (rest : List Symbol) : (Sight.front (t.printed.statement ++ rest)).opensFunction = true
  reads (rest : List Symbol) : Rule.function.Yields symbols limit t.printed.statement rest t.Like

/-- The printed tree is read back as an expression in parentheses and as an operand. -/
structure ReadsExpression (symbols : Symbols) (limit : Nat) (t : Tree) : Prop where
  content (rest : List Symbol) (h : kindOf rest = .rightParen) :
    Rule.expression.Yields symbols limit t.printed.symbols rest t.SomeLike
  primary (rest : List Symbol) :
    Rule.primary.Yields symbols limit t.printed.operand rest t.SomeLike
  isOperand : IsOperand t.printed.operand
  standing : t.printed.standing = .operand ∨ ReadsFunction symbols limit t

theorem enclosed_yields (h : ∀ rest, kindOf rest = .rightParen →
      Rule.expression.Yields symbols limit list rest t.SomeLike) :
    Rule.primary.Yields symbols limit (.word .leftParen :: list ++ [.word .rightParen]) rest
      t.SomeLike := by
  intro depth p hstand
  have hstand' : symbols.Stand p (.word .leftParen :: (list ++ .word .rightParen :: rest)) := by
    simpa using hstand
  obtain ⟨_, ⟨u, rfl, hu⟩, hread⟩ :=
    h (.word .rightParen :: rest) rfl (depth + 1) (p + 1) hstand'.tail
  refine ⟨some u, ⟨u, rfl, hu⟩, ?_⟩
  have hlength : p + (Symbol.word .leftParen :: list ++ [Symbol.word .rightParen]).length =
      p + 1 + list.length + 1 := by
    simp
    omega
  rw [hlength]
  exact enclosed_obtained hstand'.kind (.inr trivial) hread hstand'.tail.append.kind

/-- An expression of more than one symbol is an operand in parentheses. -/
theorem ReadsExpression.of_content
    (hstanding : t.printed.standing = .operand ∨ ReadsFunction symbols limit t)
    (hlength : t.printed.symbols.length ≠ 1)
    (h : ∀ rest, kindOf rest = .rightParen →
      Rule.expression.Yields symbols limit t.printed.symbols rest t.SomeLike) :
    ReadsExpression symbols limit t := by
  have hoperand : t.printed.operand = t.printed.enclosed := if_neg hlength
  refine ⟨h, fun rest => ?_, ?_, hstanding⟩
  · rw [hoperand]
    exact enclosed_yields h
  · rw [hoperand]
    exact .enclosed

section Operands

variable (h : ReadsExpression symbols limit t)
include h

theorem ReadsExpression.unary (hrest : kindOf rest ∉ TokenKind.suffixes) :
    Rule.unary.Yields symbols limit t.printed.operand rest t.SomeLike := by
  refine unary_yields ?_ ?_ (suffixed_yields (h.primary rest) hrest)
  · exact (h.isOperand.opens_append rest).ofKind?_eq
  · exact (h.isOperand.opens_append rest).kind_ne rfl

/-- An operand is an expression where nothing goes on with it. -/
theorem ReadsExpression.expression (hrest : (kindOf rest).endsExpression = true) :
    Rule.expression.Yields symbols limit t.printed.operand rest t.SomeLike :=
  expression_yields_of_primary (h.isOperand.opens_append rest) (h.primary rest) hrest

/-- So is what stands in parentheses, be it a single symbol or not. -/
theorem ReadsExpression.enclosed (hrest : (kindOf rest).endsExpression = true) :
    Rule.expression.Yields symbols limit t.printed.enclosed rest t.SomeLike :=
  expression_yields_of_primary (IsOperand.enclosed.opens_append rest) (enclosed_yields h.content)
    hrest

theorem ReadsExpression.require {what : Expectation}
    (hrest : (kindOf rest).endsExpression = true) :
    (Script.require what Grammar.expression).Yields symbols limit t.printed.operand rest t.Like :=
  yields_require (expression_yields (h.expression hrest))

end Operands

end Grammar

end FrontEnd
