import FrontEnd.Proofs.Parser.Obtaining
import FrontEnd.Proofs.Parser.Precedence
import FrontEnd.Proofs.Tree.Names

/-!
Expressions of known symbols. An operand is obtained by every level if what stands behind
it is no operator that the level or a tighter one takes, and a level obtains what an
operator of its own stands between.
-/

namespace FrontEnd

/-- Kinds that go on with an operand. -/
def TokenKind.suffixes : List TokenKind := [.dot, .leftBracket, .leftParen]

namespace Grammar

open Script

variable {symbols : Symbols} {limit depth : Nat} {loose : Prop} {p q r : Nat} {x : Tree}

/-! ## Primaries -/

theorem leaf_obtained {form : Form Tree} (h : (symbols.symbolAt p).leaf? = some form) :
    Rule.primary.Obtains symbols limit loose depth p (some (.node p form)) (p + 1) := by
  have hnext := Symbols.next_eq (kind_ne_endOfFile_of_leaf h)
  refine obtains_bind obtains_sight ?_
  simp only [Symbols.sight_current, Symbols.sight_position, h]
  exact obtains_bind (obtains_take hnext) (obtains_pure _)

theorem enclosed_obtained (hopen : (symbols.symbolAt p).kind = .leftParen)
    (hd : depth < limit ∨ loose)
    (h : Rule.expression.Obtains symbols limit loose (depth + 1) (p + 1) (some x) q)
    (hclose : (symbols.symbolAt q).kind = .rightParen) :
    Rule.primary.Obtains symbols limit loose depth p (some x) (q + 1) := by
  have hleaf : (symbols.symbolAt p).leaf? = none := by simp [Symbol.leaf?, hopen]
  refine obtains_bind obtains_sight ?_
  simp only [Symbols.sight_current, Symbols.sight_kind, hleaf, hopen]
  refine obtains_bind (obtains_take (Symbols.next_of_kind hopen (by decide))) ?_
  refine obtains_bind (obtains_require (obtains_deeper hd h)) ?_
  exact obtains_bind (obtains_expect hclose (Symbols.next_of_kind hclose (by decide)))
    (obtains_pure _)

theorem suffixes_obtained_nil (h : (symbols.symbolAt p).kind ∉ TokenKind.suffixes) :
    Rule.suffixes.Obtains symbols limit loose depth p [] p := by
  simp only [TokenKind.suffixes, List.mem_cons, List.not_mem_nil, or_false, not_or] at h
  obtain ⟨hdot, hbracket, hparen⟩ := h
  refine obtains_bind obtains_sight ?_
  simp only [Symbols.sight_kind]
  exact obtains_pure _

/-- One expression and the mark that closes the list. -/
theorem listed_obtained_single {bracket : Bracket} (hd : depth < limit ∨ loose)
    (hfirst : (symbols.symbolAt p).kind ≠ bracket.closing)
    (h : Rule.expression.Obtains symbols limit loose (depth + 1) p (some x) q)
    (hclose : (symbols.symbolAt q).kind = bracket.closing) :
    (Rule.listed bracket).Obtains symbols limit loose depth p [x] (q + 1) := by
  have hcomma : (symbols.symbolAt q).kind ≠ .comma := by
    rw [hclose]
    cases bracket <;> decide
  have hnext : symbols.next q = q + 1 :=
    Symbols.next_of_kind hclose (by cases bracket <;> decide)
  refine obtains_bind (obtains_accept_of_ne hfirst) ?_
  refine obtains_bind (obtains_require (obtains_deeper hd h)) ?_
  refine obtains_bind (obtains_accept_of_ne hcomma) ?_
  exact obtains_bind (obtains_expect hclose hnext) (obtains_pure _)

theorem suffixes_obtained_call {args : List Tree} {rest : List (Nat × Suffix)}
    (hopen : (symbols.symbolAt p).kind = .leftParen)
    (hargs : (Rule.listed .round).Obtains symbols limit loose depth (p + 1) args q)
    (hrest : Rule.suffixes.Obtains symbols limit loose depth q rest r) :
    Rule.suffixes.Obtains symbols limit loose depth p ((p, .call args) :: rest) r := by
  refine obtains_bind obtains_sight ?_
  simp only [Symbols.sight_kind, hopen]
  refine obtains_bind (obtains_take (Symbols.next_of_kind hopen (by decide))) ?_
  refine obtains_bind (obtains_run hargs) ?_
  exact obtains_bind (obtains_run hrest) (obtains_pure _)

theorem suffixes_obtained_index {rest : List (Nat × Suffix)} (hd : depth < limit ∨ loose)
    (hopen : (symbols.symbolAt p).kind = .leftBracket)
    (h : Rule.expression.Obtains symbols limit loose (depth + 1) (p + 1) (some x) q)
    (hclose : (symbols.symbolAt q).kind = .rightBracket)
    (hrest : Rule.suffixes.Obtains symbols limit loose depth (q + 1) rest r) :
    Rule.suffixes.Obtains symbols limit loose depth p ((p, .index x) :: rest) r := by
  have hdots : (symbols.symbolAt q).kind ≠ .dotDot := by
    rw [hclose]
    decide
  have hsubscript : subscript.Obtains symbols limit loose depth (p + 1) (.index x) (q + 1) := by
    refine obtains_bind (obtains_require (obtains_deeper hd h)) ?_
    refine obtains_bind (obtains_accept_of_ne hdots) ?_
    exact obtains_bind (obtains_expect hclose (Symbols.next_of_kind hclose (by decide)))
      (obtains_pure _)
  refine obtains_bind obtains_sight ?_
  simp only [Symbols.sight_kind, hopen]
  refine obtains_bind (obtains_take (Symbols.next_of_kind hopen (by decide))) ?_
  refine obtains_bind hsubscript ?_
  exact obtains_bind (obtains_run hrest) (obtains_pure _)

def attach (rest : List (Nat × Suffix)) (first : Tree) : Tree :=
  rest.foldl (fun target (token, suffix) => .node token (suffix.form target)) first

theorem suffixed_obtained {rest : List (Nat × Suffix)}
    (h : Rule.primary.Obtains symbols limit loose depth p (some x) q)
    (hrest : Rule.suffixes.Obtains symbols limit loose depth q rest r) :
    Rule.suffixed.Obtains symbols limit loose depth p (some (attach rest x)) r := by
  refine obtains_bind (obtains_run h) ?_
  exact obtains_bind (obtains_run hrest) (obtains_pure _)

/-! ## Operators -/

theorem unary_obtained {v : Option Tree} (hop : UnaryOp.ofKind? (symbols.symbolAt p).kind = none)
    (hbrace : (symbols.symbolAt p).kind ≠ .leftBrace)
    (h : Rule.suffixed.Obtains symbols limit loose depth p v q) :
    Rule.unary.Obtains symbols limit loose depth p v q := by
  refine obtains_bind obtains_sight ?_
  simp only [Symbols.sight_kind, hop]
  refine obtains_bind obtains_sight ?_
  simp only [Symbols.sight_kind, hbrace, if_false]
  exact obtains_run h

/-- What a tighter level obtains, the next looser one obtains, if no operator of its own
stands behind. -/
theorem climbing_obtained_succ {t : Nat} (ht : t < 8)
    (h : (climbing (t + 1)).Obtains symbols limit loose depth p (some x) q)
    (hstop : (symbols.symbolAt q).kind.tightness ≠ t) :
    (climbing t).Obtains symbols limit loose depth p (some x) q := by
  have hlevel (l : Level) (hl : l ≠ .assignment) (hlt : l.tightness = t) :
      (run (.level l)).Obtains symbols limit loose depth p (some x) q := by
    rw [← hlt, ← operandOf_eq hl] at h
    refine obtains_run (obtains_bind h ?_)
    have hop : l.operator? (symbols.symbolAt q).kind = none := by
      rw [Level.operator?_eq hl, hlt, if_neg hstop]
    exact obtains_bind (.of_eval ((eval_run _).trans (operands_stop hop))) (obtains_pure _)
  match t with
  | 0 => exact hlevel .conjunction (by decide) rfl
  | 1 => exact hlevel .disjunction (by decide) rfl
  | 2 => exact hlevel .comparison (by decide) rfl
  | 3 =>
    refine obtains_run (obtains_bind h ?_)
    have hk : (symbols.symbolAt q).kind ≠ .kwCatch := mt TokenKind.tightness_eq_three.mpr hstop
    exact obtains_bind (.of_eval ((eval_run _).trans (handlers_stop hk))) (obtains_pure _)
  | 4 => exact hlevel .bitwise (by decide) rfl
  | 5 => exact hlevel .shift (by decide) rfl
  | 6 => exact hlevel .sum (by decide) rfl
  | 7 => exact hlevel .product (by decide) rfl

/-- An operand before an operator that binds less tightly, or before none. -/
theorem climbing_obtained {t : Nat} (ht : t ≤ 8)
    (h : Rule.unary.Obtains symbols limit loose depth p (some x) q)
    (hstop : ∀ n, t ≤ n → n < 8 → (symbols.symbolAt q).kind.tightness ≠ n) :
    (climbing t).Obtains symbols limit loose depth p (some x) q := by
  obtain ⟨n, hn⟩ := Nat.le.dest ht
  induction n generalizing t with
  | zero =>
    obtain rfl : t = 8 := hn
    exact obtains_run h
  | succ n ih =>
    refine climbing_obtained_succ (by omega) (ih (by omega) ?_ (by omega)) ?_
    · exact fun n hle hlt => hstop n (by omega) hlt
    · exact hstop t (Nat.le_refl t) (by omega)

theorem attempted_obtained (htry : (symbols.symbolAt p).kind ≠ .kwTry)
    (h : (climbing 0).Obtains symbols limit loose depth p (some x) q) :
    Rule.expression.Obtains symbols limit loose depth p (some x) q := by
  have hattempts : Rule.attempts.Obtains symbols limit loose depth p [] p :=
    obtains_bind obtains_here (obtains_bind (obtains_accept_of_ne htry) (obtains_pure _))
  refine obtains_bind (obtains_run hattempts) ?_
  exact obtains_bind h (obtains_pure _)

/-- An operand before no operator is an expression. -/
theorem operand_obtained (htry : (symbols.symbolAt p).kind ≠ .kwTry)
    (h : Rule.unary.Obtains symbols limit loose depth p (some x) q)
    (hstop : (symbols.symbolAt q).kind.tightness = 8) :
    Rule.expression.Obtains symbols limit loose depth p (some x) q :=
  attempted_obtained htry (climbing_obtained (Nat.zero_le 8) h fun n _ hn => by omega)

/-- A name before a mark that is no operator but one of assignment. -/
theorem name_obtained {name : String} (hname : symbols.symbolAt p = .name name)
    (hnext : (symbols.symbolAt (p + 1)).kind.tightness = 8)
    (hsuffix : (symbols.symbolAt (p + 1)).kind ∉ TokenKind.suffixes) :
    Rule.expression.Obtains symbols limit loose depth p (some (.node p (.identifier name)))
      (p + 1) := by
  have hkind : (symbols.symbolAt p).kind = .identifier := by rw [hname, Symbol.name]
  have hprimary : Rule.primary.Obtains symbols limit loose depth p
      (some (.node p (.identifier name))) (p + 1) := leaf_obtained (by rw [hname]; rfl)
  have hunary : Rule.unary.Obtains symbols limit loose depth p
      (some (.node p (.identifier name))) (p + 1) :=
    unary_obtained (by rw [hkind]; rfl) (by rw [hkind]; decide)
      (suffixed_obtained hprimary (suffixes_obtained_nil hsuffix))
  exact operand_obtained (by rw [hkind]; decide) hunary hnext

theorem elements_obtained {items : List Tree} (hopen : (symbols.symbolAt p).kind = .leftBrace)
    (h : (Rule.listed .curly).Obtains symbols limit loose depth (p + 1) items q) :
    Rule.unary.Obtains symbols limit loose depth p (some (.node p (.elements items))) q := by
  refine obtains_bind obtains_sight ?_
  simp only [Symbols.sight_kind, hopen, UnaryOp.ofKind?]
  refine obtains_bind obtains_sight ?_
  simp only [Symbols.sight_kind, hopen, if_true]
  refine obtains_bind obtains_here ?_
  refine obtains_bind (obtains_accept hopen (Symbols.next_of_kind hopen (by decide))) ?_
  exact obtains_bind (obtains_run h) (obtains_pure _)

/-! ## Assignments -/

theorem assignment_obtained_plain (hd : depth < limit ∨ loose)
    (h : Rule.expression.Obtains symbols limit loose (depth + 1) p (some x) q)
    (hop : Level.operator? .assignment (symbols.symbolAt q).kind = none) :
    assignment.Obtains symbols limit loose depth p (some x) q := by
  refine obtains_run (obtains_bind (obtains_deeper hd h) ?_)
  exact obtains_bind (.of_eval ((eval_run _).trans (operands_stop hop))) (obtains_pure _)

theorem assignment_obtained {op : BinaryOp} (hd : depth < limit ∨ loose)
    (h : Rule.expression.Obtains symbols limit loose (depth + 1) p (some x) q)
    (hop : Level.operator? .assignment (symbols.symbolAt q).kind = some op)
    (hy : Rule.expression.Obtains symbols limit loose (depth + 1) (q + 1) (some y) r) :
    assignment.Obtains symbols limit loose depth p (some (.node q (.binary op x y))) r := by
  have hnext := Symbols.next_eq (kind_ne_endOfFile_of_operator hop)
  have hoperands : (Rule.operands .assignment).Obtains symbols limit loose depth q
      [(q, op, y)] r := by
    refine obtains_bind obtains_sight ?_
    simp only [Symbols.sight_kind, hop]
    refine obtains_bind (obtains_take hnext) ?_
    exact obtains_bind (obtains_require (obtains_deeper hd hy)) (obtains_pure _)
  refine obtains_run (obtains_bind (obtains_deeper hd h) ?_)
  exact obtains_bind (obtains_run hoperands) (obtains_pure _)

theorem expressionStatement_obtained (h : assignment.Obtains symbols limit loose depth p (some x) q)
    (hend : (symbols.symbolAt q).kind = .semicolon) :
    expressionStatement.Obtains symbols limit loose depth p (some x) (q + 1) := by
  refine obtains_bind h ?_
  exact obtains_bind (obtains_expect hend (Symbols.next_of_kind hend (by decide))) (obtains_pure _)

/-! ## Where no expression begins -/

theorem climbing_obtained_none_succ {t : Nat} (ht : t < 8)
    (h : (climbing (t + 1)).Obtains symbols limit loose depth p none p) :
    (climbing t).Obtains symbols limit loose depth p none p := by
  match t with
  | 0 | 1 | 2 | 3 | 4 | 5 | 6 | 7 => exact obtains_run (obtains_bind h (obtains_pure _))

/-- At a mark that begins no expression nothing is read. -/
theorem expression_obtained_none (hop : UnaryOp.ofKind? (symbols.symbolAt p).kind = none)
    (hleaf : (symbols.symbolAt p).leaf? = none)
    (h : (symbols.symbolAt p).kind ∉ [TokenKind.leftBrace, .kwFunc, .kwMatch, .leftParen]) :
    Rule.expression.Obtains symbols limit loose depth p none p := by
  simp only [List.mem_cons, List.not_mem_nil, or_false, not_or] at h
  obtain ⟨hbrace, hfunc, hmatch, hparen⟩ := h
  have hprimary : Rule.primary.Obtains symbols limit loose depth p none p := by
    refine obtains_bind obtains_sight ?_
    simp only [Symbols.sight_current, Symbols.sight_kind, hleaf]
    exact obtains_pure _
  have hunary : Rule.unary.Obtains symbols limit loose depth p none p :=
    unary_obtained hop hbrace (obtains_bind (obtains_run hprimary) (obtains_pure _))
  have hclimbing (n : Nat) (hn : n ≤ 8) :
      (climbing (8 - n)).Obtains symbols limit loose depth p none p := by
    induction n with
    | zero => exact obtains_run hunary
    | succ n ih =>
      refine climbing_obtained_none_succ (by omega) ?_
      have hsucc : 8 - (n + 1) + 1 = 8 - n := by omega
      rw [hsucc]
      exact ih (by omega)
  have htry : (symbols.symbolAt p).kind ≠ .kwTry := by
    rintro hk
    rw [hk] at hop
    cases hop
  have hattempts : Rule.attempts.Obtains symbols limit loose depth p [] p :=
    obtains_bind obtains_here (obtains_bind (obtains_accept_of_ne htry) (obtains_pure _))
  refine obtains_bind (obtains_run hattempts) ?_
  exact obtains_bind (hclimbing 8 (Nat.le_refl 8)) (obtains_pure _)

end Grammar

end FrontEnd
