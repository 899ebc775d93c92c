import FrontEnd.Proofs.Parser.Mirror.Expressions
import FrontEnd.Proofs.Parser.Mirror.Statements

/-!
What a rule reads within a passage it obtains from the other source, unless what stands
behind the passage there would carry it on. An expression is not carried on by the marks that
close what it stands in.
-/

namespace FrontEnd

variable {w : Passage} {limit depth p q : Nat}

open Grammar in
theorem Rule.mirrors (r : Rule) (hp : p ≤ w.stop) (hsettled : r.settles = true → p < w.stop)
    (hlast : r = .statement ∨ r = .labelled → p + 1 < w.stop) : r.Mirrors w limit p := by
  cases r with
  | unit => exact unit_mirrors w limit (hsettled rfl)
  | statement => exact statement_mirrors w limit (hlast (.inl rfl))
  | labelled => exact labelled_mirrors w limit (hlast (.inr rfl))
  | function => exact function_mirrors w limit
  | prototype isExport isExtern => exact prototype_mirrors w limit isExport isExtern
  | params => exact params_mirrors w limit
  | record => exact record_mirrors w limit
  | fields => exact fields_mirrors w limit
  | enumeration => exact enumeration_mirrors w limit
  | variants => exact variants_mirrors w limit
  | declaration => exact declaration_mirrors w limit
  | modifiers => exact modifiers_mirrors w limit
  | block label =>
    rcases w.lt_or_eq hp with hlt | rfl
    · exact block_mirrors w limit label hlt
    · exact block_mirrors_stop w limit label
  | statements => exact statements_mirrors w limit
  | body => exact body_mirrors w limit
  | conditional => exact conditional_mirrors w limit
  | loop label => exact loop_mirrors w limit label
  | whileLoop label => exact whileLoop_mirrors w limit label
  | selection => exact selection_mirrors w limit
  | branches => exact branches_mirrors w limit
  | branch => exact branch_mirrors w limit
  | items => exact items_mirrors w limit
  | expression => exact attempted_mirrors w limit
  | attempts => exact attempts_mirrors w limit
  | level l => exact level_mirrors w limit l
  | operands l => exact operands_mirrors w limit l
  | recovery => exact recovery_mirrors w limit
  | handlers =>
    rcases w.lt_or_eq hp with hlt | rfl
    · exact handlers_mirrors w limit hlt
    · exact handlers_mirrors_stop w limit
  | unary => exact unary_mirrors w limit (hsettled rfl)
  | operand => exact operand_mirrors w limit
  | suffixed => exact suffixed_mirrors w limit
  | suffixes => exact suffixes_mirrors w limit
  | listed bracket => exact listed_mirrors w limit bracket
  | primary => exact primary_mirrors w limit (hsettled rfl)
  | type => exact type_mirrors w limit
  | innerType => exact innerType_mirrors w limit

/-- Each script carries what it reads over, if the rules do that it calls. -/
theorem Rule.ensures_carries (w : Passage) (limit : Nat) (r : Rule) (depth p : Nat) :
    r.script.Ensures (w.contract limit) w.source limit depth p (w.Carries limit depth r p) := by
  have hadvances : r.script.Ensures (w.contract limit) w.source limit depth p
      (r.Advances w.source p) :=
    (r.progresses w.source limit depth p).exact_of_progress.of_exact
  by_cases hsettled : r.settles = true → p < w.stop
  · by_cases hlast : r = .statement ∨ r = .labelled → p + 1 < w.stop
    · by_cases hp : w.start ≤ p ∧ p ≤ w.stop
      · exact (r.mirrors hp.2 hsettled hlast hp.1 hp.2 depth).mono fun v q hv _ hq hasks _ =>
          (hv.2 hq hasks).2
      · refine hadvances.mono fun v q hv hs hq _ _ => ?_
        exact absurd ⟨hs, Nat.le_trans hv.le hq⟩ hp
    · -- a statement takes two symbols, and there is at most one
      obtain ⟨rfl | rfl, hshort⟩ := Classical.not_imp.mp hlast
      · refine (Grammar.statement_lasts depth).of_exact.mono fun v q hv _ hq _ hcovers => ?_
        have hle := hv hcovers
        omega
      · exact hadvances.mono fun _ _ _ _ _ _ hcovers => absurd hcovers hshort
  · -- where the passage has ended a rule that settles goes beyond
    obtain ⟨hr, hp⟩ := Classical.not_imp.mp hsettled
    refine hadvances.mono fun v q hv _ hq hasks _ => ?_
    have hle := hv.le
    have hlt := w.lt_of_asks hr hv (hasks (by omega))
    omega

theorem Passage.obtains {r : Rule} {v : r.Result}
    (h : r.eval w.source limit ⟨p, depth⟩ = .read v ⟨q, depth⟩) (hs : w.start ≤ p)
    (hq : q ≤ w.stop) (hasks : q = w.stop → w.Asks r v) (hcovers : w.Covers r p v) :
    r.Obtains w.target limit (0 < w.extra) (depth + w.extra) (p + w.shift) (r.move w.move v)
      (q + w.shift) := by
  have hgives := Rule.eval_graded_exact (Rule.ensures_carries w limit) r ⟨p, depth⟩
  rw [h] at hgives
  exact hgives hs hq hasks hcovers

/-! ## Marks that close -/

/-- Marks behind which an expression does not go on. -/
def TokenKind.closes (k : TokenKind) : Bool :=
  k == .semicolon || k == .rightParen || k == .rightBracket || k == .rightBrace

section Closing

variable {k : TokenKind}

theorem TokenKind.eq_of_closes (h : k.closes = true) :
    k = .semicolon ∨ k = .rightParen ∨ k = .rightBracket ∨ k = .rightBrace := by
  simpa [closes, or_assoc] using h

theorem UnaryOp.ofKind?_of_closes (h : k.closes = true) : UnaryOp.ofKind? k = none := by
  rcases TokenKind.eq_of_closes h with rfl | rfl | rfl | rfl <;> rfl

theorem Symbol.leaf?_of_closes {s : Symbol} (h : s.kind.closes = true) : s.leaf? = none := by
  obtain ⟨kind, text⟩ := s
  rcases TokenKind.eq_of_closes h with rfl | rfl | rfl | rfl <;> rfl

theorem Passage.endsOperand_of_closes (h : w.behind.closes = true) : w.EndsOperand := by
  rcases TokenKind.eq_of_closes h with h | h | h | h <;>
    exact
      { operator := fun l => by rw [h]; cases l <;> rfl
        handler := by rw [h]; decide
        suffix := by rw [h]; decide
        block := by rw [h]; rintro ⟨⟩ }

end Closing

/-- A passage with a semicolon behind it in the one source and some closing mark in the
other. -/
structure Window where
  source : Symbols
  target : Symbols
  start : Nat
  stop : Nat
  shift : Nat
  extra : Nat
  move : Nat → Nat
  same : ∀ p, start ≤ p → p < stop → target.symbolAt (p + shift) = source.symbolAt p
  stops : (source.symbolAt stop).kind = .semicolon
  closes : (target.symbolAt (stop + shift)).kind.closes = true
  move_eq : ∀ p, start ≤ p → p ≤ stop → move p = p + shift

namespace Window

theorem source_closes (w : Window) : (w.source.symbolAt w.stop).kind.closes = true := by
  rw [w.stops]
  rfl

def passage (w : Window) : Passage where
  source := w.source
  target := w.target
  start := w.start
  stop := w.stop
  shift := w.shift
  extra := w.extra
  move := w.move
  same := w.same
  source_le := Nat.le_of_lt (Symbols.lt_size_of_kind (by rw [w.stops]; decide))
  target_le := Nat.le_of_lt <| Symbols.lt_size_of_kind fun h => by
    have hcloses := w.closes
    rw [h] at hcloses
    cases hcloses
  move_eq p hs hp := w.move_eq p hs (Nat.le_of_lt hp)

theorem obtains {w : Window} {u : Tree}
    (h : Rule.eval w.source limit .expression ⟨p, depth⟩ = .read (some u) ⟨q, depth⟩)
    (hs : w.start ≤ p) (hq : q ≤ w.stop) :
    Rule.expression.Obtains w.target limit (0 < w.extra) (depth + w.extra) (p + w.shift)
      (some (u.mapTokens w.move)) (q + w.shift) :=
  w.passage.obtains h hs hq (fun _ => ⟨rfl, w.passage.endsOperand_of_closes w.closes⟩) trivial

end Window

end FrontEnd
