import FrontEnd.Lexer.Lexer
import FrontEnd.Proofs.Parser.Eval

/-!
Productions that may find nothing to read. Where one is tried is never lost: it
goes on if it finds a tree, stays if it finds none, and on every way out the
cursor is within the stream and as deep in nesting as before.
-/

namespace FrontEnd

namespace Grammar

/-- The productions that give a tree, or nothing where they do not begin. -/
inductive Probing : Script (Option Tree) → Prop where
  | nestedStatement : Probing nestedStatement
  | statement : Probing statement
  | containerIfAny : Probing containerIfAny
  | variableIfAny : Probing variableIfAny
  | expressionStatement : Probing expressionStatement
  | block (label : Option String) : Probing (block label)
  | labelled : Probing labelled
  | loopIfAny (label : Option String) : Probing (loopIfAny label)
  | expression : Probing expression
  | attempted : Probing attempted
  | level (l : Level) : Probing (level l)
  | operandOf (l : Level) : Probing (operandOf l)
  | recovery : Probing recovery
  | unary : Probing unary
  | simple : Probing simple
  | elements : Probing elements
  | suffixed : Probing suffixed
  | primary : Probing primary
  | type : Probing type

/-- Every such production is a part of some rule, and finds as that rule lets it. -/
theorem Probing.finds {x : Script (Option Tree)} (hx : Probing x) (symbols : Symbols)
    (limit depth p : Nat) :
    ∃ o, x.Ensures (progress symbols o p) symbols limit depth p (symbols.Finds p) := by
  cases hx with
  | nestedStatement => exact ⟨.unit, Script.ensures_deeper (r := .statement) (by decide)⟩
  | statement => exact ⟨_, statement_progresses symbols limit depth p⟩
  | containerIfAny => exact ⟨_, containerIfAny_finds symbols⟩
  | variableIfAny => exact ⟨_, variableIfAny_finds symbols⟩
  | expressionStatement => exact ⟨_, expressionStatement_finds symbols⟩
  | block label => exact ⟨_, block_progresses symbols label limit depth p⟩
  | labelled => exact ⟨_, labelled_progresses symbols limit depth p⟩
  | loopIfAny label => exact ⟨_, loopIfAny_finds symbols label (.inl rfl)⟩
  | expression => exact ⟨.items, Script.ensures_deeper (r := .expression) (by decide)⟩
  | attempted => exact ⟨_, attempted_progresses symbols limit depth p⟩
  | level l => exact ⟨_, level_progresses symbols l limit depth p⟩
  | operandOf l => exact ⟨_, operandOf_finds symbols l⟩
  | recovery => exact ⟨_, recovery_progresses symbols limit depth p⟩
  | unary => exact ⟨_, unary_progresses symbols limit depth p⟩
  | simple => exact ⟨_, simple_finds symbols⟩
  | elements => exact ⟨_, elements_finds symbols⟩
  | suffixed => exact ⟨_, suffixed_progresses symbols limit depth p⟩
  | primary => exact ⟨_, primary_progresses symbols limit depth p⟩
  | type => exact ⟨_, type_progresses symbols limit depth p⟩

end Grammar

/-- From `s`, a production that may find nothing goes on if it finds a tree and
stays where it was if it finds none; it ends within the source and at the same depth. -/
def Outcome.Settles (symbols : Symbols) (s : ParseState) : Outcome (Option Tree) → Prop
  | .read (some _) t =>
    s.position < t.position ∧ t.position ≤ symbols.size ∧ t.depth = s.depth
  | .read none t => t = s
  | .failed _ t => t.position ≤ symbols.size ∧ t.depth = s.depth
  | .exhausted => False

theorem Script.eval_keeps {α : Type} (symbols : Symbols) (limit : Nat) (x : Script α)
    (s : ParseState) : (x.eval symbols limit s).Keeps symbols s :=
  x.exec_keeps symbols limit (Rule.eval_keeps symbols limit) s

theorem Script.eval_gives {α : Type} {symbols : Symbols} {limit : Nat} {o : Rule}
    {x : Script α} {s : ParseState} {Q : α → Nat → Prop}
    (h : x.Ensures (progress symbols o s.position) symbols limit s.depth s.position Q) :
    (x.eval symbols limit s).Gives Q False :=
  exec_gives (Rule.eval_keeps symbols limit) (fun r s _ => r.eval_advances symbols limit s) h

theorem Grammar.Probing.settles {x : Script (Option Tree)} (hx : Probing x) {symbols : Symbols}
    (limit : Nat) {s : ParseState} (hs : s.position ≤ symbols.size) :
    (x.eval symbols limit s).Settles symbols s := by
  obtain ⟨o, h⟩ := hx.finds symbols limit s.depth s.position
  have hgives := Script.eval_gives h
  have hkeeps := x.eval_keeps symbols limit s
  cases ho : x.eval symbols limit s with
  | read found t =>
    rw [ho] at hgives hkeeps
    cases found with
    | some tree => exact ⟨hgives.1, hgives.2, hkeeps.2.2⟩
    | none =>
      obtain ⟨position, depth⟩ := t
      obtain rfl : position = s.position := hgives
      obtain rfl : depth = s.depth := hkeeps.2.2
      rfl
  | failed cause t =>
    rw [ho] at hkeeps
    exact ⟨hkeeps.2.1 hs, hkeeps.2.2⟩
  | exhausted =>
    rw [ho] at hgives
    exact hgives

namespace Cursor

/-- The state in which the rules run from where the cursor stands. -/
def state (c : Cursor) : ParseState := ⟨c.position, c.depth⟩

/-- Parsing ends with a tree or a fault of the source, never with one of the
parser itself, and leaves the cursor within the stream. -/
theorem parseWithin_keeps (limit : Nat) (c : Cursor) (hc : c.position ≤ c.stream.symbols.size) :
    (∀ fault, (c.parseWithin limit).1 = .error fault → fault.kind ≠ .internal) ∧
      (c.parseWithin limit).2.position ≤ c.stream.symbols.size ∧
      (c.parseWithin limit).2.depth = c.depth := by
  have hkeeps := Rule.eval_keeps c.stream.symbols limit .unit c.state
  have hne := Rule.eval_ne_exhausted c.stream.symbols limit .unit c.state
  change (readUnit limit c.stream.symbols ⟨c.position, c.depth⟩).Keeps _ c.state at hkeeps
  change readUnit limit c.stream.symbols ⟨c.position, c.depth⟩ ≠ .exhausted at hne
  unfold parseWithin
  cases c.stream.illegal? with
  | some t => exact ⟨by rintro fault ⟨⟩ ⟨⟩, hc, rfl⟩
  | none =>
    cases ho : readUnit limit c.stream.symbols ⟨c.position, c.depth⟩ with
    | read items t =>
      rw [ho] at hkeeps
      exact ⟨by rintro fault ⟨⟩, hkeeps.2.1 hc, hkeeps.2.2⟩
    | failed cause t =>
      rw [ho] at hkeeps
      exact ⟨by rintro fault ⟨⟩ ⟨⟩, hkeeps.2.1 hc, hkeeps.2.2⟩
    | exhausted => exact absurd ho hne

/-- From every position of every stream, each production that may find nothing
goes on or stays, all rules come to an end within the stream and look at nothing
behind it, and so does parsing. -/
theorem productions_settle (c : Cursor) (limit : Nat)
    (hc : c.position ≤ c.stream.symbols.size) :
    (∀ x, Grammar.Probing x →
      (x.eval c.stream.symbols limit c.state).Settles c.stream.symbols c.state) ∧
    (∀ r : Rule, r.eval c.stream.symbols limit c.state ≠ .exhausted ∧
      (r.eval c.stream.symbols limit c.state).Keeps c.stream.symbols c.state ∧
      ∀ q ∈ r.inspected c.stream.symbols limit (budget c.stream.symbols) c.state,
        q ≤ c.stream.symbols.size) ∧
    (∀ fault, (c.parseWithin limit).1 = .error fault → fault.kind ≠ .internal) ∧
    (c.parseWithin limit).2.position ≤ c.stream.symbols.size ∧
    (c.parseWithin limit).2.depth = c.depth := by
  refine ⟨fun x hx => hx.settles limit hc, fun r => ⟨?_, ?_, ?_⟩, c.parseWithin_keeps limit hc⟩
  · exact r.eval_ne_exhausted c.stream.symbols limit c.state
  · exact r.eval_keeps c.stream.symbols limit c.state
  · exact r.inspected_le c.stream.symbols limit (budget c.stream.symbols) c.state hc

/-- At the closing bracket of `f(x);`, where no expression begins. -/
theorem productions_settle_at_bracket :
    let c : Cursor := ⟨lex "f(x);" "f.hz", 3, 1⟩
    c.position ≤ c.stream.symbols.size ∧ ∀ x, Grammar.Probing x →
      (x.eval c.stream.symbols nestingLimit c.state).Settles c.stream.symbols c.state := by
  intro c
  have hc : c.position ≤ c.stream.symbols.size := by decide
  exact ⟨hc, (productions_settle c nestingLimit hc).1⟩

end Cursor

end FrontEnd
