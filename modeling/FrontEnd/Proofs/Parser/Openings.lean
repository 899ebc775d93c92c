import FrontEnd.Proofs.Parser.Climbing

/-!
How statements begin. The first symbol of a statement, with the one behind it where the
first is a name, tells which production reads it: the lemmas below say of each that it does
not begin at other symbols, and what a statement is that begins as none of them.
-/

namespace FrontEnd

namespace TokenKind

def containerOpeners : List TokenKind :=
  [.kwFunc, .kwStruct, .kwUnion, .kwEnum, .kwExport, .kwExtern]

def variableOpeners : List TokenKind := [.kwExport, .kwMutable, .kwConst, .question, .leftBracket]

end TokenKind

namespace Grammar

open Script

variable {symbols : Symbols} {limit depth : Nat} {loose : Prop} {p q r : Nat} {x y : Tree}

theorem containerIfAny_none (h : (symbols.symbolAt p).kind ∉ TokenKind.containerOpeners) :
    containerIfAny.eval symbols limit ⟨p, depth⟩ = .read none ⟨p, depth⟩ := by
  have hopens (words : List TokenKind) (hw : ∀ k ∈ words, k ∈ TokenKind.containerOpeners) :
      (symbols.sight p).opens words = false := by
    have hexport : (symbols.symbolAt p).kind ≠ .kwExport := by
      rintro hk
      exact h (by rw [hk]; decide)
    have hword : (symbols.symbolAt p).kind ∉ words := fun hk => h (hw _ hk)
    simp [Sight.opens, Symbols.sight_kind, hexport, hword]
  have hforeign : (symbols.symbolAt p).kind ≠ .kwExtern := by
    rintro hk
    exact h (by rw [hk]; decide)
  have hfunction : (symbols.sight p).opensFunction = false := by
    rw [Sight.opensFunction, hopens [.kwFunc] (by decide), Symbols.sight_kind]
    simp [hforeign]
  simp only [containerIfAny]
  rw [eval_bind_of eval_sight]
  simp only [hfunction, hopens [.kwStruct, .kwUnion] (by decide), hopens [.kwEnum] (by decide)]
  rfl

theorem variableIfAny_none (h : (symbols.symbolAt p).kind ∉ TokenKind.variableOpeners)
    (hname : (symbols.symbolAt p).kind = .identifier →
      (symbols.symbolAt (p + 1)).kind ≠ .identifier) :
    variableIfAny.eval symbols limit ⟨p, depth⟩ = .read none ⟨p, depth⟩ := by
  have hopens : (symbols.sight p).opensVariable = false := by
    rw [Sight.opensVariable, Symbols.sight_kind, Symbols.sight_next]
    have hmem : [TokenKind.kwExport, .kwMutable, .kwConst, .question, .leftBracket].contains
        (symbols.symbolAt p).kind = false := by
      rw [List.contains_eq_mem]
      exact decide_eq_false h
    rw [hmem, Bool.false_or, Bool.and_eq_false_imp]
    simpa using hname
  simp only [variableIfAny]
  rw [eval_bind_of eval_sight]
  simp only [hopens]
  rfl

theorem label_none (h : (symbols.symbolAt p).kind = .identifier →
      (symbols.symbolAt (p + 1)).kind ≠ .colon) :
    label.eval symbols limit ⟨p, depth⟩ = .read none ⟨p, depth⟩ := by
  simp only [label]
  rw [eval_bind_of eval_sight, if_neg]
  · rfl
  · simp only [Bool.and_eq_true, decide_eq_true_eq]
    exact fun hboth => h hboth.1 hboth.2

theorem loopIfAny_none {label : Option String} (hfor : (symbols.symbolAt p).kind ≠ .kwFor)
    (hwhile : (symbols.symbolAt p).kind ≠ .kwWhile) :
    (loopIfAny label).eval symbols limit ⟨p, depth⟩ = .read none ⟨p, depth⟩ := by
  simp only [loopIfAny]
  rw [eval_bind_of eval_sight]
  simp only [Symbols.sight_kind]
  rfl

theorem labelled_none
    (h : (symbols.symbolAt p).kind ∉ [TokenKind.leftBrace, .kwFor, .kwWhile])
    (hlabel : (symbols.symbolAt p).kind = .identifier →
      (symbols.symbolAt (p + 1)).kind ≠ .colon) :
    Rule.eval symbols limit .labelled ⟨p, depth⟩ = .read none ⟨p, depth⟩ := by
  simp only [List.mem_cons, List.not_mem_nil, or_false, not_or] at h
  rw [Rule.eval_eq]
  simp only [Rule.script, labelled]
  rw [eval_bind_of (label_none hlabel), eval_bind_of (block_none h.1)]
  simp only
  rw [eval_bind_of (loopIfAny_none h.2.1 h.2.2)]
  rfl

/-- A statement that is no declaration, by the kind of its first symbol. -/
def statementAt : TokenKind → Script (Option Tree)
  | .kwDefer => some <$> deferral
  | .kwIf => some <$> run .conditional
  | .kwMatch => do
    let selection ← run .selection
    let _ ← accept .semicolon
    return some selection
  | .kwBreak => some <$> breaking
  | .kwContinue => some <$> continuing
  | .kwReturn => some <$> returning
  | .kwRaise => some <$> raising
  | _ => do
    match ← run .labelled with
    | some statement => return some statement
    | none => expressionStatement

theorem statement_eq : statement = (do
    if let some declaration ← containerIfAny then return some declaration
    if let some declaration ← variableIfAny then return some declaration
    statementAt (← sight).kind) := rfl

theorem statement_eval_of
    (hcontainer : (symbols.symbolAt p).kind ∉ TokenKind.containerOpeners)
    (hvariable : (symbols.symbolAt p).kind ∉ TokenKind.variableOpeners)
    (hname : (symbols.symbolAt p).kind = .identifier →
      (symbols.symbolAt (p + 1)).kind ≠ .identifier) :
    Rule.eval symbols limit .statement ⟨p, depth⟩ =
      (statementAt (symbols.symbolAt p).kind).eval symbols limit ⟨p, depth⟩ := by
  rw [Rule.eval_eq]
  simp only [Rule.script, statement_eq]
  rw [eval_bind_of (containerIfAny_none hcontainer)]
  simp only
  rw [eval_bind_of (variableIfAny_none hvariable hname)]
  simp only
  rw [eval_bind_of eval_sight, Symbols.sight_kind]

/-- A statement that begins with a symbol that no declaration begins with. -/
theorem statement_eval_at {kind : TokenKind} (hk : (symbols.symbolAt p).kind = kind)
    (h : kind ∉ TokenKind.containerOpeners ∧ kind ∉ TokenKind.variableOpeners ∧
      kind ≠ .identifier) :
    Rule.eval symbols limit .statement ⟨p, depth⟩ =
      (statementAt kind).eval symbols limit ⟨p, depth⟩ := by
  subst hk
  exact statement_eval_of h.1 h.2.1 fun hname => absurd hname h.2.2

theorem statement_obtained_variable
    (hcontainer : containerIfAny.eval symbols limit ⟨p, depth⟩ = .read none ⟨p, depth⟩)
    (hopens : (symbols.sight p).opensVariable = true)
    (h : Rule.declaration.Obtains symbols limit loose depth p x q) :
    Rule.statement.Obtains symbols limit loose depth p (some x) q := by
  have hvariable : variableIfAny.Obtains symbols limit loose depth p (some x) q := by
    refine obtains_bind obtains_sight (obtains_ite_true hopens ?_)
    exact obtains_bind (obtains_run h) (obtains_pure _)
  refine obtains_bind (.of_eval hcontainer) ?_
  exact obtains_bind hvariable (obtains_pure _)

/-- A loop or a block without a label. -/
theorem statement_obtained_labelled
    (h : (symbols.symbolAt p).kind ∈ [TokenKind.leftBrace, .kwFor, .kwWhile])
    (hx : Rule.labelled.Obtains symbols limit loose depth p (some x) q) :
    Rule.statement.Obtains symbols limit loose depth p (some x) q := by
  simp only [List.mem_cons, List.not_mem_nil, or_false] at h
  rcases h with h | h | h <;>
    exact obtains_of_eval_eq (statement_eval_at h (by decide))
      (obtains_bind (obtains_run hx) (obtains_pure _))

/-- A block without statements. -/
theorem block_obtained_empty {label : Option String}
    (hopen : (symbols.symbolAt p).kind = .leftBrace)
    (hclose : (symbols.symbolAt (p + 1)).kind = .rightBrace) :
    (Rule.block label).Obtains symbols limit loose depth p (some (.node p (.block label [])))
      (p + 2) := by
  have hstatements : Rule.statements.Obtains symbols limit loose depth (p + 1) [] (p + 2) :=
    obtains_bind (obtains_accept hclose (Symbols.next_of_kind hclose (by decide)))
      (obtains_pure _)
  refine obtains_bind obtains_here ?_
  refine obtains_bind (obtains_accept hopen (Symbols.next_of_kind hopen (by decide))) ?_
  exact obtains_bind (obtains_run hstatements) (obtains_pure _)

theorem condition_obtained (hd : depth < limit ∨ loose)
    (hopen : (symbols.symbolAt p).kind = .leftParen)
    (h : Rule.expression.Obtains symbols limit loose (depth + 1) (p + 1) (some x) q)
    (hclose : (symbols.symbolAt q).kind = .rightParen) :
    condition.Obtains symbols limit loose depth p x (q + 1) := by
  refine obtains_bind (obtains_expect hopen (Symbols.next_of_kind hopen (by decide))) ?_
  refine obtains_bind (obtains_require (obtains_deeper hd h)) ?_
  exact obtains_bind (obtains_expect hclose (Symbols.next_of_kind hclose (by decide)))
    (obtains_pure _)

end Grammar

end FrontEnd
