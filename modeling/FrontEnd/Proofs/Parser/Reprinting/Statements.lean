import FrontEnd.Proofs.Parser.Reprinting.Declarations

/-!
Printed statements are read as the trees that they were printed from, whatever statements
follow.
-/

namespace FrontEnd.Grammar

open Script

variable {symbols : Symbols} {limit : Nat} {list rest : List Symbol} {t : Tree}

/-! ## Assignments -/

section Fronts

variable (h : ReadsAssignment symbols limit t) (hrest : (kindOf rest).claimsName = false)
include h hrest

theorem ReadsAssignment.next_ne (kind : TokenKind) (hk : kind.claimsName = true)
    (hname : kindOf (t.printed.unended ++ rest) = .identifier) :
    kindOf (t.printed.unended ++ rest).tail ≠ kind := by
  rintro rfl
  rw [h.second rest hname hrest] at hk
  cases hk

theorem ReadsAssignment.opensVariable_eq :
    (Sight.front (t.printed.unended ++ rest)).opensVariable = false := by
  have hopens : (kindOf (t.printed.unended ++ rest)).opensOperand = true := h.opens rest
  have hnext := h.next_ne hrest .identifier rfl
  rw [Sight.opensVariable, Sight.front_kind, Sight.front_next, Bool.or_eq_false_iff]
  constructor
  · revert hopens
    cases kindOf (t.printed.unended ++ rest) <;>
      first | exact fun _ => rfl | exact (absurd · Bool.false_ne_true)
  · simpa using hnext

/-- What begins a loop is not taken for the name of an element. -/
theorem ReadsAssignment.binds_eq : ((Sight.front (t.printed.unended ++ rest)).kind = .identifier &&
    (Sight.front (t.printed.unended ++ rest)).next = .kwIn) = false := by
  have hnext := h.next_ne hrest .kwIn rfl
  rw [Sight.front_kind, Sight.front_next]
  simpa using hnext

end Fronts

/-! ## Conditionals -/

theorem condition_yields (h : ReadsExpression symbols limit t) :
    condition.Yields symbols limit (parens t.printed.operand) rest t.Like := by
  refine yields_expect_bind rfl (yields_bind (h.require rfl) fun u hu => ?_)
  exact yields_expect_bind rfl (yields_pure hu)

/-- The printed tree is read as a conditional. -/
structure ReadsConditional (symbols : Symbols) (limit : Nat) (t : Tree) : Prop where
  standing : t.printed.standing = .statement
  opens : ∃ list, t.printed.symbols = .word .kwIf :: list
  reads (rest : List Symbol) (h : kindOf rest ∉ TokenKind.elses) :
    Rule.conditional.Yields symbols limit t.printed.symbols rest t.Like

theorem ReadsConditional.of_parts {condition thenBody : Tree} {elseBody : Option Tree}
    (hcondition : ReadsExpression symbols limit condition)
    (hthen : ReadsBody symbols limit thenBody)
    (helse : ∀ t ∈ elseBody, ReadsStatement symbols limit t) (token : Nat) :
    ReadsConditional symbols limit (.node token (.conditional condition thenBody elseBody)) := by
  refine ⟨rfl, ⟨_, rfl⟩, fun rest hrest => ?_⟩
  have hprinted : (Tree.node token (.conditional condition thenBody elseBody)).printed.symbols =
      .word .kwIf :: (parens condition.printed.operand ++ (thenBody.printed.body ++
        elseBody.elim [] fun p => .word .kwElse :: p.printed.statement)) := by
    cases elseBody <;> simp [Form.printed]
  simp only [TokenKind.elses, List.mem_cons, List.not_mem_nil, or_false, not_or] at hrest
  rw [hprinted]
  refine yields_here_bind fun p => yields_skip_bind (ne_of_beq_false rfl) ?_
  refine yields_expect_bind rfl ?_
  change (branched p).Yields _ _ _ _ _
  refine yields_bind (condition_yields hcondition) fun u hu => ?_
  refine yields_bind (yields_run (hthen.body _)) fun v hv => ?_
  cases elseBody with
  | none =>
    refine yields_skip_bind hrest.1 (yields_front_bind fun q => yields_ite_false hrest.2 ?_)
    refine yields_pure ?_
    simp_all [Tree.Like]
  | some t =>
    have ht := (helse t rfl).reads rest (by simpa [TokenKind.elses] using hrest)
    refine yields_accept_bind rfl ?_
    refine yields_all_bind (yields_require (yields_deeper ht)) fun w hw => ?_
    refine yields_pure ?_
    simp_all [Tree.Like]

theorem ReadsConditional.statement (h : ReadsConditional symbols limit t) :
    ReadsStatement symbols limit t := by
  have hsymbols : t.printed.statement = t.printed.symbols := by
    rw [Printed.statement, h.standing]
  obtain ⟨list, hlist⟩ := h.opens
  constructor
  · intro rest hrest
    have hread := h.reads rest hrest
    rw [hsymbols]
    rw [hlist] at hread ⊢
    have hname : TokenKind.kwIf ≠ .identifier := by decide
    refine statement_yields_at .kwIf rfl (by decide) (by decide) (fun hk => absurd hk hname) ?_
    exact yields_map (yields_run hread) fun u hu => ⟨u, rfl, hu⟩
  · intro rest
    rw [hsymbols, hlist]
    rfl

/-! ## Blocks and loops with labels -/

theorem label_yields {label : Option String} (hrest : kindOf rest ≠ .identifier) :
    Grammar.label.Yields symbols limit (labelMarks label) rest (· = label) := by
  refine yields_front_bind fun p => ?_
  cases label with
  | none =>
    refine yields_ite_false ?_ (yields_pure rfl)
    simp only [Bool.and_eq_true, decide_eq_true_eq]
    exact fun hboth => hrest hboth.1
  | some name =>
    exact yields_ite_true rfl (yields_take_two_bind (yields_pure rfl))

/-- The printed tree is read behind its label, as a block or a loop. -/
structure ReadsLabelled (symbols : Symbols) (limit : Nat) (t : Tree) : Prop where
  symbols_eq : t.printed.statement = t.printed.symbols
  reads : ∃ label opener list, t.printed.symbols = labelMarks label ++ .word opener :: list ∧
    (opener = .leftBrace ∨ opener = .kwFor) ∧
    ∀ rest, (do
      if let some block ← run (.block label) then return some block
      if let some loop ← loopIfAny label then return some loop
      if label.isSome then failing .blockOrLoop else return none : Script (Option Tree)).Yields
        symbols limit (.word opener :: list) rest t.SomeLike

theorem ReadsLabelled.statement (h : ReadsLabelled symbols limit t) :
    ReadsStatement symbols limit t := by
  obtain ⟨label, opener, list, hlist, hopener, hread⟩ := h.reads
  have hlabelled (rest : List Symbol) : Rule.labelled.Yields symbols limit
      (labelMarks label ++ .word opener :: list) rest t.SomeLike := by
    refine yields_bind (label_yields ?_) ?_
    · rcases hopener with rfl | rfl <;> exact ne_of_beq_false rfl
    · rintro _ rfl
      exact hread rest
  have hkind (rest : List Symbol) {k : TokenKind}
      (hk : kindOf (labelMarks label ++ .word opener :: list ++ rest) = k) :
      k ∈ [TokenKind.leftBrace, .kwFor, .identifier] := by
    subst hk
    cases label with
    | some name => exact .tail _ (.tail _ (.head _))
    | none => rcases hopener with rfl | rfl <;> first | exact .head _ | exact .tail _ (.head _)
  constructor
  · intro rest _
    rw [h.symbols_eq, hlist]
    obtain ⟨k, hk⟩ : ∃ k, kindOf (labelMarks label ++ .word opener :: list ++ rest) = k := ⟨_, rfl⟩
    have hmem := hkind rest hk
    simp only [List.mem_cons, List.not_mem_nil, or_false] at hmem
    refine statement_yields_at k hk ?_ ?_ ?_ ?_
    · rcases hmem with rfl | rfl | rfl <;> decide
    · rcases hmem with rfl | rfl | rfl <;> decide
    · rintro rfl
      cases label with
      | none => rcases hopener with rfl | rfl <;> cases hk
      | some name => exact ne_of_beq_false rfl
    · have hstatement : statementAt k = statementAt .leftBrace := by
        rcases hmem with rfl | rfl | rfl <;> rfl
      rw [hstatement]
      refine yields_all_bind (yields_run (hlabelled rest)) ?_
      rintro _ ⟨u, rfl, hu⟩
      exact yields_pure ⟨u, rfl, hu⟩
  · intro rest
    rw [h.symbols_eq, hlist]
    cases label with
    | none => rcases hopener with rfl | rfl <;> rfl
    | some name => rfl

theorem ReadsBlock.labelled {label : Option String} (h : ReadsBlock symbols limit label t) :
    ReadsLabelled symbols limit t := by
  obtain ⟨list, hlist, hread⟩ := h.reads
  refine ⟨by rw [Printed.statement, h.standing], label, .leftBrace, list, hlist, .inl rfl,
    fun rest => ?_⟩
  refine yields_all_bind (yields_run (hread rest)) ?_
  rintro _ ⟨u, rfl, hu⟩
  exact yields_pure ⟨u, rfl, hu⟩

/-! ## Loops -/

/-- No expression is read where a mark ends one. -/
theorem expression_yields_none (h : kindOf rest = .semicolon ∨ kindOf rest = .rightParen) :
    expression.Yields symbols limit [] rest (· = none) := by
  refine yields_deeper fun depth p hstand => ⟨none, rfl, ?_⟩
  have hkind := hstand.kind
  rw [List.nil_append] at hkind
  have hleaf : (symbols.symbolAt p).leaf? = none := by
    unfold Symbol.leaf?
    rw [hkind]
    rcases h with h | h <;> rw [h]
  refine expression_obtained_none ?_ hleaf ?_
  · rw [hkind]
    rcases h with h | h <;> rw [h] <;> rfl
  · rw [hkind]
    rcases h with h | h <;> rw [h] <;> decide

/-- An expression that may be missing before a semicolon. -/
theorem value_yields {value : Option Tree} (h : ∀ t ∈ value, ReadsExpression symbols limit t)
    (hrest : kindOf rest = .semicolon) :
    expression.Yields symbols limit ((value.map Tree.printed).elim [] (·.operand)) rest
      fun v => v.map Tree.unanchored = value.map Tree.unanchored := by
  cases value with
  | none =>
    refine (expression_yields_none (.inl hrest)).mono ?_
    rintro _ rfl
    rfl
  | some t =>
    refine (expression_yields ((h t rfl).expression (by rw [hrest]; rfl))).mono ?_
    rintro _ ⟨u, rfl, hu⟩
    exact congrArg some hu

/-- An assignment that may be missing before a parenthesis. -/
theorem step_yields {step : Option Tree} (h : ∀ t ∈ step, ReadsAssignment symbols limit t)
    (hrest : kindOf rest = .rightParen) :
    assignment.Yields symbols limit ((step.map Tree.printed).elim [] (·.unended)) rest
      fun v => v.map Tree.unanchored = step.map Tree.unanchored := by
  cases step with
  | none =>
    refine yields_run (yields_all_bind (expression_yields_none (.inr hrest)) ?_)
    rintro _ rfl
    exact yields_pure rfl
  | some t =>
    refine (yields_run ((h t rfl).reads rest (by rw [hrest]; rfl))).mono ?_
    rintro _ ⟨u, rfl, hu⟩
    exact congrArg some hu

theorem ReadsLabelled.of_loop (label : Option String) (list : List Symbol)
    (hprinted : t.printed = ⟨.statement, labelMarks label ++ .word .kwFor :: list⟩)
    (h : ∀ rest, (Rule.loop label).Yields symbols limit (.word .kwFor :: list) rest t.Like) :
    ReadsLabelled symbols limit t := by
  refine ⟨by rw [Printed.statement, hprinted], label, .kwFor, list, by rw [hprinted], .inr rfl,
    fun rest => ?_⟩
  refine yields_nil_bind (yields_run (block_yields_none (ne_of_beq_false rfl))) ?_
  rintro _ rfl
  have hloop : (loopIfAny label).Yields symbols limit (.word .kwFor :: list) rest t.SomeLike :=
    yields_front_bind fun p => yields_all_bind (yields_run (h rest))
      fun u hu => yields_pure ⟨u, rfl, hu⟩
  refine yields_all_bind hloop ?_
  rintro _ ⟨u, rfl, hu⟩
  exact yields_pure ⟨u, rfl, hu⟩

section Loops

variable {label : Option String} {body : Tree} (hbody : ReadsBlock symbols limit none body)
include hbody

theorem ReadsLabelled.eachLoop {iterable : Tree} (h : ReadsExpression symbols limit iterable)
    (token : Nat) (binding : String) :
    ReadsLabelled symbols limit (.node token (.eachLoop label binding iterable body)) := by
  refine .of_loop label (.word .leftParen :: .name binding :: .word .kwIn ::
    (iterable.printed.operand ++ (.word .rightParen :: body.printed.symbols))) ?_ fun rest => ?_
  · simp [Form.printed, parens]
  refine yields_here_bind fun p => yields_expect_bind rfl ?_
  refine yields_nil_bind (yields_run (block_yields_none (ne_of_beq_false rfl))) ?_
  rintro _ rfl
  refine yields_expect_bind rfl (yields_front_bind fun q => yields_ite_true rfl ?_)
  refine yields_take_two_bind (yields_bind (h.require rfl) fun u hu => yields_expect_bind rfl ?_)
  refine yields_all_bind (hbody.required rest) fun v hv => yields_pure ?_
  simp_all [Tree.Like, Sight.front]

theorem stepped_yields (label : Option String) (rest : List Symbol)
    {condition step init init' : Option Tree}
    (hinit : init'.map Tree.unanchored = init.map Tree.unanchored)
    (hcondition : ∀ t ∈ condition, ReadsExpression symbols limit t)
    (hstep : ∀ t ∈ step, ReadsAssignment symbols limit t) (place token : Nat) :
    (stepped place label init').Yields symbols limit
      ((condition.map Tree.printed).elim [] (·.operand) ++ (.word .semicolon ::
        ((step.map Tree.printed).elim [] (·.unended) ++ (.word .rightParen ::
          body.printed.symbols)))) rest
      (Tree.node token (.steppedLoop label init condition step body)).Like := by
  refine yields_bind (value_yields hcondition rfl) fun u hu => yields_expect_bind rfl ?_
  refine yields_bind (step_yields hstep rfl) fun v hv => yields_expect_bind rfl ?_
  refine yields_all_bind (hbody.required rest) fun w hw => yields_pure ?_
  simp_all [Tree.Like]

/-- The first part of a loop in three parts. -/
theorem ReadsLabelled.steppedLoop {init condition step : Option Tree}
    (hinit : ∀ t ∈ init, ReadsDeclaration symbols limit t ∨ ReadsAssignment symbols limit t)
    (hcondition : ∀ t ∈ condition, ReadsExpression symbols limit t)
    (hstep : ∀ t ∈ step, ReadsAssignment symbols limit t) (token : Nat) :
    ReadsLabelled symbols limit (.node token (.steppedLoop label init condition step body)) := by
  refine .of_loop label (.word .leftParen :: (
    (init.map Tree.printed).elim [.word .semicolon] (·.initial) ++
      ((condition.map Tree.printed).elim [] (·.operand) ++ (.word .semicolon ::
        ((step.map Tree.printed).elim [] (·.unended) ++ (.word .rightParen ::
          body.printed.symbols)))))) ?_ fun rest => ?_
  · simp [Form.printed, parens]
  refine yields_here_bind fun p => yields_expect_bind rfl ?_
  refine yields_nil_bind (yields_run (block_yields_none (ne_of_beq_false rfl))) ?_
  rintro _ rfl
  refine yields_expect_bind rfl (yields_front_bind fun q => ?_)
  have hend {init' : Option Tree} (h : init'.map Tree.unanchored = init.map Tree.unanchored) :=
    stepped_yields hbody label rest h hcondition hstep p token
  cases init with
  | none =>
    refine yields_ite_false Bool.false_ne_true ?_
    refine yields_nil_bind (variableIfAny_yields_none rfl) ?_
    rintro _ rfl
    exact yields_accept_bind rfl (hend rfl)
  | some t =>
    rcases hinit t rfl with h | h
    · have hinitial : t.printed.initial = t.printed.symbols := if_pos h.standing
      rw [Option.map_some, Option.elim_some, hinitial]
      refine yields_ite_false ?_ ?_
      · rw [Bool.not_eq_true, List.append_assoc]
        exact binds_of_opensVariable (h.opens _)
      refine yields_bind (variableIfAny_yields (h.opens _) (h.reads _)) ?_
      rintro _ ⟨u, rfl, hu⟩
      exact hend (congrArg some hu)
    · have hinitial : t.printed.initial = t.printed.unended ++ [.word .semicolon] :=
        (if_neg h.standing_ne.2).trans h.body_eq
      rw [Option.map_some, Option.elim_some, hinitial, List.append_assoc t.printed.unended]
      refine yields_ite_false ?_ ?_
      · rw [Bool.not_eq_true, List.append_assoc]
        exact h.binds_eq rfl
      refine yields_nil_bind (variableIfAny_yields_none ?_) ?_
      · rw [List.append_assoc]
        exact h.opensVariable_eq rfl
      rintro _ rfl
      refine yields_skip_bind ?_ ?_
      · rw [List.append_assoc]
        exact (h.opens _).kind_ne rfl
      refine yields_bind (yields_require (yields_run (h.reads _ rfl))) fun u hu => ?_
      exact yields_accept_bind rfl (hend (congrArg some hu))

/-- A loop with one condition, or with none. -/
theorem ReadsLabelled.loop {condition : Option Tree}
    (h : ∀ t ∈ condition, ReadsAssignment symbols limit t) (token : Nat) :
    ReadsLabelled symbols limit (.node token (.loop label condition body)) := by
  cases condition with
  | none =>
    refine .of_loop label body.printed.symbols (by simp [Form.printed]) fun rest => ?_
    refine yields_here_bind fun p => yields_expect_bind rfl ?_
    refine yields_all_bind (yields_run (hbody.block rest)) ?_
    rintro _ ⟨u, rfl, hu⟩
    refine yields_pure ?_
    simp_all [Tree.Like]
  | some t =>
    have ht := h t rfl
    refine .of_loop label (.word .leftParen :: (t.printed.unended ++ (.word .rightParen ::
      body.printed.symbols))) (by simp [Form.printed, parens]) fun rest => ?_
    refine yields_here_bind fun p => yields_expect_bind rfl ?_
    refine yields_nil_bind (yields_run (block_yields_none (ne_of_beq_false rfl))) ?_
    rintro _ rfl
    refine yields_expect_bind rfl (yields_front_bind fun q => ?_)
    refine yields_ite_false ?_ ?_
    · rw [Bool.not_eq_true, List.append_assoc]
      exact ht.binds_eq rfl
    refine yields_nil_bind (variableIfAny_yields_none ?_) ?_
    · rw [List.append_assoc]
      exact ht.opensVariable_eq rfl
    rintro _ rfl
    refine yields_skip_bind ?_ ?_
    · rw [List.append_assoc]
      exact (ht.opens _).kind_ne rfl
    refine yields_bind (yields_require (yields_run (ht.reads _ rfl))) fun u hu => ?_
    refine yields_skip_bind (ne_of_beq_false rfl) (yields_expect_bind rfl ?_)
    refine yields_all_bind (hbody.required rest) fun v hv => yields_pure ?_
    simp_all [Tree.Like]

end Loops

/-! ## Jumps -/

/-- A statement that a word of its own begins. -/
theorem ReadsStatement.of_word (word : TokenKind) (list : List Symbol) {x : Script Tree}
    (hprinted : t.printed = ⟨.statement, .word word :: list⟩)
    (hcontainer : word ∉ TokenKind.containerOpeners) (hvariable : word ∉ TokenKind.variableOpeners)
    (hstatement : word.opensStatement = true) (hx : statementAt word = some <$> x)
    (hname : word ≠ .identifier)
    (h : ∀ rest, x.Yields symbols limit (.word word :: list) rest t.Like) :
    ReadsStatement symbols limit t := by
  have hsymbols : t.printed.statement = .word word :: list := by rw [Printed.statement, hprinted]
  constructor
  · intro rest _
    rw [hsymbols]
    refine statement_yields_at word rfl hcontainer hvariable (fun hk => absurd hk hname) ?_
    rw [hx]
    exact yields_map (h rest) fun u hu => ⟨u, rfl, hu⟩
  · intro rest
    rw [hsymbols]
    exact hstatement

theorem ReadsStatement.deferral {body : Tree} (h : ReadsBody symbols limit body) (token : Nat) :
    ReadsStatement symbols limit (.node token (.deferral body)) := by
  refine .of_word .kwDefer body.printed.body rfl (by decide) (by decide) rfl rfl (by decide)
    fun rest => ?_
  refine yields_here_bind fun p => yields_expect_bind rfl ?_
  refine yields_all_bind (yields_run (h.body rest)) fun u hu => yields_pure ?_
  simp_all [Tree.Like]

theorem ReadsStatement.returning {value : Option Tree}
    (h : ∀ t ∈ value, ReadsExpression symbols limit t) (token : Nat) :
    ReadsStatement symbols limit (.node token (.returning value)) := by
  refine .of_word .kwReturn ((value.map Tree.printed).elim [] (·.operand) ++ [.word .semicolon])
    (by simp [Form.printed]) (by decide) (by decide) rfl rfl (by decide) fun rest => ?_
  refine yields_here_bind fun p => yields_expect_bind rfl ?_
  refine yields_bind (value_yields h rfl) fun v hv => yields_expect_bind rfl (yields_pure ?_)
  simp_all [Tree.Like]

theorem ReadsStatement.raising {value : Tree} (h : ReadsExpression symbols limit value)
    (token : Nat) : ReadsStatement symbols limit (.node token (.raising value)) := by
  refine .of_word .kwRaise (value.printed.operand ++ [.word .semicolon])
    rfl (by decide) (by decide) rfl rfl (by decide) fun rest => ?_
  refine yields_here_bind fun p => yields_expect_bind rfl ?_
  refine yields_bind (h.require rfl) fun u hu => yields_expect_bind rfl (yields_pure ?_)
  simp_all [Tree.Like]

theorem jumpLabel_yields {label : Option String} (hrest : kindOf rest ≠ .colon) :
    jumpLabel.Yields symbols limit (jumpMarks label) rest (· = label) := by
  cases label with
  | none => exact yields_skip_bind hrest (yields_pure rfl)
  | some name => exact yields_accept_bind rfl (yields_expect_bind rfl (yields_pure rfl))

theorem ReadsStatement.breaking {value : Option Tree}
    (h : ∀ t ∈ value, ReadsExpression symbols limit t) (token : Nat) (label : Option String) :
    ReadsStatement symbols limit (.node token (.breaking label value)) := by
  refine .of_word .kwBreak (jumpMarks label ++ ((value.map Tree.printed).elim [] (·.operand) ++
    [.word .semicolon])) (by simp [Form.printed]) (by decide) (by decide) rfl rfl (by decide)
    fun rest => ?_
  refine yields_here_bind fun p => yields_expect_bind rfl ?_
  refine yields_bind (jumpLabel_yields ?_) ?_
  · cases value with
    | none => exact ne_of_beq_false rfl
    | some t =>
      rw [List.append_assoc]
      exact ((h t rfl).isOperand.opens_append _).kind_ne rfl
  rintro _ rfl
  refine yields_bind (value_yields h rfl) fun v hv => yields_expect_bind rfl (yields_pure ?_)
  simp_all [Tree.Like]

theorem ReadsStatement.continuing (token : Nat) (label : Option String) :
    ReadsStatement symbols limit (.node token (.continuing label)) := by
  refine .of_word .kwContinue (jumpMarks label ++ [.word .semicolon]) (by simp [Form.printed])
    (by decide) (by decide) rfl rfl (by decide) fun rest => ?_
  refine yields_here_bind fun p => yields_expect_bind rfl ?_
  refine yields_bind (jumpLabel_yields (ne_of_beq_false rfl)) ?_
  rintro _ rfl
  refine yields_expect_bind rfl (yields_pure ?_)
  simp [Tree.Like]

/-! ## Expressions as statements -/

theorem statementAt_of_opens {k : TokenKind} (h : k.Opens) : statementAt k = (do
    match ← run .labelled with
    | some statement => return some statement
    | none => expressionStatement) := by
  revert h
  unfold TokenKind.Opens
  cases k <;> first | exact fun _ => rfl | exact (absurd · Bool.false_ne_true)

theorem opensStatement_of_opens {k : TokenKind} (h : k.Opens) : k.opensStatement = true := by
  revert h
  unfold TokenKind.Opens
  cases k <;> first | exact fun _ => rfl | exact (absurd · Bool.false_ne_true)

theorem labelled_yields_none (h : ReadsAssignment symbols limit t)
    (hrest : (kindOf rest).claimsName = false) :
    Rule.labelled.Yields symbols limit [] (t.printed.unended ++ rest) (· = none) := by
  intro depth p hstand
  refine ⟨none, rfl, .of_eval ?_⟩
  rw [← Rule.eval_eq]
  refine labelled_none ?_ fun hname => ?_
  · rw [hstand.kind]
    exact (h.opens rest).not_mem (by decide)
  · rw [hstand.kind] at hname
    rw [hstand.kind_next]
    exact h.next_ne hrest _ rfl hname

theorem ReadsAssignment.statement (h : ReadsAssignment symbols limit t) :
    ReadsStatement symbols limit t := by
  have hdeclared : ReadsFunction symbols limit t ∨
      t.printed.statement = t.printed.unended ++ [.word .semicolon] := by
    rcases h.standing with hs | hs | hf
    · exact .inr (by rw [Printed.statement, hs])
    · exact .inr (by rw [Printed.statement, hs])
    · exact .inl hf
  rcases hdeclared with hf | hsymbols
  · exact hf.statement
  constructor
  · intro rest _
    have hopens := h.opens ([.word .semicolon] ++ rest)
    rw [hsymbols]
    refine statement_yields_at _ rfl ?_ ?_ ?_ ?_
    · rw [List.append_assoc]
      exact hopens.not_mem (by decide)
    · rw [List.append_assoc]
      exact hopens.not_mem (by decide)
    · rw [List.append_assoc]
      exact h.next_ne rfl _ rfl
    rw [List.append_assoc, statementAt_of_opens hopens]
    have hlabelled : Rule.labelled.Yields symbols limit []
        (t.printed.unended ++ [.word .semicolon] ++ rest) (· = none) := by
      rw [List.append_assoc]
      exact labelled_yields_none h rfl
    refine yields_nil_bind (yields_run hlabelled) ?_
    rintro _ rfl
    refine yields_bind (yields_run (h.reads _ rfl)) ?_
    rintro _ ⟨u, rfl, hu⟩
    exact yields_expect_bind rfl (yields_pure ⟨u, rfl, hu⟩)
  · intro rest
    rw [hsymbols, List.append_assoc]
    exact opensStatement_of_opens (h.opens _)

end FrontEnd.Grammar
