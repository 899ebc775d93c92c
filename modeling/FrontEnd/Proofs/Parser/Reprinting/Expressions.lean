import FrontEnd.Proofs.Parser.Reprinting.Operands

/-!
Printed expressions are read in parentheses as the trees that they were printed from, one
statement for each production of the grammar of expressions that needs no block.
-/

namespace FrontEnd

namespace Grammar

open Script

variable {symbols : Symbols} {limit : Nat} {list rest : List Symbol} {t : Tree}

/-! ## Names and literals -/

theorem leaf_printed {a : Symbol} {form : Form Tree} (h : a.leaf? = some form) (token : Nat) :
    ∃ b, (Tree.node token form).printed = ⟨.operand, [b]⟩ ∧ b.leaf? = some form := by
  obtain ⟨kind, text⟩ := a
  cases kind <;> cases h <;> exact ⟨_, rfl, rfl⟩

theorem leaf_yields {a : Symbol} {form : Form Tree} (h : a.leaf? = some form) (token : Nat) :
    Rule.primary.Yields symbols limit [a] rest (Tree.node token form).SomeLike := by
  intro depth p hstand
  refine ⟨_, ⟨.node p form, rfl, ?_⟩, leaf_obtained (by rw [hstand.symbolAt, h])⟩
  simp [Tree.Like]

theorem ReadsExpression.leaf {a : Symbol} {form : Form Tree} (h : a.leaf? = some form)
    (token : Nat) : ReadsExpression symbols limit (.node token form) := by
  obtain ⟨b, hprinted, hb⟩ := leaf_printed h token
  have hopens : (kindOf [b]).Opens := (IsOperand.leaf (by rw [hb]; rfl)).opens
  have hprimary (rest : List Symbol) :
      Rule.primary.Yields symbols limit [b] rest (Tree.node token form).SomeLike :=
    leaf_yields hb token
  have hoperand : (Tree.node token form).printed.operand = [b] := by
    rw [hprinted]
    rfl
  constructor
  · intro rest hrest
    rw [hprinted]
    refine expression_yields_of_suffixed hopens.ofKind?_eq (hopens.kind_ne rfl)
      (suffixed_yields (hprimary rest) ?_) ?_
    · rw [hrest]; decide
    · rw [hrest]; rfl
  · rw [hoperand]
    exact hprimary
  · rw [hoperand]
    exact .leaf (by rw [hb]; rfl)
  · rw [hprinted]
    exact .inl rfl

/-! ## What follows an operand -/

theorem suffixes_yields_nil (h : kindOf rest ∉ TokenKind.suffixes) :
    Rule.suffixes.Yields symbols limit [] rest (· = []) := by
  intro depth p hstand
  refine ⟨[], rfl, suffixes_obtained_nil ?_⟩
  rwa [hstand.kind]

/-- A suffix that makes the tree of its target. -/
def Attaches (target t : Tree) (v : List (Nat × Suffix)) : Prop :=
  ∃ p suffix, v = [(p, suffix)] ∧ ∀ u, target.Like u → t.Like (.node p (suffix.form u))

variable {target : Tree}

/-- Nothing follows the suffix before a parenthesis. -/
theorem attaches_last {p : Nat} {suffix : Suffix} (hrest : kindOf rest = .rightParen)
    (h : ∀ u, target.Like u → t.Like (.node p (suffix.form u))) :
    (do return (p, suffix) :: (← run .suffixes) : Script (List (Nat × Suffix))).Yields symbols limit
      [] rest (Attaches target t) := by
  have hnone : kindOf rest ∉ TokenKind.suffixes := by
    rw [hrest]
    decide
  refine yields_nil_bind (yields_run (suffixes_yields_nil hnone)) ?_
  rintro _ rfl
  exact yields_pure ⟨p, suffix, rfl, h⟩

/-- An operand with a suffix is an expression. -/
theorem ReadsExpression.of_suffix (h : ReadsExpression symbols limit target)
    (list : List Symbol) (hprinted : t.printed = ⟨.operand, target.printed.operand ++ list⟩)
    (hne : list ≠ [])
    (hlist : ∀ rest, kindOf rest = .rightParen →
      Rule.suffixes.Yields symbols limit list rest (Attaches target t)) :
    ReadsExpression symbols limit t := by
  have hlength : t.printed.symbols.length ≠ 1 := by
    have hpos := List.length_pos_iff.mpr hne
    have hoperand := List.length_pos_iff.mpr h.isOperand.ne_nil
    rw [hprinted, List.length_append]
    omega
  refine .of_content (by rw [hprinted]; exact .inl rfl) hlength fun rest hrest => ?_
  have hsuffixed : Rule.suffixed.Yields symbols limit (target.printed.operand ++ list) rest
      t.SomeLike := by
    refine yields_bind (yields_run (h.primary _)) ?_
    rintro _ ⟨u, rfl, hu⟩
    refine yields_all_bind (yields_run (hlist rest hrest)) ?_
    rintro _ ⟨p, suffix, rfl, hlike⟩
    exact yields_pure ⟨_, rfl, hlike u hu⟩
  rw [hprinted]
  have hopens : (kindOf (target.printed.operand ++ list ++ rest)).Opens := by
    rw [List.append_assoc]
    exact h.isOperand.opens_append _
  refine expression_yields_of_suffixed hopens.ofKind?_eq (hopens.kind_ne rfl) hsuffixed ?_
  rw [hrest]
  rfl

theorem ReadsExpression.access (h : ReadsExpression symbols limit target) (token : Nat)
    (name : String) : ReadsExpression symbols limit (.node token (.access target name)) := by
  refine h.of_suffix [.word .dot, .name name] rfl (by simp) fun rest hrest => ?_
  refine yields_front_bind fun p => yields_take_bind (yields_expect_bind rfl ?_)
  refine attaches_last hrest fun u hu => ?_
  simp_all [Tree.Like, Suffix.form]

theorem ReadsExpression.index {position : Tree} (h : ReadsExpression symbols limit target)
    (hp : ReadsExpression symbols limit position) (token : Nat) :
    ReadsExpression symbols limit (.node token (.index target position)) := by
  refine h.of_suffix (.word .leftBracket :: (position.printed.operand ++
    [.word .rightBracket])) (by simp [Form.printed]) (by simp) fun rest hrest => ?_
  have hsubscript : subscript.Yields symbols limit (position.printed.operand ++
      [.word .rightBracket]) rest fun v => ∃ u, v = .index u ∧ position.Like u := by
    refine yields_bind (hp.require rfl) fun u hu => ?_
    exact yields_skip_bind (ne_of_beq_false rfl) (yields_expect_bind rfl (yields_pure ⟨u, rfl, hu⟩))
  refine yields_front_bind fun p => yields_take_bind (yields_all_bind hsubscript ?_)
  rintro _ ⟨v, rfl, hv⟩
  refine attaches_last hrest fun u hu => ?_
  simp_all [Tree.Like, Suffix.form]

/-- What stands behind a mark is read if it is there. -/
theorem behind_yields {mark : TokenKind} {value : Option Tree}
    (h : ∀ t ∈ value, ReadsExpression symbols limit t)
    (hrest : (kindOf rest).endsExpression = true) (hmark : kindOf rest ≠ mark) :
    (do
      if ← accept mark then return some (← require .expression expression)
      return none : Script (Option Tree)).Yields symbols limit
        (behind mark (value.map Tree.printed)) rest
        fun v => v.map Tree.unanchored = value.map Tree.unanchored := by
  cases value with
  | none => exact yields_skip_bind hmark (yields_pure rfl)
  | some t =>
    refine yields_accept_bind rfl (yields_all_bind ((h t rfl).require hrest) fun u hu => ?_)
    exact yields_pure (congrArg some hu)

theorem sentinel_yields {value : Option Tree} (h : ∀ t ∈ value, ReadsExpression symbols limit t)
    (hrest : (kindOf rest).endsExpression = true) (hcolon : kindOf rest ≠ .colon) :
    sentinel.Yields symbols limit (behind .colon (value.map Tree.printed)) rest
      fun v => v.map Tree.unanchored = value.map Tree.unanchored := behind_yields h hrest hcolon

theorem initializer_yields {value : Option Tree} (h : ∀ t ∈ value, ReadsExpression symbols limit t)
    (hrest : (kindOf rest).endsExpression = true) (hassign : kindOf rest ≠ .assign) :
    initializer.Yields symbols limit (behind .assign (value.map Tree.printed)) rest
      fun v => v.map Tree.unanchored = value.map Tree.unanchored := behind_yields h hrest hassign

theorem ReadsExpression.slice {start stop : Tree} {sentinel : Option Tree}
    (h : ReadsExpression symbols limit target) (hstart : ReadsExpression symbols limit start)
    (hstop : ReadsExpression symbols limit stop)
    (hsentinel : ∀ t ∈ sentinel, ReadsExpression symbols limit t) (token : Nat) :
    ReadsExpression symbols limit (.node token (.slice target start stop sentinel)) := by
  refine h.of_suffix (.word .leftBracket :: (start.printed.operand ++ .word .dotDot ::
    (stop.printed.operand ++ (behind .colon (sentinel.map Tree.printed) ++
      [.word .rightBracket])))) (by simp [Form.printed]) (by simp) fun rest hrest => ?_
  refine yields_front_bind fun p => ?_
  refine yields_take_bind (yields_all_bind (P := fun v => ∃ u w x, v = Suffix.slice u w x ∧
    start.Like u ∧ stop.Like w ∧ x.map Tree.unanchored = sentinel.map Tree.unanchored) ?_ ?_)
  · refine yields_bind (hstart.require rfl) fun u hu => ?_
    refine yields_accept_bind rfl ?_
    refine yields_bind (hstop.require ?_) fun w hw => ?_
    · cases sentinel <;> rfl
    refine yields_bind (sentinel_yields hsentinel rfl (ne_of_beq_false rfl)) fun x hx => ?_
    exact yields_expect_bind rfl (yields_pure ⟨u, w, x, rfl, hu, hw, hx⟩)
  · rintro _ ⟨v, w, x, rfl, hv, hw, hx⟩
    refine attaches_last hrest fun u hu => ?_
    simp_all [Tree.Like, Suffix.form]

theorem listed_yields (bracket : Bracket) {items : List Tree}
    (h : ∀ t ∈ items, ReadsExpression symbols limit t) :
    (Rule.listed bracket).Yields symbols limit
      (commas (items.map (·.printed.operand)) ++ [.word bracket.closing]) rest
      fun v => v.map Tree.unanchored = items.map Tree.unanchored := by
  have hclosing : bracket.closing.opensOperand = false := by cases bracket <;> rfl
  have hcomma : bracket.closing ≠ .comma := by cases bracket <;> decide
  induction items with
  | nil => exact yields_accept_bind rfl (yields_pure rfl)
  | cons t items ih =>
    obtain ⟨ht, hitems⟩ := List.forall_mem_cons.mp h
    cases items with
    | nil =>
      refine yields_skip_bind ?_ ?_
      · have := (ht.isOperand.opens_append ([.word bracket.closing] ++ rest)).kind_ne hclosing
        simpa using this
      rw [List.map_cons, List.map_nil, commas_singleton]
      refine yields_bind (ht.require ?_) fun u hu => ?_
      · cases bracket <;> rfl
      refine yields_skip_bind hcomma (yields_expect_bind rfl (yields_pure ?_))
      rw [List.map_singleton, List.map_singleton, hu]
    | cons t' items =>
      simp only [List.map_cons, commas_cons_cons, List.append_assoc, List.cons_append] at ih ⊢
      refine yields_skip_bind ?_ ?_
      · rw [List.append_assoc]
        exact (ht.isOperand.opens_append _).kind_ne hclosing
      refine yields_bind (ht.require rfl) fun u hu => ?_
      refine yields_accept_bind rfl (yields_all_bind (yields_run (ih hitems)) fun v hv => ?_)
      refine yields_pure ?_
      rw [List.map_cons, hu, hv]

theorem ReadsExpression.call {args : List Tree} (h : ReadsExpression symbols limit target)
    (hargs : ∀ t ∈ args, ReadsExpression symbols limit t) (token : Nat) :
    ReadsExpression symbols limit (.node token (.call target args)) := by
  refine h.of_suffix (.word .leftParen :: (commas (args.map (·.printed.operand)) ++
    [.word Bracket.round.closing])) ?_ (by simp) fun rest hrest => ?_
  · simp [Form.printed, parens, Bracket.closing, Function.comp_def]
  refine yields_front_bind fun p => yields_take_bind ?_
  refine yields_all_bind (yields_run (listed_yields .round hargs)) fun v hv => ?_
  refine attaches_last hrest fun u hu => ?_
  simp_all [Tree.Like, Suffix.form]

/-! ## Prefixes and lists -/

theorem attempts_yields_nil (h : kindOf rest ≠ .kwTry) :
    Rule.attempts.Yields symbols limit [] rest (· = []) :=
  yields_here_bind fun _ => yields_skip_bind h (yields_pure rfl)

theorem ReadsExpression.attempt (h : ReadsExpression symbols limit t) (token : Nat) :
    ReadsExpression symbols limit (.node token (.unary .attempt t)) := by
  have hlength : (Tree.node token (.unary .attempt t)).printed.symbols.length ≠ 1 := by
    simp [Form.printed, h.isOperand.ne_nil]
  refine .of_content (.inl rfl) hlength fun rest hrest => ?_
  have htry : kindOf (t.printed.operand ++ rest) ≠ .kwTry :=
    (h.isOperand.opens_append rest).kind_ne rfl
  have hattempts : Rule.attempts.Yields symbols limit [.word .kwTry] (t.printed.operand ++ rest)
      fun v => ∃ p, v = [p] := by
    refine yields_here_bind fun p => yields_accept_bind rfl ?_
    refine yields_nil_bind (yields_run (attempts_yields_nil htry)) ?_
    rintro _ rfl
    exact yields_pure ⟨p, rfl⟩
  refine yields_bind (l := [.word .kwTry]) (yields_run hattempts) ?_
  rintro _ ⟨p, rfl⟩
  refine yields_all_bind (P := t.SomeLike)
    (climbing_yields (n := 0) (Nat.zero_le 8) (h.unary ?_) ?_) ?_
  · rw [hrest]
    decide
  · intro m _ hm
    rw [hrest]
    exact Nat.ne_of_gt hm
  · rintro _ ⟨u, rfl, hu⟩
    refine yields_pure ⟨_, rfl, ?_⟩
    simp_all [Tree.Like]

theorem ReadsExpression.prefixed (h : ReadsExpression symbols limit t) (token : Nat)
    (op : UnaryOp) : ReadsExpression symbols limit (.node token (.unary op t)) := by
  by_cases hattempt : op = .attempt
  · rw [hattempt]
    exact h.attempt token
  have hlength : (Tree.node token (.unary op t)).printed.symbols.length ≠ 1 := by
    simp [Form.printed, h.isOperand.ne_nil]
  refine .of_content (.inl rfl) hlength fun rest hrest => ?_
  have hmark : op.kind ≠ .kwTry := by
    intro hk
    have hop := op.ofKind?_kind
    rw [hk] at hop
    exact hattempt (Option.some.inj hop).symm
  refine expression_yields_of_unary hmark ?_ (by rw [hrest]; rfl)
  have hoperand : Rule.operand.Yields symbols limit t.printed.operand rest t.Like :=
    yields_require (yields_run (h.unary (by rw [hrest]; decide)))
  refine yields_sight_bind fun s hs _ => ?_
  have hk : UnaryOp.ofKind? s.kind = some op := by
    rw [Sight.kind, hs]
    exact op.ofKind?_kind
  simp only [hk]
  refine yields_take_bind (yields_all_bind (yields_deeper hoperand) fun u hu => ?_)
  refine yields_pure ⟨_, rfl, ?_⟩
  simp_all [Tree.Like]

theorem ReadsExpression.elements {items : List Tree}
    (h : ∀ t ∈ items, ReadsExpression symbols limit t) (token : Nat) :
    ReadsExpression symbols limit (.node token (.elements items)) := by
  refine .of_content (.inl rfl) (by simp [Form.printed, braces]) fun rest hrest => ?_
  refine expression_yields_of_unary (ne_of_beq_false rfl) ?_ (by rw [hrest]; rfl)
  have hprinted : (Tree.node token (.elements items)).printed.symbols = .word .leftBrace ::
      (commas (items.map (·.printed.operand)) ++ [.word Bracket.curly.closing]) := by
    simp [Form.printed, braces, Bracket.closing, Function.comp_def]
  rw [hprinted]
  refine yields_front_bind fun _ => ?_
  refine yields_front_bind fun _ => yields_ite_true rfl ?_
  refine yields_here_bind fun p => yields_accept_bind rfl ?_
  refine yields_all_bind (yields_run (listed_yields .curly h)) fun v hv => ?_
  refine yields_pure ⟨_, rfl, ?_⟩
  simp_all [Tree.Like]

/-! ## Binary operators -/

theorem operands_yields_nil {l : Level} (hop : l.operator? (kindOf rest) = none) :
    (Rule.operands l).Yields symbols limit [] rest (· = []) := by
  intro depth p hstand
  have hstop : (Rule.operands l).eval symbols limit ⟨p, depth⟩ = .read [] ⟨p, depth⟩ :=
    operands_stop (by rwa [hstand.kind])
  rw [Rule.eval_eq] at hstop
  exact ⟨[], rfl, .inl hstop⟩

/-- An operand with a mark behind it is an expression where a level reads the whole. -/
theorem ReadsExpression.of_infix {lhs : Tree} {mark : TokenKind} {n : Nat}
    (hl : ReadsExpression symbols limit lhs) (hn : n ≤ 8)
    (hprinted : t.printed = ⟨.operand, lhs.printed.operand ++ .word mark :: list⟩)
    (h : ∀ rest, kindOf rest = .rightParen →
      (climbing n).Yields symbols limit (lhs.printed.operand ++ .word mark :: list) rest
        t.SomeLike) :
    ReadsExpression symbols limit t := by
  have hlength : t.printed.symbols.length ≠ 1 := by
    have hpos := List.length_pos_iff.mpr hl.isOperand.ne_nil
    rw [hprinted, List.length_append, List.length_cons]
    omega
  refine .of_content (by rw [hprinted]; exact .inl rfl) hlength fun rest hrest => ?_
  have hread := loosened_yields (Nat.zero_le n) hn (h rest hrest) (by rw [hrest]; rfl)
  rw [hprinted]
  refine attempted_yields ?_ hread
  rw [List.append_assoc]
  exact (hl.isOperand.opens_append _).kind_ne rfl

theorem ReadsExpression.binary {lhs rhs : Tree} {l : Level} {op : BinaryOp} {kind : TokenKind}
    (hl : ReadsExpression symbols limit lhs) (hr : ReadsExpression symbols limit rhs)
    (hlevel : l ≠ .assignment) (hop : l.operator? kind = some op) (token : Nat) :
    ReadsExpression symbols limit (.node token (.binary op lhs rhs)) := by
  have hkind := Level.operator?_kind hop
  have htight : op.kind.tightness = l.tightness := by
    rw [Level.operator?_eq hlevel] at hkind
    split at hkind
    · assumption
    · cases hkind
  have hassigns : op.assigns = false := by
    rw [Level.assigns_of_operator hop]
    exact decide_eq_false hlevel
  have hprinted : (Tree.node token (.binary op lhs rhs)).printed =
      ⟨.operand, lhs.printed.operand ++ .word op.kind :: rhs.printed.operand⟩ := by
    simp [Form.printed, hassigns]
  have htight' : l.tightness < 8 := by
    cases l <;> first | exact absurd rfl hlevel | decide
  refine hl.of_infix (Nat.le_of_lt htight') hprinted fun rest hrest => ?_
  have hright : (climbing (l.tightness + 1)).Yields symbols limit rhs.printed.operand rest
      rhs.SomeLike := by
    refine climbing_yields (by omega) (hr.unary (by rw [hrest]; decide)) fun m _ hm => ?_
    rw [hrest]
    exact Nat.ne_of_gt hm
  have hoperands : (Rule.operands l).Yields symbols limit (.word op.kind :: rhs.printed.operand)
      rest fun v => ∃ p u, v = [(p, op, u)] ∧ rhs.Like u := by
    refine yields_sight_bind fun s hs _ => ?_
    have hk : l.operator? s.kind = some op := by
      rw [Sight.kind, hs]
      exact hkind
    simp only [hk, operandOf_eq hlevel]
    refine yields_take_bind (yields_all_bind (yields_require hright) fun u hu => ?_)
    have hstop : l.operator? (kindOf rest) = none := by
      rw [hrest]
      cases l <;> rfl
    split
    · refine yields_nil_bind (yields_run (operands_yields_nil hstop)) ?_
      rintro _ rfl
      exact yields_pure ⟨_, u, rfl, hu⟩
    · exact yields_pure ⟨_, u, rfl, hu⟩
  rw [climbing_level hlevel]
  refine yields_run (yields_bind (P := lhs.SomeLike) ?_ ?_)
  · rw [operandOf_eq hlevel]
    refine climbing_yields htight' (hl.unary ?_) fun m hm _ => ?_
    · change op.kind ∉ TokenKind.suffixes
      intro hmem
      simp only [TokenKind.suffixes, List.mem_cons, List.not_mem_nil, or_false] at hmem
      rcases hmem with hk | hk | hk <;> rw [hk] at hkind <;> cases l <;> cases hkind
    · change op.kind.tightness ≠ m
      omega
  · rintro _ ⟨u, rfl, hu⟩
    refine yields_all_bind (yields_run hoperands) ?_
    rintro _ ⟨p, v, rfl, hv⟩
    refine yields_pure ⟨_, rfl, ?_⟩
    simp_all [Tree.Like]

/-! ## Recovery -/

theorem handlers_yields_nil (h : kindOf rest ≠ .kwCatch) :
    Rule.handlers.Yields symbols limit [] rest (· = []) :=
  yields_here_bind fun _ => yields_skip_bind h (yields_pure rfl)

theorem payload_yields (payload : Option String) (hrest : kindOf rest ≠ .pipe) :
    Grammar.payload.Yields symbols limit (payloadMarks payload) rest (· = payload) := by
  cases payload with
  | none => exact yields_skip_bind hrest (yields_pure rfl)
  | some name =>
    exact yields_accept_bind rfl (yields_expect_bind rfl (yields_expect_bind rfl (yields_pure rfl)))

theorem block_yields_none {label : Option String} (h : kindOf rest ≠ .leftBrace) :
    (Rule.block label).Yields symbols limit [] rest (· = none) :=
  yields_here_bind fun _ => yields_skip_bind h (yields_pure rfl)

/-- The printed tree is read behind `catch`. -/
structure ReadsHandler (symbols : Symbols) (limit : Nat) (t : Tree) : Prop where
  ne_pipe (rest : List Symbol) : kindOf (t.printed.unended ++ rest) ≠ .pipe
  reads (rest : List Symbol) (h : kindOf rest = .rightParen) :
    (Rule.block none).Yields symbols limit t.printed.unended rest t.SomeLike ∨
      kindOf (t.printed.unended ++ rest) ≠ .leftBrace ∧
        (run (.level .bitwise)).Yields symbols limit t.printed.unended rest t.SomeLike

theorem ReadsHandler.handlers (h : ReadsHandler symbols limit t) (payload : Option String)
    (hrest : kindOf rest = .rightParen) :
    Rule.handlers.Yields symbols limit
      (.word .kwCatch :: (payloadMarks payload ++ t.printed.unended)) rest
      fun v => ∃ p u, v = [(p, payload, u)] ∧ t.Like u := by
  refine yields_here_bind fun p => yields_accept_bind rfl ?_
  refine yields_bind (payload_yields payload (h.ne_pipe rest)) ?_
  rintro _ rfl
  have hlast : Rule.handlers.Yields symbols limit [] rest (· = []) :=
    handlers_yields_nil (by rw [hrest]; decide)
  rcases h.reads rest hrest with hblock | ⟨hbrace, hlevel⟩
  · refine yields_all_bind (yields_run hblock) ?_
    rintro _ ⟨u, rfl, hu⟩
    refine yields_pure_bind (yields_nil_bind (yields_run hlast) ?_)
    rintro _ rfl
    exact yields_pure ⟨_, u, rfl, hu⟩
  · refine yields_nil_bind (yields_run (block_yields_none hbrace)) ?_
    rintro _ rfl
    refine yields_all_bind (yields_require hlevel) fun u hu => ?_
    refine yields_nil_bind (yields_run hlast) ?_
    rintro _ rfl
    exact yields_pure ⟨_, u, rfl, hu⟩

theorem ReadsExpression.unended_eq (h : ReadsExpression symbols limit t) :
    t.printed.unended = t.printed.operand := by
  rcases h.standing with hs | hf
  · rw [Printed.unended, hs]
    rfl
  · rcases hf.standing with hs | hs <;> rw [Printed.unended, hs] <;> rfl

theorem ReadsExpression.handler (h : ReadsExpression symbols limit t) :
    ReadsHandler symbols limit t := by
  constructor
  · intro rest
    rw [h.unended_eq]
    exact (h.isOperand.opens_append rest).kind_ne rfl
  · intro rest hrest
    rw [h.unended_eq]
    refine .inr ⟨(h.isOperand.opens_append rest).kind_ne rfl, ?_⟩
    refine climbing_yields (n := 4) (by omega) (h.unary ?_) fun m _ hm => ?_
    · rw [hrest]
      decide
    · rw [hrest]
      exact Nat.ne_of_gt hm

/-- An expression with what is done where it fails. -/
theorem ReadsExpression.recovery {lhs rhs : Tree} (hl : ReadsExpression symbols limit lhs)
    (hr : ReadsHandler symbols limit rhs) (token : Nat) (payload : Option String) :
    ReadsExpression symbols limit (.node token (.recovery lhs payload rhs)) := by
  have hprinted : (Tree.node token (.recovery lhs payload rhs)).printed =
      ⟨.operand, lhs.printed.operand ++
        (.word .kwCatch :: (payloadMarks payload ++ rhs.printed.unended))⟩ := by
    simp [Form.printed]
  refine hl.of_infix (n := 3) (by omega) hprinted fun rest hrest => ?_
  refine yields_run (yields_bind (P := lhs.SomeLike) ?_ ?_)
  · have hsuffix : TokenKind.kwCatch ∉ TokenKind.suffixes := by decide
    refine climbing_yields (n := 4) (by omega) (hl.unary hsuffix) fun m hm _ => ?_
    exact Nat.ne_of_lt hm
  · rintro _ ⟨u, rfl, hu⟩
    refine yields_all_bind (yields_run (hr.handlers payload hrest)) ?_
    rintro _ ⟨p, v, rfl, hv⟩
    refine yields_pure ⟨_, rfl, ?_⟩
    simp_all [Tree.Like]

end Grammar

end FrontEnd
