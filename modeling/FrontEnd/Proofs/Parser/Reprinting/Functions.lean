import FrontEnd.Proofs.Parser.Parts
import FrontEnd.Proofs.Parser.Reprinting.Bodies

/-!
Printed functions and selections are read as the trees that they were printed from, as
operands and, a function, as a statement too.
-/

namespace FrontEnd.Grammar

open Script

variable {symbols : Symbols} {limit : Nat} {list rest : List Symbol} {t : Tree}

/-! ## Functions -/

/-- The printed tree is read as the signature of a function behind the two words. -/
structure ReadsPrototype (symbols : Symbols) (limit : Nat) (isExport isExtern : Bool) (t : Tree) :
    Prop where
  standing : t.printed.standing = .signature
  reads : ∃ list, t.printed.symbols =
      flag isExport .kwExport ++ flag isExtern .kwExtern ++ .word .kwFunc :: list ∧ list ≠ [] ∧
    ∀ rest, kindOf rest ∉ TokenKind.suffixes →
      (Rule.prototype isExport isExtern).Yields symbols limit (.word .kwFunc :: list) rest t.Like

theorem type_yields_none (h : kindOf rest = .rightParen) :
    Rule.type.Yields symbols limit [] rest (· = none) := by
  refine yields_here_bind fun p => yields_skip_bind (by rw [List.nil_append, h]; decide) ?_
  refine yields_skip_bind (by rw [List.nil_append, h]; decide) ?_
  refine yields_run (yields_all_bind (P := (· = none)) (yields_run ?_) ?_)
  · refine yields_sight_bind fun s hs _ => ?_
    have hk : s.kind = .rightParen := by rw [← h, Sight.kind, hs]; rfl
    have hleaf : s.current.leaf? = none := by
      unfold Symbol.leaf?
      rw [show s.current.kind = _ from hk]
    simp only [hk, hleaf]
    exact yields_pure rfl
  · rintro _ rfl
    exact yields_pure rfl

theorem params_yields {params : List (Param Tree)}
    (h : ∀ p ∈ params, ReadsType symbols limit p.type)
    (hlast : ∀ p ∈ params.dropLast, p.variadic = false) (hrest : kindOf rest = .rightParen) :
    Rule.params.Yields symbols limit
      (commas (params.map fun p => (p.map Tree.printed).printed)) rest
      fun v => v.map Param.unanchored = params.map Param.unanchored := by
  induction params with
  | nil =>
    refine yields_here_bind fun p => yields_nil_bind (yields_run (type_yields_none hrest)) ?_
    rintro _ rfl
    exact yields_pure rfl
  | cons x params ih =>
    obtain ⟨hx, hparams⟩ := List.forall_mem_cons.mp h
    obtain ⟨token, name, type, variadic⟩ := x
    have hsuffix (list : List Symbol) :
        kindOf (flag variadic .ellipsis ++ .name name :: list) ∉ TokenKind.suffixes := by
      cases variadic with
      | false => exact (by decide : TokenKind.identifier ∉ TokenKind.suffixes)
      | true => exact (by decide : TokenKind.ellipsis ∉ TokenKind.suffixes)
    cases params with
    | nil =>
      rw [List.map_singleton, commas_singleton]
      refine yields_here_bind fun p => ?_
      simp only [Param.map, Param.printed, List.append_assoc]
      refine yields_bind (yields_run (hx.reads ?_)) ?_
      · simpa using hsuffix rest
      rintro _ ⟨u, rfl, hu⟩
      have hresult : ([⟨p, name, u, variadic⟩] : List (Param Tree)).map Param.unanchored =
          [(⟨token, name, type, variadic⟩ : Param Tree)].map Param.unanchored := by
        simpa [Param.unanchored, Tree.Like] using hu
      refine yields_flag_bind (ne_of_beq_false rfl) (yields_expect_bind rfl ?_)
      cases variadic with
      | true => exact yields_pure hresult
      | false =>
        refine yields_skip_bind ?_ (yields_pure hresult)
        rw [List.nil_append, hrest]
        decide
    | cons y params =>
      obtain rfl : variadic = false := hlast _ (.head _)
      have htail := ih hparams fun p hp => hlast p (.tail _ hp)
      simp only [List.map_cons, commas_cons_cons] at htail ⊢
      rw [Param.map, Param.printed]
      simp only [List.append_assoc]
      refine yields_here_bind fun p => ?_
      refine yields_bind (yields_run (hx.reads ?_)) ?_
      · simpa using hsuffix _
      rintro _ ⟨u, rfl, hu⟩
      refine yields_flag_bind (ne_of_beq_false rfl) (yields_expect_bind rfl ?_)
      refine yields_accept_bind rfl ?_
      refine yields_all_bind (yields_run htail) fun v hv => yields_pure ?_
      rw [List.map_cons, hv]
      simpa [Param.unanchored, Tree.Like] using hu

theorem ReadsPrototype.of_parts {params : List (Param Tree)} {result : Tree}
    (hparams : ∀ p ∈ params, ReadsType symbols limit p.type)
    (hlast : ∀ p ∈ params.dropLast, p.variadic = false) (hresult : ReadsType symbols limit result)
    (token : Nat) (name : Option String) (isExport isExtern : Bool) :
    ReadsPrototype symbols limit isExport isExtern
      (.node token (.prototype name params result isExport isExtern)) := by
  refine ⟨rfl, labelNames name ++ (.word .leftParen ::
    (commas (params.map fun p => (p.map Tree.printed).printed) ++
      (.word .rightParen :: result.printed.type))), ?_, by simp, fun rest hrest => ?_⟩
  · simp [Form.printed, parens, Function.comp_def]
  · refine yields_here_bind fun p => yields_expect_bind rfl ?_
    refine yields_name_bind (ne_of_beq_false rfl) ?_
    refine yields_expect_bind rfl ?_
    refine yields_bind (yields_run (params_yields hparams hlast rfl)) fun v hv => ?_
    refine yields_expect_bind rfl ?_
    refine yields_all_bind (yields_require (yields_run (hresult.reads hrest))) fun u hu => ?_
    refine yields_pure ?_
    simp_all [Tree.Like, Function.comp_def]
    exact hv

/-- Behind `func` an operand goes on as a function. -/
theorem functionValue_yields_expression
    (h : functionValue.Yields symbols limit (.word .kwFunc :: list) rest t.Like)
    (hrest : kindOf rest = .rightParen) :
    Rule.expression.Yields symbols limit (.word .kwFunc :: list) rest t.SomeLike := by
  refine expression_yields_of_suffixed rfl (ne_of_beq_false rfl)
    (suffixed_yields ?_ (by rw [hrest]; decide)) (by rw [hrest]; rfl)
  refine yields_front_bind fun p => ?_
  exact yields_all_bind h fun u hu => yields_pure ⟨u, rfl, hu⟩

section Signatures

variable {isExport isExtern : Bool} {body : Tree}

/-- The words before a function are not both there, and what is read behind them is told. -/
theorem ReadsFunction.of_signed (hboth : ¬(isExport = true ∧ isExtern = true))
    (hstanding : t.printed.standing = .signature ∨ t.printed.standing = .function)
    (list : List Symbol) (hprinted : t.printed.statement =
      flag isExport .kwExport ++ flag isExtern .kwExtern ++ .word .kwFunc :: list)
    (h : ∀ rest token, (signed token isExport isExtern).Yields symbols limit
      (.word .kwFunc :: list) rest t.Like) : ReadsFunction symbols limit t := by
  refine ⟨hstanding, fun rest => ?_, fun rest => ?_⟩
  · rw [hprinted]
    cases isExport <;> cases isExtern <;> first | rfl | exact absurd ⟨rfl, rfl⟩ hboth
  · rw [hprinted, List.append_assoc]
    refine yields_here_bind fun token => yields_flag_bind ?_ ?_
    · cases isExtern <;> exact ne_of_beq_false rfl
    · exact yields_flag_bind (ne_of_beq_false rfl) (h rest token)

theorem ReadsFunction.declared (hboth : ¬(isExport = true ∧ isExtern = true))
    (h : ReadsPrototype symbols limit isExport isExtern t) : ReadsFunction symbols limit t := by
  obtain ⟨list, hlist, -, hread⟩ := h.reads
  have hsemicolon : TokenKind.semicolon ∉ TokenKind.suffixes := by decide
  refine .of_signed hboth (.inl h.standing) (list ++ [.word .semicolon]) ?_ fun rest token => ?_
  · rw [Printed.statement, h.standing, hlist]
    simp
  · refine yields_bind (l := .word .kwFunc :: list) (yields_run (hread _ hsemicolon)) fun u hu => ?_
    refine yields_nil_bind (yields_run (block_yields_none (ne_of_beq_false rfl))) ?_
    rintro _ rfl
    exact yields_expect_bind rfl (yields_pure hu)

theorem ReadsFunction.declaredFunction (hboth : ¬(isExport = true ∧ isExtern = true))
    (h : ReadsPrototype symbols limit isExport isExtern t)
    (hbody : ReadsBlock symbols limit none body) (token : Nat) :
    ReadsFunction symbols limit (.node token (.function t body)) := by
  obtain ⟨list, hlist, -, hread⟩ := h.reads
  refine .of_signed hboth (.inr rfl) (list ++ body.printed.symbols) ?_ fun rest place => ?_
  · simp [Form.printed, Printed.statement, hlist]
  · refine yields_bind (l := .word .kwFunc :: list) (yields_run (hread _ ?_)) fun u hu => ?_
    · rw [hbody.kindOf_append]
      decide
    refine yields_all_bind (yields_run (hbody.block rest)) ?_
    rintro _ ⟨v, rfl, hv⟩
    refine yields_pure ?_
    simp_all [Tree.Like]

variable (h : ReadsPrototype symbols limit false false t)
include h

/-- A signature without a block. -/
theorem ReadsPrototype.expression : ReadsExpression symbols limit t := by
  obtain ⟨list, hlist, hne, hread⟩ := h.reads
  have hsymbols : t.printed.symbols = .word .kwFunc :: list := hlist
  refine .of_content (.inr (.declared (by decide) h)) ?_ fun rest hrest => ?_
  · simpa [hsymbols] using hne
  rw [hsymbols]
  refine functionValue_yields_expression (yields_here_bind fun p => ?_) hrest
  refine yields_all_bind (yields_run (hread rest (by rw [hrest]; decide))) fun u hu => ?_
  refine yields_nil_bind (yields_run (block_yields_none ?_)) ?_
  · rw [List.nil_append, hrest]
    decide
  rintro _ rfl
  exact yields_pure hu

theorem ReadsPrototype.function (hbody : ReadsBlock symbols limit none body) (token : Nat) :
    ReadsExpression symbols limit (.node token (.function t body)) := by
  obtain ⟨list, hlist, hne, hread⟩ := h.reads
  have hsymbols : (Tree.node token (.function t body)).printed.symbols =
      .word .kwFunc :: (list ++ body.printed.symbols) := by
    simp [Form.printed, hlist, flag]
  refine .of_content (.inr (.declaredFunction (by decide) h hbody token)) ?_ fun rest hrest => ?_
  · rw [hsymbols]
    simp [hne]
  rw [hsymbols]
  refine functionValue_yields_expression (yields_here_bind fun p => ?_) hrest
  refine yields_bind (l := .word .kwFunc :: list) (yields_run (hread _ ?_)) fun u hu => ?_
  · rw [hbody.kindOf_append]
    decide
  refine yields_all_bind (yields_run (hbody.block rest)) ?_
  rintro _ ⟨v, rfl, hv⟩
  refine yields_pure ?_
  simp_all [Tree.Like]

end Signatures

/-! ## Selections -/

theorem item_yields {i : MatchItem Tree} (h : ∀ t ∈ i.children, ReadsExpression symbols limit t)
    (hrest : (kindOf rest).endsExpression = true) (hdots : kindOf rest ≠ .ellipsis) :
    item.Yields symbols limit (i.map Tree.printed).printed rest
      fun v => v.unanchored = i.unanchored := by
  cases i with
  | single value =>
    have hvalue := h value (.head _)
    refine yields_all_bind (hvalue.require hrest) fun u hu => ?_
    exact yields_skip_bind hdots (yields_pure (congrArg MatchItem.single hu))
  | range start stop =>
    have hstart := h start (.head _)
    have hstop := h stop (.tail _ (.head _))
    refine yields_bind (hstart.require rfl) fun u hu => ?_
    refine yields_accept_bind rfl (yields_all_bind (hstop.require hrest) fun v hv => ?_)
    refine yields_pure ?_
    rw [MatchItem.unanchored, MatchItem.map, hu, hv]
    rfl

theorem item_opens {i : MatchItem Tree} (h : ∀ t ∈ i.children, ReadsExpression symbols limit t)
    (rest : List Symbol) : (kindOf ((i.map Tree.printed).printed ++ rest)).Opens := by
  cases i with
  | single value => exact (h value (.head _)).isOperand.opens_append rest
  | range start stop =>
    have hopens := (h start (.head _)).isOperand.opens_append
      (.word .ellipsis :: stop.printed.operand ++ rest)
    simpa [MatchItem.printed, MatchItem.map] using hopens

theorem items_yields {items : List (MatchItem Tree)} (hne : items ≠ [])
    (h : ∀ i ∈ items, ∀ t ∈ i.children, ReadsExpression symbols limit t)
    (hrest : kindOf rest = .fatArrow) :
    Rule.items.Yields symbols limit (commas (items.map fun i => (i.map Tree.printed).printed)) rest
      fun v => v.map MatchItem.unanchored = items.map MatchItem.unanchored := by
  induction items with
  | nil => exact absurd rfl hne
  | cons i items ih =>
    obtain ⟨hi, hitems⟩ := List.forall_mem_cons.mp h
    cases items with
    | nil =>
      rw [List.map_singleton, commas_singleton]
      refine yields_all_bind (item_yields hi (by rw [hrest]; rfl) (by rw [hrest]; decide))
        fun u hu => ?_
      refine yields_skip_bind (by rw [List.nil_append, hrest]; decide) (yields_pure ?_)
      rw [List.map_singleton, List.map_singleton, hu]
    | cons i' items =>
      have htail := ih (List.cons_ne_nil _ _) hitems
      simp only [List.map_cons, commas_cons_cons] at htail ⊢
      refine yields_bind (item_yields hi rfl (ne_of_beq_false rfl)) fun u hu => ?_
      refine yields_accept_bind rfl (yields_all_bind (yields_run htail) fun v hv => ?_)
      refine yields_pure ?_
      rw [List.map_cons, hu, hv]

theorem marked_yields {body : Tree} (h : ReadsBody symbols limit body)
    (hrest : (kindOf rest).endsAssignment = true) (token : Nat) (items : List (MatchItem Tree)) :
    (marked token items).Yields symbols limit (.word .fatArrow :: body.printed.unended) rest
      fun b => b.items = items ∧ body.Like b.body := by
  have hmark : branchMark.Yields symbols limit [.word .fatArrow] (body.printed.unended ++ rest)
      fun _ => True :=
    yields_skip_bind (ne_of_beq_false rfl) (yields_accept_bind rfl (yields_pure trivial))
  refine yields_bind (l := [.word .fatArrow]) hmark fun _ _ => ?_
  refine yields_all_bind (h.unended hrest) ?_
  rintro ⟨u, _⟩ hu
  exact yields_pure ⟨rfl, hu⟩

theorem branch_yields {b : MatchBranch Tree}
    (hitems : ∀ i ∈ b.items, ∀ t ∈ i.children, ReadsExpression symbols limit t)
    (hbody : ReadsBody symbols limit b.body) (hrest : (kindOf rest).endsAssignment = true) :
    Rule.branch.Yields symbols limit (b.map Tree.printed).printed rest
      fun v => v.unanchored = b.unanchored := by
  obtain ⟨place, items, body⟩ := b
  have hlike {v : MatchBranch Tree} {items' : List (MatchItem Tree)}
      (hi : items'.map MatchItem.unanchored = items.map MatchItem.unanchored)
      (h : v.items = items' ∧ body.Like v.body) :
      v.unanchored = (⟨place, items, body⟩ : MatchBranch Tree).unanchored := by
    obtain ⟨rfl, hb⟩ := h
    simp only [MatchBranch.unanchored, hi]
    rw [hb]
  refine yields_here_bind fun token => ?_
  cases items with
  | nil =>
    refine yields_skip_bind (ne_of_beq_false rfl) (yields_accept_bind rfl ?_)
    exact (marked_yields hbody hrest token []).mono fun v hv => hlike rfl hv
  | cons i items =>
    have hprinted : ((MatchBranch.mk place (i :: items) body).map Tree.printed).printed =
        commas ((i :: items).map fun i => (i.map Tree.printed).printed) ++
          .word .fatArrow :: body.printed.unended := by
      simp [MatchBranch.printed, Function.comp_def]
    have hopens : (kindOf (commas ((i :: items).map fun i => (i.map Tree.printed).printed) ++
        .word .fatArrow :: body.printed.unended ++ rest)).Opens := by
      obtain ⟨rest', hrest'⟩ := commas_cons_append (i.map Tree.printed).printed
        (items.map fun i => (i.map Tree.printed).printed)
        (.word .fatArrow :: body.printed.unended ++ rest)
      rw [List.append_assoc, List.map_cons, hrest']
      exact item_opens (hitems i (.head _)) rest'
    rw [hprinted]
    refine yields_skip_bind (hopens.kind_ne rfl) (yields_skip_bind (hopens.kind_ne rfl) ?_)
    refine yields_skip_bind (hopens.kind_ne rfl) ?_
    refine yields_bind (yields_run (items_yields (List.cons_ne_nil _ _) hitems rfl)) fun v hv => ?_
    exact (marked_yields hbody hrest token v).mono fun w hw => hlike hv hw

theorem branch_kindOf_ne {b : MatchBranch Tree}
    (hitems : ∀ i ∈ b.items, ∀ t ∈ i.children, ReadsExpression symbols limit t)
    (rest : List Symbol) : kindOf ((b.map Tree.printed).printed ++ rest) ≠ .rightBrace := by
  obtain ⟨place, items, body⟩ := b
  cases items with
  | nil => exact ne_of_beq_false rfl
  | cons i items =>
    obtain ⟨rest', hrest'⟩ := commas_cons_append (i.map Tree.printed).printed
      (items.map fun i => (i.map Tree.printed).printed)
      (.word .fatArrow :: body.printed.unended ++ rest)
    have hne := (item_opens (hitems i (.head _)) rest').kind_ne (w := .rightBrace) rfl
    rw [← hrest'] at hne
    simpa [MatchBranch.printed, Function.comp_def] using hne

theorem branches_yields {bs : List (MatchBranch Tree)} (hne : bs ≠ [])
    (hitems : ∀ b ∈ bs, ∀ i ∈ b.items, ∀ t ∈ i.children, ReadsExpression symbols limit t)
    (hbodies : ∀ b ∈ bs, ReadsBody symbols limit b.body) :
    Rule.branches.Yields symbols limit
      (commas (bs.map fun b => (b.map Tree.printed).printed) ++ [.word .rightBrace]) rest
      fun v => v.map MatchBranch.unanchored = bs.map MatchBranch.unanchored := by
  induction bs with
  | nil => exact absurd rfl hne
  | cons b bs ih =>
    obtain ⟨hi, his⟩ := List.forall_mem_cons.mp hitems
    obtain ⟨hb, hbs⟩ := List.forall_mem_cons.mp hbodies
    cases bs with
    | nil =>
      rw [List.map_singleton, commas_singleton]
      refine yields_bind (yields_run (branch_yields hi hb rfl)) fun u hu => ?_
      refine yields_skip_bind (ne_of_beq_false rfl) (yields_expect_bind rfl (yields_pure ?_))
      rw [List.map_singleton, List.map_singleton, hu]
    | cons b' bs =>
      have htail := ih (List.cons_ne_nil _ _) his hbs
      simp only [List.map_cons, commas_cons_cons, List.append_assoc] at htail ⊢
      refine yields_bind (yields_run (branch_yields hi hb rfl)) fun u hu => ?_
      refine yields_accept_bind rfl (yields_skip_bind ?_ ?_)
      · obtain ⟨rest', hrest'⟩ := commas_cons_append (b'.map Tree.printed).printed
          (bs.map fun b => (b.map Tree.printed).printed) ([.word .rightBrace] ++ rest)
        change kindOf (_ ++ [Symbol.word .rightBrace] ++ rest) ≠ _
        rw [List.append_assoc, hrest']
        exact branch_kindOf_ne (his b' (.head _)) rest'
      · refine yields_all_bind (yields_run htail) fun v hv => yields_pure ?_
        rw [List.map_cons, hu, hv]

theorem ReadsExpression.selection {subject : Tree} {branches : List (MatchBranch Tree)}
    (hsubject : ReadsExpression symbols limit subject) (hne : branches ≠ [])
    (hitems : ∀ b ∈ branches, ∀ i ∈ b.items, ∀ t ∈ i.children, ReadsExpression symbols limit t)
    (hbodies : ∀ b ∈ branches, ReadsBody symbols limit b.body) (token : Nat) :
    ReadsExpression symbols limit (.node token (.selection subject branches)) := by
  have hprinted : (Tree.node token (.selection subject branches)).printed = ⟨.operand,
      .word .kwMatch :: (subject.printed.operand ++ (.word .leftBrace ::
        (commas (branches.map fun b => (b.map Tree.printed).printed) ++
          [.word .rightBrace])))⟩ := by
    simp [Form.printed, braces, Function.comp_def]
  refine .of_content (by rw [hprinted]; exact .inl rfl) ?_ fun rest hrest => ?_
  · simp [hprinted]
  rw [hprinted]
  refine expression_yields_of_suffixed rfl (ne_of_beq_false rfl)
    (suffixed_yields ?_ (by rw [hrest]; decide)) (by rw [hrest]; rfl)
  refine yields_front_bind fun p => ?_
  refine yields_all_bind (P := (Tree.node token (.selection subject branches)).Like) (yields_run ?_)
    fun u hu => yields_pure ⟨u, rfl, hu⟩
  refine yields_here_bind fun p => yields_expect_bind rfl ?_
  have hend {u : Tree} (hu : subject.Like u) : (do
      let _ ← expect .leftBrace
      return Tree.node p (.selection u (← run .branches)) : Script Tree).Yields symbols limit
        (.word .leftBrace ::
          (commas (branches.map fun b => (b.map Tree.printed).printed) ++ [.word .rightBrace]))
        rest (Tree.node token (.selection subject branches)).Like := by
    refine yields_expect_bind rfl ?_
    refine yields_all_bind (yields_run (branches_yields hne hitems hbodies)) fun v hv => ?_
    refine yields_pure ?_
    simp_all [Tree.Like, Function.comp_def]
    exact hv
  by_cases hlength : subject.printed.symbols.length = 1
  · have hoperand : subject.printed.operand = subject.printed.symbols := if_pos hlength
    refine yields_skip_bind ?_ ?_
    · rw [List.append_assoc]
      exact hsubject.isOperand.kindOf_ne_leftParen (by rw [hoperand, hlength]) _
    · exact yields_bind (hsubject.require rfl) fun u hu => hend hu
  · have hoperand : subject.printed.operand =
        .word .leftParen :: (subject.printed.symbols ++ [.word .rightParen]) := if_neg hlength
    rw [hoperand, List.cons_append, List.append_assoc]
    refine yields_accept_bind rfl ?_
    refine yields_bind (yields_require (expression_yields (hsubject.content _ rfl))) fun u hu => ?_
    exact yields_expect_bind rfl (hend hu)

end FrontEnd.Grammar
