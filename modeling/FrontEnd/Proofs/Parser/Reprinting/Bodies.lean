import FrontEnd.Proofs.Parser.Reprinting.Expressions

/-!
Printed assignments, blocks, bodies and types are read as the trees that they were printed
from.
-/

namespace FrontEnd

namespace TokenKind

/-- Kinds behind which an assignment does not go on. -/
def endsAssignment (k : TokenKind) : Bool :=
  k.endsExpression && (Level.operator? .assignment k).isNone

/-- Kinds that make something else than an expression of a name before them. -/
def claimsName (k : TokenKind) : Bool := [TokenKind.identifier, .colon, .kwIn].contains k

/-- Kinds that go on with a conditional. -/
def elses : List TokenKind := [.kwElse, .kwElseIf]

/-- Kinds that a type begins with. -/
def opensType (k : TokenKind) : Bool := k.opensOperand || k == .question || k == .leftBracket

/-- Kinds that a statement may begin with. -/
def opensStatement (k : TokenKind) : Bool :=
  !(elses ++ [TokenKind.rightBrace, .endOfFile]).contains k

theorem ne_of_opensStatement {k w : TokenKind} (h : k.opensStatement = true)
    (hw : w.opensStatement = false) : k ≠ w := by
  rintro rfl
  rw [hw] at h
  cases h

theorem not_mem_elses_of_opensStatement {k : TokenKind} (h : k.opensStatement = true) :
    k ∉ elses := by
  rw [opensStatement, Bool.not_eq_true', List.contains_eq_mem, decide_eq_false_iff_not] at h
  exact mt (List.mem_append_left _) h

end TokenKind

namespace Grammar

open Script

/-- The printed tree is read where an assignment may stand. -/
structure ReadsAssignment (symbols : Symbols) (limit : Nat) (t : Tree) : Prop where
  reads (rest : List Symbol) (h : (kindOf rest).endsAssignment = true) :
    (Rule.level .assignment).Yields symbols limit t.printed.unended rest t.SomeLike
  opens (rest : List Symbol) : (kindOf (t.printed.unended ++ rest)).Opens
  second (rest : List Symbol) (hname : kindOf (t.printed.unended ++ rest) = .identifier)
    (h : (kindOf rest).claimsName = false) :
    (kindOf (t.printed.unended ++ rest).tail).claimsName = false
  standing : t.printed.standing = .assignment ∨ t.printed.standing = .operand ∨
    ReadsFunction symbols limit t

/-- The printed tree is read as a block with the label. -/
structure ReadsBlock (symbols : Symbols) (limit : Nat) (label : Option String) (t : Tree) :
    Prop where
  standing : t.printed.standing = .block
  reads : ∃ list, t.printed.symbols = labelMarks label ++ .word .leftBrace :: list ∧
    ∀ rest, (Rule.block label).Yields symbols limit (.word .leftBrace :: list) rest t.SomeLike

/-- The printed tree is read as a body. -/
def ReadsBody (symbols : Symbols) (limit : Nat) (t : Tree) : Prop :=
  ReadsBlock symbols limit none t ∨ ReadsAssignment symbols limit t

/-- The printed tree is read as a statement. -/
structure ReadsStatement (symbols : Symbols) (limit : Nat) (t : Tree) : Prop where
  reads (rest : List Symbol) (h : kindOf rest ∉ TokenKind.elses) :
    Rule.statement.Yields symbols limit t.printed.statement rest t.SomeLike
  opens (rest : List Symbol) : (kindOf (t.printed.statement ++ rest)).opensStatement = true

/-- The printed tree is read as a type with a mark. -/
structure ReadsMark (symbols : Symbols) (limit : Nat) (t : Tree) : Prop where
  standing : t.printed.standing = .type
  opens : ∃ mark list, t.printed.symbols = .word mark :: list ∧
    (mark = .question ∨ mark = .leftBracket)
  reads (rest : List Symbol) (h : kindOf rest ∉ TokenKind.suffixes) :
    Rule.type.Yields symbols limit t.printed.symbols rest t.SomeLike

/-- The printed tree is read as a type. -/
def ReadsType (symbols : Symbols) (limit : Nat) (t : Tree) : Prop :=
  ReadsMark symbols limit t ∨ ReadsExpression symbols limit t

variable {symbols : Symbols} {limit : Nat} {list rest : List Symbol} {t : Tree}

/-! ## Assignments -/

theorem ReadsExpression.assignment (h : ReadsExpression symbols limit t) :
    ReadsAssignment symbols limit t := by
  constructor
  · intro rest hrest
    simp only [TokenKind.endsAssignment, Bool.and_eq_true, Option.isNone_iff_eq_none] at hrest
    rw [h.unended_eq]
    refine yields_all_bind (expression_yields (h.expression hrest.1)) ?_
    rintro _ ⟨u, rfl, hu⟩
    refine yields_nil_bind (yields_run (operands_yields_nil hrest.2)) ?_
    rintro _ rfl
    exact yields_pure ⟨u, rfl, hu⟩
  · intro rest
    rw [h.unended_eq]
    exact h.isOperand.opens_append rest
  · intro rest hname hclaims
    rw [h.unended_eq] at hname ⊢
    rwa [h.isOperand.tail_append hname]
  · exact .inr h.standing

theorem ReadsAssignment.binary {lhs rhs : Tree} {op : BinaryOp} {kind : TokenKind}
    (hl : ReadsExpression symbols limit lhs) (hr : ReadsExpression symbols limit rhs)
    (hop : Level.operator? .assignment kind = some op) (token : Nat) :
    ReadsAssignment symbols limit (.node token (.binary op lhs rhs)) := by
  have hkind := Level.operator?_kind hop
  have hassigns : op.assigns = true := Level.assigns_of_operator hop
  have hprinted : (Tree.node token (.binary op lhs rhs)).printed =
      ⟨.assignment, lhs.printed.operand ++ .word op.kind :: rhs.printed.operand⟩ := by
    simp [Form.printed, hassigns]
  have hunended : (Tree.node token (.binary op lhs rhs)).printed.unended =
      lhs.printed.operand ++ .word op.kind :: rhs.printed.operand := by
    rw [hprinted]
    rfl
  constructor
  · intro rest hrest
    simp only [TokenKind.endsAssignment, Bool.and_eq_true, Option.isNone_iff_eq_none] at hrest
    rw [hunended]
    refine yields_bind (expression_yields (hl.expression ?_)) ?_
    · change op.kind.endsExpression = true
      cases op <;> first | rfl | cases hkind
    rintro _ ⟨u, rfl, hu⟩
    refine yields_all_bind (P := fun v => ∃ p w, v = [(p, op, w)] ∧ rhs.Like w) (yields_run ?_) ?_
    · refine yields_sight_bind fun s hs _ => ?_
      have hk : Level.operator? .assignment s.kind = some op := by
        rw [Sight.kind, hs]
        exact hkind
      simp only [hk]
      refine yields_take_bind (yields_all_bind (hr.require hrest.1) fun w hw => ?_)
      exact yields_pure ⟨_, w, rfl, hw⟩
    · rintro _ ⟨p, w, rfl, hw⟩
      refine yields_pure ⟨_, rfl, ?_⟩
      simp_all [Tree.Like]
  · intro rest
    rw [hunended, List.append_assoc]
    exact hl.isOperand.opens_append _
  · intro rest hname _
    rw [hunended, List.append_assoc] at hname ⊢
    rw [hl.isOperand.tail_append hname]
    change op.kind.claimsName = false
    cases op <;> rfl
  · exact .inl (by rw [hprinted])

/-! ## Blocks and bodies -/

theorem statements_open {ts : List Tree} (h : ∀ t ∈ ts, ReadsStatement symbols limit t)
    (rest : List Symbol) (hrest : kindOf rest ∉ TokenKind.elses) :
    kindOf (ts.flatMap (·.printed.statement) ++ rest) ∉ TokenKind.elses := by
  cases ts with
  | nil => exact hrest
  | cons t ts =>
    rw [List.flatMap_cons, List.append_assoc]
    exact TokenKind.not_mem_elses_of_opensStatement ((h t (.head _)).opens _)

theorem statements_yields {ts : List Tree} (h : ∀ t ∈ ts, ReadsStatement symbols limit t) :
    Rule.statements.Yields symbols limit
      (ts.flatMap (·.printed.statement) ++ [.word .rightBrace]) rest
      fun v => v.map Tree.unanchored = ts.map Tree.unanchored := by
  induction ts with
  | nil => exact yields_accept_bind rfl (yields_pure rfl)
  | cons t ts ih =>
    obtain ⟨ht, hts⟩ := List.forall_mem_cons.mp h
    have hend : TokenKind.rightBrace ∉ TokenKind.elses := by decide
    have hnext := statements_open hts (.word .rightBrace :: rest) hend
    rw [List.flatMap_cons, List.append_assoc]
    refine yields_skip_bind ?_ ?_
    · rw [List.append_assoc]
      exact TokenKind.ne_of_opensStatement (ht.opens _) rfl
    refine yields_bind (yields_require (yields_deeper (ht.reads _ ?_))) fun u hu => ?_
    · simpa using hnext
    refine yields_all_bind (yields_run (ih hts)) fun v hv => ?_
    exact yields_pure (by rw [List.map_cons, List.map_cons, hu, hv])

theorem ReadsBlock.of_statements {ts : List Tree} (h : ∀ t ∈ ts, ReadsStatement symbols limit t)
    (token : Nat) (label : Option String) :
    ReadsBlock symbols limit label (.node token (.block label ts)) := by
  refine ⟨rfl, ts.flatMap (·.printed.statement) ++ [.word .rightBrace], ?_, fun rest => ?_⟩
  · simp [Form.printed, braces, List.flatMap_map]
  · refine yields_here_bind fun p => yields_accept_bind rfl ?_
    refine yields_all_bind (yields_run (statements_yields h)) fun v hv => ?_
    refine yields_pure ⟨_, rfl, ?_⟩
    simp_all [Tree.Like]

section Blocks

variable (h : ReadsBlock symbols limit none t)
include h

theorem ReadsBlock.kindOf_append (rest : List Symbol) :
    kindOf (t.printed.symbols ++ rest) = .leftBrace := by
  obtain ⟨list, hlist, -⟩ := h.reads
  rw [hlist]
  rfl

theorem ReadsBlock.block (rest : List Symbol) :
    (Rule.block none).Yields symbols limit t.printed.symbols rest t.SomeLike := by
  obtain ⟨list, hlist, hread⟩ := h.reads
  rw [hlist]
  exact hread rest

theorem ReadsBlock.required (rest : List Symbol) :
    requiredBlock.Yields symbols limit t.printed.symbols rest t.Like :=
  yields_require (yields_run (h.block rest))

theorem ReadsBlock.unended_eq : t.printed.unended = t.printed.symbols :=
  if_pos (.inl h.standing)

theorem ReadsBlock.handler : ReadsHandler symbols limit t := by
  constructor
  · intro rest
    rw [h.unended_eq, h.kindOf_append]
    decide
  · intro rest _
    rw [h.unended_eq]
    exact .inl (h.block rest)

end Blocks

/-- A block, or an assignment, is read where the two are told apart. -/
theorem ReadsBody.unended (h : ReadsBody symbols limit t)
    (hrest : (kindOf rest).endsAssignment = true) :
    blockOrAssignment.Yields symbols limit t.printed.unended rest fun v => t.Like v.1 := by
  rcases h with h | h
  · rw [h.unended_eq]
    refine yields_all_bind (yields_run (h.block rest)) ?_
    rintro _ ⟨u, rfl, hu⟩
    exact yields_pure hu
  · refine yields_nil_bind (yields_run (block_yields_none ((h.opens rest).kind_ne rfl))) ?_
    rintro _ rfl
    refine yields_all_bind (yields_require (yields_run (h.reads rest hrest))) fun u hu => ?_
    exact yields_pure hu

theorem ReadsAssignment.standing_ne (h : ReadsAssignment symbols limit t) :
    t.printed.standing ≠ .block ∧ t.printed.standing ≠ .declaration := by
  rcases h.standing with hs | hs | hf
  · simp [hs]
  · simp [hs]
  · rcases hf.standing with hs | hs <;> simp [hs]

theorem ReadsAssignment.body_eq (h : ReadsAssignment symbols limit t) :
    t.printed.body = t.printed.unended ++ [.word .semicolon] := if_neg h.standing_ne.1

theorem ReadsBody.body (h : ReadsBody symbols limit t) (rest : List Symbol) :
    Rule.body.Yields symbols limit t.printed.body rest t.Like := by
  rcases h with h | h
  · have hbody : t.printed.body = t.printed.symbols := if_pos h.standing
    rw [hbody]
    refine yields_all_bind (P := fun v => t.Like v.1 ∧ v.2 = true) ?_ ?_
    · refine yields_all_bind (yields_run (h.block rest)) ?_
      rintro _ ⟨u, rfl, hu⟩
      exact yields_pure ⟨hu, rfl⟩
    · rintro ⟨u, _⟩ ⟨hu, rfl⟩
      exact yields_pure hu
  · rw [h.body_eq]
    refine yields_bind (P := fun v => t.Like v.1 ∧ v.2 = false) ?_ ?_
    · refine yields_nil_bind (yields_run (block_yields_none ((h.opens _).kind_ne rfl))) ?_
      rintro _ rfl
      refine yields_all_bind (yields_require (yields_run (h.reads _ rfl))) fun u hu => ?_
      exact yields_pure ⟨hu, rfl⟩
    · rintro ⟨u, _⟩ ⟨hu, rfl⟩
      exact yields_expect_bind rfl (yields_pure hu)

/-! ## Types -/

theorem ReadsMark.type_eq (h : ReadsMark symbols limit t) :
    t.printed.type = t.printed.symbols := if_pos h.standing

theorem ReadsExpression.type_eq (h : ReadsExpression symbols limit t) :
    t.printed.type = t.printed.operand := by
  refine if_neg fun htype => ?_
  rcases h.standing with hs | hf
  · cases hs.symm.trans htype
  · rcases hf.standing with hs | hs <;> cases hs.symm.trans htype

namespace ReadsType

variable (h : ReadsType symbols limit t)
include h

theorem reads (hrest : kindOf rest ∉ TokenKind.suffixes) :
    Rule.type.Yields symbols limit t.printed.type rest t.SomeLike := by
  rcases h with h | h
  · rw [h.type_eq]
    exact h.reads rest hrest
  · have hopens := h.isOperand.opens_append rest
    rw [h.type_eq]
    refine yields_here_bind fun p => yields_skip_bind (hopens.kind_ne rfl) ?_
    refine yields_skip_bind (hopens.kind_ne rfl) ?_
    exact yields_run (suffixed_yields (h.primary rest) hrest)

theorem opens (rest : List Symbol) : (kindOf (t.printed.type ++ rest)).opensType = true := by
  rcases h with h | h
  · obtain ⟨mark, list, hlist, hmark⟩ := h.opens
    rw [h.type_eq, hlist]
    rcases hmark with rfl | rfl <;> rfl
  · have hopens : (kindOf (t.printed.operand ++ rest)).opensOperand = true :=
      h.isOperand.opens_append rest
    rw [h.type_eq, TokenKind.opensType, hopens]
    rfl

/-- Behind a type that begins with a name stands what follows the type. -/
theorem tail_append (hname : kindOf (t.printed.type ++ rest) = .identifier) :
    (t.printed.type ++ rest).tail = rest := by
  rcases h with h | h
  · obtain ⟨mark, list, hlist, hmark⟩ := h.opens
    rw [h.type_eq, hlist] at hname
    rcases hmark with rfl | rfl <;> cases hname
  · rw [h.type_eq] at hname ⊢
    exact h.isOperand.tail_append hname

theorem inner (hrest : kindOf rest ∉ TokenKind.suffixes) :
    (deeper .innerType).Yields symbols limit t.printed.type rest t.Like :=
  yields_deeper (yields_require (yields_run (h.reads hrest)))

end ReadsType

theorem ReadsMark.optional (h : ReadsType symbols limit t) (token : Nat) :
    ReadsMark symbols limit (.node token (.optional t)) := by
  refine ⟨rfl, ⟨.question, _, rfl, .inl rfl⟩, fun rest hrest => ?_⟩
  refine yields_here_bind fun p => yields_accept_bind rfl ?_
  refine yields_all_bind (h.inner hrest) fun u hu => ?_
  refine yields_pure ⟨_, rfl, ?_⟩
  simp_all [Tree.Like]

theorem ReadsMark.array {kind : ArrayKind} {size sentinel : Option Tree}
    (hsize : ∀ rest,
      (kindOf rest = .colon ∧ sentinel.isSome = true) ∨ kindOf rest = .rightBracket →
      arraySize.Yields symbols limit (sizeMarks kind (size.map Tree.printed)) rest
        fun v => v.1 = kind ∧ v.2.map Tree.unanchored = size.map Tree.unanchored)
    (hsentinel : ∀ t ∈ sentinel, ReadsExpression symbols limit t)
    (h : ReadsType symbols limit t) (token : Nat) :
    ReadsMark symbols limit (.node token (.array kind size sentinel t)) := by
  refine ⟨rfl, ⟨.leftBracket, _, rfl, .inr rfl⟩, fun rest hrest => ?_⟩
  have hprinted : (Tree.node token (.array kind size sentinel t)).printed.symbols =
      .word .leftBracket :: (sizeMarks kind (size.map Tree.printed) ++
        (behind .colon (sentinel.map Tree.printed) ++ .word .rightBracket :: t.printed.type)) := by
    simp [Form.printed]
  rw [hprinted]
  refine yields_here_bind fun p => yields_skip_bind (ne_of_beq_false rfl) ?_
  refine yields_accept_bind rfl ?_
  refine yields_bind (hsize _ ?_) ?_
  · cases sentinel with
    | none => exact .inr rfl
    | some t => exact .inl ⟨rfl, rfl⟩
  rintro ⟨kind, size⟩ ⟨rfl, hlike⟩
  refine yields_bind (sentinel_yields hsentinel rfl (ne_of_beq_false rfl)) fun x hx => ?_
  refine yields_expect_bind rfl (yields_all_bind (h.inner hrest) fun u hu => ?_)
  refine yields_pure ⟨_, rfl, ?_⟩
  simp_all [Tree.Like]

theorem ReadsMark.slices (h : ReadsType symbols limit t) (token : Nat) :
    ReadsMark symbols limit (.node token (.array .slice none none t)) := by
  refine .array (fun rest hrest => ?_) (by simp) h token
  refine yields_front_bind fun p => yields_ite_true ?_ (yields_pure ⟨rfl, rfl⟩)
  exact hrest.resolve_left fun hboth => Bool.noConfusion hboth.2

theorem ReadsMark.inferred {sentinel : Option Tree}
    (hsentinel : ∀ t ∈ sentinel, ReadsExpression symbols limit t)
    (h : ReadsType symbols limit t) (token : Nat) :
    ReadsMark symbols limit (.node token (.array .inferred none sentinel t)) := by
  refine .array (fun rest hrest => ?_) hsentinel h token
  refine yields_front_bind fun p => yields_ite_false (ne_of_beq_false rfl) (yields_ite_true ?_ ?_)
  · change (true && true && (decide (kindOf rest = .rightBracket) ||
      decide (kindOf rest = .colon))) = true
    rcases hrest with ⟨hrest, -⟩ | hrest <;> rw [hrest] <;> rfl
  · exact yields_take_bind (yields_pure ⟨rfl, rfl⟩)

theorem ReadsMark.sized {size : Tree} {sentinel : Option Tree}
    (hsize : ReadsExpression symbols limit size)
    (hsentinel : ∀ t ∈ sentinel, ReadsExpression symbols limit t)
    (h : ReadsType symbols limit t) (token : Nat) :
    ReadsMark symbols limit (.node token (.array .sized (some size) sentinel t)) := by
  refine .array (fun rest hrest => ?_) hsentinel h token
  have hends : (kindOf rest).endsExpression = true := by
    rcases hrest with ⟨hrest, -⟩ | hrest <;> rw [hrest] <;> rfl
  refine yields_front_bind fun p => yields_ite_false (ne_of_beq_false rfl) ?_
  refine yields_ite_false Bool.false_ne_true ?_
  refine yields_all_bind (yields_require (expression_yields (hsize.enclosed hends))) fun u hu => ?_
  exact yields_pure ⟨rfl, congrArg some hu⟩

end Grammar

end FrontEnd
