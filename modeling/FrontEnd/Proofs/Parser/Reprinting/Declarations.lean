import FrontEnd.Proofs.Parser.Reprinting.Functions

/-!
Printed declarations are read as the trees that they were printed from: functions,
structures, enumerations and variables. What stands at the front of a statement tells which
of them it is.
-/

namespace FrontEnd.Grammar

open Script

variable {symbols : Symbols} {limit : Nat} {list rest : List Symbol} {t : Tree}

/-! ## How statements begin -/

theorem statement_yields_container (h : containerIfAny.Yields symbols limit list rest t.SomeLike) :
    Rule.statement.Yields symbols limit list rest t.SomeLike := by
  refine yields_all_bind h ?_
  rintro _ ⟨u, rfl, hu⟩
  exact yields_pure ⟨u, rfl, hu⟩

/-- No container begins with what is none of its words, `export` before it or not. -/
theorem opens_none {s : Sight} (h : s.kind ∉ TokenKind.containerOpeners ∨
      s.kind = .kwExport ∧ s.next ∉ TokenKind.containerOpeners) :
    s.opensFunction = false ∧ s.opens [.kwStruct, .kwUnion] = false ∧
      s.opens [.kwEnum] = false := by
  simp only [TokenKind.containerOpeners, List.mem_cons, List.not_mem_nil, or_false, not_or] at h
  rcases h with h | ⟨hk, hnext⟩
  · simp [Sight.opensFunction, Sight.opens, h]
  · simp [Sight.opensFunction, Sight.opens, hk, hnext]

theorem containerIfAny_yields_none (h : kindOf rest ∉ TokenKind.containerOpeners ∨
      kindOf rest = .kwExport ∧ kindOf rest.tail ∉ TokenKind.containerOpeners) :
    containerIfAny.Yields symbols limit [] rest (· = none) := by
  refine yields_front_bind fun p => ?_
  obtain ⟨hfunction, hrecord, henumeration⟩ :=
    opens_none (s := { Sight.front rest with position := p }) h
  refine yields_ite_false (by rw [Bool.not_eq_true]; exact hfunction) ?_
  refine yields_ite_false (by rw [Bool.not_eq_true]; exact hrecord) ?_
  refine yields_ite_false (by rw [Bool.not_eq_true]; exact henumeration) ?_
  exact yields_pure rfl

theorem variableIfAny_yields (hopens : (Sight.front (list ++ rest)).opensVariable = true)
    (h : Rule.declaration.Yields symbols limit list rest t.Like) :
    variableIfAny.Yields symbols limit list rest t.SomeLike := by
  refine yields_front_bind fun p => yields_ite_true hopens ?_
  exact yields_all_bind (yields_run h) fun u hu => yields_pure ⟨u, rfl, hu⟩

theorem variableIfAny_yields_none (hopens : (Sight.front rest).opensVariable = false) :
    variableIfAny.Yields symbols limit [] rest (· = none) := by
  refine yields_front_bind fun p => yields_ite_false ?_ (yields_pure rfl)
  rw [Bool.not_eq_true]
  exact hopens

/-- A statement that begins as no declaration is told by the kind of its first symbol. -/
theorem statement_yields_at (kind : TokenKind) (hkind : kindOf (list ++ rest) = kind)
    (hcontainer : kind ∉ TokenKind.containerOpeners) (hvariable : kind ∉ TokenKind.variableOpeners)
    (hname : kind = .identifier → kindOf (list ++ rest).tail ≠ .identifier)
    (h : (statementAt kind).Yields symbols limit list rest t.SomeLike) :
    Rule.statement.Yields symbols limit list rest t.SomeLike := by
  intro depth p hstand
  obtain ⟨v, hv, hread⟩ := h depth p hstand
  obtain rfl : (symbols.symbolAt p).kind = kind := hstand.kind.trans hkind
  refine ⟨v, hv, obtains_of_eval_eq (statement_eval_of hcontainer hvariable fun hk => ?_) hread⟩
  rw [hstand.kind_next]
  exact hname hk

/-! ## Declarations -/

theorem opensStatement_of_opensFunction {s : Sight} (h : s.opensFunction = true) :
    s.kind.opensStatement = true := by
  revert h
  simp only [Sight.opensFunction, Sight.opens]
  cases s.kind <;> first | exact fun _ => rfl | exact (absurd · Bool.false_ne_true)

theorem ReadsFunction.statement (h : ReadsFunction symbols limit t) :
    ReadsStatement symbols limit t := by
  constructor
  · intro rest _
    refine statement_yields_container ?_
    refine yields_front_bind fun p => yields_ite_true (h.opens rest) ?_
    exact yields_all_bind (yields_run (h.reads rest)) fun u hu => yields_pure ⟨u, rfl, hu⟩
  · exact fun rest => opensStatement_of_opensFunction (h.opens rest)

/-- The printed tree is read as a field. -/
structure ReadsField (symbols : Symbols) (limit : Nat) (t : Tree) : Prop where
  opens (rest : List Symbol) : kindOf (t.printed.symbols ++ rest) ≠ .rightBrace
  reads (rest : List Symbol) : field.Yields symbols limit t.printed.symbols rest t.Like

theorem ReadsField.of_parts {type : Tree} {default : Option Tree}
    (htype : ReadsType symbols limit type)
    (hdefault : ∀ t ∈ default, ReadsExpression symbols limit t) (token : Nat) (name : String) :
    ReadsField symbols limit (.node token (.field name type default)) := by
  have hprinted : (Tree.node token (.field name type default)).printed.symbols =
      type.printed.type ++ (.name name :: (behind .assign (default.map Tree.printed) ++
        [.word .semicolon])) := by
    simp [Form.printed]
  have hname : TokenKind.identifier ∉ TokenKind.suffixes := by decide
  constructor
  · intro rest hk
    rw [hprinted, List.append_assoc] at hk
    have hopens := htype.opens (.name name :: (behind .assign (default.map Tree.printed) ++
      [.word .semicolon]) ++ rest)
    rw [hk] at hopens
    cases hopens
  · intro rest
    rw [hprinted]
    refine yields_here_bind fun p => ?_
    refine yields_bind (yields_require (yields_run (htype.reads hname))) fun u hu => ?_
    refine yields_expect_bind rfl ?_
    refine yields_bind (initializer_yields hdefault rfl (ne_of_beq_false rfl)) fun v hv => ?_
    refine yields_expect_bind rfl (yields_pure ?_)
    simp_all [Tree.Like]

theorem fields_yields {ts : List Tree} (h : ∀ t ∈ ts, ReadsField symbols limit t) :
    Rule.fields.Yields symbols limit (ts.flatMap (·.printed.symbols) ++ [.word .rightBrace]) rest
      fun v => v.map Tree.unanchored = ts.map Tree.unanchored := by
  induction ts with
  | nil => exact yields_accept_bind rfl (yields_pure rfl)
  | cons t ts ih =>
    obtain ⟨ht, hts⟩ := List.forall_mem_cons.mp h
    rw [List.flatMap_cons, List.append_assoc]
    refine yields_skip_bind ?_ ?_
    · rw [List.append_assoc]
      exact ht.opens _
    refine yields_bind (ht.reads _) fun u hu => ?_
    refine yields_all_bind (yields_run (ih hts)) fun v hv => ?_
    exact yields_pure (by rw [List.map_cons, List.map_cons, hu, hv])

theorem ReadsStatement.record {fields : List Tree} (h : ∀ t ∈ fields, ReadsField symbols limit t)
    (token : Nat) (name : String) (isExport isUnion : Bool) :
    ReadsStatement symbols limit (.node token (.record name isExport isUnion fields)) := by
  have hprinted : (Tree.node token (.record name isExport isUnion fields)).printed.statement =
      flag isExport .kwExport ++ (.word (if isUnion then .kwUnion else .kwStruct) :: .name name ::
        .word .leftBrace :: (fields.flatMap (·.printed.symbols) ++ [.word .rightBrace])) := by
    simp [Form.printed, Printed.statement, braces, List.flatMap_map]
  constructor
  · intro rest _
    rw [hprinted]
    refine statement_yields_container (yields_front_bind fun p => yields_ite_false ?_ ?_)
    · cases isExport <;> cases isUnion <;> exact Bool.false_ne_true
    refine yields_ite_true ?_ ?_
    · cases isExport <;> cases isUnion <;> rfl
    refine yields_all_bind (P := (Tree.node token (.record name isExport isUnion fields)).Like)
      (yields_run ?_) fun u hu => yields_pure ⟨u, rfl, hu⟩
    refine yields_here_bind fun p => yields_flag_bind ?_ ?_
    · cases isUnion <;> exact ne_of_beq_false rfl
    have hend : (do
        let name ← expect .identifier
        let _ ← expect .leftBrace
        return Tree.node p (.record name isExport isUnion (← run .fields)) : Script Tree).Yields
          symbols limit (.name name :: .word .leftBrace ::
            (fields.flatMap (·.printed.symbols) ++ [.word .rightBrace])) rest
          (Tree.node token (.record name isExport isUnion fields)).Like := by
      refine yields_expect_bind rfl (yields_expect_bind rfl ?_)
      refine yields_all_bind (yields_run (fields_yields h)) fun v hv => yields_pure ?_
      simp_all [Tree.Like]
    cases isUnion with
    | true => exact yields_accept_bind rfl hend
    | false => exact yields_skip_bind (ne_of_beq_false rfl) (yields_expect_bind rfl hend)
  · intro rest
    rw [hprinted]
    cases isExport <;> cases isUnion <;> rfl

theorem variants_yields {vs : List (Variant Tree)} (hne : vs ≠ [])
    (h : ∀ v ∈ vs, ∀ t ∈ v.value, ReadsExpression symbols limit t) :
    Rule.variants.Yields symbols limit
      (commas (vs.map fun v => (v.map Tree.printed).printed) ++ [.word .rightBrace]) rest
      fun v => v.map Variant.unanchored = vs.map Variant.unanchored := by
  induction vs with
  | nil => exact absurd rfl hne
  | cons v vs ih =>
    obtain ⟨hv, hvs⟩ := List.forall_mem_cons.mp h
    obtain ⟨token, name, value⟩ := v
    have hlike {token' : Nat} {value' : Option Tree}
        (h : value'.map Tree.unanchored = value.map Tree.unanchored) :
        (⟨token', name, value'⟩ : Variant Tree).unanchored =
          (⟨token, name, value⟩ : Variant Tree).unanchored := by
      rw [Variant.unanchored, h]
      rfl
    refine yields_here_bind fun p => ?_
    cases vs with
    | nil =>
      rw [List.map_singleton, commas_singleton]
      refine yields_expect_bind rfl ?_
      refine yields_bind (initializer_yields hv rfl (ne_of_beq_false rfl)) fun x hx => ?_
      refine yields_skip_bind (ne_of_beq_false rfl) (yields_expect_bind rfl (yields_pure ?_))
      exact congrArg ([·]) (hlike hx)
    | cons v' vs =>
      have htail := ih (List.cons_ne_nil _ _) hvs
      simp only [List.map_cons, commas_cons_cons, List.append_assoc] at htail ⊢
      refine yields_expect_bind rfl ?_
      refine yields_bind (initializer_yields hv rfl (ne_of_beq_false rfl)) fun x hx => ?_
      refine yields_accept_bind rfl (yields_skip_bind ?_ ?_)
      · obtain ⟨rest', hrest'⟩ := commas_cons_append (v'.map Tree.printed).printed
          (vs.map fun v => (v.map Tree.printed).printed) ([.word .rightBrace] ++ rest)
        change kindOf (_ ++ [Symbol.word .rightBrace] ++ rest) ≠ _
        rw [List.append_assoc, hrest']
        exact ne_of_beq_false rfl
      refine yields_all_bind (yields_run htail) fun y hy => yields_pure ?_
      rw [List.map_cons, hy]
      exact congrArg (· :: _) (hlike hx)

theorem ReadsStatement.enumeration {variants : List (Variant Tree)} (hne : variants ≠ [])
    (h : ∀ v ∈ variants, ∀ t ∈ v.value, ReadsExpression symbols limit t) (token : Nat)
    (name : String) (isExport : Bool) :
    ReadsStatement symbols limit (.node token (.enumeration name isExport variants)) := by
  have hprinted : (Tree.node token (.enumeration name isExport variants)).printed.statement =
      flag isExport .kwExport ++ (.word .kwEnum :: .name name :: .word .leftBrace ::
        (commas (variants.map fun v => (v.map Tree.printed).printed) ++ [.word .rightBrace])) := by
    simp [Form.printed, Printed.statement, braces, Function.comp_def]
  constructor
  · intro rest _
    rw [hprinted]
    refine statement_yields_container (yields_front_bind fun p => yields_ite_false ?_ ?_)
    · cases isExport <;> exact Bool.false_ne_true
    refine yields_ite_false ?_ (yields_ite_true ?_ ?_)
    · cases isExport <;> exact Bool.false_ne_true
    · cases isExport <;> rfl
    refine yields_all_bind (P := (Tree.node token (.enumeration name isExport variants)).Like)
      (yields_run ?_) fun u hu => yields_pure ⟨u, rfl, hu⟩
    refine yields_here_bind fun p => yields_flag_bind (ne_of_beq_false rfl) ?_
    refine yields_expect_bind rfl (yields_expect_bind rfl (yields_expect_bind rfl ?_))
    refine yields_all_bind (yields_run (variants_yields hne h)) fun v hv => yields_pure ?_
    simp_all [Tree.Like, Function.comp_def]
    exact hv
  · intro rest
    rw [hprinted]
    cases isExport <;> rfl

/-! ## Variables -/

/-- The printed tree is read as the declaration of a variable. -/
structure ReadsDeclaration (symbols : Symbols) (limit : Nat) (t : Tree) : Prop where
  standing : t.printed.standing = .declaration
  opens (rest : List Symbol) : (Sight.front (t.printed.symbols ++ rest)).opensVariable = true
  skips (rest : List Symbol) :
    containerIfAny.Yields symbols limit [] (t.printed.symbols ++ rest) (· = none)
  reads (rest : List Symbol) : Rule.declaration.Yields symbols limit t.printed.symbols rest t.Like

theorem modifiers_yields {isMutable isConst : Bool} (hboth : ¬(isMutable = true ∧ isConst = true))
    (hmutable : kindOf rest ≠ .kwMutable) (hconst : kindOf rest ≠ .kwConst) :
    Rule.modifiers.Yields symbols limit (flag isMutable .kwMutable ++ flag isConst .kwConst) rest
      (· = (isMutable, isConst)) := by
  have hend : Rule.modifiers.Yields symbols limit [] rest (· = (false, false)) :=
    yields_skip_bind hmutable (yields_skip_bind hconst (yields_pure rfl))
  cases isMutable with
  | false =>
    cases isConst with
    | false => exact hend
    | true =>
      refine yields_skip_bind (ne_of_beq_false rfl) (yields_accept_bind rfl ?_)
      refine yields_all_bind (yields_run hend) ?_
      rintro _ rfl
      exact yields_pure rfl
  | true =>
    cases isConst with
    | false =>
      refine yields_accept_bind rfl (yields_all_bind (yields_run hend) ?_)
      rintro _ rfl
      exact yields_pure rfl
    | true => exact absurd ⟨rfl, rfl⟩ hboth

/-- The symbols of a declaration behind the words that it may begin with. -/
def unflagged (name : String) (type init : Option Printed) : List Symbol :=
  type.elim [] (·.type) ++ (.name name :: (behind .assign init ++ [.word .semicolon]))

theorem unflagged_opens {type : Option Tree} (h : ∀ t ∈ type, ReadsType symbols limit t)
    (name : String) (init : Option Printed) (rest : List Symbol) :
    (kindOf (unflagged name (type.map Tree.printed) init ++ rest)).opensType = true := by
  cases type with
  | none => rfl
  | some t =>
    rw [unflagged, List.append_assoc]
    exact (h t rfl).opens _

theorem not_mem_containerOpeners_of_opensType {k : TokenKind} (h : k.opensType = true) :
    k ∉ TokenKind.containerOpeners := by
  revert h
  cases k <;> decide

/-- A type is not taken for the name of a variable. -/
theorem unflagged_omitsType {type : Tree} (h : ReadsType symbols limit type) (name : String)
    (init : Option Printed) (rest : List Symbol) :
    (Sight.front (unflagged name (some type.printed) init ++ rest)).omitsType = false := by
  have happend : unflagged name (some type.printed) init ++ rest = type.printed.type ++
      (.name name :: (behind .assign init ++ [.word .semicolon]) ++ rest) := List.append_assoc _ _ _
  rw [happend, Sight.omitsType, Sight.front_kind, Sight.front_next, Bool.and_eq_false_imp,
    decide_eq_true_eq]
  intro hname
  rw [h.tail_append hname]
  rfl

theorem declaration_yields {type init : Option Tree} {isMutable isConst : Bool}
    (hboth : ¬(isMutable = true ∧ isConst = true))
    (htype : ∀ t ∈ type, ReadsType symbols limit t)
    (hinit : ∀ t ∈ init, ReadsExpression symbols limit t) (token : Nat) (name : String)
    (isExport : Bool) :
    Rule.declaration.Yields symbols limit (flag isExport .kwExport ++ (flag isMutable .kwMutable ++
      flag isConst .kwConst ++ unflagged name (type.map Tree.printed) (init.map Tree.printed))) rest
      (Tree.node token (.declaration name type init isExport isMutable isConst)).Like := by
  have hopens := unflagged_opens htype name (init.map Tree.printed) rest
  have hne {k : TokenKind} (hk : k.opensType = false) :
      kindOf (unflagged name (type.map Tree.printed) (init.map Tree.printed) ++ rest) ≠ k := by
    rintro rfl
    rw [hk] at hopens
    cases hopens
  refine yields_here_bind fun p => yields_flag_bind ?_ ?_
  · cases isMutable with
    | true => exact ne_of_beq_false rfl
    | false => cases isConst with
      | true => exact ne_of_beq_false rfl
      | false => exact hne rfl
  refine yields_bind (yields_run (modifiers_yields hboth (hne rfl) (hne rfl))) ?_
  rintro _ rfl
  have hend {type' : Option Tree} (hlike : type'.map Tree.unanchored = type.map Tree.unanchored) :
      (declared p type' isExport isMutable isConst).Yields symbols limit
        (.name name :: (behind .assign (init.map Tree.printed) ++ [.word .semicolon])) rest
        (Tree.node token (.declaration name type init isExport isMutable isConst)).Like := by
    refine yields_expect_bind rfl ?_
    refine yields_bind (initializer_yields hinit rfl (ne_of_beq_false rfl)) fun v hv => ?_
    refine yields_expect_bind rfl (yields_pure ?_)
    simp_all [Tree.Like]
  have hproceeds : ¬((isMutable, isConst).1 && (isMutable, isConst).2) = true := by
    simpa using hboth
  refine yields_ite_false hproceeds (yields_front_bind fun q => ?_)
  cases type with
  | none =>
    refine yields_ite_true ?_ (hend rfl)
    cases init <;> rfl
  | some type =>
    have htype := htype type rfl
    have hname : TokenKind.identifier ∉ TokenKind.suffixes := by decide
    refine yields_ite_false ?_ ?_
    · rw [Bool.not_eq_true]
      exact unflagged_omitsType htype name (init.map Tree.printed) rest
    have htyped : (some <$> require .type (run .type)).Yields symbols limit type.printed.type
        (.name name :: (behind .assign (init.map Tree.printed) ++ [.word .semicolon]) ++ rest)
        type.SomeLike :=
      yields_map (yields_require (yields_run (htype.reads hname))) fun u hu => ⟨u, rfl, hu⟩
    refine yields_bind htyped ?_
    rintro _ ⟨u, rfl, hu⟩
    exact hend (congrArg some hu)

theorem declaration_printed (token : Nat) (name : String) (type init : Option Tree)
    (isExport isMutable isConst : Bool) :
    (Tree.node token (.declaration name type init isExport isMutable isConst)).printed =
      ⟨.declaration, flag isExport .kwExport ++
        (flag isMutable .kwMutable ++ flag isConst .kwConst ++
          unflagged name (type.map Tree.printed) (init.map Tree.printed))⟩ := by
  simp [Form.printed, unflagged]

/-- A declaration behind words of its own. -/
theorem ReadsDeclaration.flagged {type init : Option Tree} {isExport isMutable isConst : Bool}
    (hflags : isExport = true ∨ isMutable = true ∨ isConst = true)
    (hboth : ¬(isMutable = true ∧ isConst = true))
    (htype : ∀ t ∈ type, ReadsType symbols limit t)
    (hinit : ∀ t ∈ init, ReadsExpression symbols limit t) (token : Nat) (name : String) :
    ReadsDeclaration symbols limit
      (.node token (.declaration name type init isExport isMutable isConst)) := by
  have hprinted := declaration_printed token name type init isExport isMutable isConst
  have hopens (rest : List Symbol) := unflagged_opens htype name (init.map Tree.printed) rest
  refine ⟨rfl, fun rest => ?_, fun rest => ?_, fun rest => ?_⟩
  · rw [hprinted]
    cases isExport with
    | true => rfl
    | false => cases isMutable with
      | true => rfl
      | false => cases isConst with
        | true => rfl
        | false => simp at hflags
  · rw [hprinted]
    have hname := not_mem_containerOpeners_of_opensType (hopens rest)
    refine containerIfAny_yields_none ?_
    cases isExport with
    | true =>
      refine .inr ⟨rfl, ?_⟩
      cases isMutable with
      | true => exact (by decide : TokenKind.kwMutable ∉ TokenKind.containerOpeners)
      | false => cases isConst with
        | true => exact (by decide : TokenKind.kwConst ∉ TokenKind.containerOpeners)
        | false => exact hname
    | false => cases isMutable with
      | true => exact .inl (by decide : TokenKind.kwMutable ∉ TokenKind.containerOpeners)
      | false => cases isConst with
        | true => exact .inl (by decide : TokenKind.kwConst ∉ TokenKind.containerOpeners)
        | false => exact .inl hname
  · rw [hprinted]
    exact declaration_yields hboth htype hinit token name isExport

/-- A declaration that a type begins. -/
theorem ReadsDeclaration.of_type {type : Tree} {init : Option Tree}
    (htype : ReadsType symbols limit type) (hinit : ∀ t ∈ init, ReadsExpression symbols limit t)
    (token : Nat) (name : String)
    (hopens : ∀ rest,
      (Sight.front (type.printed.type ++ .name name :: rest)).opensVariable = true) :
    ReadsDeclaration symbols limit
      (.node token (.declaration name (some type) init false false false)) := by
  have hprinted := declaration_printed token name (some type) init false false false
  have htypes : ∀ t ∈ some type, ReadsType symbols limit t := by
    rintro _ ⟨⟩
    exact htype
  refine ⟨rfl, fun rest => ?_, fun rest => ?_, fun rest => ?_⟩
  · have hfront := hopens (behind .assign (init.map Tree.printed) ++ [.word .semicolon] ++ rest)
    simpa [hprinted, flag, unflagged] using hfront
  · rw [hprinted]
    refine containerIfAny_yields_none (.inl (not_mem_containerOpeners_of_opensType ?_))
    exact unflagged_opens htypes name (init.map Tree.printed) rest
  · rw [hprinted]
    exact declaration_yields (by decide) htypes hinit token name false

theorem ReadsDeclaration.typed {type : Tree} {init : Option Tree}
    (htype : ReadsMark symbols limit type) (hinit : ∀ t ∈ init, ReadsExpression symbols limit t)
    (token : Nat) (name : String) :
    ReadsDeclaration symbols limit
      (.node token (.declaration name (some type) init false false false)) := by
  refine .of_type (.inl htype) hinit token name fun rest => ?_
  obtain ⟨mark, list, hlist, hmark⟩ := htype.opens
  rw [htype.type_eq, hlist]
  rcases hmark with rfl | rfl <;> rfl

theorem ReadsDeclaration.named {init : Option Tree}
    (hinit : ∀ t ∈ init, ReadsExpression symbols limit t) (token place : Nat)
    (name typeName : String) :
    ReadsDeclaration symbols limit (.node token (.declaration name
      (some (.node place (.identifier typeName))) init false false false)) := by
  have htype : ReadsExpression symbols limit (.node place (.identifier typeName)) :=
    .leaf (a := .name typeName) rfl place
  exact .of_type (.inr htype) hinit token name fun rest => rfl

theorem opensStatement_of_opensVariable {s : Sight} (h : s.opensVariable = true) :
    s.kind.opensStatement = true := by
  revert h
  simp only [Sight.opensVariable]
  cases s.kind <;> first | exact fun _ => rfl | exact (absurd · Bool.false_ne_true)

/-- A variable that is declared is not taken for the name of an element. -/
theorem binds_of_opensVariable {s : Sight} (h : s.opensVariable = true) :
    (s.kind = .identifier && s.next = .kwIn) = false := by
  rw [Bool.and_eq_false_imp, decide_eq_true_eq]
  intro hk
  rw [Sight.opensVariable, hk] at h
  have hnext : s.next = .identifier := by simpa using h
  rw [hnext]
  rfl

theorem ReadsDeclaration.statement (h : ReadsDeclaration symbols limit t) :
    ReadsStatement symbols limit t := by
  have hsymbols : t.printed.statement = t.printed.symbols := by
    rw [Printed.statement, h.standing]
  constructor
  · intro rest _
    rw [hsymbols]
    refine yields_nil_bind (h.skips rest) ?_
    rintro _ rfl
    refine yields_all_bind (variableIfAny_yields (h.opens rest) (h.reads rest)) ?_
    rintro _ ⟨u, rfl, hu⟩
    exact yields_pure ⟨u, rfl, hu⟩
  · intro rest
    rw [hsymbols]
    exact opensStatement_of_opensVariable (h.opens rest)

end FrontEnd.Grammar
