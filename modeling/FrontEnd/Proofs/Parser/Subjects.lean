import FrontEnd.Proofs.Parser.Contexts

/-!
Subjects of selections. A parenthesis behind `match` is taken for one around the subject. So
an expression is a subject, as it is a value behind `return`, if it begins with none or ends
with the one that closes it; one that goes on behind is rejected there.
-/

namespace FrontEnd

/-- From `p` to `q` stand parentheses around an expression. -/
structure Symbols.Encloses (symbols : Symbols) (limit depth p : Nat) (x : Tree) (q : Nat) :
    Prop where
  opening : (symbols.symbolAt p).kind = .leftParen
  inner : Rule.eval symbols limit .expression ⟨p + 1, depth + 1⟩ = .read (some x) ⟨q, depth + 1⟩
  closing : (symbols.symbolAt q).kind = .rightParen

namespace Grammar

open Script

variable {symbols : Symbols} {limit depth : Nat} {loose : Prop} {p q r : Nat} {x : Tree}
  {s t : ParseState}

/-! ## Expressions that begin with a parenthesis -/

theorem climbing_inverts_succ {n : Nat} (hn : n < 8)
    (h : (climbing n).eval symbols limit s = .read (some x) t) :
    ∃ y r, (climbing (n + 1)).eval symbols limit s = .read (some y) r := by
  match n with
  | 0 | 1 | 2 | 3 | 4 | 5 | 6 | 7 =>
    rw [climbing, eval_run, Rule.eval_eq] at h
    obtain ⟨v, r, hv, hrest⟩ := eval_bind_inverts h
    cases v with
    | none => cases hrest
    | some y => exact ⟨y, r, hv⟩

theorem climbing_inverts {n : Nat} (hn : n ≤ 8)
    (h : (climbing 0).eval symbols limit s = .read (some x) t) :
    ∃ y r, (climbing n).eval symbols limit s = .read (some y) r := by
  induction n with
  | zero => exact ⟨x, t, h⟩
  | succ n ih =>
    obtain ⟨y, r, hy⟩ := ih (Nat.le_of_succ_le hn)
    exact climbing_inverts_succ hn hy

/-- An expression begins with an operand. -/
theorem operand_inverts (htry : (symbols.symbolAt p).kind ≠ .kwTry)
    (h : Rule.eval symbols limit .expression ⟨p, depth⟩ = .read (some x) t) :
    ∃ y r, Rule.eval symbols limit .unary ⟨p, depth⟩ = .read (some y) r := by
  have hattempts : (run .attempts).eval symbols limit ⟨p, depth⟩ = .read [] ⟨p, depth⟩ := by
    rw [eval_run, Rule.eval_eq]
    exact eval_bind_of (eval_accept_of_ne htry)
  rw [Rule.eval_eq] at h
  simp only [Rule.script, attempted] at h
  rw [eval_bind_of hattempts] at h
  obtain ⟨v, r, hv, hrest⟩ := eval_bind_inverts h
  cases v with
  | none => cases hrest
  | some y =>
    obtain ⟨y, r, hy⟩ := climbing_inverts (Nat.le_refl 8) hv
    exact ⟨y, r, (eval_run .unary).symm.trans hy⟩

theorem primary_inverts (hop : UnaryOp.ofKind? (symbols.symbolAt p).kind = none)
    (hbrace : (symbols.symbolAt p).kind ≠ .leftBrace)
    (h : Rule.eval symbols limit .unary ⟨p, depth⟩ = .read (some x) t) :
    ∃ y r, Rule.eval symbols limit .primary ⟨p, depth⟩ = .read (some y) r := by
  rw [Rule.eval_eq] at h
  simp only [Rule.script, unary] at h
  rw [eval_bind_of eval_sight] at h
  simp only [Symbols.sight_kind, hop, simple] at h
  rw [eval_bind_of eval_sight] at h
  simp only [Symbols.sight_kind, hbrace, if_false] at h
  rw [eval_run, Rule.eval_eq] at h
  obtain ⟨v, r, hv, hrest⟩ := eval_bind_inverts h
  cases v with
  | none => cases hrest
  | some y => exact ⟨y, r, (eval_run .primary).symm.trans hv⟩

theorem enclosed_inverts (hopen : (symbols.symbolAt p).kind = .leftParen)
    (h : Rule.eval symbols limit .primary ⟨p, depth⟩ = .read (some x) ⟨r, depth⟩) :
    ∃ y q, symbols.Encloses limit depth p y q := by
  have hleaf : (symbols.symbolAt p).leaf? = none := by simp [Symbol.leaf?, hopen]
  let Q (_ : Option Tree) (_ : Nat) : Prop := ∃ y q, symbols.Encloses limit depth p y q
  refine Rule.holds_of_eval (Q := Q) h ?_
  simp only [Rule.script, primary]
  rw [ensures_bind, ensures_sight]
  simp only [Symbols.sight_current, Symbols.sight_kind, hleaf, hopen]
  rw [ensures_bind, ensures_take, Symbols.next_of_kind hopen (by decide), ensures_done,
    ensures_bind, ensures_require]
  refine fun _ => ⟨trivial, fun v q hv y hy => ?_⟩
  subst hy
  rw [ensures_bind, ensures_expect]
  exact fun hclose => ⟨y, q, hopen, hv, hclose⟩

/-- An expression that begins with a parenthesis has one enclosed there. -/
theorem encloses_of_eval (hopen : (symbols.symbolAt p).kind = .leftParen)
    (h : Rule.eval symbols limit .expression ⟨p, depth⟩ = .read (some x) t) :
    ∃ y q, symbols.Encloses limit depth p y q := by
  obtain ⟨y, r, hy⟩ := operand_inverts (by rw [hopen]; decide) h
  obtain ⟨z, ⟨r, d⟩, hz⟩ := primary_inverts (by rw [hopen]; rfl) (by rw [hopen]; decide) hy
  have hkeeps := Rule.eval_keeps symbols limit .primary ⟨p, depth⟩
  rw [hz] at hkeeps
  obtain rfl : d = depth := hkeeps.2.2
  exact enclosed_inverts hopen hz

/-- Where nothing carries it on, the expression in parentheses is all that is read. -/
theorem encloses_eval (h : symbols.Encloses limit depth p x q) (hd : depth < limit)
    (hsuffix : (symbols.symbolAt (q + 1)).kind ∉ TokenKind.suffixes)
    (hstop : (symbols.symbolAt (q + 1)).kind.tightness = 8) :
    Rule.eval symbols limit .expression ⟨p, depth⟩ = .read (some x) ⟨q + 1, depth⟩ := by
  have hopen := h.opening
  have hinner : Rule.expression.Obtains symbols limit False (depth + 1) (p + 1) (some x) q :=
    .of_eval h.inner
  have hsuffixed : Rule.suffixed.Obtains symbols limit False depth p (some x) (q + 1) :=
    suffixed_obtained (enclosed_obtained hopen (.inl hd) hinner h.closing)
      (suffixes_obtained_nil hsuffix)
  have hobtained : Rule.expression.Obtains symbols limit False depth p (some x) (q + 1) :=
    operand_obtained (by rw [hopen]; decide)
      (unary_obtained (by rw [hopen]; rfl) (by rw [hopen]; decide) hsuffixed) hstop
  exact hobtained.eval_eq not_false

/-! ## Selections -/

/-- `else : 0 }` -/
theorem branches_obtained (hd : depth < limit ∨ loose)
    (h : symbols.Stand p [.word .kwElse, .word .colon, ⟨.decimalInteger, "0"⟩, .word .rightBrace]) :
    Rule.branches.Obtains symbols limit loose depth p
      [⟨p, [], .node (p + 2) (.integer "0" .decimal)⟩] (p + 4) := by
  have helse : (symbols.symbolAt p).kind = .kwElse := h.kind
  have hcolon : (symbols.symbolAt (p + 1)).kind = .colon := h.tail.kind
  have hdigit := h.tail.tail.symbolAt
  have hkind : (symbols.symbolAt (p + 2)).kind = .decimalInteger := by rw [hdigit]
  have hclose : (symbols.symbolAt (p + 3)).kind = .rightBrace := h.tail.tail.tail.kind
  have hleaf : Rule.primary.Obtains symbols limit loose (depth + 1) (p + 2)
      (some (.node (p + 2) (.integer "0" .decimal))) (p + 3) :=
    leaf_obtained (by rw [hdigit]; rfl)
  have hexpression : Rule.expression.Obtains symbols limit loose (depth + 1) (p + 2)
      (some (.node (p + 2) (.integer "0" .decimal))) (p + 3) :=
    operand_obtained (by rw [hkind]; decide)
      (unary_obtained (by rw [hkind]; rfl) (by rw [hkind]; decide)
        (suffixed_obtained hleaf (suffixes_obtained_nil (by rw [hclose]; decide))))
      (by rw [hclose]; rfl)
  have hbody : blockOrAssignment.Obtains symbols limit loose depth (p + 2)
      (.node (p + 2) (.integer "0" .decimal), false) (p + 3) := by
    refine obtains_bind (.of_eval (block_none (by rw [hkind]; decide))) ?_
    exact obtains_bind
      (obtains_require (assignment_obtained_plain hd hexpression (by rw [hclose]; rfl)))
      (obtains_pure _)
  have hmark : branchMark.Obtains symbols limit loose depth (p + 1) () (p + 2) :=
    obtains_bind (obtains_accept hcolon h.tail.next) (obtains_pure ())
  have hmarked : (marked p []).Obtains symbols limit loose depth (p + 1)
      ⟨p, [], .node (p + 2) (.integer "0" .decimal)⟩ (p + 3) :=
    obtains_bind hmark (obtains_bind hbody (obtains_pure _))
  have hbranch : Rule.branch.Obtains symbols limit loose depth p
      ⟨p, [], .node (p + 2) (.integer "0" .decimal)⟩ (p + 3) := by
    refine obtains_bind obtains_here (obtains_bind (obtains_accept_of_ne ?_) ?_)
    · rw [helse]
      decide
    · exact obtains_bind (obtains_accept helse h.next) hmarked
  refine obtains_bind (obtains_run hbranch) ?_
  refine obtains_bind (obtains_accept_of_ne (by rw [hclose]; decide)) ?_
  exact obtains_bind (obtains_expect hclose h.tail.tail.tail.next) (obtains_pure _)

variable {branches : List (MatchBranch Tree)}

/-- A selection whose subject begins with no parenthesis. -/
theorem selection_obtained (hmatch : (symbols.symbolAt p).kind = .kwMatch)
    (hfirst : (symbols.symbolAt (p + 1)).kind ≠ .leftParen) (hd : depth < limit ∨ loose)
    (h : Rule.expression.Obtains symbols limit loose (depth + 1) (p + 1) (some x) q)
    (hbrace : (symbols.symbolAt q).kind = .leftBrace)
    (hbranches : Rule.branches.Obtains symbols limit loose depth (q + 1) branches r) :
    Rule.selection.Obtains symbols limit loose depth p (.node p (.selection x branches)) r := by
  refine obtains_bind obtains_here ?_
  refine obtains_bind (obtains_expect hmatch (Symbols.next_of_kind hmatch (by decide))) ?_
  refine obtains_bind (obtains_accept_of_ne hfirst) ?_
  refine obtains_bind (obtains_require (obtains_deeper hd h)) ?_
  refine obtains_bind (obtains_expect hbrace (Symbols.next_of_kind hbrace (by decide))) ?_
  exact obtains_bind (obtains_run hbranches) (obtains_pure _)

/-- A selection whose subject stands in parentheses. -/
theorem selection_obtained_enclosed {e : Nat} (hmatch : (symbols.symbolAt p).kind = .kwMatch)
    (hopen : (symbols.symbolAt (p + 1)).kind = .leftParen) (hd : depth < limit ∨ loose)
    (h : Rule.expression.Obtains symbols limit loose (depth + 1) (p + 2) (some x) e)
    (hclose : (symbols.symbolAt e).kind = .rightParen) (hq : q = e + 1)
    (hbrace : (symbols.symbolAt q).kind = .leftBrace)
    (hbranches : Rule.branches.Obtains symbols limit loose depth (q + 1) branches r) :
    Rule.selection.Obtains symbols limit loose depth p (.node p (.selection x branches)) r := by
  subst hq
  refine obtains_bind obtains_here ?_
  refine obtains_bind (obtains_expect hmatch (Symbols.next_of_kind hmatch (by decide))) ?_
  refine obtains_bind (obtains_accept hopen (Symbols.next_of_kind hopen (by decide))) ?_
  refine obtains_bind (obtains_require (obtains_deeper hd h)) ?_
  refine obtains_bind (obtains_expect hclose (Symbols.next_of_kind hclose (by decide))) ?_
  refine obtains_bind (obtains_expect hbrace (Symbols.next_of_kind hbrace (by decide))) ?_
  exact obtains_bind (obtains_run hbranches) (obtains_pure _)

/-- Behind the parentheses the branches have to follow. -/
theorem selection_failed (hmatch : (symbols.symbolAt p).kind = .kwMatch)
    (hopen : (symbols.symbolAt (p + 1)).kind = .leftParen) (hd : depth < limit)
    (h : Rule.eval symbols limit .expression ⟨p + 2, depth + 1⟩ = .read (some x) ⟨q, depth + 1⟩)
    (hclose : (symbols.symbolAt q).kind = .rightParen)
    (hbrace : (symbols.symbolAt (q + 1)).kind ≠ .leftBrace) :
    Rule.eval symbols limit .selection ⟨p, depth⟩ =
      .failed (.expected (.token .leftBrace) (symbols.symbolAt (q + 1)).kind) ⟨q + 1, depth⟩ := by
  have hsubject : (require .expression expression).eval symbols limit ⟨p + 2, depth⟩ =
      .read x ⟨q, depth⟩ :=
    eval_require (eval_deeper (s := ⟨p + 2, depth⟩) hd h)
  rw [Rule.eval_eq]
  simp only [Rule.script, selection]
  rw [eval_bind_of eval_here, eval_bind_of (eval_expect hmatch),
    Symbols.next_of_kind hmatch (by decide), eval_bind_of (eval_accept hopen),
    Symbols.next_of_kind hopen (by decide), eval_bind_of hsubject]
  simp only [if_true]
  rw [eval_bind_of (eval_expect hclose), Symbols.next_of_kind hclose (by decide)]
  exact eval_bind_failed (eval_expect_of_ne hbrace)

/-- A statement that is a selection, at the end of the source. -/
theorem statement_obtained_selection (hmatch : (symbols.symbolAt p).kind = .kwMatch)
    (h : Rule.selection.Obtains symbols limit loose depth p x q)
    (hend : (symbols.symbolAt q).kind ≠ .semicolon) :
    Rule.statement.Obtains symbols limit loose depth p (some x) q := by
  refine obtains_of_eval_eq (statement_eval_at hmatch (by decide)) ?_
  refine obtains_bind (obtains_run h) ?_
  exact obtains_bind (obtains_accept_of_ne hend) (obtains_pure _)

theorem unit_failed {cause : Cause} (hmatch : (symbols.symbolAt p).kind = .kwMatch)
    (hd : depth < limit)
    (h : Rule.eval symbols limit .selection ⟨p, depth + 1⟩ = .failed cause ⟨q, depth + 1⟩) :
    Rule.eval symbols limit .unit ⟨p, depth⟩ = .failed cause ⟨q, depth⟩ := by
  have hstatement : Rule.eval symbols limit .statement ⟨p, depth + 1⟩ =
      .failed cause ⟨q, depth + 1⟩ := by
    rw [statement_eval_at hmatch (by decide)]
    exact eval_bind_failed ((eval_run .selection).trans h)
  rw [Rule.eval_eq]
  simp only [Rule.script, unit]
  rw [eval_bind_of eval_sight, Symbols.sight_kind, if_neg (by rw [hmatch]; decide)]
  exact eval_bind_failed (eval_require_failed (eval_deeper_failed (s := ⟨p, depth⟩) hd hstatement))

end Grammar

/-! ## Streams -/

namespace TokenStream

/-- `{ else : 0 }` -/
def otherwise : List Symbol :=
  [.word .leftBrace, .word .kwElse, .word .colon, ⟨.decimalInteger, "0"⟩, .word .rightBrace]

/-- The stream is `match E { else : 0 }`. -/
def Selects (s : TokenStream) (list : List Symbol) : Prop :=
  s.body.map (·.symbol) = .word .kwMatch :: (list ++ otherwise)

/-- What it becomes if `E` has `n` tokens and is read as `v`. -/
def selected (n : Nat) (v : Tree) : Tree :=
  .node 0 (.selection v [⟨n + 2, [], .node (n + 4) (.integer "0" .decimal)⟩])

variable {s s' : TokenStream} {list : List Symbol}

theorem Selects.frames (h : s.Selects list) : s.Frames [.word .kwMatch] list otherwise where
  body := h
  before := by decide
  after := by decide

theorem Selects.kind_zero (h : s.Selects list) : (s.symbols.symbolAt 0).kind = .kwMatch :=
  h.frames.symbols.kind

/-- The branches behind the subject. -/
theorem Selects.branches_obtained (h : s.Selects list) :
    (s.symbols.symbolAt (1 + (list.filter (!·.kind.isTrivia)).length)).kind = .leftBrace ∧
      Rule.branches.Obtains s.symbols nestingLimit False 1
        (1 + (list.filter (!·.kind.isTrivia)).length + 1)
        [⟨1 + (list.filter (!·.kind.isTrivia)).length + 1, [],
          .node (1 + (list.filter (!·.kind.isTrivia)).length + 3) (.integer "0" .decimal)⟩]
        s.symbols.size := by
  have hstand : s.symbols.Stand (1 + (list.filter (!·.kind.isTrivia)).length) otherwise :=
    h.frames.behind
  refine ⟨hstand.kind, ?_⟩
  rw [h.frames.size]
  exact Grammar.branches_obtained (.inl (by decide)) hstand.tail

/-- `E` in `return E ;` and in `match E { else : 0 }`. -/
def subject (h : s.Returns list) (h' : s'.Selects list) : Passage where
  source := s.symbols
  target := s'.symbols
  start := 1
  stop := 1 + (list.filter (!·.kind.isTrivia)).length
  shift := 0
  extra := 0
  move i := min i ((list.filter (!·.kind.isTrivia)).length + 2)
  same p hs hp := by
    obtain ⟨i, rfl⟩ := Nat.exists_eq_add_of_le hs
    exact h.frames.symbolAt_eq h'.frames (by omega)
  source_le := by simp [h.frames.size]
  target_le := by simp [h'.frames.size]
  move_eq p _ hp := Nat.min_eq_left (by omega)

theorem subject_endsOperand (hfunc : ∀ x ∈ list, x.kind ≠ .kwFunc) (h : s.Returns list)
    (h' : s'.Selects list) : (subject h h').EndsOperand := by
  have hbehind : (subject h h').behind = .leftBrace := h'.branches_obtained.1
  refine
    { operator := fun l => by rw [hbehind]; cases l <;> rfl
      handler := by rw [hbehind]; decide
      suffix := by rw [hbehind]; decide
      block := fun _ p hs hp => ?_ }
  obtain ⟨i, rfl⟩ : ∃ i, p = 1 + i := Nat.exists_eq_add_of_le hs
  have hi : i < (list.filter (!·.kind.isTrivia)).length := Nat.lt_of_add_lt_add_left hp
  have hat : s.symbols.symbolAt (1 + i) = _ := h.frames.symbolAt_add hi
  change (s.symbols.symbolAt (1 + i)).kind ≠ _
  rw [hat]
  exact hfunc _ (List.mem_filter.mp (List.getElem_mem hi)).1

/-- The parentheses enclose all of the value, or what is behind them is no brace. -/
theorem Returns.encloses (h : s.Returns list) {u x : Tree} {q : Nat}
    (hvalue : Rule.eval s.symbols nestingLimit .expression ⟨1, 2⟩ =
      .read (some u) ⟨1 + (list.filter (!·.kind.isTrivia)).length, 2⟩)
    (hx : s.symbols.Encloses nestingLimit 2 1 x q) :
    q = (list.filter (!·.kind.isTrivia)).length ∧ x = u ∨
      q < (list.filter (!·.kind.isTrivia)).length ∧
        (s.symbols.symbolAt (q + 1)).kind ≠ .leftBrace := by
  have hend : (s.symbols.symbolAt (1 + (list.filter (!·.kind.isTrivia)).length)).kind =
      .semicolon := h.frames.behind.kind
  have hsize : s.symbols.size = 1 + (list.filter (!·.kind.isTrivia)).length + 1 := h.frames.size
  have hlt : q < s.symbols.size :=
    Symbols.lt_size_of_kind (by rw [hx.closing]; decide)
  have hne : q ≠ 1 + (list.filter (!·.kind.isTrivia)).length := by
    rintro rfl
    rw [hx.closing] at hend
    cases hend
  have hle : q ≤ (list.filter (!·.kind.isTrivia)).length := by omega
  -- where nothing carries on what is enclosed, it is what was read
  have hwhole (hsuffix : (s.symbols.symbolAt (q + 1)).kind ∉ TokenKind.suffixes)
      (hstop : (s.symbols.symbolAt (q + 1)).kind.tightness = 8) :
      q = (list.filter (!·.kind.isTrivia)).length ∧ x = u := by
    have hread := Grammar.encloses_eval hx (by decide) hsuffix hstop
    rw [hvalue] at hread
    simp only [Outcome.read.injEq, Option.some.injEq, ParseState.mk.injEq] at hread
    exact ⟨by omega, hread.1.symm⟩
  rcases Nat.lt_or_eq_of_le hle with hlt | rfl
  · refine .inr ⟨hlt, fun hbrace => ?_⟩
    have heq := (hwhole (by rw [hbrace]; decide) (by rw [hbrace]; rfl)).1
    omega
  · rw [Nat.add_comm] at hend
    exact .inl (hwhole (by rw [hend]; decide) (by rw [hend]; rfl))

/-- What the parentheses enclose is read behind `match` too, where it is one level less deep. -/
theorem subject_inner (h : s.Returns list) (h' : s'.Selects list) {x : Tree} {q : Nat}
    (hx : s.symbols.Encloses nestingLimit 2 1 x q)
    (hq : q ≤ (list.filter (!·.kind.isTrivia)).length) :
    Rule.eval s'.symbols nestingLimit .expression ⟨2, 2⟩ =
      .read (some (x.mapTokens (subject h h').move)) ⟨q, 2⟩ := by
  have hread : Rule.eval s.symbols nestingLimit .expression ⟨2, 2⟩ = .read (some x) ⟨q, 2⟩ :=
    Rule.eval_shallower hx.inner (Nat.le_succ 2)
  have hlt : q < (subject h h').stop := by
    change q < 1 + _
    omega
  have hobtained := (subject h h').obtains hread (Nat.le_succ 1) (Nat.le_of_lt hlt)
    (fun heq => absurd heq (Nat.ne_of_lt hlt)) trivial
  exact hobtained.eval_eq (Nat.lt_irrefl 0)

/-- A selection over the whole stream is its tree. -/
theorem Selects.parse_eq (h : s.Selects list) (hillegal : s.illegal? = none) {x : Tree}
    (hx : Rule.selection.Obtains s.symbols nestingLimit False 1 0
      (.node 0 (.selection x [⟨1 + (list.filter (!·.kind.isTrivia)).length + 1, [],
        .node (1 + (list.filter (!·.kind.isTrivia)).length + 3) (.integer "0" .decimal)⟩]))
      s.symbols.size) :
    FrontEnd.parse s = .ok (.node 0 (.root
      [selected list.length (x.mapTokens fun i => ((Cursor.start s).tokenAt i).2)])) := by
  have hend : (s.symbols.symbolAt s.symbols.size).kind = .endOfFile :=
    Symbols.kind_of_size_le (Nat.le_refl _)
  have hunit := Grammar.unit_obtained (by rw [h.kind_zero]; decide) (.inl (by decide))
    (Grammar.statement_obtained_selection h.kind_zero hx (by rw [hend]; decide)) hend
  have hread := hunit.eval_eq not_false
  refine (Cursor.parseWithin_of_read (c := Cursor.start s) hillegal hread).trans ?_
  obtain ⟨hbefore, hafter⟩ := h.frames.tokenAt_outside
  have hzero : ((Cursor.start s).tokenAt 0).2 = 0 := hbefore 0 (by decide)
  have hbranch : ((Cursor.start s).tokenAt (1 + (list.filter (!·.kind.isTrivia)).length + 1)).2 =
      list.length + 2 := (hafter 1 (by decide)).trans (by simp; omega)
  have hbody : ((Cursor.start s).tokenAt (1 + (list.filter (!·.kind.isTrivia)).length + 3)).2 =
      list.length + 4 := (hafter 3 (by decide)).trans (by simp; omega)
  have hposition : (Cursor.start s).position = 0 := rfl
  simp [selected, MatchBranch.map, hposition, hzero, hbranch, hbody]

theorem subject_mapTokens (h : s.Returns list) (h' : s'.Selects list) (u : Tree) :
    (u.mapTokens (subject h h').move).mapTokens (fun i => ((Cursor.start s').tokenAt i).2) =
      u.mapTokens fun i => ((Cursor.start s).tokenAt i).2 := by
  have hmoved : (fun i => ((Cursor.start s').tokenAt i).2) ∘ (subject h h').move =
      fun i => ((Cursor.start s).tokenAt i).2 :=
    funext fun i => h.frames.tokenAt_moved h'.frames (k := 0) rfl (by decide) i
  rw [Tree.mapTokens_mapTokens, hmoved]

theorem subject_kind (h : s.Returns list) (h' : s'.Selects list) {p : Nat} (hs : 1 ≤ p)
    (hp : p ≤ (list.filter (!·.kind.isTrivia)).length) :
    (s'.symbols.symbolAt p).kind = (s.symbols.symbolAt p).kind :=
  congrArg Symbol.kind ((subject h h').same p hs (by change p < 1 + _; omega))

/-- A value that begins with no parenthesis is the subject. -/
theorem Selects.parse_plain (h' : s'.Selects list) (h : s.Returns list)
    (hillegal : s'.illegal? = none) (hfunc : ∀ x ∈ list, x.kind ≠ .kwFunc) {u : Tree}
    (hvalue : Rule.eval s.symbols nestingLimit .expression ⟨1, 2⟩ =
      .read (some u) ⟨1 + (list.filter (!·.kind.isTrivia)).length, 2⟩)
    (hfirst : (s.symbols.symbolAt 1).kind ≠ .leftParen) :
    FrontEnd.parse s' = .ok (.node 0 (.root
      [selected list.length (u.mapTokens fun i => ((Cursor.start s).tokenAt i).2)])) := by
  obtain ⟨hbrace, hbranches⟩ := h'.branches_obtained
  have hforward : 1 < 1 + (list.filter (!·.kind.isTrivia)).length :=
    (Symbols.Finds.forward (Rule.advances_of_eval hvalue) rfl).1
  have hends := subject_endsOperand hfunc h h'
  have hobtained := (subject h h').obtains hvalue (Nat.le_refl 1) (Nat.le_refl _)
    (fun _ => ⟨rfl, hends⟩) trivial
  have hsubject : Rule.expression.Obtains s'.symbols nestingLimit False 2 1
      (some (u.mapTokens (subject h h').move)) (1 + (list.filter (!·.kind.isTrivia)).length) :=
    .of_eval (hobtained.eval_eq (Nat.lt_irrefl 0))
  have hselection := Grammar.selection_obtained h'.kind_zero
    (by rwa [subject_kind h h' (Nat.le_refl 1) (by omega)]) (.inl (by decide)) hsubject hbrace
    hbranches
  rw [h'.parse_eq hillegal hselection, subject_mapTokens]

/-- And so is what parentheses around all of the value enclose. -/
theorem Selects.parse_enclosed (h' : s'.Selects list) (h : s.Returns list)
    (hillegal : s'.illegal? = none) {x : Tree}
    (hx : s.symbols.Encloses nestingLimit 2 1 x (list.filter (!·.kind.isTrivia)).length) :
    FrontEnd.parse s' = .ok (.node 0 (.root
      [selected list.length (x.mapTokens fun i => ((Cursor.start s).tokenAt i).2)])) := by
  obtain ⟨hbrace, hbranches⟩ := h'.branches_obtained
  have hforward : 1 + 1 < (list.filter (!·.kind.isTrivia)).length :=
    (Rule.advances_of_eval hx.inner).1
  have hopen := (subject_kind h h' (Nat.le_refl 1) (by omega)).trans hx.opening
  have hclose := (subject_kind h h' (by omega) (Nat.le_refl _)).trans hx.closing
  have hsubject : Rule.expression.Obtains s'.symbols nestingLimit False 2 2
      (some (x.mapTokens (subject h h').move)) (list.filter (!·.kind.isTrivia)).length :=
    .of_eval (subject_inner h h' hx (Nat.le_refl _))
  have hselection := Grammar.selection_obtained_enclosed h'.kind_zero hopen (.inl (by decide))
    hsubject hclose (Nat.add_comm 1 _) hbrace hbranches
  rw [h'.parse_eq hillegal hselection, subject_mapTokens]

/-- Where the value goes on behind its first parentheses, a brace is expected there. -/
theorem Selects.parse_continued (h' : s'.Selects list) (h : s.Returns list)
    (hillegal : s'.illegal? = none) {x : Tree} {q : Nat}
    (hx : s.symbols.Encloses nestingLimit 2 1 x q)
    (hq : q < (list.filter (!·.kind.isTrivia)).length)
    (hbehind : (s.symbols.symbolAt (q + 1)).kind ≠ .leftBrace) :
    FrontEnd.parse s' = .error ⟨.structural,
      (Cause.expected (.token .leftBrace) (s.symbols.symbolAt (q + 1)).kind).message,
      ((Cursor.start s').tokenAt (q + 1)).1.location⟩ := by
  have hforward : 1 + 1 < q := (Rule.advances_of_eval hx.inner).1
  have hopen := (subject_kind h h' (Nat.le_refl 1) (by omega)).trans hx.opening
  have hclose := (subject_kind h h' (by omega) (Nat.le_of_lt hq)).trans hx.closing
  have hnext := subject_kind h h' (Nat.le_add_left 1 q) hq
  have hselection := Grammar.selection_failed h'.kind_zero hopen (by decide)
    (subject_inner h h' hx (Nat.le_of_lt hq)) hclose (by rwa [hnext])
  have hunit := Grammar.unit_failed h'.kind_zero (by decide) hselection
  rw [hnext] at hunit
  exact Cursor.parseWithin_of_failed (c := Cursor.start s') hillegal hunit

end TokenStream

open TokenStream

variable {s s' : TokenStream} {list : List Symbol}

/-- The fault that a source is rejected for. -/
def TokenStream.fault? (s : TokenStream) : Option Fault :=
  match parse s with
  | .ok _ => none
  | .error fault => some fault

theorem parse_of_fault {fault : Fault} (h : s.fault? = some fault) : parse s = .error fault := by
  unfold TokenStream.fault? at h
  split at h
  · cases h
  · rename_i f hparse
    rw [hparse, Option.some.inj h]

/-- An expression that stands behind `return` is the subject of a selection, as it is there,
if it begins with no parenthesis or ends with the one that closes it. Where it goes on, the
selection is rejected behind the parentheses, since they are taken for those of the subject. -/
theorem parse_subject (hlist : ∀ x ∈ list, x.kind ≠ .endOfFile)
    (hfunc : ∀ x ∈ list, x.kind ≠ .kwFunc) (h : s.Returns list) (h' : s'.Selects list)
    {a b : Nat} {v : Tree}
    (hparse : parse s = .ok (.node a (.root [.node b (.returning (some v))]))) :
    (((s.symbols.symbolAt 1).kind ≠ .leftParen ∨ ∃ x,
        s.symbols.Encloses nestingLimit 2 1 x (list.filter (!·.kind.isTrivia)).length) ∧
      parse s' = .ok (.node 0 (.root [selected list.length v]))) ∨
    ∃ x q, q < (list.filter (!·.kind.isTrivia)).length ∧
      s.symbols.Encloses nestingLimit 2 1 x q ∧
      parse s' = .error ⟨.structural,
        (Cause.expected (.token .leftBrace) (s.symbols.symbolAt (q + 1)).kind).message,
        ((Cursor.start s').tokenAt (q + 1)).1.location⟩ := by
  obtain ⟨u, rfl, hvalue⟩ := h.inverts hlist hparse
  have hillegal := h'.frames.illegal?_eq_none (h.frames.kind_ne_illegal hparse)
  by_cases hopen : (s.symbols.symbolAt 1).kind = .leftParen
  · obtain ⟨x, q, hx⟩ := Grammar.encloses_of_eval hopen hvalue
    rcases h.encloses hvalue hx with ⟨rfl, rfl⟩ | ⟨hlt, hbehind⟩
    · exact .inl ⟨.inr ⟨x, hx⟩, h'.parse_enclosed h hillegal hx⟩
    · exact .inr ⟨x, q, hlt, hx, h'.parse_continued h hillegal hx hlt hbehind⟩
  · exact .inl ⟨.inl hopen, h'.parse_plain h hillegal hfunc hvalue hopen⟩

theorem parse_subject_of_enclosed :
    let s := lex "return (a + 1);" "d.hz"
    let s' := lex "match (a + 1) { else : 0 }" "d.hz"
    let list : List Symbol :=
      [.word .leftParen, .name "a", .word .plus, ⟨.decimalInteger, "1"⟩, .word .rightParen]
    s.Returns list ∧ s'.Selects list ∧ ∃ a b v,
      parse s = .ok (.node a (.root [.node b (.returning (some v))])) ∧
        parse s' = .ok (.node 0 (.root [selected 5 v])) := by
  intro s s' list
  have hs : s.Returns list := by
    change s.body.map (·.symbol) = _
    decide +kernel
  have hs' : s'.Selects list := by
    change s'.body.map (·.symbol) = _
    decide +kernel
  have hok : (parse s').isOk = true := by decide +kernel
  obtain ⟨a, b, v, hparse⟩ := parse_of_returned (s := s) (by decide +kernel)
  refine ⟨hs, hs', a, b, v, hparse, ?_⟩
  rcases parse_subject (by decide) (by decide) hs hs' hparse with
    ⟨-, hroot⟩ | ⟨x, q, -, -, herror⟩
  · exact hroot
  · rw [herror] at hok
    cases hok

/-- A value that goes on behind its first parentheses is no subject. -/
theorem parse_continued_subject :
    let s := lex "return (a) + b;" "d.hz"
    let s' := lex "match (a) + b { else : 0 }" "d.hz"
    let list : List Symbol :=
      [.word .leftParen, .name "a", .word .rightParen, .word .plus, .name "b"]
    (∀ x ∈ list, x.kind ≠ .kwFunc) ∧ s.Returns list ∧ s'.Selects list ∧
      (∃ a b v, parse s = .ok (.node a (.root [.node b (.returning (some v))]))) ∧
        parse s' = .error ⟨.structural, (Cause.expected (.token .leftBrace) .plus).message,
          ⟨1, 11, "d.hz"⟩⟩ := by
  intro s s' list
  have hs : s.Returns list := by
    change s.body.map (·.symbol) = _
    decide +kernel
  have hs' : s'.Selects list := by
    change s'.body.map (·.symbol) = _
    decide +kernel
  exact ⟨by decide, hs, hs', parse_of_returned (by decide +kernel),
    parse_of_fault (by decide +kernel)⟩

end FrontEnd
