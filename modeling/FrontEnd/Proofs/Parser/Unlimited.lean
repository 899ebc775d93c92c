import FrontEnd.Proofs.Lexer.Spacing
import FrontEnd.Proofs.Parser.Nesting
import FrontEnd.Proofs.Parser.Units

/-!
Types of functions escape the limit of nesting. A function that gives a function, and so
on, is read on one level, however many there are.
-/

namespace FrontEnd

/-- Functions without parameters that give each other, and the last of them a name. -/
def chained : Nat → List Symbol
  | 0 => [.name "int"]
  | n + 1 => .word .kwFunc :: .word .leftParen :: .word .rightParen :: chained n

/-- The type that is read from chained functions at `p`. -/
def chainedTree (p : Nat) : Nat → Tree
  | 0 => .node p (.identifier "int")
  | n + 1 => .node p (.prototype none [] (chainedTree (p + 3) n) false false)

theorem length_chained (n : Nat) : (chained n).length = 3 * n + 1 := by
  induction n with
  | zero => rfl
  | succ n ih => simp [chained, ih]; omega

theorem nesting_chainedTree (p n : Nat) :
    (chainedTree p n).nesting (fun x => Construct.prototype.holds x.2) = n := by
  induction n generalizing p with
  | zero => rfl
  | succ n ih =>
    rw [chainedTree, Tree.nesting_node]
    simp [Form.children, ih]
    rfl

namespace Grammar

open Script

variable {symbols : Symbols} {limit depth : Nat} {loose : Prop} {p q n : Nat} {x : Tree}
  {rest : List Symbol}

theorem type_obtained (hmark : (symbols.symbolAt p).kind ∉ [TokenKind.question, .leftBracket])
    {v : Option Tree} (h : Rule.suffixed.Obtains symbols limit loose depth p v q) :
    Rule.type.Obtains symbols limit loose depth p v q := by
  simp only [List.mem_cons, List.not_mem_nil, or_false, not_or] at hmark
  refine obtains_bind obtains_here (obtains_bind (obtains_accept_of_ne hmark.1) ?_)
  exact obtains_bind (obtains_accept_of_ne hmark.2) (obtains_run h)

theorem params_obtained_nil (h : (symbols.symbolAt p).kind = .rightParen) :
    Rule.params.Obtains symbols limit loose depth p [] p := by
  have hprimary : Rule.primary.Obtains symbols limit loose depth p none p := by
    refine obtains_bind obtains_sight ?_
    have hleaf : (symbols.symbolAt p).leaf? = none := by simp [Symbol.leaf?, h]
    simp only [Symbols.sight_current, Symbols.sight_kind, hleaf, h]
    exact obtains_pure _
  have htype : Rule.type.Obtains symbols limit loose depth p none p :=
    type_obtained (by rw [h]; decide) (obtains_bind (obtains_run hprimary) (obtains_pure _))
  exact obtains_bind obtains_here (obtains_bind (obtains_run htype) (obtains_pure _))

/-- A function without a name and parameters. -/
theorem prototype_obtained
    (hstand : symbols.Stand p (.word .kwFunc :: .word .leftParen :: .word .rightParen :: rest))
    (h : Rule.type.Obtains symbols limit loose depth (p + 3) (some x) q) :
    (Rule.prototype false false).Obtains symbols limit loose depth p
      (.node p (.prototype none [] x false false)) q := by
  have hopen : (symbols.symbolAt (p + 1)).kind = .leftParen := hstand.tail.kind
  have hclose : (symbols.symbolAt (p + 2)).kind = .rightParen := hstand.tail.tail.kind
  refine obtains_bind obtains_here ?_
  refine obtains_bind (obtains_expect hstand.kind hstand.next) ?_
  refine obtains_bind (obtains_acceptText_of_ne (by rw [hopen]; decide)) ?_
  refine obtains_bind (obtains_expect hopen hstand.tail.next) ?_
  refine obtains_bind (obtains_run (params_obtained_nil hclose)) ?_
  refine obtains_bind (obtains_expect hclose hstand.tail.tail.next) ?_
  exact obtains_bind (obtains_require (obtains_run h)) (obtains_pure _)

/-- Chained functions are read as a type, whatever the depth. -/
theorem type_obtained_chained (hstand : symbols.Stand p (chained n ++ .word .semicolon :: rest)) :
    Rule.type.Obtains symbols limit loose depth p (some (chainedTree p n)) (p + (3 * n + 1)) := by
  have hstop (q : Nat) (h : symbols.Stand q (.word .semicolon :: rest)) :
      (symbols.symbolAt q).kind = .semicolon := h.kind
  have hend := hstop _ hstand.append
  rw [length_chained] at hend
  have hsuffixes : Rule.suffixes.Obtains symbols limit loose depth (p + (3 * n + 1)) []
      (p + (3 * n + 1)) := suffixes_obtained_nil (by rw [hend]; decide)
  induction n generalizing p with
  | zero =>
    have hname : symbols.symbolAt p = .name "int" := hstand.symbolAt
    refine type_obtained (by rw [hname]; decide) (suffixed_obtained ?_ hsuffixes)
    exact leaf_obtained (by rw [hname]; rfl)
  | succ n ih =>
    have hfunc := hstand.symbolAt
    have hrest : p + 3 + (3 * n + 1) = p + (3 * (n + 1) + 1) := by omega
    have htype := ih (p := p + 3) hstand.tail.tail.tail (by rwa [hrest]) (by rwa [hrest])
    rw [hrest] at htype
    refine type_obtained (by rw [hfunc]; decide) (suffixed_obtained ?_ hsuffixes)
    refine obtains_bind obtains_sight ?_
    have hleaf : (symbols.symbolAt p).leaf? = none := by rw [hfunc]; rfl
    have hk : (symbols.symbolAt p).kind = .kwFunc := by rw [hfunc]; rfl
    simp only [Symbols.sight_current, Symbols.sight_kind, hleaf, hk]
    refine obtains_bind (obtains_bind obtains_here ?_) (obtains_pure _)
    refine obtains_bind (obtains_run (prototype_obtained hstand htype)) ?_
    refine obtains_bind (.of_eval (block_none (by rw [hend]; decide))) ?_
    exact obtains_pure _

/-- And as the only statement of a source, if there is a level for it. -/
theorem unit_obtained_chained (hd : 0 < limit)
    (hstand : symbols.Stand 0 (chained (n + 1) ++ [.word .semicolon])) :
    Rule.unit.Obtains symbols limit loose 0 0 [chainedTree 0 (n + 1)] (3 * n + 5) := by
  have hfunc : symbols.symbolAt 0 = .word .kwFunc := hstand.symbolAt
  have htail := hstand.tail.tail.tail
  have hplace : 0 + 1 + 1 + 1 + (chained n).length = 3 * n + 4 := by rw [length_chained]; omega
  have hsemicolon : symbols.Stand (3 * n + 4) [.word .semicolon] := hplace ▸ htail.append
  have hend : (symbols.symbolAt (3 * n + 5)).kind = .endOfFile := hsemicolon.tail.kind
  have htype : Rule.type.Obtains symbols limit loose 1 3 (some (chainedTree 3 n)) (3 * n + 4) := by
    have hread : Rule.type.Obtains symbols limit loose 1 3 _ (3 + (3 * n + 1)) :=
      type_obtained_chained htail
    rwa [show 3 + (3 * n + 1) = 3 * n + 4 by omega] at hread
  have hfunction : Rule.function.Obtains symbols limit loose 1 0 (chainedTree 0 (n + 1))
      (3 * n + 5) := by
    refine obtains_bind obtains_here ?_
    refine obtains_bind (obtains_accept_of_ne (by rw [hfunc]; decide)) ?_
    refine obtains_bind (obtains_accept_of_ne (by rw [hfunc]; decide)) ?_
    refine obtains_bind (obtains_run (prototype_obtained hstand htype)) ?_
    refine obtains_bind (.of_eval (block_none (by rw [hsemicolon.symbolAt]; decide))) ?_
    exact obtains_bind (obtains_expect hsemicolon.kind hsemicolon.next) (obtains_pure _)
  have hcontainer : containerIfAny.Obtains symbols limit loose 1 0 (some (chainedTree 0 (n + 1)))
      (3 * n + 5) := by
    have hopens : (symbols.sight 0).opensFunction = true := by
      rw [Sight.opensFunction, Sight.opens, Symbols.sight_kind, hfunc]
      rfl
    refine obtains_bind obtains_sight (obtains_ite_true hopens ?_)
    exact obtains_bind (obtains_run hfunction) (obtains_pure _)
  have hstatement : Rule.statement.Obtains symbols limit loose 1 0 (some (chainedTree 0 (n + 1)))
      (3 * n + 5) := obtains_bind hcontainer (obtains_pure _)
  exact unit_obtained (by rw [hfunc]; decide) (.inl hd) hstatement hend

end Grammar

/-- A stream of chained functions has them all on one path of its tree. -/
theorem TokenStream.parse_chained {s : TokenStream} {n : Nat} (hlegal : s.illegal? = none)
    (hsymbols : s.symbols.toList = chained (n + 1) ++ [.word .semicolon]) :
    ∃ root path, parse s = .ok root ∧ root.Path path ∧
      path.countP (fun x => Construct.prototype.holds x.2) = n + 1 := by
  have hread : Rule.eval s.symbols nestingLimit .unit ⟨0, 0⟩ =
      .read [chainedTree 0 (n + 1)] ⟨3 * n + 5, 0⟩ := by
    have hstand : s.symbols.Stand 0 (chained (n + 1) ++ [.word .semicolon]) := hsymbols
    have hunit : Rule.unit.Obtains s.symbols nestingLimit False 0 0 _ _ :=
      Grammar.unit_obtained_chained (by decide) hstand
    exact hunit.eval_eq not_false
  have hroot := Cursor.parseWithin_of_read (c := Cursor.start s) hlegal hread
  obtain ⟨path, hpath, hcount⟩ := Tree.exists_path
    ((Tree.node 0 (.root [chainedTree 0 (n + 1)])).mapTokens fun i =>
      ((Cursor.start s).tokenAt i).2)
    fun x => Construct.prototype.holds x.2
  refine ⟨_, path, hroot, hpath, hcount.trans ?_⟩
  simp only [Tree.nesting_mapTokens, Construct.holds_mapTokens, Tree.nesting_node]
  simp [Form.children, nesting_chainedTree]
  rfl

theorem readable_of_chained (n : Nat) : ∀ a ∈ chained n, a.Readable := by
  have hmark {k : TokenKind} (h : k.isMark = true) : (Symbol.word k).Readable :=
    Symbol.readable_of_mark (by simp [Symbol.isMark, Symbol.word, h])
  induction n with
  | zero =>
    have hread : (Piece.first 'i' ['n', 't']).reading = .token .identifier ['i', 'n', 't'] := by
      decide
    have hname : (Symbol.name "int").Readable := Piece.readable_of_first hread rfl
    simpa [chained] using hname
  | succ n ih =>
    simp only [chained, List.forall_mem_cons]
    exact ⟨hmark rfl, hmark rfl, hmark rfl, ih⟩

theorem readable_of_chained_statement (n : Nat) :
    ∀ a ∈ chained n ++ [.word .semicolon], a.Readable := by
  rw [List.forall_mem_append]
  exact ⟨readable_of_chained n, List.forall_mem_singleton.mpr (Symbol.readable_of_mark rfl)⟩

/-- However many functions there are in a chain, its text has them on one path of its tree. -/
theorem parse_chained (n : Nat) (fileName : String) : ∃ root path,
    parse (lex (String.ofList (Symbol.spaced (chained (n + 1) ++ [.word .semicolon]))) fileName) =
      .ok root ∧ root.Path path ∧
      path.countP (fun x => Construct.prototype.holds x.2) = n + 1 :=
  TokenStream.parse_chained (TokenStream.illegal?_spaced (readable_of_chained_statement _) fileName)
    (TokenStream.symbols_spaced (readable_of_chained_statement _) fileName)

/-- One more than there are levels. -/
theorem parse_chained_of_exceeding : ∃ root path,
    parse (lex (String.ofList (Symbol.spaced (chained 65 ++ [.word .semicolon]))) "a.hz") =
      .ok root ∧ root.Path path ∧
      nestingLimit < path.countP (fun x => Construct.prototype.holds x.2) := by
  obtain ⟨root, path, hroot, hpath, hcount⟩ := parse_chained 64 "a.hz"
  exact ⟨root, path, hroot, hpath, by rw [hcount]; decide⟩

end FrontEnd
