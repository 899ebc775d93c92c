import FrontEnd.Proofs.Lexer.Lossless
import FrontEnd.Proofs.Parser.Accounts.Expressions
import FrontEnd.Proofs.Parser.Accounts.Statements

/-!
No name is lost, doubled or moved by parsing. Every production accounts for the
names between where it begins and where it ends, so the names of a parsed tree are
those of its source, in order.
-/

namespace FrontEnd

open Grammar in
theorem Rule.accounts {symbols : Symbols} (hs : symbols.Regular) (r : Rule) :
    r.Accounts symbols := by
  cases r with
  | unit => exact unit_accounts symbols
  | statement => exact statement_accounts symbols
  | labelled => exact labelled_accounts symbols
  | function => exact function_accounts symbols
  | prototype isExport isExtern => exact prototype_accounts symbols isExport isExtern
  | params => exact params_accounts symbols
  | record => exact record_accounts symbols
  | fields => exact fields_accounts symbols
  | enumeration => exact enumeration_accounts symbols
  | variants => exact variants_accounts symbols
  | declaration => exact declaration_accounts symbols
  | modifiers => exact modifiers_accounts symbols
  | block label => exact block_accounts symbols label
  | statements => exact statements_accounts symbols
  | body => exact body_accounts symbols
  | conditional => exact conditional_accounts symbols
  | loop label => exact loop_accounts symbols label
  | whileLoop label => exact whileLoop_accounts symbols label
  | selection => exact selection_accounts symbols
  | branches => exact branches_accounts symbols
  | branch => exact branch_accounts symbols
  | items => exact items_accounts symbols
  | expression => exact attempted_accounts symbols
  | attempts => exact attempts_accounts symbols
  | level l => exact level_accounts symbols l
  | operands l => exact operands_accounts symbols l
  | recovery => exact recovery_accounts symbols
  | handlers => exact handlers_accounts symbols
  | unary => exact unary_accounts symbols
  | operand => exact operand_accounts symbols
  | suffixed => exact suffixed_accounts symbols
  | suffixes => exact suffixes_accounts symbols
  | listed bracket => exact listed_accounts symbols bracket
  | primary => exact primary_accounts symbols hs
  | type => exact type_accounts symbols
  | innerType => exact innerType_accounts symbols

/-- The statements of a source are read up to its end. -/
theorem unit_ends (symbols : Symbols) (limit : Nat) (s : ParseState) :
    (Rule.eval symbols limit .unit s).Gives
      (fun _ q => (symbols.symbolAt q).kind = .endOfFile) False := by
  let reads : (r : Rule) → Nat → r.Result → Nat → Prop := fun r _ _ q =>
    r = .unit → (symbols.symbolAt q).kind = .endOfFile
  have hC (r : Rule) (p : Nat) : (Contract.free reads).allows r p := trivial
  have hscript (r : Rule) (depth p : Nat) :
      r.script.Ensures (Contract.free reads) symbols limit depth p (reads r p) := by
    by_cases hr : r = .unit
    · subst hr
      simp only [Rule.script, Grammar.unit]
      rw [Script.ensures_bind, Script.ensures_sight, Script.ensures_ite]
      refine ⟨fun h _ => h, fun _ => ?_⟩
      rw [Script.ensures_bind]
      refine (Script.ensures_any hC _).mono fun item q _ => ?_
      rw [Script.ensures_bind]
      exact ⟨trivial, fun rest q h => h⟩
    · exact (Script.ensures_any hC _).mono fun _ _ _ h => absurd h hr
  have hgives := Rule.eval_reads hscript .unit s
  cases ho : Rule.eval symbols limit .unit s with
  | read v t =>
    rw [ho] at hgives
    exact hgives rfl
  | failed cause t => trivial
  | exhausted => exact Rule.eval_ne_exhausted symbols limit .unit s ho

namespace TokenStream

/-- The names and literals among the tokens, in order. -/
def names (s : TokenStream) : List Symbol :=
  (s.tokens.filter (·.kind.isName)).map (·.symbol)

theorem namesFrom_symbols (s : TokenStream) : s.symbols.namesFrom 0 = s.names := by
  have hname {k : TokenKind} (hk : k.isName = true) : k.isTrivia = false := by
    cases k <;> first | rfl | cases hk
  unfold Symbols.namesFrom names tokens
  rw [symbols_toList, List.drop_zero, List.filter_map, List.filter_filter, List.filter_append]
  have hbody : s.body.filter (fun t => t.kind.isName && !t.kind.isTrivia) =
      s.body.filter (·.kind.isName) := by
    apply List.filter_congr
    intro t _
    by_cases ht : t.kind.isName = true
    · simp [ht, hname ht]
    · simp [ht]
  exact congrArg (List.map Token.symbol) (hbody.trans (List.append_nil _).symm)

end TokenStream

theorem lex_regular (source fileName : String) : (lex source fileName).symbols.Regular := by
  intro p hfixed
  by_cases hp : p < (lex source fileName).symbols.size
  · obtain ⟨t, ht, hsymbol⟩ := TokenStream.exists_of_lt_size hp
    rw [hsymbol] at hfixed ⊢
    have hlegal : t.kind ≠ .illegal := by
      intro hk
      rw [Token.symbol, hk] at hfixed
      cases hfixed
    obtain ⟨lexeme, rest, hspells⟩ := lex_spells ht hlegal
    exact String.toList_inj.mp (hspells.text_eq_name hfixed)
  · have hlast : (lex source fileName).symbols.symbolAt p = .last := by
      simp [Symbols.symbolAt, hp]
    rw [hlast] at hfixed
    cases hfixed

theorem lex_size_le {source fileName : String} {p : Nat}
    (h : ((lex source fileName).symbols.symbolAt p).kind = .endOfFile) :
    (lex source fileName).symbols.size ≤ p := by
  apply Nat.le_of_not_lt
  intro hp
  obtain ⟨t, ht, hsymbol⟩ := TokenStream.exists_of_lt_size hp
  rw [hsymbol] at h
  change t.kind = .endOfFile at h
  obtain ⟨lexeme, rest, hspells⟩ := lex_spells ht (by rw [h]; decide)
  exact hspells.kind_ne.2 h

/-- Where the end of a stream is told by its symbols, parsing keeps the names. -/
theorem TokenStream.names_of_parse {s : TokenStream} {root : Tree} (hs : s.symbols.Regular)
    (hend : ∀ p, (s.symbols.symbolAt p).kind = .endOfFile → s.symbols.size ≤ p)
    (h : FrontEnd.parse s = .ok root) : root.names = s.names := by
  obtain ⟨items, t, g, ho, rfl⟩ := Cursor.parseWithin_eq_ok h
  change Rule.eval s.symbols nestingLimit .unit ⟨0, 0⟩ = _ at ho
  have hreads : (Rule.eval s.symbols nestingLimit .unit ⟨0, 0⟩).Gives
      (fun items q => [] ++ s.symbols.namesFrom 0 =
        (items.map Tree.names).flatten ++ s.symbols.namesFrom q) False :=
    Rule.eval_reads (fun r depth p => r.accounts hs p nestingLimit depth) .unit ⟨0, 0⟩
  have hends := unit_ends s.symbols nestingLimit ⟨0, 0⟩
  rw [ho] at hreads hends
  have hnames : s.symbols.namesFrom 0 = (items.map Tree.names).flatten := by
    have hq := Symbols.namesFrom_eq_nil (hend t.position hends)
    have hitems : [] ++ s.symbols.namesFrom 0 = (items.map Tree.names).flatten ++
      s.symbols.namesFrom t.position := hreads
    simpa [hq] using hitems
  rw [Tree.names_mapTokens, Tree.names_node, ← s.namesFrom_symbols, hnames]
  rfl

/-- The names of a parsed tree are those of the tokens it was parsed from. -/
theorem parse_names (source fileName : String) (root : Tree)
    (h : parse (lex source fileName) = .ok root) :
    root.names = (lex source fileName).names :=
  TokenStream.names_of_parse (lex_regular source fileName) (fun _ => lex_size_le) h

theorem parse_names_of_assignment :
    ∃ root, parse (lex "m[0].n = f(@c, nil);" "a.hz") = .ok root ∧
      root.names = [.name "m", ⟨.decimalInteger, "0"⟩, .name "n", .name "f", ⟨.builtinName, "c"⟩,
        .word .kwNil] := by
  have hok : (parse (lex "m[0].n = f(@c, nil);" "a.hz")).isOk = true := by decide +kernel
  cases h : parse (lex "m[0].n = f(@c, nil);" "a.hz") with
  | error fault =>
    rw [h] at hok
    cases hok
  | ok root =>
    refine ⟨root, rfl, ?_⟩
    rw [parse_names _ _ root h]
    decide +kernel

end FrontEnd
