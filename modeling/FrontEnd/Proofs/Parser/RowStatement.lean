import FrontEnd.Lexer.Lexer
import FrontEnd.Proofs.Parser.Openings

/-!
Sources that are one row. Nothing but an expression begins at a row, its loosest
level reads it up to a comparison that clashes with an earlier one, and a semicolon
is expected there. Two levels of nesting are enough for rows of any length.
-/

namespace FrontEnd

namespace Grammar

open Script

variable {symbols : Symbols} {limit p q depth : Nat} {first stop : Symbol} {links : List Link}

theorem attempted_reads (h : Row symbols p first links stop) :
    Rule.eval symbols limit .expression ⟨p, depth⟩ =
      .read (some (reference p first (Link.taken 0 false links)))
        ⟨p + 1 + 2 * (Link.taken 0 false links).length, depth⟩ := by
  have htry := h.kind_ne (k := .kwTry) (by decide)
  have hattempts : (run .attempts).eval symbols limit ⟨p, depth⟩ = .read [] ⟨p, depth⟩ := by
    rw [eval_run, Rule.eval_eq]
    simp only [Rule.script, attempts]
    rw [eval_bind_of eval_here, eval_bind_of (eval_accept_of_ne htry)]
    rfl
  have hlevel : (run (.level .conjunction)).eval symbols limit ⟨p, depth⟩ = _ :=
    conjunction_reads depth h
  rw [Rule.eval_eq]
  simp only [Rule.script, attempted]
  rw [eval_bind_of hattempts, eval_bind_of hlevel]
  rfl

/-- A row is no assignment, so it is read one level further in and no deeper. -/
theorem assignment_reads (h : Row symbols p first links stop) (hd : depth < limit) :
    assignment.eval symbols limit ⟨p, depth⟩ =
      .read (some (reference p first (Link.taken 0 false links)))
        ⟨p + 1 + 2 * (Link.taken 0 false links).length, depth⟩ := by
  have hends := (h.tail.drop_taken 0 false).endsOperand
  have hop : Level.operator? .assignment
      (symbols.symbolAt (p + 1 + 2 * (Link.taken 0 false links).length)).kind = none := by
    revert hends
    generalize (symbols.symbolAt _).kind = k
    intro hends
    cases k <;> first | rfl | cases hends
  have hexpression : (operandOf .assignment).eval symbols limit ⟨p, depth⟩ =
      .read (some (reference p first (Link.taken 0 false links)))
        ⟨p + 1 + 2 * (Link.taken 0 false links).length, depth⟩ :=
    eval_deeper (s := ⟨p, depth⟩) hd (attempted_reads h)
  rw [assignment, eval_run, Rule.eval_eq]
  simp only [Rule.script, level]
  rw [eval_bind_of hexpression]
  simp only
  rw [eval_bind_of ((eval_run _).trans (operands_stop hop))]
  rfl

/-- A row is read up to where its loosest level stops, and there a semicolon is expected. -/
theorem expressionStatement_eval (h : Row symbols p first links stop) (hd : depth < limit) :
    expressionStatement.eval symbols limit ⟨p, depth⟩ =
      ((expect .semicolon).eval symbols limit
        ⟨p + 1 + 2 * (Link.taken 0 false links).length, depth⟩).andThen fun _ t =>
          .read (some (reference p first (Link.taken 0 false links))) t := by
  simp only [expressionStatement]
  rw [eval_bind_of (assignment_reads h hd)]
  simp only
  rw [eval_bind]
  rfl

/-- A row is no statement but an expression. -/
theorem statement_eval (h : Row symbols p first links stop) :
    Rule.eval symbols limit .statement ⟨p, depth⟩ =
      expressionStatement.eval symbols limit ⟨p, depth⟩ := by
  have hnext (k : TokenKind) (hk : k.endsOperand = false) :
      (symbols.symbolAt (p + 1)).kind ≠ k := by
    rintro rfl
    rw [h.tail.endsOperand] at hk
    cases hk
  have hlabelled : Rule.eval symbols limit .labelled ⟨p, depth⟩ = .read none ⟨p, depth⟩ :=
    labelled_none (h.kind_not_mem _ (by decide)) fun _ => hnext .colon rfl
  rw [statement_eval_of (h.kind_not_mem _ (by decide)) (h.kind_not_mem _ (by decide))
    fun _ => hnext .identifier rfl]
  have hopener : (symbols.symbolAt p).kind ∉ TokenKind.openers := h.kind_not_mem _ fun _ => id
  unfold statementAt
  split <;> try (rename_i hk; rw [hk] at hopener; exact absurd (by decide) hopener)
  rw [eval_bind_of ((eval_run _).trans hlabelled)]

theorem unit_end (hend : (symbols.symbolAt q).kind = .endOfFile) :
    Rule.eval symbols limit .unit ⟨q, depth⟩ = .read [] ⟨q, depth⟩ := by
  rw [Rule.eval_eq]
  simp only [Rule.script, unit]
  rw [eval_bind_of eval_sight]
  simp only [Symbols.sight_kind, hend, if_true]
  rfl

theorem unit_eval (h : Row symbols p first links stop) :
    Rule.eval symbols limit .unit ⟨p, depth⟩ =
      (require .statement nestedStatement >>= fun item => do
        return item :: (← run .unit)).eval symbols limit ⟨p, depth⟩ := by
  have hend := h.kind_ne (k := .endOfFile) (by decide)
  rw [h.symbolAt] at hend
  rw [Rule.eval_eq]
  simp only [Rule.script, unit]
  rw [eval_bind_of eval_sight]
  simp only [Symbols.sight_kind, h.symbolAt, if_neg hend]

/-- A row that its loosest level reads to the end is the only item of its source. -/
theorem unit_reads (h : Row symbols p first links stop) (hd : depth + 1 < limit)
    (hall : Link.taken 0 false links = links) :
    Rule.eval symbols limit .unit ⟨p, depth⟩ =
      .read [reference p first links] ⟨p + 2 + 2 * links.length, depth⟩ := by
  have htail : Tail symbols (p + 1 + 2 * links.length) [] stop := by
    have hrest := h.tail.drop_taken 0 false
    rwa [hall, List.drop_length] at hrest
  have hposition : p + 1 + 2 * links.length + 1 = p + 2 + 2 * links.length := by omega
  have hsemicolon : (symbols.symbolAt (p + 1 + 2 * links.length)).kind = .semicolon := by
    rw [htail.symbolAt_nil, htail.stops]
  have hend : (symbols.symbolAt (p + 2 + 2 * links.length)).kind = .endOfFile := by
    have hnil : symbols.Stand (p + 1 + 2 * links.length + 1) [] := htail.stand.tail
    rw [← hposition, hnil.symbolAt_nil]
    rfl
  have hstatement : Rule.eval symbols limit .statement ⟨p, depth + 1⟩ =
      .read (some (reference p first links)) ⟨p + 2 + 2 * links.length, depth + 1⟩ := by
    rw [statement_eval h, expressionStatement_eval h hd, hall, eval_expect hsemicolon,
      htail.next, hposition]
    rfl
  have hnested : nestedStatement.eval symbols limit ⟨p, depth⟩ =
      .read (some (reference p first links)) ⟨p + 2 + 2 * links.length, depth⟩ :=
    eval_deeper (s := ⟨p, depth⟩) (Nat.lt_of_succ_lt hd) hstatement
  rw [unit_eval h, eval_bind_of (eval_require hnested),
    eval_bind_of ((eval_run _).trans (unit_end hend))]
  rfl

/-- Where its loosest level stops before the end, a row fails. -/
theorem unit_fails {o : Link} (h : Row symbols p first links stop) (hd : depth + 1 < limit)
    (ho : links[(Link.taken 0 false links).length]? = some o) :
    Rule.eval symbols limit .unit ⟨p, depth⟩ =
      .failed (.expected (.token .semicolon) o.operator.kind)
        ⟨p + 1 + 2 * (Link.taken 0 false links).length, depth⟩ := by
  have htail := h.tail.drop_taken 0 false
  obtain ⟨hlt, hget⟩ := List.getElem?_eq_some_iff.mp ho
  rw [List.drop_eq_getElem_cons hlt, hget] at htail
  have hne : (symbols.symbolAt (p + 1 + 2 * (Link.taken 0 false links).length)).kind ≠
      .semicolon := by
    intro hk
    have hoperator := (htail.sound _ List.mem_cons_self).operator
    rw [Link.tightness, ← htail.symbolAt_cons, hk] at hoperator
    exact absurd hoperator (by decide)
  have hstatement : Rule.eval symbols limit .statement ⟨p, depth + 1⟩ =
      .failed (.expected (.token .semicolon) o.operator.kind)
        ⟨p + 1 + 2 * (Link.taken 0 false links).length, depth + 1⟩ := by
    rw [statement_eval h, expressionStatement_eval h hd, eval_expect_of_ne hne, htail.symbolAt_cons]
    rfl
  have hnested : nestedStatement.eval symbols limit ⟨p, depth⟩ = _ :=
    eval_deeper_failed (s := ⟨p, depth⟩) (Nat.lt_of_succ_lt hd) hstatement
  rw [unit_eval h, eval_bind_failed (eval_require_failed hnested)]
  rfl

end Grammar

namespace TokenStream

variable {s : TokenStream} {first stop : Symbol} {links : List Link}

/-- A stream whose symbols are a row. -/
structure IsRow (s : TokenStream) (first : Symbol) (links : List Link) (stop : Symbol) : Prop where
  symbols : s.symbols.toList = first :: Link.row links stop
  operand : first.leaf?.isSome = true
  sound : ∀ o ∈ links, o.Sound
  stops : stop.kind = .semicolon

theorem IsRow.row (h : s.IsRow first links stop) : Row s.symbols 0 first links stop := by
  have hstand : s.symbols.Stand 0 (first :: Link.row links stop) := h.symbols
  exact ⟨hstand, h.operand, hstand.tail, h.sound, h.stops⟩

theorem IsRow.illegal?_eq_none (h : s.IsRow first links stop) : s.illegal? = none := by
  apply TokenStream.illegal?_eq_none
  intro symbol hsymbol hillegal
  have hleaf {symbol : Symbol} (hl : symbol.leaf?.isSome = true) : symbol.kind ≠ .illegal := by
    intro hk
    have hkind := (Symbol.leaf_kind hl).2
    rw [hk] at hkind
    exact hkind (by decide)
  simp only [h.symbols, Link.row, List.mem_cons, List.mem_append, List.mem_flatMap] at hsymbol
  rcases hsymbol with rfl | ⟨o, ho, rfl | rfl | hnil⟩ | rfl | hnil
  · exact hleaf h.operand hillegal
  · have hoperator := (h.sound o ho).operator
    rw [Link.tightness, hillegal] at hoperator
    exact absurd hoperator (by decide)
  · exact hleaf (h.sound o ho).operand hillegal
  · cases hnil
  · rw [h.stops] at hillegal
    cases hillegal
  · cases hnil

theorem IsRow.parseWithin_eq_ok {limit : Nat} (h : s.IsRow first links stop) (hl : 2 ≤ limit)
    (hall : Link.taken 0 false links = links) : ((Cursor.start s).parseWithin limit).1 =
      .ok ((Tree.node 0 (.root [reference 0 first links])).mapTokens
        fun i => ((Cursor.start s).tokenAt i).2) :=
  Cursor.parseWithin_of_read h.illegal?_eq_none (Grammar.unit_reads h.row hl hall)

theorem IsRow.parseWithin_eq_error {limit : Nat} {o : Link} (h : s.IsRow first links stop)
    (hl : 2 ≤ limit) (ho : links[(Link.taken 0 false links).length]? = some o) :
    ((Cursor.start s).parseWithin limit).1 =
      .error ⟨.structural, (Cause.expected (.token .semicolon) o.operator.kind).message,
        ((Cursor.start s).tokenAt (2 * (Link.taken 0 false links).length + 1)).1.location⟩ := by
  have hfails : Rule.eval s.symbols limit .unit ⟨0, 0⟩ = _ := Grammar.unit_fails h.row hl ho
  rw [Nat.zero_add, Nat.add_comm 1] at hfails
  exact Cursor.parseWithin_of_failed (c := Cursor.start s) h.illegal?_eq_none hfails

end TokenStream

/-- A source that is a row of operands has a tree exactly if no comparison stands in a
row with an earlier one, and the tree is then the reference tree. Otherwise parsing
fails at the first comparison that does. Two levels of nesting are always enough. -/
theorem parse_row {s : TokenStream} {first stop : Symbol} {links : List Link}
    (h : s.IsRow first links stop) :
    ((∃ root, parse s = .ok root) ↔ ∀ i, ¬Link.Clashes links i) ∧
    ((∀ i, ¬Link.Clashes links i) → parse s =
      .ok ((Tree.node 0 (.root [reference 0 first links])).mapTokens
        fun i => ((Cursor.start s).tokenAt i).2)) ∧
    (∀ i o, Link.Clashes links i → (∀ j < i, ¬Link.Clashes links j) → links[i]? = some o →
      parse s = .error ⟨.structural, (Cause.expected (.token .semicolon) o.operator.kind).message,
        ((Cursor.start s).tokenAt (2 * i + 1)).1.location⟩) ∧
    ∀ limit, 2 ≤ limit → ((Cursor.start s).parseWithin limit).1 = parse s := by
  have hok (hc : ∀ i, ¬Link.Clashes links i) (limit : Nat) (hl : 2 ≤ limit) :=
    h.parseWithin_eq_ok hl (Link.taken_eq_self hc)
  have herror (i : Nat) (hi : Link.Clashes links i) (limit : Nat) (hl : 2 ≤ limit) :=
    h.parseWithin_eq_error hl (List.getElem?_eq_getElem (Link.length_taken_lt hi))
  have hnesting : 2 ≤ nestingLimit := by decide
  refine ⟨⟨?_, ?_⟩, ?_, ?_, ?_⟩
  · rintro ⟨root, hroot⟩ i hi
    have hparse := (herror i hi nestingLimit hnesting).symm.trans hroot
    cases hparse
  · intro hc
    exact ⟨_, hok hc nestingLimit hnesting⟩
  · intro hc
    exact hok hc nestingLimit hnesting
  · intro i o hi hfirst ho
    rw [← Link.length_taken_eq hi hfirst] at ho ⊢
    exact h.parseWithin_eq_error hnesting ho
  · intro limit hl
    by_cases hc : ∀ i, ¬Link.Clashes links i
    · exact (hok hc limit hl).trans (hok hc nestingLimit hnesting).symm
    · obtain ⟨i, hi⟩ := Classical.not_forall_not.mp hc
      exact (herror i hi limit hl).trans (herror i hi nestingLimit hnesting).symm

theorem parse_row_of_comparisons :
    let s := lex "a < b + 1 == c;" "r.hz"
    let links : List Link := [⟨⟨.less, "<"⟩, ⟨.identifier, "b"⟩⟩,
      ⟨⟨.plus, "+"⟩, ⟨.decimalInteger, "1"⟩⟩, ⟨⟨.equal, "=="⟩, ⟨.identifier, "c"⟩⟩]
    s.IsRow ⟨.identifier, "a"⟩ links ⟨.semicolon, ";"⟩ ∧
      parse s = .error ⟨.structural, "expected `;`, got `==`", ⟨1, 11, "r.hz"⟩⟩ := by
  intro s links
  have hrow : s.IsRow ⟨.identifier, "a"⟩ links ⟨.semicolon, ";"⟩ :=
    ⟨by decide +kernel, by decide, by decide, rfl⟩
  have hclash : Link.Clashes links 2 := by
    refine ⟨⟨_, rfl, rfl⟩, 0, by decide, ⟨_, rfl, rfl⟩, fun k o h0 h2 ho => ?_⟩
    obtain rfl : k = 1 := by omega
    cases ho
    decide
  have hfirst : ∀ j < 2, ¬Link.Clashes links j := by
    rintro j hj ⟨⟨o, ho, htwo⟩, k, hk, -⟩
    obtain rfl : j = 1 := by omega
    cases ho
    exact absurd htwo (by decide)
  have hlocation : ((Cursor.start s).tokenAt (2 * 2 + 1)).1.location = ⟨1, 11, "r.hz"⟩ := by
    decide +kernel
  have herror := (parse_row hrow).2.2.1 2 _ hclash hfirst rfl
  rw [hlocation] at herror
  exact ⟨hrow, herror⟩

end FrontEnd
