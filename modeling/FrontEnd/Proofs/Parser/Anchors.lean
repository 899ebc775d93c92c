import FrontEnd.Proofs.Parser.Indices
import FrontEnd.Proofs.Parser.Names
import FrontEnd.Proofs.Parser.Spans.Statements

/-!
The trees of sources are anchored at tokens that fit them, in the order in which the layers
stand in the source. What rules read spans the symbols that they have read, and moving the
anchors from symbols to tokens keeps their order.
-/

namespace FrontEnd

section Rules

variable (symbols : Symbols) (limit : Nat)

open Grammar

theorem Rule.chains (r : Rule) : r.Chains symbols limit := by
  cases r with
  | unit => exact unit_chains symbols limit
  | statement => exact statement_chains symbols limit
  | labelled => exact labelled_chains symbols limit
  | function => exact function_chains symbols limit
  | prototype isExport isExtern => exact prototype_chains symbols limit isExport isExtern
  | params => exact params_chains symbols limit
  | record => exact record_chains symbols limit
  | fields => exact fields_chains symbols limit
  | enumeration => exact enumeration_chains symbols limit
  | variants => exact variants_chains symbols limit
  | declaration => exact declaration_chains symbols limit
  | block label => exact block_chains symbols limit label
  | statements => exact statements_chains symbols limit
  | body => exact body_chains symbols limit
  | conditional => exact conditional_chains symbols limit
  | loop label => exact loop_chains symbols limit label
  | whileLoop label => exact whileLoop_chains symbols limit label
  | selection => exact selection_chains symbols limit
  | branches => exact branches_chains symbols limit
  | branch => exact branch_chains symbols limit
  | items => exact items_chains symbols limit
  | expression => exact attempted_chains symbols limit
  | level l => exact level_chains symbols limit l
  | recovery => exact recovery_chains symbols limit
  | unary => exact unary_chains symbols limit
  | operand => exact operand_chains symbols limit
  | suffixed => exact suffixed_chains symbols limit
  | listed bracket => exact listed_chains symbols limit bracket
  | primary => exact primary_chains symbols limit
  | type => exact type_chains symbols limit
  | innerType => exact innerType_chains symbols limit
  | modifiers | attempts | operands | handlers | suffixes =>
    exact fun _ _ => Script.spans_onward _

theorem Rule.folds (r : Rule) (depth p : Nat) :
    Script.Spans symbols limit depth p r.script (r.Folds symbols p) := by
  cases r with
  | attempts => exact attempts_folds symbols limit
  | operands l => exact operands_folds symbols limit l
  | handlers => exact handlers_folds symbols limit
  | suffixes => exact suffixes_folds symbols limit
  | _ => exact Script.ensures_any (fun _ _ => trivial) _

/-- What every rule reads spans what it has read. -/
theorem Rule.spans (r : Rule) (depth p : Nat) :
    Script.Spans symbols limit depth p r.script (r.Spans symbols p) := by
  have hbegins : Script.Spans symbols limit depth p r.script (r.Begins symbols p) :=
    (r.begins symbols limit depth p).weaken (fun _ _ _ => trivial) fun _ _ _ _ _ h => h.begins
  have hall := (hbegins.and (r.chains symbols limit depth p)).and (r.folds symbols limit depth p)
  exact hall.mono fun v q h => ⟨h.1.1, h.1.2, h.2⟩

theorem Rule.spans_of_eval {r : Rule} {s t : ParseState} {v : r.Result}
    (h : r.eval symbols limit s = .read v t) : r.Spans symbols s.position v t.position := by
  have hreads := Rule.eval_reads (fun r depth p => r.spans symbols limit depth p) r s
  rw [h] at hreads
  exact hreads

end Rules

/-! ## From symbols to tokens -/

namespace TokenStream

/-- The token at the index is no comment, has the property and is spelled as its kind tells,
if it does. -/
def Bears (s : TokenStream) (P : Symbol → Prop) (i : Nat) : Prop :=
  ∃ t, s.tokens[i]? = some t ∧ t.kind.isTrivia = false ∧ P t.symbol ∧
    (t.kind.isFixed = true → t.text = t.kind.name)

variable {s : TokenStream}

/-- Anchors move from the symbols of a stream to the tokens. -/
theorem moves (hs : s.symbols.Regular) :
    Moves (fun i => ((Cursor.start s).tokenAt i).2) s.symbols.Tells s.Bears
      (s.symbols.size + 1) := by
  refine ⟨fun hij hj => tokenAt_lt hij (Nat.le_of_lt_succ hj), fun {P i} _ hi => ?_⟩
  obtain ⟨htoken, htrivia⟩ := getElem?_tokenAt s i
  have hsymbol : s.symbols.symbolAt i = ((Cursor.start s).tokenAt i).1.symbol :=
    (Cursor.start s).symbolAt_eq i
  have htext := hs i
  rw [Symbols.Tells, hsymbol] at hi
  rw [hsymbol] at htext
  exact ⟨_, htoken, htrivia, hi, htext⟩

/-- The tree of a stream is anchored as it has to be. -/
theorem anchored_of_parse (hs : s.symbols.Regular) {root : Tree}
    (h : FrontEnd.parse s = .ok root) : root.Anchored s.Bears := by
  obtain ⟨items, q, hunit, rfl⟩ := eval_of_parse h
  have hchain : Limb.Chain s.symbols.Tells 0 (items.map .child) q :=
    (Rule.spans_of_eval s.symbols nestingLimit hunit).chain
  have hkeeps := Rule.eval_keeps s.symbols nestingLimit .unit ⟨0, 0⟩
  rw [hunit] at hkeeps
  have hq : q ≤ s.symbols.size := hkeeps.2.1 (Nat.zero_le _)
  have hroot : (Tree.node 0 (.root items)).Spans s.symbols.Tells 0 (s.symbols.size + 1) :=
    Tree.spans_of_chain rfl trivial (hchain.mono_right (Nat.le_succ_of_le hq)) (Nat.succ_pos _)
  exact hroot.anchored.move (moves hs) fun i hi => (hroot.within i hi).2

end TokenStream

/-- All layers of the tree of a source are anchored at tokens that fit them and are no comments,
and the anchors are in the order in which the layers stand in the source. -/
theorem parse_anchored {source fileName : String} {root : Tree}
    (h : parse (lex source fileName) = .ok root) :
    root.Anchored (lex source fileName).Bears :=
  TokenStream.anchored_of_parse (lex_regular source fileName) h

/-- Behind a comment, the root is anchored at its first statement's first token. -/
theorem parse_anchored_of_sum :
    ∃ root, parse (lex "// c\nx = 1 + 2;" "a.hz") = .ok root ∧
      root.Anchored (lex "// c\nx = 1 + 2;" "a.hz").Bears ∧ root.anchors = [1, 2, 1, 4, 3, 5] := by
  have hanchors : (parse (lex "// c\nx = 1 + 2;" "a.hz")).toOption.map Tree.anchors =
      some [1, 2, 1, 4, 3, 5] := by decide +kernel
  cases h : parse (lex "// c\nx = 1 + 2;" "a.hz") with
  | error fault =>
    rw [h] at hanchors
    cases hanchors
  | ok root =>
    rw [h] at hanchors
    exact ⟨root, rfl, parse_anchored h, Option.some.inj hanchors⟩

end FrontEnd
