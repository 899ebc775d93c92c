import FrontEnd.Proofs.Tree.Printing
import FrontEnd.Proofs.Lexer.Spelling

/-!
What printing adds to a tree: the words and marks of the grammar. Without them the printed
symbols are the names and literals of the tree, so that a printed symbol is one or the
other.
-/

namespace FrontEnd

/-- Kinds that are written as their names and are no names or literals themselves. -/
def TokenKind.isMark (k : TokenKind) : Bool := k.isFixed && !k.isName

/-- The symbol is a word or a mark of the grammar. -/
def Symbol.isMark (a : Symbol) : Bool := a.kind.isMark && a.text == a.kind.name

/-- Symbols but for the words and marks of the grammar. -/
def unmarked (list : List Symbol) : List Symbol := list.filter (!·.isMark)

section Unmarked

variable (p : Printed) (list list' : List Symbol) {kind : TokenKind} (text : String)

@[simp] theorem unmarked_nil : unmarked [] = [] := rfl

@[simp] theorem unmarked_append : unmarked (list ++ list') = unmarked list ++ unmarked list' :=
  List.filter_append ..

@[simp] theorem unmarked_word (h : kind.isMark = true) :
    unmarked (.word kind :: list) = unmarked list := by
  simp [unmarked, Symbol.isMark, Symbol.word, h]

@[simp] theorem unmarked_cons {a : Symbol} (h : a.kind.isName = true) :
    unmarked (a :: list) = a :: unmarked list := by
  simp [unmarked, Symbol.isMark, TokenKind.isMark, h]

@[simp] theorem unmarked_name :
    unmarked (.name text :: list) = .name text :: unmarked list := rfl

@[simp] theorem unmarked_flag {present : Bool} (h : kind.isMark = true) :
    unmarked (flag present kind) = [] := by
  cases present <;> simp [flag, h]

@[simp] theorem unmarked_braces : unmarked (braces list) = unmarked list := by
  simp +decide [braces]

@[simp] theorem unmarked_parens : unmarked (parens list) = unmarked list := by
  simp +decide [parens]

@[simp] theorem unmarked_enclosed : unmarked p.enclosed = unmarked p.symbols := unmarked_parens _

@[simp] theorem unmarked_operand : unmarked p.operand = unmarked p.symbols := by
  unfold Printed.operand
  split <;> simp

@[simp] theorem unmarked_type : unmarked p.type = unmarked p.symbols := by
  unfold Printed.type
  split <;> simp

@[simp] theorem unmarked_unended : unmarked p.unended = unmarked p.symbols := by
  unfold Printed.unended
  split <;> simp

@[simp] theorem unmarked_body : unmarked p.body = unmarked p.symbols := by
  unfold Printed.body
  split <;> simp +decide

@[simp] theorem unmarked_initial : unmarked p.initial = unmarked p.symbols := by
  unfold Printed.initial
  split <;> simp

@[simp] theorem unmarked_statement : unmarked p.statement = unmarked p.symbols := by
  unfold Printed.statement
  split <;> simp +decide

@[simp] theorem unmarked_behind (value : Option Printed) (h : kind.isMark = true) :
    unmarked (behind kind value) = (value.map fun p => unmarked p.symbols).getD [] := by
  cases value <;> simp [behind, h]

@[simp] theorem unmarked_elim (f : Printed → List Symbol) (value : Option Printed) :
    unmarked (value.elim list f) = (value.map fun p => unmarked (f p)).getD (unmarked list) := by
  cases value <;> rfl

@[simp] theorem unmarked_flatMap {α : Type} (f : α → List Symbol) (xs : List α) :
    unmarked (xs.flatMap f) = (xs.map fun x => unmarked (f x)).flatten := by
  induction xs <;> simp_all

@[simp] theorem unmarked_commas {α : Type} (f : α → List Symbol) (xs : List α) :
    unmarked (commas (xs.map f)) = (xs.map fun x => unmarked (f x)).flatten := by
  induction xs with
  | nil => rfl
  | cons x xs ih =>
    cases xs with
    | nil => simp
    | cons y xs =>
      simp only [List.map_cons, commas_cons_cons] at ih ⊢
      simp +decide [ih]

@[simp] theorem unmarked_labelMarks (label : Option String) :
    unmarked (labelMarks label) = labelNames label := by
  cases label <;> simp +decide [labelMarks]

@[simp] theorem unmarked_jumpMarks (label : Option String) :
    unmarked (jumpMarks label) = labelNames label := by
  cases label <;> simp +decide [jumpMarks]

@[simp] theorem unmarked_labelNames (label : Option String) :
    unmarked (labelNames label) = labelNames label := by
  cases label <;> simp +decide

@[simp] theorem unmarked_payloadMarks (label : Option String) :
    unmarked (payloadMarks label) = labelNames label := by
  cases label <;> simp +decide [payloadMarks]

@[simp] theorem isMark_binary (op : BinaryOp) : op.kind.isMark = true := by cases op <;> rfl

@[simp] theorem isMark_unary (op : UnaryOp) : op.kind.isMark = true := by cases op <;> rfl

@[simp] theorem isName_base (base : Base) : base.kind.isName = true := by cases base <;> rfl

@[simp] theorem isName_stringForm (form : StringForm) : form.kind.isName = true := by
  cases form <;> rfl

@[simp] theorem unmarked_param (x : Param Printed) :
    unmarked x.printed = unmarked x.type.symbols ++ [.name x.name] := by
  simp +decide [Param.printed]

@[simp] theorem unmarked_variant (v : Variant Printed) : unmarked v.printed =
    .name v.name :: (v.value.map fun p => unmarked p.symbols).getD [] := by
  simp +decide [Variant.printed]

@[simp] theorem unmarked_item (i : MatchItem Printed) :
    unmarked i.printed = (i.map fun p => unmarked p.symbols).names := by
  cases i <;> simp +decide [MatchItem.printed, MatchItem.map, MatchItem.names]

@[simp] theorem unmarked_branch (b : MatchBranch Printed) :
    unmarked b.printed =
      (b.items.map fun i => unmarked i.printed).flatten ++ unmarked b.body.symbols := by
  obtain ⟨token, items, body⟩ := b
  cases items with
  | nil => simp +decide [MatchBranch.printed]
  | cons i items =>
    simp only [MatchBranch.printed, List.isEmpty_cons, Bool.false_eq_true, if_false,
      unmarked_append, unmarked_commas]
    simp +decide

@[simp] theorem unmarked_sizeMarks (kind : ArrayKind) (size : Option Printed) :
    unmarked (sizeMarks kind size) = (if kind = .inferred then [.name "_"] else []) ++
      (size.map fun p => unmarked p.symbols).getD [] := by
  cases kind <;> simp [sizeMarks]

/-- Printing keeps the names and literals, in their order, and adds words and marks only. -/
theorem Form.unmarked_printed (form : Form Printed) :
    unmarked form.printed.symbols = (form.map fun p => unmarked p.symbols).names := by
  cases form with
  | bool value => cases value <;> rfl
  | float text imaginary => cases imaginary <;> rfl
  | record name isExport isUnion fields => cases isUnion <;> simp +decide [printed]
  | prototype | enumeration | selection =>
    simp +decide [printed, List.flatMap_map]
    simp [List.flatMap_def]
  | _ => simp +decide [printed]

theorem Tree.unmarked_printed (t : Tree) : unmarked t.printed.symbols = t.names := by
  refine eq_fold (F := fun t => unmarked t.printed.symbols) (fun token form => ?_) t
  rw [printed_node, Form.unmarked_printed, Form.map_map]
  rfl

end Unmarked

/-- What is printed is a word or a mark of the grammar, or a name or literal of the tree. -/
theorem Tree.mem_printed {t : Tree} {a : Symbol} (h : a ∈ t.printed.symbols) :
    a.isMark = true ∨ a ∈ t.names := by
  by_cases ha : a.isMark = true
  · exact .inl ha
  · refine .inr ?_
    rw [← t.unmarked_printed]
    exact List.mem_filter.mpr ⟨h, by simp [ha]⟩

end FrontEnd
