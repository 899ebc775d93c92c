import FrontEnd.Proofs.Parser.Reference
import FrontEnd.Proofs.Parser.Bounds

/-!
Rows among the symbols of a source: an operand, links behind it and a semicolon, up
to the end. What stands in a row tells which productions do not begin there.
-/

namespace FrontEnd

/-- The kind of the first symbol, which is the end of the source where there is none. -/
def kindOf (list : List Symbol) : TokenKind := (list.head?.getD .last).kind

@[simp] theorem kindOf_cons (a : Symbol) (list : List Symbol) : kindOf (a :: list) = a.kind := rfl

namespace Symbols

/-- The symbols from `p` on to the end. -/
def Stand (symbols : Symbols) (p : Nat) (list : List Symbol) : Prop :=
  symbols.toList.drop p = list

variable {symbols : Symbols} {p : Nat} {a : Symbol} {list rest : List Symbol}

theorem Stand.append (h : symbols.Stand p (list ++ rest)) :
    symbols.Stand (p + list.length) rest := by
  unfold Stand at *
  rw [← List.drop_drop, h, List.drop_left]

theorem Stand.tail (h : symbols.Stand p (a :: rest)) : symbols.Stand (p + 1) rest := by
  have happend : symbols.Stand p ([a] ++ rest) := h
  exact happend.append

theorem Stand.lt (h : symbols.Stand p (a :: rest)) : p < symbols.size := by
  unfold Stand at h
  have hlength := congrArg List.length h
  simp at hlength
  omega

theorem Stand.symbolAt (h : symbols.Stand p (a :: rest)) : symbols.symbolAt p = a := by
  have hp := h.lt
  unfold Stand at h
  rw [List.drop_eq_getElem_cons (by simpa using hp)] at h
  simp only [Array.getElem_toList, List.cons.injEq] at h
  simp [Symbols.symbolAt, hp, h.1]

theorem Stand.symbolAt_add (h : symbols.Stand p list) {i : Nat} (hi : i < list.length) :
    symbols.symbolAt (p + i) = list[i] := by
  have hdrop : symbols.Stand (p + i) (list[i] :: list.drop (i + 1)) := by
    rw [← List.drop_eq_getElem_cons hi]
    unfold Stand at *
    rw [← List.drop_drop, h]
  exact hdrop.symbolAt

theorem Stand.symbolAt_nil (h : symbols.Stand p []) : symbols.symbolAt p = .last := by
  have hlength := List.drop_eq_nil_iff.mp h
  have hp : ¬p < symbols.size := by simpa using hlength
  simp [Symbols.symbolAt, hp]

theorem Stand.kind (h : symbols.Stand p list) : (symbols.symbolAt p).kind = kindOf list := by
  cases list with
  | nil => rw [h.symbolAt_nil, kindOf, List.head?_nil, Option.getD_none]
  | cons a list => rw [h.symbolAt, kindOf_cons]

theorem Stand.kind_next (h : symbols.Stand p list) :
    (symbols.symbolAt (p + 1)).kind = kindOf list.tail := by
  cases list with
  | nil =>
    have hnil : symbols.Stand (p + 1) [] := by
      rw [Stand, ← List.drop_drop, h, List.drop_nil]
    exact hnil.kind
  | cons a list => exact h.tail.kind

theorem Stand.next (h : symbols.Stand p (a :: rest)) : symbols.next p = p + 1 := by
  simp [Symbols.next, h.lt]

end Symbols

namespace Link

/-- The symbols of links and the one that stops them. -/
def row (links : List Link) (stop : Symbol) : List Symbol :=
  links.flatMap (fun o => [o.operator, o.operand]) ++ [stop]

/-- A binary operator before an operand of one symbol. -/
structure Sound (o : Link) : Prop where
  operator : o.tightness < 8
  operand : o.operand.leaf?.isSome = true

instance (o : Link) : Decidable o.Sound :=
  decidable_of_iff (o.tightness < 8 ∧ o.operand.leaf?.isSome = true)
    ⟨fun h => ⟨h.1, h.2⟩, fun h => ⟨h.1, h.2⟩⟩

theorem length_symbols (links : List Link) :
    (links.flatMap fun o => [o.operator, o.operand]).length = 2 * links.length := by
  induction links with
  | nil => rfl
  | cons o links ih =>
    rw [List.flatMap_cons, List.length_append, ih]
    simp only [List.length_cons, List.length_nil]
    omega

theorem row_append (left right : List Link) (stop : Symbol) :
    row (left ++ right) stop =
      left.flatMap (fun o => [o.operator, o.operand]) ++ row right stop := by
  simp [row]

end Link

/-- Kinds that stand behind an operand of a row. -/
def TokenKind.endsOperand (k : TokenKind) : Bool := k.tightness < 8 || k == .semicolon

/-- Links and a semicolon stand from `q` on to the end. -/
structure Tail (symbols : Symbols) (q : Nat) (links : List Link) (stop : Symbol) : Prop where
  stand : symbols.Stand q (Link.row links stop)
  sound : ∀ o ∈ links, o.Sound
  stops : stop.kind = .semicolon

/-- An operand, links and a semicolon stand from `p` on to the end. -/
structure Row (symbols : Symbols) (p : Nat) (first : Symbol) (links : List Link) (stop : Symbol) :
    Prop where
  stand : symbols.Stand p (first :: Link.row links stop)
  operand : first.leaf?.isSome = true
  tail : Tail symbols (p + 1) links stop

section Rows

variable {symbols : Symbols} {p q : Nat} {first stop : Symbol} {links left right : List Link}
  {o : Link}

theorem Tail.append (h : Tail symbols q (left ++ right) stop) :
    Tail symbols (q + 2 * left.length) right stop where
  stand := by
    have hstand := h.stand
    rw [Link.row_append] at hstand
    rw [← Link.length_symbols]
    exact hstand.append
  sound o ho := h.sound o (List.mem_append_right left ho)
  stops := h.stops

/-- Behind what a level reads the rest of the links stands. -/
theorem Tail.drop_taken (h : Tail symbols q links stop) (t : Nat) (seen : Bool) :
    Tail symbols (q + 2 * (Link.taken t seen links).length)
      (links.drop (Link.taken t seen links).length) stop := by
  rw [← Link.taken_append_drop t seen links] at h
  exact h.append

theorem Tail.symbolAt_nil (h : Tail symbols q [] stop) : symbols.symbolAt q = stop :=
  h.stand.symbolAt

theorem Tail.symbolAt_cons (h : Tail symbols q (o :: links) stop) :
    symbols.symbolAt q = o.operator :=
  h.stand.symbolAt

theorem Tail.next (h : Tail symbols q links stop) : symbols.next q = q + 1 := by
  have hstand := h.stand
  cases links with
  | nil => exact hstand.next
  | cons o links => exact hstand.next

theorem Tail.row (h : Tail symbols q (o :: links) stop) :
    Row symbols (q + 1) o.operand links stop where
  stand := h.stand.tail
  operand := (h.sound o List.mem_cons_self).operand
  tail :=
    { stand := h.stand.tail.tail
      sound := fun o' ho => h.sound o' (List.mem_cons_of_mem o ho)
      stops := h.stops }

theorem Tail.endsOperand (h : Tail symbols q links stop) :
    (symbols.symbolAt q).kind.endsOperand = true := by
  cases links with
  | nil =>
    rw [h.symbolAt_nil, h.stops]
    rfl
  | cons o links =>
    have ho := (h.sound o List.mem_cons_self).operator
    rw [h.symbolAt_cons, TokenKind.endsOperand, Bool.or_eq_true, decide_eq_true_eq]
    exact .inl ho

theorem Row.symbolAt (h : Row symbols p first links stop) : symbols.symbolAt p = first :=
  h.stand.symbolAt

theorem Row.next (h : Row symbols p first links stop) : symbols.next p = p + 1 := h.stand.next

end Rows

/-- Kinds at which something else begins than an operand of one symbol, the end of the
source among them. -/
def TokenKind.openers : List TokenKind :=
  [.leftBrace, .leftBracket, .pipe, .question, .kwTry, .kwFunc, .kwStruct, .kwUnion, .kwEnum,
    .kwExport, .kwExtern, .kwMutable, .kwConst, .kwDefer, .kwIf, .kwMatch, .kwBreak, .kwContinue,
    .kwReturn, .kwRaise, .kwFor, .kwWhile, .endOfFile, .illegal]

theorem Symbol.leaf_kind {s : Symbol} (h : s.leaf?.isSome = true) :
    UnaryOp.ofKind? s.kind = none ∧ s.kind ∉ TokenKind.openers := by
  obtain ⟨kind, text⟩ := s
  change UnaryOp.ofKind? kind = none ∧ kind ∉ _
  cases kind <;> first | cases h; done | exact ⟨rfl, by decide⟩

theorem Row.kind_not_mem {symbols : Symbols} {p : Nat} {first stop : Symbol} {links : List Link}
    (h : Row symbols p first links stop) (words : List TokenKind)
    (hw : ∀ k ∈ words, k ∈ TokenKind.openers) : (symbols.symbolAt p).kind ∉ words := by
  intro hmem
  have hopener := hw _ hmem
  rw [h.symbolAt] at hopener
  exact (Symbol.leaf_kind h.operand).2 hopener

theorem Row.kind_ne {symbols : Symbols} {p : Nat} {first stop : Symbol} {links : List Link}
    (h : Row symbols p first links stop) {k : TokenKind} (hk : k ∈ TokenKind.openers) :
    (symbols.symbolAt p).kind ≠ k := by
  have hword := h.kind_not_mem [k] (by simpa using hk)
  simpa using hword

end FrontEnd
