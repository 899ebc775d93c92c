import FrontEnd.Proofs.Parser.Indices

/-!
A source in which every `elseif` is spelled as `else if`. Each symbol is found in the other
source, behind as many more as there are such words before it, and each of those leads back.
What is anchored at `elseif` is then anchored at the second word of the two.
-/

namespace FrontEnd

/-- The symbol with `elseif` as two words. -/
def Symbol.unfolded (a : Symbol) : List Symbol :=
  if a.kind = .kwElseIf then [⟨.kwElse, "else"⟩, ⟨.kwIf, "if"⟩] else [a]

theorem Symbol.unfolded_of_elseIf {a : Symbol} (h : a.kind = .kwElseIf) :
    a.unfolded = [⟨.kwElse, "else"⟩, ⟨.kwIf, "if"⟩] := if_pos h

theorem Symbol.unfolded_of_ne {a : Symbol} (h : a.kind ≠ .kwElseIf) : a.unfolded = [a] := if_neg h

namespace Unfolding

/-- How many of the first `n` symbols are `elseif`. -/
def elseIfs (list : List Symbol) (n : Nat) : Nat := (list.take n).countP (·.kind = .kwElseIf)

/-- Where the symbol at a position begins in the unfolded source. -/
def place (list : List Symbol) (p : Nat) : Nat := p + elseIfs list p

/-- Where it ends there, and what is anchored at it is anchored. -/
def shift (list : List Symbol) (p : Nat) : Nat := p + elseIfs list (p + 1)

/-- The position of the symbol that the one at `k` in the unfolded source comes from. -/
def back : List Symbol → Nat → Nat
  | [], k => k
  | a :: list, k => if k < a.unfolded.length then 0 else back list (k - a.unfolded.length) + 1

variable (a : Symbol) (list : List Symbol) (p k : Nat)

@[simp] theorem elseIfs_nil : elseIfs [] p = 0 := by simp [elseIfs]

@[simp] theorem elseIfs_zero : elseIfs list 0 = 0 := rfl

theorem elseIfs_cons :
    elseIfs (a :: list) (p + 1) = elseIfs list p + if a.kind = .kwElseIf then 1 else 0 := by
  simp [elseIfs, List.countP_cons]

theorem length_unfolded :
    a.unfolded.length = 1 + if a.kind = .kwElseIf then 1 else 0 := by
  unfold Symbol.unfolded
  split <;> rfl

theorem length_unfolded_pos : 0 < a.unfolded.length := by
  rw [length_unfolded]
  omega

theorem length_unfolded_le : a.unfolded.length ≤ 2 := by
  rw [length_unfolded]
  split <;> omega

/-! ## There and back -/

theorem place_cons_succ : place (a :: list) (p + 1) = a.unfolded.length + place list p := by
  rw [place, elseIfs_cons, length_unfolded, place]
  omega

theorem shift_cons_zero : shift (a :: list) 0 + 1 = a.unfolded.length := by
  rw [shift, elseIfs_cons, length_unfolded, elseIfs_zero]
  omega

theorem shift_cons_succ : shift (a :: list) (p + 1) = a.unfolded.length + shift list p := by
  rw [shift, elseIfs_cons, length_unfolded, shift]
  omega

theorem place_succ : place list (p + 1) = shift list p + 1 := by
  rw [place, shift]
  omega

theorem shift_eq : shift list p =
    place list p + if (list[p]?.getD .last).kind = .kwElseIf then 1 else 0 := by
  induction list generalizing p with
  | nil => simp [shift, place, Symbol.last]
  | cons a list ih =>
    cases p with
    | zero =>
      have hzero := shift_cons_zero a list
      rw [length_unfolded] at hzero
      rw [List.getElem?_cons_zero, Option.getD_some, place, elseIfs_zero]
      omega
    | succ p => rw [shift_cons_succ, place_cons_succ, ih, List.getElem?_cons_succ, Nat.add_assoc]

theorem back_place : back list (place list p) = p := by
  induction list generalizing p with
  | nil => simp [back, place]
  | cons a list ih =>
    cases p with
    | zero => exact if_pos (length_unfolded_pos a)
    | succ p => rw [back, place_cons_succ, if_neg (by omega), Nat.add_sub_cancel_left, ih]

theorem back_shift : back list (shift list p) = p := by
  induction list generalizing p with
  | nil => simp [back, shift]
  | cons a list ih =>
    cases p with
    | zero => exact if_pos (Nat.lt_of_succ_le (Nat.le_of_eq (shift_cons_zero a list)))
    | succ p => rw [back, shift_cons_succ, if_neg (by omega), Nat.add_sub_cancel_left, ih]

/-- Every position of the unfolded source is where some symbol begins or ends. -/
theorem place_or_shift : place list (back list k) = k ∨ shift list (back list k) = k := by
  induction list generalizing k with
  | nil => simp [back, place]
  | cons a list ih =>
    have hzero := shift_cons_zero a list
    rw [back]
    split
    · have hplace : place (a :: list) 0 = 0 := rfl
      have hle := length_unfolded_le a
      omega
    · have htail := ih (k - a.unfolded.length)
      rw [place_cons_succ, shift_cons_succ]
      omega

/-! ## Symbols -/

/-- From where a symbol begins, the unfolded source goes on as the source does from there. -/
theorem drop_place :
    (list.flatMap Symbol.unfolded).drop (place list p) = (list.drop p).flatMap Symbol.unfolded := by
  induction list generalizing p with
  | nil => simp
  | cons a list ih =>
    cases p with
    | zero => rfl
    | succ p =>
      rw [place_cons_succ, List.flatMap_cons, ← List.drop_drop, List.drop_left, ih]
      rfl

theorem isTrivia_of_mem_unfolded {a b : Symbol} (hb : b ∈ a.unfolded) :
    b.kind.isTrivia = a.kind.isTrivia := by
  unfold Symbol.unfolded at hb
  split at hb
  · rename_i h
    simp only [List.mem_cons, List.not_mem_nil, or_false] at hb
    rcases hb with rfl | rfl <;> rw [h] <;> rfl
  · rw [List.mem_singleton.mp hb]

/-- Comments stay comments, so they may be left out before or after. -/
theorem filter_flatMap : (list.flatMap Symbol.unfolded).filter (!·.kind.isTrivia) =
    (list.filter (!·.kind.isTrivia)).flatMap Symbol.unfolded := by
  induction list with
  | nil => rfl
  | cons a list ih =>
    have hunfolded : ∀ b ∈ a.unfolded, (!b.kind.isTrivia) = !a.kind.isTrivia := fun b hb =>
      congrArg (!·) (isTrivia_of_mem_unfolded hb)
    rw [List.flatMap_cons, List.filter_append, ih, List.filter_cons]
    cases h : (!a.kind.isTrivia)
    · rw [List.filter_eq_nil_iff.mpr fun b hb => by simp [hunfolded b hb, h]]
      rfl
    · rw [List.filter_eq_self.mpr fun b hb => by simp [hunfolded b hb, h]]
      rfl

/-! ## Indices -/

/-- The index among the tokens of the symbol at a position, comments being counted. -/
def index (list : List Symbol) (p : Nat) : Nat := (significantIndices 0 list)[p]?.getD list.length

theorem index_cons_zero {a : Symbol} (h : a.kind.isTrivia = false) : index (a :: list) 0 = 0 := by
  rw [index, significantIndices_cons 0 list h]
  rfl

theorem index_cons_succ {a : Symbol} (h : a.kind.isTrivia = false) :
    index (a :: list) (p + 1) = index list p + 1 := by
  rw [index, significantIndices_cons 0 list h, significantIndices_add, List.getElem?_cons_succ,
    List.getElem?_map, index]
  cases (significantIndices 0 list)[p]? <;> rfl

theorem index_cons_trivia {a : Symbol} (h : a.kind.isTrivia = true) :
    index (a :: list) p = index list p + 1 := by
  have hskip : significantIndices 0 (a :: list) = significantIndices (0 + 1) list := by
    simp [significantIndices, List.zipIdx_cons, h]
  rw [index, hskip, significantIndices_add, List.getElem?_map, index]
  cases (significantIndices 0 list)[p]? <;> rfl

theorem index_append_of_lt {front rest : List Symbol}
    (h : ∀ a ∈ front, a.kind.isTrivia = false) (hk : k < front.length) :
    index (front ++ rest) k = k := by
  induction front generalizing k with
  | nil => cases hk
  | cons a front ih =>
    obtain ⟨ha, hfront⟩ := List.forall_mem_cons.mp h
    cases k with
    | zero => exact index_cons_zero _ ha
    | succ k =>
      rw [List.cons_append, index_cons_succ _ _ ha, ih _ hfront (Nat.lt_of_succ_lt_succ hk)]

theorem index_append_add {front rest : List Symbol}
    (h : ∀ a ∈ front, a.kind.isTrivia = false) :
    index (front ++ rest) (front.length + k) = front.length + index rest k := by
  induction front with
  | nil => simp
  | cons a front ih =>
    obtain ⟨ha, hfront⟩ := List.forall_mem_cons.mp h
    rw [List.cons_append, List.length_cons, Nat.add_right_comm, index_cons_succ _ _ ha, ih hfront,
      Nat.add_right_comm]

/-- Shifting a position and shifting its index are the same. -/
theorem index_shift : index (list.flatMap Symbol.unfolded)
    (shift (list.filter (!·.kind.isTrivia)) p) = shift list (index list p) := by
  induction list generalizing p with
  | nil => simp [index, shift, significantIndices]
  | cons a list ih =>
    rw [List.flatMap_cons]
    by_cases htrivia : a.kind.isTrivia = true
    · have hne : a.kind ≠ .kwElseIf := by
        rintro hk
        rw [hk] at htrivia
        cases htrivia
      rw [List.filter_cons_of_neg (by simp [htrivia]), Symbol.unfolded_of_ne hne,
        List.singleton_append, index_cons_trivia _ _ htrivia, index_cons_trivia _ _ htrivia, ih,
        shift_cons_succ, Symbol.unfolded_of_ne hne]
      exact Nat.add_comm _ _
    · have hplain : a.kind.isTrivia = false := by simpa using htrivia
      have hunfolded : ∀ b ∈ a.unfolded, b.kind.isTrivia = false := fun b hb =>
        (isTrivia_of_mem_unfolded hb).trans hplain
      rw [List.filter_cons_of_pos (by simp [hplain])]
      cases p with
      | zero =>
        have hsource := shift_cons_zero a list
        have htarget := shift_cons_zero a (list.filter (!·.kind.isTrivia))
        rw [index_cons_zero _ hplain, index_append_of_lt _ hunfolded (by omega)]
        omega
      | succ p =>
        rw [shift_cons_succ, index_cons_succ _ _ hplain, shift_cons_succ, ← ih,
          index_append_add _ hunfolded]

end Unfolding

end FrontEnd
