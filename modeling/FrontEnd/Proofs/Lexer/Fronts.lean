import FrontEnd.Proofs.Lexer.Positions
import FrontEnd.Proofs.Lexer.Settled

/-!
The part of a text that is read before the first fault. It is divided into the same pieces
before any rest that gives none of them more to go on with, and what stands behind it is
then read as it is on its own. Tokens are the same but for the places that a rest moves.
-/

namespace FrontEnd

namespace Place

theorem endsLine_congr (c : Char) {o o' : Option Char} (h : o = some '\n' ↔ o' = some '\n') :
    endsLine c o = endsLine c o' := by
  have hne : (o != some '\n') = (o' != some '\n') := by
    rw [Bool.eq_iff_iff]
    simp [h]
  rw [endsLine, endsLine, hne]

theorem head?_append_congr {rest rest' : List Char}
    (h : rest.head? = some '\n' ↔ rest'.head? = some '\n') (front : List Char) :
    (front ++ rest).head? = some '\n' ↔ (front ++ rest').head? = some '\n' := by
  cases front with
  | nil => exact h
  | cons c front => exact Iff.rfl

/-- Of what follows a lexeme, the place behind it tells only whether it is a line feed. -/
theorem after_congr (p : Place) {lexeme rest rest' : List Char}
    (h : rest.head? = some '\n' ↔ rest'.head? = some '\n') :
    p.after lexeme rest = p.after lexeme rest' := by
  induction lexeme generalizing p with
  | nil => rfl
  | cons c lexeme ih =>
    have hstep : p.step c (lexeme.head?.or rest.head?) = p.step c (lexeme.head?.or rest'.head?) := by
      cases lexeme with
      | cons d lexeme => rfl
      | nil =>
        change p.step c rest.head? = p.step c rest'.head?
        rw [step, step, endsLine_congr c h]
    rw [after, after, hstep, ih]

end Place

namespace Piece

/-- The text that the pieces take. -/
def covered (pieces : List Piece) : List Char := pieces.flatMap (·.lexeme)

theorem covered_cons (x : Piece) (xs : List Piece) : covered (x :: xs) = x.lexeme ++ covered xs :=
  rfl

/-- The pieces of a text before the first fault. -/
def clean (cs : List Char) : List Piece := (divide cs).takeWhile (!·.isFault)

/-- The text behind them. -/
def unread (cs : List Char) : List Char := remainder cs (clean cs)

theorem clean_of_fault {c : Char} {cs : List Char} (h : (first c cs).isFault = true) :
    clean (c :: cs) = [] ∧ unread (c :: cs) = c :: cs := by
  have hclean : clean (c :: cs) = [] := by simp [clean, divide_of_fault h, h]
  exact ⟨hclean, by simp [unread, hclean, remainder]⟩

theorem clean_cons {c : Char} {cs : List Char} (h : (first c cs).isFault = false) :
    clean (c :: cs) = first c cs :: clean (first c cs).rest ∧
      unread (c :: cs) = unread (first c cs).rest := by
  have hclean : clean (c :: cs) = first c cs :: clean (first c cs).rest := by
    simp [clean, divide_of_read h, h]
  exact ⟨hclean, by rw [unread, hclean, remainder_cons, unread]⟩

theorem isFault_of_clean {cs : List Char} {x : Piece} (h : x ∈ clean cs) : x.isFault = false := by
  simpa using List.all_eq_true.mp List.all_takeWhile x h

private theorem clean_spec (cs : List Char) :
    covered (clean cs) ++ unread cs = cs ∧ divide cs = clean cs ++ divide (unread cs) ∧
      ∀ c ds, unread cs = c :: ds → (first c ds).isFault = true := by
  induction cs using divide_induct with
  | nil => exact ⟨rfl, rfl, nofun⟩
  | fault c cs hf =>
    obtain ⟨hclean, hunread⟩ := clean_of_fault hf
    rw [hclean, hunread]
    refine ⟨rfl, rfl, ?_⟩
    rintro d ds ⟨⟩
    exact hf
  | cons c cs hf ih =>
    obtain ⟨hclean, hunread⟩ := clean_cons hf
    obtain ⟨htext, hdivide, hfault⟩ := ih
    rw [hclean, hunread]
    refine ⟨?_, ?_, hfault⟩
    · rw [covered_cons, List.append_assoc, htext, first_append]
    · rw [divide_of_read hf, List.cons_append, ← hdivide]

theorem covered_clean (cs : List Char) : covered (clean cs) ++ unread cs = cs := (clean_spec cs).1

theorem divide_eq_clean (cs : List Char) : divide cs = clean cs ++ divide (unread cs) :=
  (clean_spec cs).2.1

/-- What stands behind the pieces before the first fault, if anything, begins with it. -/
theorem isFault_of_unread {cs ds : List Char} {c : Char} (h : unread cs = c :: ds) :
    (first c ds).isFault = true := (clean_spec cs).2.2 c ds h

/-- The pieces, where `rest` stands behind the last of them. -/
def before (rest : List Char) : List Piece → List Piece
  | [] => []
  | x :: xs => ⟨x.reading, x.lexeme, covered xs ++ rest⟩ :: before rest xs

/-- What is read before the first fault is read again before another rest. -/
theorem divide_before (cs : List Char) {rest : List Char}
    (h : ∀ x ∈ clean cs, Narrower x.reading.stops rest (unread cs)) :
    divide (covered (clean cs) ++ rest) = before rest (clean cs) ++ divide rest := by
  induction cs using divide_induct with
  | nil => rfl
  | fault c cs hf =>
    obtain ⟨hclean, -⟩ := clean_of_fault hf
    rw [hclean]
    rfl
  | cons c cs hf ih =>
    obtain ⟨hclean, hunread⟩ := clean_cons hf
    obtain ⟨lexeme, hlexeme, hread⟩ := first_again hf
    rw [hclean, hunread] at h
    have hrest := ih fun x hx => h x (List.mem_cons_of_mem _ hx)
    -- Behind the first piece stand the other pieces, as before, and only then `rest`.
    have hnarrower := (h _ List.mem_cons_self).append (covered (clean (first c cs).rest))
    rw [covered_clean] at hnarrower
    have hagain := hread _ hnarrower
    rw [hclean, covered_cons, before, hlexeme, List.append_assoc, List.cons_append, divide_cons,
      hagain, hrest, hlexeme]
    exact if_neg (by simpa [isFault] using hf)

theorem before_unread (cs : List Char) : before (unread cs) (clean cs) = clean cs := by
  have hbefore := divide_before cs fun x _ => .refl x.reading.stops (unread cs)
  rw [covered_clean, divide_eq_clean] at hbefore
  exact (List.append_cancel_right hbefore).symm

theorem offsetsAt_append (fileName : String) (p : Place) (xs ys : List Piece) :
    offsetsAt fileName p (xs ++ ys) =
      offsetsAt fileName p xs ++ offsetsAt fileName (stop p xs) ys := by
  induction xs generalizing p with
  | nil => rfl
  | cons x xs ih =>
    rw [List.cons_append, offsetsAt_cons, offsetsAt_cons, stop_cons, ih, List.append_assoc]

theorem tokensAt_append (fileName : String) (p : Place) (xs ys : List Piece) :
    tokensAt fileName p (xs ++ ys) = tokensAt fileName p xs ++ tokensAt fileName (stop p xs) ys := by
  simp only [← offsetsAt_tokens, offsetsAt_append, List.map_append]

theorem stop_before (p : Place) (rest : List Char) (xs : List Piece) :
    stop p (before rest xs) = p.after (covered xs) rest := by
  induction xs generalizing p with
  | nil => rfl
  | cons x xs ih => rw [before, stop_cons, covered_cons, Place.after_append, ih]

/-- Tokens stand where they stood before another rest, if that begins a line feed only where
the old one did. -/
theorem offsetsAt_before_congr (fileName : String) {rest rest' : List Char}
    (h : rest.head? = some '\n' ↔ rest'.head? = some '\n') (p : Place) (xs : List Piece) :
    offsetsAt fileName p (before rest xs) = offsetsAt fileName p (before rest' xs) := by
  induction xs generalizing p with
  | nil => rfl
  | cons x xs ih =>
    have hhead := Place.head?_append_congr h (covered xs)
    rw [before, before, offsetsAt_cons, offsetsAt_cons, Place.after_congr p hhead, ih]
    rfl

end Piece

/-! ## The opening of a source -/

variable {rest : List Char}

theorem interpreter_again {text : List Char} (h : Narrower ['\n'] rest (interpreter text).2) :
    interpreter ((interpreter text).1 ++ rest) = ((interpreter text).1, rest) := by
  by_cases hp : ['#', '!', '/'].isPrefixOf text = true
  · have hline : interpreter text =
        (text.takeWhile (!isLineEnd ·), text.dropWhile (!isLineEnd ·)) := if_pos hp
    rw [hline] at h ⊢
    have hopen : ['#', '!', '/'].isPrefixOf (text.takeWhile (!isLineEnd ·) ++ rest) = true := by
      obtain ⟨more, rfl⟩ := List.isPrefixOf_iff_prefix.mp hp
      simp [isLineEnd]
    unfold interpreter
    rw [if_pos hopen, h.takeWhile Piece.isLineEnd_stop, h.dropWhile Piece.isLineEnd_stop]
  · have hline : interpreter text = ([], text) := if_neg hp
    rw [hline] at h ⊢
    refine if_neg fun hrest => hp ?_
    rw [List.nil_append, List.isPrefixOf_iff_prefix] at hrest
    exact List.isPrefixOf_iff_prefix.mpr (h _ (by simp) hrest)

/-- What a source opens with, it opens with before another text, unless that goes on with it. -/
theorem opening_again {source : List Char} (h : Narrower ['\n'] rest (opening source).2) :
    opening ((opening source).1 ++ rest) = ((opening source).1, rest) := by
  by_cases hm : ∀ c ∈ source.head?, c ≠ byteOrderMark
  · rw [opening_of_head hm] at h ⊢
    have hhead := h.append (interpreter source).1
    rw [interpreter_append] at hhead
    rw [opening_of_head (hhead.head (by simp [byteOrderMark]) hm), interpreter_again h]
  · obtain ⟨c, hc, hmark⟩ : ∃ c ∈ source.head?, c = byteOrderMark := by simpa using hm
    obtain ⟨text, rfl⟩ := List.head?_eq_some_iff.mp hc
    rw [hmark, opening_of_mark] at h ⊢
    rw [List.cons_append, opening_of_mark, interpreter_again h]

end FrontEnd
