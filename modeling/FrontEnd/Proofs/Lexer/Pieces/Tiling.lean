import FrontEnd.Proofs.Lexer.Pieces.Scan

/-!
Pieces tile the text they are read from. The first piece of a text splits it
into a lexeme, which is not empty, and the rest, so that dividing never runs out
of steps and loses no character.
-/

namespace FrontEnd

namespace Numeral

theorem run_append (cs : List Char) : (run cs).1 ++ (run cs).2 = cs := by
  fun_induction run cs <;> simp_all

theorem fraction_append (cs : List Char) : (fraction cs).1 ++ (fraction cs).2 = cs := by
  fun_cases fraction cs <;> simp [run_append]

end Numeral

namespace Enclosed

/-- The text that was read, with `mark` where it was closed. -/
def source (mark : List Char) : Enclosed → List Char
  | closed text rest => text ++ mark ++ rest
  | cut taken rest => taken ++ rest

theorem source_behind (mark front : List Char) (e : Enclosed) :
    (e.behind front).source mark = front ++ e.source mark := by
  cases e <;> simp [behind, source]

end Enclosed

theorem Closing.source_read (q : Closing) (cs : List Char) : (q.read cs).source q.mark = cs := by
  fun_induction Closing.read q cs with
  | case1 => rfl
  | case2 c cs h =>
    obtain ⟨rest, h⟩ := List.isPrefixOf_iff_prefix.mp h
    simp [Enclosed.source, ← h]
  | case3 => simp_all [Enclosed.source]
  | case4 => simp_all [Enclosed.source_behind]
  | case5 => simp [Enclosed.source]
  | case6 => simp_all [Enclosed.source_behind]

namespace Piece

/-- The piece is the front of `text`, and takes some of it. -/
def Splits (p : Piece) (text : List Char) : Prop := p.lexeme ++ p.rest = text ∧ p.lexeme ≠ []

end Piece

theorem Closing.literal_splits (q : Closing) (kind : TokenKind) (unclosed : LexicalError)
    {opening : List Char} (cs : List Char) (h : opening ≠ []) :
    (q.literal kind unclosed opening cs).Splits (opening ++ cs) := by
  have hr := q.source_read cs
  unfold Closing.literal Piece.Splits
  split <;> simp_all [Enclosed.source]

theorem quotedString_splits (cs : List Char) : (quotedString cs).Splits ('"' :: cs) := by
  unfold quotedString
  split
  · rename_i h
    obtain ⟨rest, rfl⟩ := List.isPrefixOf_iff_prefix.mp h
    exact Closing.literal_splits _ _ _ _ (by simp)
  · exact Closing.literal_splits _ _ _ _ (by simp)

theorem rawString_splits (cs : List Char) : (rawString cs).Splits ('`' :: cs) :=
  Closing.literal_splits _ _ _ _ (by simp)

theorem rune_splits (cs : List Char) : (rune cs).Splits ('\'' :: cs) := by
  unfold rune
  split
  · exact ⟨rfl, by simp⟩
  · exact Closing.literal_splits _ _ _ _ (by simp)

theorem blockComment_splits (cs : List Char) : (blockComment cs).Splits ('/' :: '*' :: cs) := by
  have hr := Closing.ofComment.source_read cs
  unfold blockComment Piece.Splits
  split <;> simp_all [Enclosed.source, Closing.ofComment]

namespace Numeral

theorem marked_splits (kind : TokenKind) {text : List Char} (cs : List Char) (h : text ≠ []) :
    (marked kind text cs).Splits (text ++ cs) := by
  fun_cases marked kind text cs <;> simp_all [Piece.Splits]

theorem exponent_append {cs : List Char} {text rest : List Char}
    (h : exponent cs = .present text rest) : text ++ rest = cs := by
  fun_cases exponent cs <;> simp_all [exponent]
  obtain ⟨rfl, rfl⟩ := h
  simp [run_append]

theorem exponent_append_of_broken {cs : List Char} {cause : LexicalError} {taken rest : List Char}
    (h : exponent cs = .broken cause taken rest) : taken ++ rest = cs := by
  fun_cases exponent cs <;> simp_all [exponent] <;> obtain ⟨_, rfl, rfl⟩ := h <;> rfl

theorem decimal_splits (first : Char) (cs : List Char) :
    (decimal first cs).Splits (first :: cs) := by
  have hw := run_append cs
  have hf := fraction_append (run cs).2
  have ht : first :: cs =
      (first :: (run cs).1 ++ (fraction (run cs).2).1) ++ (fraction (run cs).2).2 := by
    simp [hf, hw]
  unfold decimal
  dsimp only
  rw [ht]
  split
  · exact marked_splits _ _ (by simp)
  · rename_i h
    rw [← exponent_append h, ← List.append_assoc]
    exact marked_splits _ _ (by simp)
  · rename_i h
    rw [← exponent_append_of_broken h, ← List.append_assoc]
    exact ⟨rfl, by simp⟩

theorem number_splits (r : Radix) (letter : Char) (cs : List Char) :
    (r.number letter cs).Splits ('0' :: letter :: cs) := by
  unfold Radix.number
  dsimp only
  split <;> simp [Piece.Splits]

theorem scan_splits (first : Char) (cs : List Char) : (scan first cs).Splits (first :: cs) := by
  unfold scan
  split
  · exact decimal_splits first []
  · split
    · rename_i h
      subst h
      split
      · exact number_splits _ _ _
      · split
        · simp [Piece.Splits]
        · exact decimal_splits _ _
    · exact decimal_splits _ _

end Numeral

namespace TokenKind

theorem name_ne_nil (k : TokenKind) : k.name.toList ≠ [] := by
  cases k <;> decide

theorem isPrefix_of_mark? {k : TokenKind} {cs : List Char} (h : mark? cs = some k) :
    k.name.toList <+: cs := by
  unfold mark? at h
  simpa using List.find?_some h

end TokenKind

namespace Piece

theorem word_splits (c : Char) (cs : List Char) : (word c cs).Splits (c :: cs) := by
  simp [word, Splits]

theorem builtin_splits (cs : List Char) : (builtin cs).Splits ('@' :: cs) := by
  simp [builtin, Splits]

theorem lineComment_splits (kind : TokenKind) {opening : List Char} (cs : List Char)
    (h : opening ≠ []) : (lineComment kind opening cs).Splits (opening ++ cs) := by
  simp [lineComment, Splits, h]

theorem mark_splits (c : Char) (cs : List Char) : (mark c cs).Splits (c :: cs) := by
  unfold mark
  split
  · rename_i k h
    obtain ⟨rest, h⟩ := TokenKind.isPrefix_of_mark? h
    refine ⟨?_, k.name_ne_nil⟩
    simp [← h, ← String.length_toList]
  · simp [Splits]

theorem slash_splits (cs : List Char) : (slash cs).Splits ('/' :: cs) := by
  fun_cases slash cs with
  | case1 cs => exact lineComment_splits _ _ (by simp)
  | case2 cs => exact lineComment_splits _ _ (by simp)
  | case3 cs => exact blockComment_splits _
  | case4 => exact mark_splits _ _

theorem first_splits (c : Char) (cs : List Char) : (first c cs).Splits (c :: cs) := by
  unfold first
  split
  · simp [Splits]
  split
  · exact word_splits c cs
  split
  · exact Numeral.scan_splits c cs
  split
  · simp_all [quotedString_splits]
  split
  · simp_all [rawString_splits]
  split
  · simp_all [rune_splits]
  split
  · simp_all [slash_splits]
  split
  · simp_all
    exact lineComment_splits .comment cs (by simp)
  split
  · simp_all [builtin_splits]
  · exact mark_splits c cs

theorem first_append (c : Char) (cs : List Char) :
    (first c cs).lexeme ++ (first c cs).rest = c :: cs := (first_splits c cs).1

theorem first_rest_length_le (c : Char) (cs : List Char) :
    (first c cs).rest.length ≤ cs.length := by
  have h := congrArg List.length (first_append c cs)
  have hn := List.length_pos_iff.mpr (first_splits c cs).2
  simp at h
  omega

/-- Steps beyond the length of the text change nothing. -/
theorem divideWithin_eq {m n : Nat} {cs : List Char} (hm : cs.length ≤ m) (hn : cs.length ≤ n) :
    divideWithin m cs = divideWithin n cs := by
  induction m generalizing n cs with
  | zero =>
    obtain rfl := List.eq_nil_of_length_eq_zero (Nat.le_zero.mp hm)
    cases n <;> rfl
  | succ m ih =>
    cases cs with
    | nil => cases n <;> rfl
    | cons c cs =>
      cases n with
      | zero => simp at hn
      | succ n =>
        have hl := first_rest_length_le c cs
        simp only [List.length_cons] at hm hn
        simp only [divideWithin, ih (by omega : (first c cs).rest.length ≤ m)
          (by omega : (first c cs).rest.length ≤ n)]

theorem divide_nil : divide [] = [] := rfl

theorem divide_cons (c : Char) (cs : List Char) :
    divide (c :: cs) =
      if (first c cs).isFault then [first c cs] else first c cs :: divide (first c cs).rest := by
  simp only [divide, List.length_cons, divideWithin,
    divideWithin_eq (first_rest_length_le c cs) (Nat.le_refl _)]

theorem divide_of_fault {c : Char} {cs : List Char} (h : (first c cs).isFault = true) :
    divide (c :: cs) = [first c cs] := by
  rw [divide_cons, if_pos h]

theorem divide_of_read {c : Char} {cs : List Char} (h : (first c cs).isFault = false) :
    divide (c :: cs) = first c cs :: divide (first c cs).rest := by
  rw [divide_cons, h]
  rfl

/-- Piece by piece, up to the end of the text or the first fault. -/
theorem divide_induct {P : List Char → Prop} (nil : P [])
    (fault : ∀ c cs, (first c cs).isFault = true → P (c :: cs))
    (cons : ∀ c cs, (first c cs).isFault = false → P (first c cs).rest → P (c :: cs))
    (cs : List Char) : P cs := by
  match cs with
  | [] => exact nil
  | c :: cs =>
    cases hf : (first c cs).isFault with
    | true => exact fault c cs hf
    | false => exact cons c cs hf (divide_induct nil fault cons _)
termination_by cs.length
decreasing_by
  have := first_rest_length_le c cs
  simp
  omega

theorem eq_first_of_mem_divide {cs : List Char} {x : Piece} (h : x ∈ divide cs) :
    ∃ c ds, x = first c ds := by
  induction cs using divide_induct with
  | nil => cases h
  | fault c cs hf =>
    rw [divide_of_fault hf] at h
    exact ⟨c, cs, List.mem_singleton.mp h⟩
  | cons c cs hf ih =>
    rw [divide_of_read hf] at h
    rcases List.mem_cons.mp h with rfl | h
    · exact ⟨c, cs, rfl⟩
    · exact ih h

/-- The text behind the last piece, or the whole of it if there is none. -/
def remainder (cs : List Char) (pieces : List Piece) : List Char :=
  (pieces.getLast?.map (·.rest)).getD cs

theorem remainder_cons (cs : List Char) (p : Piece) (pieces : List Piece) :
    remainder cs (p :: pieces) = remainder p.rest pieces := by
  cases pieces <;> simp [remainder, List.getLast?_cons]

/-- The lexemes in order are the text up to where reading stopped. -/
theorem divide_append (cs : List Char) :
    (divide cs).flatMap (·.lexeme) ++ remainder cs (divide cs) = cs := by
  induction cs using divide_induct with
  | nil => rfl
  | fault c cs hf => simpa [divide_of_fault hf, remainder] using first_append c cs
  | cons c cs hf ih => simp [divide_of_read hf, remainder_cons, ih, first_append]

end Piece

/-! ## The opening of a source -/

/-- A line that names an interpreter, or nothing, and the text behind it. -/
def interpreter (text : List Char) : List Char × List Char :=
  if ['#', '!', '/'].isPrefixOf text then
    (text.takeWhile (!isLineEnd ·), text.dropWhile (!isLineEnd ·))
  else ([], text)

theorem opening_of_mark (text : List Char) :
    opening (byteOrderMark :: text) =
      (byteOrderMark :: (interpreter text).1, (interpreter text).2) := by
  by_cases hp : ['#', '!', '/'] <+: text <;> simp [opening, interpreter, hp]

theorem opening_of_head {source : List Char} (h : ∀ c ∈ source.head?, c ≠ byteOrderMark) :
    opening source = interpreter source := by
  have hmark : source.head? ≠ some byteOrderMark := fun hm => h _ hm rfl
  simp [opening, interpreter, hmark]

theorem interpreter_append (text : List Char) :
    (interpreter text).1 ++ (interpreter text).2 = text := by
  unfold interpreter
  split
  · exact List.takeWhile_append_dropWhile
  · rfl

theorem opening_append (source : List Char) :
    (opening source).1 ++ (opening source).2 = source := by
  by_cases hm : ∀ c ∈ source.head?, c ≠ byteOrderMark
  · rw [opening_of_head hm, interpreter_append]
  · obtain ⟨c, hc, rfl⟩ : ∃ c ∈ source.head?, c = byteOrderMark := by simpa using hm
    obtain ⟨text, rfl⟩ := List.head?_eq_some_iff.mp hc
    rw [opening_of_mark, List.cons_append, interpreter_append]

end FrontEnd
