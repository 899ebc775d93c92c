import FrontEnd.Proofs.Lexer.Truncation

/-!
Sources joined by a line feed. A source that is read to its end, with no comment left open,
ends all its tokens before a line feed, and the source behind it is read as it is on its own.
Kinds and texts stay, and starts move by the bytes before.
-/

namespace FrontEnd

/-- The token without its line and column, `d` bytes further on. -/
def Token.moved (d : Nat) (t : Token) : TokenKind × String × Nat := (t.kind, t.text, t.start + d)

namespace Piece

/-- The piece without what stands behind it. -/
def told (x : Piece) : Reading × List Char := (x.reading, x.lexeme)

theorem told_before (rest : List Char) (xs : List Piece) :
    (before rest xs).map told = xs.map told := by
  induction xs with
  | nil => rfl
  | cons x xs ih => simp [before, told, ih]

theorem covered_before (rest : List Char) (xs : List Piece) :
    covered (before rest xs) = covered xs := by
  induction xs with
  | nil => rfl
  | cons x xs ih => rw [before, covered_cons, covered_cons, ih]

theorem byteLength_covered_le (cs : List Char) : byteLength (covered (divide cs)) ≤ byteLength cs := by
  have happend : covered (divide cs) ++ remainder cs (divide cs) = cs := divide_append cs
  have hbytes := congrArg byteLength happend
  rw [byteLength_append] at hbytes
  omega

theorem stop_offset (p : Place) (xs : List Piece) :
    (stop p xs).offset = p.offset + byteLength (covered xs) := by
  induction xs generalizing p with
  | nil => rfl
  | cons x xs ih =>
    rw [stop_cons, ih, Place.after_offset, covered_cons, byteLength_append, Nat.add_assoc]

/-- The same pieces at another place give the same tokens, moved from the one to the other. -/
theorem tokensAt_moved {xs ys : List Piece} (hsame : xs.map told = ys.map told) {p q : Place}
    {d : Nat} (hp : q.offset = p.offset + d)
    (hsize : q.offset + byteLength (covered ys) ≤ greatestOffset) (fileName fileName' : String) :
    (tokensAt fileName' q ys).map (·.moved 0) = (tokensAt fileName p xs).map (·.moved d) := by
  induction xs generalizing ys p q with
  | nil =>
    obtain rfl := List.map_eq_nil_iff.mp hsame.symm
    rfl
  | cons x xs ih =>
    obtain ⟨y, ys, rfl, hy, hys⟩ := List.map_eq_cons_iff.mp hsame.symm
    obtain ⟨hreading, hlexeme⟩ : y.reading = x.reading ∧ y.lexeme = x.lexeme := by
      simpa [told] using hy
    rw [covered_cons, byteLength_append] at hsize
    have hafter : (q.after y.lexeme y.rest).offset = (p.after x.lexeme x.rest).offset + d := by
      rw [Place.after_offset, Place.after_offset, hp, hlexeme, Nat.add_right_comm]
    have hstart : q.tokenStart = p.tokenStart + d := by
      simp only [Place.tokenStart]
      omega
    have htoken : (y.token? fileName' q).toList.map (·.moved 0) =
        (x.token? fileName p).toList.map (·.moved d) := by
      simp only [token?, hreading]
      split <;> simp [Token.moved, hstart]
    rw [tokensAt_cons, tokensAt_cons, List.map_append, List.map_append, htoken,
      ih hys.symm hafter (by rw [Place.after_offset]; omega)]

/-- The tokens among pieces behind which the source ends. -/
def ended (fileName : String) (p : Place) (pieces : List Piece) : List Token :=
  tokensAt fileName p pieces ++
    [⟨.endOfFile, "", (stop p pieces).tokenStart, (stop p pieces).location fileName⟩]

theorem ended_append (fileName : String) (p : Place) (xs ys : List Piece) :
    ended fileName p (xs ++ ys) = tokensAt fileName p xs ++ ended fileName (stop p xs) ys := by
  have hstop : stop p (xs ++ ys) = stop (stop p xs) ys := List.foldl_append
  rw [ended, ended, tokensAt_append, hstop, List.append_assoc]

theorem ended_trivia (fileName : String) (p : Place) (lexeme rest : List Char) (xs : List Piece) :
    ended fileName p (⟨.trivia, lexeme, rest⟩ :: xs) = ended fileName (p.after lexeme rest) xs := by
  rw [ended, ended, tokensAt_cons, stop_cons]
  rfl

theorem ended_moved (xs : List Piece) {p q : Place} {d : Nat} (hp : q.offset = p.offset + d)
    (hsize : q.offset + byteLength (covered xs) ≤ greatestOffset) (fileName fileName' : String) :
    (ended fileName' q xs).map (·.moved 0) = (ended fileName p xs).map (·.moved d) := by
  have hstop : (stop q xs).tokenStart = (stop p xs).tokenStart + d := by
    simp only [Place.tokenStart, stop_offset]
    omega
  rw [ended, ended, List.map_append, List.map_append, tokensAt_moved rfl hp hsize fileName]
  simp [Token.moved, hstop]

theorem exists_mem_placed {x : Piece} {xs : List Piece} (p : Place) (h : x ∈ xs) :
    ∃ q, (q, x) ∈ placed p xs := by
  induction xs generalizing p with
  | nil => cases h
  | cons y ys ih =>
    rcases List.mem_cons.mp h with rfl | h
    · exact ⟨p, List.mem_cons_self⟩
    · obtain ⟨q, hq⟩ := ih (p.after y.lexeme y.rest) h
      exact ⟨q, List.mem_cons_of_mem _ hq⟩

theorem lineFeed_mem_stops {x : Piece} (hf : x.isFault = false) (ho : x.reading ≠ .openComment) :
    '\n' ∈ x.reading.stops := by
  unfold isFault at hf
  unfold Reading.stops
  split <;> simp_all
  split <;> simp [separators]

section Joined

variable {cs : List Char} (hend : unread cs = [])

include hend

theorem clean_eq_divide : clean cs = divide cs := by
  have hdivide := divide_eq_clean cs
  rw [hend, divide_nil, List.append_nil] at hdivide
  exact hdivide.symm

theorem covered_divide : covered (divide cs) = cs := by
  have htext := covered_clean cs
  rwa [hend, List.append_nil, clean_eq_divide hend] at htext

/-- A text that is read to its end, with no comment left open, is divided into the same pieces
before a line feed. -/
theorem divide_joined (hclosed : ∀ x ∈ divide cs, x.reading ≠ .openComment) (ds : List Char) :
    divide (cs ++ '\n' :: ds) =
      before ('\n' :: ds) (divide cs) ++ ⟨.trivia, ['\n'], ds⟩ :: divide ds := by
  have hstops : ∀ x ∈ clean cs, Narrower x.reading.stops ('\n' :: ds) (unread cs) := by
    intro x hx
    have hdivide := clean_eq_divide hend ▸ hx
    exact .of_stop (lineFeed_mem_stops (isFault_of_clean hx) (hclosed x hdivide)) ds
  have hbefore := divide_before cs hstops
  rw [clean_eq_divide hend, covered_divide hend] at hbefore
  rw [hbefore]
  rfl

end Joined

end Piece

open Piece

section Ends

variable {source fileName : String}

theorem unread_eq_nil (h : ∀ t ∈ (lex source fileName).tokens, t.kind ≠ .illegal) :
    unread (opening source.toList).2 = [] := by
  have hbody := body_eq source fileName
  cases hrest : unread (opening source.toList).2 with
  | nil => rfl
  | cons c cs =>
    obtain ⟨t, htokens, hillegal⟩ :=
      tokensAt_of_fault (isFault_of_unread hrest) fileName (faultPlace source)
    rw [fromFault, hrest, String.toList_ofList, htokens] at hbody
    exact absurd hillegal (h t (by simp [TokenStream.tokens, hbody]))

theorem reading_ne_openComment
    (h : ∀ w ∈ (lex source fileName).warnings,
      w.message ≠ LexicalWarning.unterminatedBlockComment.message) :
    ∀ x ∈ divide (opening source.toList).2, x.reading ≠ .openComment := by
  intro x hx hopen
  obtain ⟨q, hplaced⟩ := exists_mem_placed
    (Place.start.after (opening source.toList).1 (opening source.toList).2) hx
  refine h (LexicalWarning.unterminatedBlockComment.at (q.location fileName)) ?_ rfl
  rw [lex_eq]
  refine List.mem_append_left _ (List.mem_filterMap.mpr ⟨(q, x), hplaced, ?_⟩)
  simp [warning?, hopen]

theorem opening_of_plain {cs : List Char} (hmark : cs.head? ≠ some byteOrderMark)
    (hline : ¬['#', '!', '/'] <+: cs) : opening cs = ([], cs) := by
  rw [opening_of_head fun c hc heq => hmark (heq ▸ hc)]
  exact if_neg fun hp => hline (List.isPrefixOf_iff_prefix.mp hp)

end Ends

theorem lex_tokens (source fileName : String) :
    (lex source fileName).tokens =
      ended fileName (Place.start.after (opening source.toList).1 (opening source.toList).2)
        (divide (opening source.toList).2) := by
  rw [TokenStream.tokens, lex_body, TokenStream.last, lex_last]
  rfl

theorem byteLength_opening (source : String) :
    byteLength (opening source.toList).1 + byteLength (opening source.toList).2 =
      source.utf8ByteSize := by
  rw [← byteLength_append, opening_append, byteLength_toList]

/-- A line feed ends what a source opens with. -/
theorem opening_joined (a b : String) :
    opening (a ++ "\n" ++ b).toList =
      ((opening a.toList).1, (opening a.toList).2 ++ '\n' :: b.toList) := by
  have hlist : (a ++ "\n" ++ b).toList =
      (opening a.toList).1 ++ ((opening a.toList).2 ++ '\n' :: b.toList) := by
    rw [← List.append_assoc, opening_append]
    simp
  have hstop : Narrower ['\n'] ('\n' :: b.toList) [] := .of_stop (by decide) _
  have hnarrower := hstop.append (opening a.toList).2
  rw [List.append_nil] at hnarrower
  rw [hlist, opening_again hnarrower]

/-- Behind the pieces of the one source and a line feed stand the pieces of the other. -/
theorem tokens_joined {a : String} (hend : unread (opening a.toList).2 = [])
    (hclosed : ∀ x ∈ divide (opening a.toList).2, x.reading ≠ .openComment)
    (b fileName : String) :
    ∃ p q : Place, p.offset = byteLength (opening a.toList).1 ∧ q.offset = a.utf8ByteSize + 1 ∧
      (lex (a ++ "\n" ++ b) fileName).tokens =
        tokensAt fileName p (before ('\n' :: b.toList) (divide (opening a.toList).2)) ++
          ended fileName q (divide b.toList) := by
  have hbegin : (Place.start.after (opening a.toList).1
      ((opening a.toList).2 ++ '\n' :: b.toList)).offset = byteLength (opening a.toList).1 :=
    Place.start_after_offset _ _
  rw [lex_tokens, opening_joined, divide_joined hend hclosed, ended_append, ended_trivia,
    stop_before, covered_divide hend]
  refine ⟨_, _, hbegin, ?_, rfl⟩
  rw [Place.after_offset, Place.after_offset, hbegin, byteLength_opening]
  rfl

/-- A source that is read to its end, a line feed and another source that opens with nothing of
its own are read as the tokens of the one, and then those of the other at their new starts. -/
theorem lex_joined (a b fileName fileName' fileName'' : String)
    (hsize : a.utf8ByteSize + b.utf8ByteSize < UInt32.size - 1)
    (hlegal : ∀ t ∈ (lex a fileName).tokens, t.kind ≠ .illegal)
    (hclosed : ∀ w ∈ (lex a fileName).warnings,
      w.message ≠ LexicalWarning.unterminatedBlockComment.message)
    (hmark : b.toList.head? ≠ some byteOrderMark) (hline : ¬['#', '!', '/'] <+: b.toList) :
    (lex (a ++ "\n" ++ b) fileName'').tokens.map (·.moved 0) =
      (lex a fileName).tokens.dropLast.map (·.moved 0) ++
        (lex b fileName').tokens.map (·.moved (a.utf8ByteSize + 1)) := by
  have hroom : a.utf8ByteSize + b.utf8ByteSize + 1 ≤ greatestOffset := by
    rw [greatestOffset]
    change _ < 4294967296 - 1 at hsize
    omega
  have hend := unread_eq_nil hlegal
  obtain ⟨p, q, hp, hq, htokens⟩ :=
    tokens_joined hend (reading_ne_openComment hclosed) b fileName''
  have hfront : (tokensAt fileName'' p
      (before ('\n' :: b.toList) (divide (opening a.toList).2))).map (·.moved 0) =
        (lex a fileName).tokens.dropLast.map (·.moved 0) := by
    have hbytes := byteLength_opening a
    rw [TokenStream.tokens, List.dropLast_concat, lex_body]
    refine tokensAt_moved (told_before _ _).symm ?_ ?_ _ _
    · rw [hp, Place.start_after_offset, Nat.add_zero]
    · rw [hp, covered_before, covered_divide hend]
      omega
  have hback : (ended fileName'' q (divide b.toList)).map (·.moved 0) =
      (lex b fileName').tokens.map (·.moved (a.utf8ByteSize + 1)) := by
    have hbytes := byteLength_covered_le b.toList
    rw [byteLength_toList] at hbytes
    rw [lex_tokens, opening_of_plain hmark hline]
    refine ended_moved _ (hq.trans (Nat.zero_add _).symm) ?_ _ _
    rw [hq]
    omega
  rw [htokens, List.map_append, hfront, hback]

/-- A byte order mark, an interpreter and a comment at the end of the one source, a fault in the
other. -/
theorem lex_joined_of_comment :
    let a := "\uFEFF#!/bin/run\nx = 1_0.5 // é"
    let b := "/* y */ z 'w\n"
    a.utf8ByteSize + b.utf8ByteSize < UInt32.size - 1 ∧
      (lex (a ++ "\n" ++ b) "c.hz").tokens.map (·.moved 0) =
        (lex a "a.hz").tokens.dropLast.map (·.moved 0) ++
          (lex b "b.hz").tokens.map (·.moved (a.utf8ByteSize + 1)) := by
  intro a b
  have hsize : a.utf8ByteSize + b.utf8ByteSize < UInt32.size - 1 := by decide
  have hlegal : ∀ t ∈ (lex a "a.hz").tokens, t.kind ≠ .illegal := by decide +kernel
  have hclosed : ∀ w ∈ (lex a "a.hz").warnings,
      w.message ≠ LexicalWarning.unterminatedBlockComment.message := by decide +kernel
  have hmark : b.toList.head? ≠ some byteOrderMark := by decide
  have hline : ¬['#', '!', '/'] <+: b.toList := by decide
  exact ⟨hsize, lex_joined a b "a.hz" "b.hz" "c.hz" hsize hlegal hclosed hmark hline⟩

end FrontEnd
