import FrontEnd.Proofs.Lexer.Scanners
import FrontEnd.Proofs.Lexer.Spelling

/-!
The lexer reads the pieces of its source. One step of it reads the piece in front, a run reads
one piece after the other up to the end or the first fault, and what it has gathered then are the
tokens, the warnings and the count of braces that the pieces tell. So its stream is the one that
is put together from the pieces.
-/

namespace FrontEnd

theorem braceDepth_cons (t : Token) (tokens : List Token) :
    braceDepth (t :: tokens) = t.kind.depth + braceDepth tokens := by
  unfold braceDepth
  rw [List.countP_cons, List.countP_cons]
  by_cases hleft : t.kind = .leftBrace
  · simp [hleft, TokenKind.depth]
    omega
  · by_cases hright : t.kind = .rightBrace
    · simp [hright, TokenKind.depth]
      omega
    · have hdepth : t.kind.depth = 0 := by
        unfold TokenKind.depth
        split <;> simp_all
      simp [hleft, hright, hdepth]

theorem Piece.braceDepth_token? (fileName : String) (p : Place) (x : Piece) (tokens : List Token) :
    braceDepth ((x.token? fileName p).toList ++ tokens) = x.depth + braceDepth tokens := by
  unfold token? depth
  cases x.reading with
  | trivia | openComment => simp
  | token kind text => exact braceDepth_cons _ _
  | fault cause => exact braceDepth_cons _ _

namespace Lexer

/-- The lexer behind the piece, with the token that the piece tells. -/
def read (l : Lexer) (x : Piece) : Lexer :=
  { l.past x with tokens := (x.token? l.fileName l.buffer.place).toList ++ l.tokens }

/-- What a source may open with does not stand in front of the lexer. -/
def Inside (l : Lexer) : Prop :=
  ∀ c cs, l.buffer.ahead = c :: cs → ¬(c = byteOrderMark ∧ l.begin.offset = 0) ∧
    ¬(['#', '!', '/'] <+: c :: cs ∧ (l.taking [c] cs).atFirstCharacter l.begin = true)

variable {l : Lexer} {lexeme rest cs : List Char} {c : Char}

/-! ## One step -/

/-- A token stands one column behind the character before it, if it begins with no line end. -/
theorem location_taking (h : isLineEnd c = false) (cs : List Char) :
    (l.taking [c] cs).location = l.begin.location := by
  have hend : Place.endsLine c cs.head? = false := by
    simp only [isLineEnd, Bool.or_eq_false_iff, decide_eq_false_iff_not] at h
    simp [Place.endsLine, h]
  simp [location, begin, Place.after, Place.step, hend, Place.location]

/-- Wherever it starts, a line end is no token. -/
theorem lexToken_of_lineEnd (h : isLineEnd c = true) (start : Start) :
    l.lexToken c start = (.ok none, l) := by
  rw [lexToken, if_pos h, ite_self]

theorem next_of_ahead (h : l.buffer.ahead = c :: cs) {start : Start}
    (hstart : ⟨l.buffer.offset, (l.taking [c] cs).location⟩ = start)
    {result : Except LexicalError (Option Token) × Lexer}
    (hresult : (l.taking [c] cs).lexToken c start = result) :
    l.next = (some (start, result.1), result.2) := by
  subst hstart hresult
  unfold next
  rw [Buffer.advance_of_ahead h]
  rfl

/-- What begins in front of the lexer is a piece. If it is no line end, it starts there. -/
theorem next_eq (hl : l.buffer.Counts) (hs : cs.length < l.steps) (hin : l.Inside)
    (h : l.buffer.ahead = c :: cs) :
    ∃ start, l.next = (some (start, (l.reads (Piece.first c cs)).1), l.past (Piece.first c cs)) ∧
      (start = l.begin ∨ (Piece.first c cs).reading = .trivia) := by
  cases hend : isLineEnd c with
  | true =>
    have hfirst : Piece.first c cs = ⟨.trivia, [c], cs⟩ := by
      rw [Piece.first, if_pos (isBlank_of_isLineEnd hend)]
    have hreads : l.reads ⟨.trivia, [c], cs⟩ = (.ok none, l.taking [c] cs) := reads_of_trivia rfl
    refine ⟨_, next_of_ahead h rfl ((lexToken_of_lineEnd hend _).trans ?_), .inr ?_⟩
    · rw [hfirst, hreads]
    · rw [hfirst]
  | false =>
    obtain ⟨hmark, hline⟩ := hin c cs h
    have hstart : ⟨l.buffer.offset, (l.taking [c] cs).location⟩ = l.begin := by
      rw [location_taking hend]
      rfl
    exact ⟨_, next_of_ahead h hstart (lexToken_taking hl hs c hmark hline), .inl rfl⟩

/-- One step reads the piece in front, and a fault is the last. -/
theorem step_eq (hl : l.buffer.Counts) (hs : cs.length < l.steps) (hin : l.Inside)
    (h : l.buffer.ahead = c :: cs) :
    l.step =
      (if (Piece.first c cs).isFault then some true else none, l.read (Piece.first c cs)) := by
  obtain ⟨start, hnext, hstart⟩ := next_eq hl hs hin h
  unfold step
  rw [hnext]
  generalize Piece.first c cs = x at *
  cases hx : x.reading with
  | trivia | openComment =>
    simp [reads, read, Piece.token?, Piece.isFault, hx]
    rfl
  | token kind text =>
    simp [reads, read, Piece.token?, Piece.isFault, hx]
    exact ⟨rfl, rfl⟩
  | fault cause =>
    rw [hx] at hstart
    obtain rfl : start = l.begin := by simpa using hstart
    simp [reads, read, Piece.token?, Piece.isFault, hx]
    exact ⟨rfl, rfl⟩

/-! ## The opening of a source -/

/-- Behind more than the mark of the byte order nothing is read that a source may open with. -/
theorem inside_of_taken (hne : lexeme ≠ [])
    (hmark : ¬(l.buffer.offset = 0 ∧ lexeme = [byteOrderMark]))
    {l' : Lexer} (hl' : l'.buffer = l.buffer.take lexeme rest) : l'.Inside := by
  have hoffset : l'.begin.offset = l.buffer.offset + byteLength lexeme := by
    rw [begin, hl', Buffer.offset_take]
  obtain ⟨front, d, rfl⟩ : ∃ front d, lexeme = front ++ [d] :=
    ⟨_, _, (List.dropLast_concat_getLast hne).symm⟩
  rw [byteLength_append, byteLength_cons, byteLength_nil] at hoffset
  have hpos := d.utf8Size_pos
  intro c cs _
  refine ⟨fun h => ?_, fun h => ?_⟩
  · have hzero := h.2
    omega
  have hfirst := h.2
  have hprevious : (l'.taking [c] cs).buffer.previous 2 = some d := by
    simp [hl', Buffer.previous]
  simp only [atFirstCharacter, hprevious, Option.some.injEq, Bool.or_eq_true, Bool.and_eq_true,
    decide_eq_true_eq] at hfirst
  rcases hfirst with hzero | ⟨hsize, rfl⟩
  · omega
  · have hfront : byteLength front = 0 := by omega
    obtain rfl : front = [] := by
      cases front with
      | nil => rfl
      | cons c front =>
        have := c.utf8Size_pos
        rw [byteLength_cons] at hfront
        omega
    exact hmark ⟨by simpa using hoffset.symm.trans hsize, rfl⟩

theorem Inside.past (hin : l.Inside) (h : l.buffer.ahead = c :: cs) :
    (l.past (Piece.first c cs)).Inside := by
  obtain ⟨happend, hne⟩ := Piece.first_splits c cs
  refine inside_of_taken hne ?_ rfl
  rintro ⟨hzero, hlexeme⟩
  rw [hlexeme] at happend
  obtain ⟨rfl, -⟩ := List.cons.inj happend
  exact (hin _ cs h).1 ⟨rfl, hzero⟩

/-- The lexer goes on without a token. -/
inductive Skips : Lexer → Lexer → Prop where
  | refl {l : Lexer} : Skips l l
  | next {l l' l'' : Lexer} {start : Start} (h : l.next = (some (start, .ok none), l'))
    (hlt : l'.buffer.ahead.length < l.buffer.ahead.length) (ht : Skips l' l'') : Skips l l''

theorem Skips.ends {l' : Lexer} {r : Option Bool × Lexer} (h : Skips l l')
    (hr : Ends step l'.buffer.ahead.length l' r) : Ends step l.buffer.ahead.length l r := by
  induction h with
  | refl => exact hr
  | next h hlt _ ih =>
    refine .next ?_ hlt (ih hr)
    rw [step, h]

theorem next_of_mark (h : l.buffer.ahead = byteOrderMark :: cs) (hzero : l.buffer.offset = 0) :
    ∃ start, l.next = (some (start, .ok none), l.taking [byteOrderMark] cs) := by
  have hresult (start : Start) (hstart : start.offset = 0) :
      (l.taking [byteOrderMark] cs).lexToken byteOrderMark start =
        (.ok none, l.taking [byteOrderMark] cs) := by
    rw [lexToken, if_pos (by simp [hstart])]
  exact ⟨_, next_of_ahead h rfl (hresult _ hzero)⟩

theorem next_of_interpreter (hs : ('!' :: '/' :: cs).length < l.steps)
    (h : l.buffer.ahead = '#' :: '!' :: '/' :: cs)
    (hfirst : (l.taking ['#'] ('!' :: '/' :: cs)).atFirstCharacter
      ⟨l.buffer.offset, (l.taking ['#'] ('!' :: '/' :: cs)).location⟩ = true) :
    ∃ start, l.next = (some (start, .ok none), l.taking
      ('#' :: '!' :: '/' :: cs.takeWhile (!isLineEnd ·)) (cs.dropWhile (!isLineEnd ·))) := by
  have hblank : Unicode.isBlank '#' = false := by decide +kernel
  have hword : isWordStart '#' = false := by decide +kernel
  have hsharp : ('#' = byteOrderMark) = False := by decide
  have hresult : (l.taking ['#'] ('!' :: '/' :: cs)).lexToken '#'
      ⟨l.buffer.offset, (l.taking ['#'] ('!' :: '/' :: cs)).location⟩ =
        (.ok none, (l.taking ['#'] ('!' :: '/' :: cs)).skipLine) := by
    simp [lexToken, hblank, hword, hfirst, hsharp, isLineEnd]
  have hline : (l.taking ['#'] ('!' :: '/' :: cs)).skipLine = l.taking
      ('#' :: '!' :: '/' :: cs.takeWhile (!isLineEnd ·)) (cs.dropWhile (!isLineEnd ·)) := by
    rw [skipLine_taking hs]
    simp [isLineEnd]
  rw [hline] at hresult
  exact ⟨_, next_of_ahead h rfl hresult⟩

theorem interpreter_of_prefix (cs : List Char) :
    interpreter ('#' :: '!' :: '/' :: cs) =
      ('#' :: '!' :: '/' :: cs.takeWhile (!isLineEnd ·), cs.dropWhile (!isLineEnd ·)) := by
  simp [interpreter, isLineEnd]

theorem interpreter_of_other {text : List Char} (h : ¬['#', '!', '/'] <+: text) :
    interpreter text = ([], text) := by
  rw [interpreter, if_neg (mt List.isPrefixOf_iff_prefix.mp h)]

variable {text : List Char}

theorem skips_interpreter (hs : text.length ≤ l.steps) (h : l.buffer.ahead = text)
    (hfirst : ∀ cs, (l.taking ['#'] cs).atFirstCharacter
      ⟨l.buffer.offset, (l.taking ['#'] cs).location⟩ = true) :
    Skips l (l.taking (interpreter text).1 (interpreter text).2) := by
  by_cases hprefix : ['#', '!', '/'] <+: text
  · obtain ⟨cs, rfl⟩ := hprefix
    simp only [List.cons_append, List.nil_append, interpreter_of_prefix] at hs h ⊢
    have hle := (List.dropWhile_suffix (!isLineEnd ·) : cs.dropWhile _ <:+ cs).length_le
    obtain ⟨start, hnext⟩ := next_of_interpreter hs h (hfirst _)
    refine .next hnext ?_ .refl
    rw [h, buffer_taking, Buffer.ahead_take]
    simp only [List.length_cons]
    omega
  · rw [interpreter_of_other hprefix]
    subst h
    exact .refl

theorem inside_interpreter (h : l.buffer.ahead = text)
    (hmark : ∀ cs, text = byteOrderMark :: cs → l.buffer.offset ≠ 0) :
    (l.taking (interpreter text).1 (interpreter text).2).Inside := by
  by_cases hprefix : ['#', '!', '/'] <+: text
  · obtain ⟨cs, rfl⟩ := hprefix
    simp only [List.cons_append, List.nil_append, interpreter_of_prefix]
    refine inside_of_taken (by simp) ?_ rfl
    simp
  · rw [interpreter_of_other hprefix]
    subst h
    rintro c cs hahead
    change l.buffer.ahead = c :: cs at hahead
    refine ⟨?_, fun ⟨hline, _⟩ => hprefix (hahead ▸ hline)⟩
    rintro ⟨rfl, hzero⟩
    exact hmark cs hahead hzero

/-- What the source opens with is no token, and behind it the lexer is inside of the source. -/
theorem skips_opening (source fileName : String) :
    let l := (ofString source fileName).taking (opening source.toList).1 (opening source.toList).2
    Skips (ofString source fileName) l ∧ l.Inside := by
  have hsteps : source.toList.length ≤ (ofString source fileName).steps := by
    rw [String.length_toList]
    exact Nat.le_succ _
  have hahead : (ofString source fileName).buffer.ahead = source.toList := rfl
  have hzero : (ofString source fileName).buffer.offset = 0 := rfl
  generalize ofString source fileName = l at *
  intro l'
  by_cases hm : ∀ c ∈ source.toList.head?, c ≠ byteOrderMark
  · unfold l'
    rw [opening_of_head hm]
    refine ⟨skips_interpreter hsteps hahead fun cs => ?_, inside_interpreter hahead ?_⟩
    · simp [atFirstCharacter, hzero]
    · intro cs hcs
      exact absurd rfl (hm byteOrderMark (by rw [hcs]; rfl))
  · obtain ⟨c, hc, rfl⟩ : ∃ c ∈ source.toList.head?, c = byteOrderMark := by simpa using hm
    obtain ⟨text, htext⟩ := List.head?_eq_some_iff.mp hc
    have htaken : (l.taking [byteOrderMark] text).taking (interpreter text).1 (interpreter text).2 =
        l' := by
      have h := taking_taking l [byteOrderMark] (interpreter text).1 (interpreter text).2
      rw [interpreter_append] at h
      rw [h]
      unfold l'
      rw [htext, opening_of_mark]
      rfl
    have hoffset : (l.buffer.take [byteOrderMark] text).offset = byteOrderMark.utf8Size := by
      rw [Buffer.offset_take, hzero]
      rfl
    rw [htext] at hahead hsteps
    obtain ⟨start, hnext⟩ := next_of_mark hahead hzero
    rw [← htaken]
    refine ⟨.next hnext (hahead ▸ Nat.lt_succ_self _)
      (skips_interpreter (Nat.le_of_succ_le hsteps) rfl fun cs => ?_),
      inside_interpreter rfl fun cs _ => ?_⟩
    · simp [atFirstCharacter, hoffset, Buffer.previous]
    · rw [buffer_taking, hoffset]
      decide

/-! ## A run -/

theorem step_of_end (h : l.buffer.ahead = []) : l.step = (some false, l) := by
  simp [step, next, Buffer.advance, h]

/-- Inside of the source the lexer reads one piece after the other. -/
theorem ends_divide (hl : l.buffer.Counts) (hs : l.buffer.ahead.length < l.steps) (hin : l.Inside) :
    Ends step l.buffer.ahead.length l
      (some ((Piece.divide l.buffer.ahead).any (·.isFault)),
        (Piece.divide l.buffer.ahead).foldl read l) := by
  induction h : l.buffer.ahead using Piece.divide_induct generalizing l with
  | nil => exact .last (step_of_end h)
  | fault c cs hf =>
    have hcs : cs.length < l.steps := by
      rw [h] at hs
      exact Nat.lt_of_succ_lt hs
    refine .last ?_
    rw [step_eq hl hcs hin h, if_pos hf, Piece.divide_of_fault hf]
    simp [hf]
  | cons c cs hf ih =>
    have hcs : cs.length < l.steps := by
      rw [h] at hs
      exact Nat.lt_of_succ_lt hs
    have hstep : l.step = (none, l.read (Piece.first c cs)) := by
      rw [step_eq hl hcs hin h, hf]
      rfl
    have hle := Piece.first_rest_length_le c cs
    rw [Piece.divide_of_read hf, List.any_cons, hf, Bool.false_or, List.foldl_cons]
    refine .next hstep (Nat.lt_succ_of_le hle) (ih (hl.take _ _) ?_ (hin.past h) rfl)
    exact Nat.lt_of_le_of_lt hle hcs

section Folds

variable (l : Lexer) (pieces : List Piece)

theorem foldl_read_place :
    (pieces.foldl read l).buffer.place = Piece.stop l.buffer.place pieces := by
  induction pieces generalizing l with
  | nil => rfl
  | cons x xs ih => exact ih (l.read x)

theorem foldl_read_fileName : (pieces.foldl read l).fileName = l.fileName := by
  induction pieces generalizing l with
  | nil => rfl
  | cons x xs ih => exact ih (l.read x)

theorem foldl_read_tokens : (pieces.foldl read l).tokens =
    (Piece.tokensAt l.fileName l.buffer.place pieces).reverse ++ l.tokens := by
  induction pieces generalizing l with
  | nil => rfl
  | cons x xs ih =>
    have hread : (l.read x).tokens = (x.token? l.fileName l.buffer.place).toList ++ l.tokens := rfl
    rw [List.foldl_cons, ih, Piece.tokensAt_cons, List.reverse_append, List.append_assoc, hread]
    cases x.token? l.fileName l.buffer.place <;> rfl

theorem foldl_read_warnings : (pieces.foldl read l).warnings =
    ((Piece.placed l.buffer.place pieces).filterMap fun (p, x) =>
      x.warning?.map (·.at (p.location l.fileName))).reverse ++ l.warnings := by
  induction pieces generalizing l with
  | nil => rfl
  | cons x xs ih =>
    have hread : (l.read x).warnings =
        (x.warning?.map (·.at l.begin.location)).toList ++ l.warnings := rfl
    rw [List.foldl_cons, ih, Piece.placed, hread]
    cases hx : x.warning? <;> simp [hx] <;> rfl

/-- The count of braces goes on with those of the tokens. -/
theorem foldl_read_depth : (pieces.foldl read l).depth =
    l.depth + braceDepth (Piece.tokensAt l.fileName l.buffer.place pieces) := by
  induction pieces generalizing l with
  | nil => simp [Piece.tokensAt, Piece.placed, braceDepth]
  | cons x xs ih =>
    have hread : (l.read x).depth = l.depth + x.depth := rfl
    rw [List.foldl_cons, ih, Piece.tokensAt_cons, Piece.braceDepth_token?, hread, Int.add_assoc]
    rfl

end Folds

end Lexer

/-- A fault, and no other piece, gives a token that tells of one. -/
theorem Piece.any_isFault (fileName : String) (p : Place) (cs : List Char) :
    (divide cs).any (·.isFault) = (tokensAt fileName p (divide cs)).any (·.kind == .illegal) := by
  induction cs using divide_induct generalizing p with
  | nil => rfl
  | fault c cs hf =>
    rw [divide_of_fault hf, tokensAt_cons]
    cases hx : (first c cs).reading with
    | fault cause => simp [hf, token?, hx]
    | trivia | openComment | token => simp [isFault, hx] at hf
  | cons c cs hf ih =>
    have hsound := first_sound c cs []
    rw [divide_of_read hf, tokensAt_cons, List.any_append, ← ih, List.any_cons, hf]
    unfold Sound at hsound
    cases hx : (first c cs).reading with
    | trivia | openComment => simp [token?, hx]
    | token kind text =>
      rw [hx] at hsound
      simp [token?, hx, hsound.kind_ne.1]
    | fault cause => simp [isFault, hx] at hf

/-- There are steps enough for the whole source, and for what stands behind its opening. -/
theorem Lexer.steps_opening (source fileName : String) :
    let l := (ofString source fileName).taking (opening source.toList).1 (opening source.toList).2
    (ofString source fileName).buffer.ahead.length < (ofString source fileName).steps ∧
      l.buffer.ahead.length < l.steps := by
  intro l
  have hlength := congrArg List.length (opening_append source.toList)
  have hahead : (ofString source fileName).buffer.ahead = source.toList := rfl
  have hsteps : (ofString source fileName).steps = source.toList.length + 1 := by
    rw [String.length_toList]
    rfl
  rw [List.length_append] at hlength
  rw [hahead, hsteps]
  refine ⟨Nat.lt_succ_self _, ?_⟩
  change (opening source.toList).2.length < (ofString source fileName).steps
  omega

/-- A run reads the pieces behind what the source opens with. -/
theorem Lexer.run_eq (source fileName : String) :
    let l := (ofString source fileName).taking (opening source.toList).1 (opening source.toList).2
    (ofString source fileName).run =
      ((Piece.divide (opening source.toList).2).any (·.isFault),
        (Piece.divide (opening source.toList).2).foldl read l) := by
  obtain ⟨hskips, hin⟩ := skips_opening source fileName
  obtain ⟨hsteps, hs⟩ := steps_opening source fileName
  have hends := hskips.ends (ends_divide ((Buffer.counts_ofString source).take _ _) hs hin)
  unfold run
  rw [hends (ofString source fileName).steps hsteps]
  rfl

theorem Lexer.finish_eq (failed : Bool) (l : Lexer) :
    let stop := l.buffer.place.location l.fileName
    let last : Option LexicalWarning :=
      if failed || l.depth == 0 then none else some (.unbalancedBraces l.depth)
    l.finish failed = ⟨l.fileName, l.tokens.reverse, (l.buffer.place.tokenStart, stop),
      l.warnings.reverse ++ (last.map (·.at stop)).toList⟩ := by
  have hquiet : (!failed && l.depth != 0) = !(failed || l.depth == 0) := by
    rw [Bool.not_or]
    rfl
  unfold finish
  dsimp only
  rw [hquiet]
  cases failed || l.depth == 0 with
  | true =>
    simp only [Bool.not_true, Bool.false_eq_true, if_false, if_true, Option.map_none,
      Option.toList_none, List.append_nil]
    rfl
  | false =>
    simp only [Bool.not_false, Bool.false_eq_true, if_false, if_true, Option.map_some,
      Option.toList_some, warn, List.reverse_cons]
    rfl

/-- The stream of a source is put together from its pieces. -/
theorem lex_eq (source fileName : String) :
    lex source fileName = TokenStream.ofPieces source fileName := by
  unfold lex
  rw [Lexer.run_eq]
  dsimp only
  rw [Lexer.finish_eq, Lexer.foldl_read_tokens, Lexer.foldl_read_warnings, Lexer.foldl_read_depth,
    Lexer.foldl_read_place, Lexer.foldl_read_fileName, List.reverse_append, List.reverse_append,
    List.reverse_reverse, List.reverse_reverse,
    Piece.any_isFault fileName
      (Place.start.after (opening source.toList).1 (opening source.toList).2)]
  have hzero : ((Lexer.ofString source fileName).taking (opening source.toList).1
    (opening source.toList).2).depth = 0 := rfl
  rw [hzero, Int.zero_add]
  rfl

end FrontEnd
