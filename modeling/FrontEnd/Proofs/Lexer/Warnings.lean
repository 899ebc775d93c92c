import FrontEnd.Proofs.Lexer.Lines
import FrontEnd.Proofs.Lexer.Truncation

/-!
Warnings of a source. They are told by its tokens, and by whether it ends inside of a block
comment: a comment opens, and is not closed, where the tokens of the source and trivia
between them have led from its start.
-/

namespace FrontEnd

/-- From its boundary `n` to its boundary `m` the source is made of the tokens in order, each at
its offset, and of trivia between them. -/
inductive Covers (source : List Char) : Nat → List (Nat × Token) → Nat → Prop where
  | done {n : Nat} : Covers source n [] n
  | trivia {n m : Nat} {lexeme rest : List Char} {tokens : List (Nat × Token)}
    (h : source.drop n = lexeme ++ rest) (ht : Trivia (source.take n) lexeme rest)
    (hs : Covers source (n + lexeme.length) tokens m) : Covers source n tokens m
  | token {n m offset : Nat} {lexeme rest : List Char} {t : Token} {tokens : List (Nat × Token)}
    (h : source.drop n = lexeme ++ rest) (hp : offset = byteLength (source.take n))
    (ht : Spells t.kind t.text.toList lexeme rest)
    (hs : Covers source (n + lexeme.length) tokens m) : Covers source n ((offset, t) :: tokens) m

/-- A block comment that is not closed. -/
def Unclosed (text : List Char) : Prop :=
  ∃ body, text = '/' :: '*' :: body ∧ ¬['*', '/'] <:+: body

/-- Behind the tokens a block comment opens at the boundary `n`, and is not closed. -/
def LeftOpen (source : List Char) (tokens : List (Nat × Token)) (n : Nat) : Prop :=
  Covers source 0 tokens n ∧ Unclosed (source.drop n)

/-! ## Trivia and lexemes are told by the text -/

namespace RestOfLine

variable {body rest : List Char}

theorem takeWhile_eq (h : RestOfLine body rest) :
    (body ++ rest).takeWhile (!isLineEnd ·) = body := by
  rw [List.takeWhile_append_of_pos fun c hc => by rw [h.1 c hc]; rfl]
  cases rest with
  | nil => exact List.append_nil _
  | cons c rest => rw [List.takeWhile_cons_of_neg (by simp [h.2 c rfl]), List.append_nil]

theorem dropWhile_eq (h : RestOfLine body rest) :
    (body ++ rest).dropWhile (!isLineEnd ·) = rest := by
  have happend := List.takeWhile_append_dropWhile (p := (!isLineEnd ·)) (l := body ++ rest)
  rw [h.takeWhile_eq] at happend
  exact List.append_cancel_left happend

end RestOfLine

/-- How a token is written its kind and its text tell, in front of a given text. -/
theorem Spells.lexeme_eq {kind : TokenKind} {text lexeme rest lexeme' rest' : List Char}
    (h : Spells kind text lexeme rest) (h' : Spells kind text lexeme' rest')
    (happend : lexeme ++ rest = lexeme' ++ rest') : lexeme = lexeme' := by
  by_cases hk : kind.isTrivia = false
  · rw [h.eq_lexeme hk, h'.eq_lexeme hk]
  have hline {body body' : List Char} (hb : RestOfLine body rest) (hb' : RestOfLine body' rest')
      (h : body ++ rest = body' ++ rest') : body = body' := by
    rw [← hb.takeWhile_eq, h, hb'.takeWhile_eq]
  generalize htext : text = text' at h'
  cases h with
  | fixed hf => exact absurd (by cases kind <;> first | rfl | cases hf) hk
  | plain hp => exact absurd (by cases kind <;> first | rfl | cases hp) hk
  | comment ho hb =>
    cases h' with
    | fixed hf => cases hf
    | plain hp => cases hp
    | comment ho' hb' =>
      rcases ho with rfl | rfl <;> rcases ho' with rfl | rfl <;> simp at happend ⊢
      · exact hline hb hb' happend
      · exact hline hb hb' happend
  | docComment hb =>
    cases h' with
    | fixed hf => cases hf
    | plain hp => cases hp
    | docComment hb' =>
      simp at happend ⊢
      exact hline hb hb' happend
  | _ => exact absurd rfl hk

namespace Piece

theorem isBlank_of_trim {cs : List Char} (h : trim cs = []) :
    ∀ c ∈ cs, Unicode.isBlank c = true := by
  rw [trim_eq, List.rdropWhile_eq_nil_iff] at h
  intro c hc
  rw [← List.takeWhile_append_dropWhile (p := Unicode.isBlank) (l := cs)] at hc
  rcases List.mem_append.mp hc with hc | hc
  · exact List.all_eq_true.mp List.all_takeWhile c hc
  · exact h c hc

/-- A blank comment is no token. -/
theorem lineComment_of_blank {kind : TokenKind} {opening body rest : List Char}
    (h : RestOfLine body rest) (hb : trim body = []) :
    lineComment kind opening (body ++ rest) = ⟨.trivia, opening ++ body, rest⟩ := by
  unfold lineComment
  simp only [h.takeWhile_eq, h.dropWhile_eq, hb]
  rfl

theorem blockComment_of_closed {body rest : List Char} (h : FirstBehind ['*', '/'] body rest) :
    blockComment (body ++ ['*', '/'] ++ rest) =
      ⟨.trivia, ['/', '*'] ++ body ++ ['*', '/'], rest⟩ := by
  have hsource := Closing.ofComment.source_read (body ++ ['*', '/'] ++ rest)
  unfold blockComment
  cases hr : Closing.ofComment.read (body ++ ['*', '/'] ++ rest) with
  | cut taken back =>
    obtain ⟨-, -, hno⟩ := Closing.cut_spec rfl rfl (by decide) hr
    exact absurd ⟨body, rest, rfl⟩ hno
  | closed text back =>
    rw [hr] at hsource
    change text ++ ['*', '/'] ++ back = body ++ ['*', '/'] ++ rest at hsource
    have hfirst : FirstBehind ['*', '/'] text back := Closing.firstBehind_of_closed rfl rfl hr
    have hle := h text back hsource.symm
    have hge := hfirst body rest hsource
    rw [List.append_assoc, List.append_assoc] at hsource
    obtain ⟨rfl, hback⟩ := List.append_inj hsource (Nat.le_antisymm hge hle)
    obtain rfl := List.append_cancel_left hback
    rfl

theorem blockComment_of_open {body : List Char} (h : ¬['*', '/'] <:+: body) :
    blockComment body = ⟨.openComment, ['/', '*'] ++ body, []⟩ := by
  have hsource := Closing.ofComment.source_read body
  unfold blockComment
  cases hr : Closing.ofComment.read body with
  | closed text back =>
    rw [hr] at hsource
    exact absurd ⟨text, back, hsource⟩ h
  | cut taken back =>
    obtain ⟨rfl, rfl, -⟩ := Closing.cut_spec rfl rfl (by decide) hr
    rfl

end Piece

/-- A source opens with the text behind `behind`. -/
inductive Opens : (behind lexeme rest : List Char) → Prop where
  | orderMark {rest : List Char} : Opens [] [byteOrderMark] rest
  | interpreter {behind body rest : List Char} (hs : behind = [] ∨ behind = [byteOrderMark])
    (h : RestOfLine body rest) : Opens behind (['#', '!', '/'] ++ body) rest

theorem Opens.behind {behind lexeme rest : List Char} (h : Opens behind lexeme rest) :
    behind = [] ∨ behind = [byteOrderMark] := by
  cases h with
  | orderMark => exact .inl rfl
  | interpreter hs => exact hs

theorem Opens.trivia {behind lexeme rest : List Char} (h : Opens behind lexeme rest) :
    Trivia behind lexeme rest := by
  cases h with
  | orderMark => exact .orderMark
  | interpreter hs h => exact .interpreter hs h

theorem Unclosed.first {text : List Char} (h : Unclosed text) :
    ∃ cs, text = '/' :: cs ∧ Piece.first '/' cs = ⟨.openComment, text, []⟩ := by
  obtain ⟨body, rfl, hbody⟩ := h
  exact ⟨'*' :: body, rfl, Piece.blockComment_of_open hbody⟩

/-- But for what a source opens with, and but for a comment left open, trivia are read as such. -/
theorem Trivia.reads {behind lexeme rest : List Char} (h : Trivia behind lexeme rest) :
    Opens behind lexeme rest ∨ (Unclosed lexeme ∧ rest = []) ∨
      ∃ c cs, lexeme = c :: cs ∧ Piece.first c (cs ++ rest) = ⟨.trivia, lexeme, rest⟩ := by
  cases h with
  | orderMark => exact .inl .orderMark
  | interpreter hs h => exact .inl (.interpreter hs h)
  | openComment h => exact .inr (.inl ⟨⟨_, rfl, h⟩, rfl⟩)
  | blank h => exact .inr (.inr ⟨_, [], rfl, by simp [Piece.first, h]⟩)
  | @closedComment _ body _ h =>
    exact .inr (.inr ⟨'/', '*' :: (body ++ ['*', '/']), rfl, Piece.blockComment_of_closed h⟩)
  | @blankComment _ _ body _ ho h hb =>
    have hread {kind : TokenKind} {opening : List Char} :
        Piece.lineComment kind opening (body ++ rest) = ⟨.trivia, opening ++ body, rest⟩ :=
      Piece.lineComment_of_blank h hb
    rcases ho with rfl | rfl | rfl
    · have hhead : ∀ c ∈ (body ++ rest).head?, c ≠ '/' := by
        rintro c hc rfl
        cases body with
        | nil => exact absurd (h.2 '/' hc) (by decide)
        | cons d body =>
          cases hc
          exact absurd (Piece.isBlank_of_trim hb '/' List.mem_cons_self) (by decide)
      refine .inr (.inr ⟨'/', '/' :: body, rfl, ?_⟩)
      rw [List.cons_append, Piece.first_slash, Piece.slash_of_comment hhead]
      exact hread
    · exact .inr (.inr ⟨'#', body, rfl, hread⟩)
    · exact .inr (.inr ⟨'/', '/' :: '/' :: body, rfl, hread⟩)

theorem Piece.unclosed_of_first {c : Char} {cs : List Char}
    (h : (first c cs).reading = .openComment) : Unclosed (c :: cs) := by
  have hsound := first_sound c cs [' ']
  have happend := first_append c cs
  rw [Sound, h] at hsound
  rcases Trivia.reads hsound with hopen | ⟨hopen, hrest⟩ | ⟨d, ds, hlexeme, hread⟩
  · rcases hopen.behind with hb | hb
    · cases hb
    · simp [byteOrderMark] at hb
  · rwa [← happend, hrest, List.append_nil]
  · rw [hlexeme, List.cons_append] at happend
    obtain ⟨rfl, hcs⟩ := List.cons.inj happend
    rw [hcs] at hread
    rw [hread] at h
    cases h

/-! ## The opening of a source -/

section Opening

variable {source : List Char} {n m : Nat} {lexeme rest : List Char}
  {tokens : List (Nat × Token)}

/-- Elsewhere, what a source may open with is a fault or a comment. -/
theorem Opens.first_ne {behind cs : List Char} {c : Char} (h : Opens behind lexeme rest)
    (hcs : lexeme ++ rest = c :: cs) : c ≠ '/' ∧ (Piece.first c cs).reading ≠ .trivia := by
  cases h with
  | orderMark =>
    cases hcs
    refine ⟨by decide, fun hread => ?_⟩
    change (Piece.first byteOrderMark rest).reading = _ at hread
    have hfault := Symbol.isFault_orderMark rest
    rw [Piece.isFault, hread] at hfault
    cases hfault
  | @interpreter _ body _ hs hline =>
    cases hcs
    refine ⟨by decide, fun hread => ?_⟩
    change (Piece.lineComment .comment ['#'] ('!' :: '/' :: (body ++ rest))).reading = _ at hread
    unfold Piece.lineComment at hread
    dsimp only at hread
    split at hread
    · rename_i hblank
      rw [List.isEmpty_iff] at hblank
      exact absurd (Piece.isBlank_of_trim hblank '!' (by simp [isLineEnd])) (by decide)
    · cases hread

/-- Where a source opens with a text, no other text is trivia. -/
theorem Opens.lexeme_eq {behind lexeme' rest' : List Char} (h : Opens behind lexeme rest)
    (h' : Trivia behind lexeme' rest') (happend : lexeme ++ rest = lexeme' ++ rest') :
    lexeme = lexeme' := by
  rcases h'.reads with hopen | ⟨hopen, -⟩ | ⟨c, cs, hlexeme, hread⟩
  · cases h with
    | orderMark =>
      generalize hbehind : ([] : List Char) = behind at hopen
      cases hopen with
      | orderMark => rfl
      | interpreter => simp [byteOrderMark] at happend
    | interpreter _ hline =>
      cases hopen with
      | orderMark => simp [byteOrderMark] at happend
      | interpreter _ hline' =>
        simp only [List.cons_append, List.nil_append, List.cons.injEq, true_and] at happend ⊢
        rw [← hline.takeWhile_eq, happend, hline'.takeWhile_eq]
  · obtain ⟨cs, rfl, -⟩ := hopen.first
    exact absurd rfl (h.first_ne happend).1
  · subst hlexeme
    exact absurd (congrArg Piece.reading hread) (h.first_ne happend).2

/-- Covers a source from behind a text that it opens with exactly if from before it. -/
theorem covers_open_iff (h : source.drop n = lexeme ++ rest)
    (ho : Opens (source.take n) lexeme rest)
    (htokens : ∀ e ∈ tokens, e.1 ≠ byteLength (source.take n)) (hm : Unclosed (source.drop m)) :
    Covers source n tokens m ↔ Covers source (n + lexeme.length) tokens m := by
  refine ⟨fun hc => ?_, .trivia h ho.trivia⟩
  cases hc with
  | done =>
    obtain ⟨cs, hcs, -⟩ := hm.first
    exact absurd rfl (ho.first_ne (h.symm.trans hcs)).1
  | trivia h' ht hs =>
    obtain rfl := ho.lexeme_eq ht (h.symm.trans h')
    exact hs
  | token h' hp => exact absurd hp (htokens _ List.mem_cons_self)

theorem covers_opening_iff (htokens : ∀ e ∈ tokens, ∀ n < (opening source).1.length,
    e.1 ≠ byteLength (source.take n)) (hm : Unclosed (source.drop m)) :
    Covers source 0 tokens m ↔ Covers source (opening source).1.length tokens m := by
  obtain ⟨front, text, rfl, hf, ho⟩ := opening_cases source
  have hfront : front.length ≤ (opening (front ++ text)).1.length := by
    rcases ho with ho | ⟨-, ho⟩ <;> simp [ho]
  have hmark : Covers (front ++ text) 0 tokens m ↔
      Covers (front ++ text) front.length tokens m := by
    rcases hf with rfl | rfl
    · rfl
    · exact covers_open_iff (n := 0) rfl .orderMark (fun e he => htokens e he 0 hfront) hm
  rw [hmark]
  rcases ho with ho | ⟨hi, ho⟩
  · rw [ho]
  · obtain ⟨line, rfl⟩ := List.isPrefixOf_iff_prefix.mp hi
    have hdrop : (front ++ (['#', '!', '/'] ++ line)).drop front.length =
        (['#', '!', '/'] ++ line.takeWhile (!isLineEnd ·)) ++ line.dropWhile (!isLineEnd ·) := by
      simp
    have htake : (front ++ (['#', '!', '/'] ++ line)).take front.length = front := List.take_left
    have hopens : Opens front (['#', '!', '/'] ++ line.takeWhile (!isLineEnd ·))
        (line.dropWhile (!isLineEnd ·)) := .interpreter hf (restOfLine_takeWhile line)
    have hlength : (opening (front ++ (['#', '!', '/'] ++ line))).1.length =
        front.length + (['#', '!', '/'] ++ line.takeWhile (!isLineEnd ·)).length := by
      rw [ho]
      simp [isLineEnd]
    rw [hlength]
    refine covers_open_iff hdrop (htake.symm ▸ hopens) (fun e he => htokens e he _ ?_) hm
    rw [hlength]
    simp

theorem Opens.length_lt {behind : List Char} (h : Opens behind lexeme rest) :
    lexeme ≠ [] ∧ behind.length < (opening (behind ++ (lexeme ++ rest))).1.length := by
  cases h with
  | orderMark => simp [opening_of_mark]
  | @interpreter _ body _ hs hline =>
    have hinterpreter : 0 < (FrontEnd.interpreter (['#', '!', '/'] ++ body ++ rest)).1.length := by
      simp [FrontEnd.interpreter, isLineEnd]
    refine ⟨by simp, ?_⟩
    rcases hs with rfl | rfl
    · rwa [List.nil_append, opening_of_head (by rintro c ⟨⟩; decide)]
    · rw [List.singleton_append, opening_of_mark]
      simpa using hinterpreter

/-- Behind what it opens with, a source opens with nothing more. -/
theorem not_opens (hn : (opening source).1.length ≤ n) (h : source.drop n = lexeme ++ rest) :
    ¬Opens (source.take n) lexeme rest := by
  intro ho
  obtain ⟨hne, hlt⟩ := ho.length_lt
  rw [← h, List.take_append_drop, List.length_take] at hlt
  have hlength : n < source.length := by
    rw [← List.drop_eq_nil_iff.not.trans Nat.not_le, h]
    simp [hne]
  omega

end Opening

theorem Piece.spells_of_token? {fileName : String} {t : Token} {p : Place} {x : Piece}
    (hx : x.Sound [])
    (h : x.token? fileName p = some t) (hlegal : t.kind ≠ .illegal) :
    Spells t.kind t.text.toList x.lexeme x.rest := by
  unfold token? at h
  unfold Sound at hx
  split at h
  · rename_i kind text hread
    rw [hread] at hx
    cases h
    simpa using hx
  · cases h
    exact absurd rfl hlegal
  · cases h

/-! ## Pieces from a boundary on -/

/-- The pieces of the source behind its boundary `n`, with their places. -/
def piecesFrom (source : List Char) (n : Nat) : List (Place × Piece) :=
  Piece.placed (.boundary source n) (Piece.divide (source.drop n))

/-- Their tokens. -/
def tokensFrom (fileName : String) (source : List Char) (n : Nat) : List Token :=
  (piecesFrom source n).filterMap fun (p, x) => x.token? fileName p

/-- Their tokens with the offsets at which they start. -/
def offsetsFrom (fileName : String) (source : List Char) (n : Nat) : List (Nat × Token) :=
  (piecesFrom source n).filterMap fun (p, x) => (x.token? fileName p).map (p.offset, ·)

section Pieces

variable {source cs : List Char} {n m : Nat} {c : Char} {fileName : String} {t : Token}

theorem piecesFrom_nil (h : source.drop n = []) : piecesFrom source n = [] := by
  rw [piecesFrom, h]
  rfl

theorem piecesFrom_fault (h : source.drop n = c :: cs) (hf : (Piece.first c cs).isFault = true) :
    piecesFrom source n = [(.boundary source n, Piece.first c cs)] := by
  rw [piecesFrom, h, Piece.divide_of_fault hf]
  rfl

theorem piecesFrom_cons {x : Piece} (h : source.drop n = c :: cs) (hx : Piece.first c cs = x)
    (hf : x.isFault = false) :
    (n < n + x.lexeme.length ∧ n + x.lexeme.length ≤ source.length ∧
        source.drop (n + x.lexeme.length) = x.rest) ∧
      piecesFrom source n = (.boundary source n, x) :: piecesFrom source (n + x.lexeme.length) := by
  subst hx
  obtain ⟨happend, hne⟩ := Piece.first_splits c cs
  have hdrop := drop_lexeme (h.trans happend.symm) hne
  refine ⟨hdrop, ?_⟩
  rw [piecesFrom, piecesFrom, h, Piece.divide_of_read hf, Piece.placed,
    Place.boundary_after (h.trans happend.symm), hdrop.2.2]

theorem offsetsFrom_step {pieces : List (Place × Piece)} {x : Piece}
    (h : piecesFrom source n = (.boundary source n, x) :: pieces) :
    offsetsFrom fileName source n =
      ((x.token? fileName (.boundary source n)).map (byteLength (source.take n), ·)).toList ++
        pieces.filterMap fun (p, x) => (x.token? fileName p).map (p.offset, ·) := by
  simp only [offsetsFrom, h, List.filterMap_cons, Place.boundary]
  cases x.token? fileName _ <;> rfl

/-- Tokens read from a boundary on stand at it or behind it. -/
theorem exists_boundary_of_mem {e : Nat × Token} (hn : n ≤ source.length)
    (h : e ∈ offsetsFrom fileName source n) :
    ∃ k, n ≤ k ∧ k ≤ source.length ∧ e.1 = byteLength (source.take k) := by
  obtain ⟨m, hf⟩ := Piece.divide_follow n (source.drop n) hn rfl
  obtain ⟨⟨p, x⟩, hx, ht⟩ := List.mem_filterMap.mp h
  obtain ⟨k, hk, hkm, rfl⟩ := hf.placed_boundary _ hx
  obtain ⟨t, -, rfl⟩ := Option.map_eq_some_iff.mp ht
  exact ⟨k, hk, Nat.le_trans (Nat.le_of_lt hkm) hf.le_length, rfl⟩

/-- The first token behind a boundary, if it stands there and tells of no fault, is read there. -/
theorem offsetsFrom_cons {offset : Nat} {lexeme rest : List Char} {tokens : List (Nat × Token)}
    (hp : offset = byteLength (source.take n)) (ht : Spells t.kind t.text.toList lexeme rest)
    (h : source.drop n = lexeme ++ rest) (hn : n ≤ source.length)
    (htokens : (offset, t) :: tokens = offsetsFrom fileName source n) :
    ∃ x : Piece, x.lexeme = lexeme ∧ n + lexeme.length ≤ source.length ∧
      piecesFrom source n = (.boundary source n, x) :: piecesFrom source (n + lexeme.length) ∧
      tokens = offsetsFrom fileName source (n + lexeme.length) := by
  cases hdrop : source.drop n with
  | nil =>
    rw [offsetsFrom, piecesFrom_nil hdrop] at htokens
    cases htokens
  | cons c cs =>
    cases hf : (Piece.first c cs).isFault with
    | true =>
      rw [offsetsFrom_step (piecesFrom_fault hdrop hf)] at htokens
      have hread : (Piece.first c cs).token? fileName (.boundary source n) = some t := by
        cases hread : (Piece.first c cs).token? fileName (.boundary source n) <;>
          simp_all
      exact absurd ((Piece.kind_of_token? (Piece.first_sound c cs []) hread).2.mpr hf) ht.kind_ne.1
    | false =>
      obtain ⟨⟨hlt, hle, hrest⟩, hpieces⟩ := piecesFrom_cons hdrop rfl hf
      rw [offsetsFrom_step hpieces] at htokens
      cases hread : (Piece.first c cs).token? fileName (.boundary source n) with
      | none =>
        rw [hread] at htokens
        have hmem : (offset, t) ∈ offsetsFrom fileName source _ := htokens ▸ List.mem_cons_self
        obtain ⟨k, hk, hkle, hat⟩ := exists_boundary_of_mem hle hmem
        have heq := eq_of_byteLength_take hn hkle (hp.symm.trans hat)
        omega
      | some u =>
        rw [hread] at htokens
        obtain ⟨hu, rfl⟩ := List.cons.inj htokens
        obtain ⟨-, rfl⟩ := Prod.mk.inj hu
        have hlexeme : (Piece.first c cs).lexeme = lexeme :=
          (Piece.spells_of_token? (Piece.first_sound c cs []) hread ht.kind_ne.1).lexeme_eq ht
            ((Piece.first_append c cs).trans (hdrop.symm.trans h))
        rw [hlexeme] at hle hpieces ⊢
        exact ⟨_, hlexeme, hle, hpieces, rfl⟩

theorem Covers.le {tokens : List (Nat × Token)} (h : Covers source n tokens m) : n ≤ m := by
  induction h with
  | done => exact Nat.le_refl _
  | trivia _ _ _ ih => exact Nat.le_trans (Nat.le_add_right _ _) ih
  | token _ _ _ _ ih => exact Nat.le_trans (Nat.le_add_right _ _) ih

/-- Where tokens lead to a comment that is left open, behind the last of them, it is read. -/
theorem Covers.mem_piecesFrom {tokens : List (Nat × Token)} (hc : Covers source n tokens m)
    (hn : (opening source).1.length ≤ n) (hle : n ≤ source.length)
    (htokens : tokens = offsetsFrom fileName source n) (hm : Unclosed (source.drop m)) :
    ∃ x, (Place.boundary source m, x) ∈ piecesFrom source n ∧ x.reading = .openComment := by
  induction hc with
  | @done n =>
    obtain ⟨cs, hcs, hread⟩ := hm.first
    obtain ⟨-, hpieces⟩ := piecesFrom_cons hcs hread rfl
    rw [hpieces]
    exact ⟨_, List.mem_cons_self, rfl⟩
  | @trivia n m lexeme rest tokens h ht hs ih =>
    rcases ht.reads with hopen | ⟨hopen, rfl⟩ | ⟨c, cs, rfl, hread⟩
    · exact absurd hopen (not_opens hn h)
    · -- A comment left open takes all that stands behind it, another one included.
      obtain ⟨cs, hcs, -⟩ := hm.first
      have hlength := congrArg List.length h
      have hpos := congrArg List.length hcs
      have hm := hs.le
      simp at hlength hpos
      omega
    · obtain ⟨⟨hlt, hle', hrest⟩, hpieces⟩ := piecesFrom_cons h hread rfl
      have htail : tokens = offsetsFrom fileName source (n + (c :: cs).length) := by
        rw [htokens, offsetsFrom, hpieces]
        rfl
      obtain ⟨x, hx, hopen⟩ := ih (by omega) hle' htail hm
      exact ⟨x, hpieces ▸ List.mem_cons_of_mem _ hx, hopen⟩
  | @token n m offset lexeme rest t tokens h hp ht hs ih =>
    obtain ⟨x, -, hle', hpieces, htail⟩ := offsetsFrom_cons hp ht h hle htokens
    obtain ⟨y, hy, hopen⟩ := ih (by omega) hle' htail hm
    exact ⟨y, hpieces ▸ List.mem_cons_of_mem _ hy, hopen⟩

/-- Piece by piece, up to the end or the first fault. -/
theorem piecesFrom_induct (source : List Char) {P : Nat → Prop}
    (hnil : ∀ n, source.drop n = [] → P n)
    (hfault : ∀ n c cs, source.drop n = c :: cs → (Piece.first c cs).isFault = true → P n)
    (hcons : ∀ n c cs, source.drop n = c :: cs → (Piece.first c cs).isFault = false →
      P (n + (Piece.first c cs).lexeme.length) → P n) (n : Nat) : P n := by
  induction h : source.drop n using Piece.divide_induct generalizing n with
  | nil => exact hnil n h
  | fault c cs hf => exact hfault n c cs h hf
  | cons c cs hf ih =>
    obtain ⟨-, -, hrest⟩ := (piecesFrom_cons h rfl hf).1
    exact hcons n c cs h hf (ih _ hrest)

/-- A comment that is left open is the last piece. -/
theorem piecesFrom_open (h : source.drop n = c :: cs)
    (hread : (Piece.first c cs).reading = .openComment) :
    Unclosed (source.drop n) ∧
      piecesFrom source n = [(.boundary source n, Piece.first c cs)] := by
  have hopen := Piece.unclosed_of_first hread
  rw [← h] at hopen
  refine ⟨hopen, ?_⟩
  obtain ⟨ds, hds, hfirst⟩ := hopen.first
  obtain ⟨rfl, rfl⟩ := List.cons.inj (h.symm.trans hds)
  obtain ⟨⟨-, -, hrest⟩, hpieces⟩ := piecesFrom_cons hds rfl (by rw [hfirst]; rfl)
  rw [hpieces, piecesFrom_nil (by rw [hrest, hfirst])]

theorem tokensFrom_step {pieces : List (Place × Piece)} {x : Piece}
    (h : piecesFrom source n = (.boundary source n, x) :: pieces) :
    tokensFrom fileName source n = (x.token? fileName (.boundary source n)).toList ++
      pieces.filterMap fun (p, x) => x.token? fileName p := by
  simp only [tokensFrom, h, List.filterMap_cons]
  cases x.token? fileName (.boundary source n) <;> rfl

/-- A piece that is no fault leads on. -/
theorem Covers.piece {x : Piece} {tokens : List (Nat × Token)}
    (h : source.drop n = x.lexeme ++ x.rest) (hx : x.Sound (source.take n))
    (hf : x.isFault = false) (hc : Covers source (n + x.lexeme.length) tokens m) :
    Covers source n
      (((x.token? fileName (.boundary source n)).map (byteLength (source.take n), ·)).toList ++
        tokens) m := by
  unfold Piece.Sound at hx
  unfold Piece.token?
  cases hread : x.reading with
  | trivia | openComment =>
    rw [hread] at hx
    exact .trivia h hx hc
  | fault cause =>
    rw [Piece.isFault, hread] at hf
    cases hf
  | token kind text =>
    rw [hread] at hx
    exact .token h rfl (by simpa using hx) hc

/-- The other way round, tokens lead to a comment that is read as left open. -/
theorem covers_of_mem (fileName : String) {p : Place} {x : Piece}
    (hx : (p, x) ∈ piecesFrom source n)
    (hopen : x.reading = .openComment) :
    ∃ m, p = .boundary source m ∧ Covers source n (offsetsFrom fileName source n) m ∧
      Unclosed (source.drop m) := by
  induction n using piecesFrom_induct source with
  | hnil n h =>
    rw [piecesFrom_nil h] at hx
    cases hx
  | hfault n c cs h hf =>
    rw [piecesFrom_fault h hf, List.mem_singleton] at hx
    cases hx
    rw [Piece.isFault, hopen] at hf
    cases hf
  | hcons n c cs h hf ih =>
    obtain ⟨-, hpieces⟩ := piecesFrom_cons h rfl hf
    by_cases hread : (Piece.first c cs).reading = .openComment
    · obtain ⟨hunclosed, hlast⟩ := piecesFrom_open h hread
      rw [hlast, List.mem_singleton] at hx
      cases hx
      refine ⟨n, rfl, ?_, hunclosed⟩
      rw [offsetsFrom, hlast]
      simpa [Piece.token?, hread] using .done
    · have hx : (p, x) ∈ piecesFrom source (n + (Piece.first c cs).lexeme.length) := by
        rw [hpieces] at hx
        rcases List.mem_cons.mp hx with hx | hx
        · cases hx
          exact absurd hopen hread
        · exact hx
      obtain ⟨m, hp, hc, hm⟩ := ih hx
      refine ⟨m, hp, ?_, hm⟩
      rw [offsetsFrom_step hpieces]
      exact hc.piece (h.trans (Piece.first_append c cs).symm) (Piece.first_sound ..) hf

end Pieces

/-! ## Warnings -/

/-- The warning that the token is for, if it is too long. -/
def Token.lengthWarning? (t : Token) : Option Diagnostic :=
  if Piece.isMeasured t.kind && decide (longestLexeme < t.text.length) then
    some ((LexicalWarning.lexemeTooLong t.text.length).at t.location)
  else none

/-- The warning for a comment that opens at the boundary `n` and is not closed. -/
def openWarning (fileName : String) (source : List Char) (n : Nat) : Diagnostic :=
  LexicalWarning.unterminatedBlockComment.at
    ⟨.ofNat (lineAt source n), .ofNat (columnAt source n), fileName⟩

/-- The warning at the end for braces that do not match, unless a fault stopped reading. -/
def TokenStream.depthWarning? (s : TokenStream) : Option Diagnostic :=
  let depth : Int :=
    s.tokens.countP (·.kind == .leftBrace) - s.tokens.countP (·.kind == .rightBrace)
  if (∃ t ∈ s.tokens, t.kind = .illegal) ∨ depth = 0 then none
  else some ((LexicalWarning.unbalancedBraces depth).at s.last.location)

section Warnings

variable {source cs : List Char} {n m : Nat} {c : Char} {fileName : String} {t : Token}

def warningsFrom (fileName : String) (source : List Char) (n : Nat) : List Diagnostic :=
  (piecesFrom source n).filterMap fun (p, x) => x.warning?.map (·.at (p.location fileName))

/-- But for a comment left open, which is the last piece, pieces warn of their tokens. -/
theorem Piece.warning?_eq {p : Place} {x : Piece} (h : x.reading ≠ .openComment) :
    x.warning?.map (·.at (p.location fileName)) =
      (x.token? fileName p).bind Token.lengthWarning? := by
  unfold warning? token?
  cases hread : x.reading with
  | openComment => exact absurd hread h
  | trivia => rfl
  | fault cause => rfl
  | token kind text =>
    simp [Token.lengthWarning?]

theorem filterMap_warning?_eq {pieces : List (Place × Piece)}
    (h : ∀ e ∈ pieces, e.2.reading ≠ .openComment) :
    (pieces.filterMap fun (p, x) => x.warning?.map (·.at (p.location fileName))) =
      (pieces.filterMap fun (p, x) => x.token? fileName p).filterMap Token.lengthWarning? := by
  rw [List.filterMap_filterMap]
  exact List.filterMap_congr fun e he => Piece.warning?_eq (h e he)

/-- A comment that is left open is read last. -/
theorem piecesFrom_eq_append {p : Place} {x : Piece} (hx : (p, x) ∈ piecesFrom source n)
    (hopen : x.reading = .openComment) :
    ∃ front, piecesFrom source n = front ++ [(p, x)] ∧
      ∀ e ∈ front, e.2.reading ≠ .openComment := by
  induction n using piecesFrom_induct source with
  | hnil n h =>
    rw [piecesFrom_nil h] at hx
    cases hx
  | hfault n c cs h hf =>
    rw [piecesFrom_fault h hf] at hx ⊢
    cases List.mem_singleton.mp hx
    exact ⟨[], rfl, by simp⟩
  | hcons n c cs h hf ih =>
    by_cases hread : (Piece.first c cs).reading = .openComment
    · rw [(piecesFrom_open h hread).2] at hx ⊢
      cases List.mem_singleton.mp hx
      exact ⟨[], rfl, by simp⟩
    · rw [(piecesFrom_cons h rfl hf).2] at hx ⊢
      rcases List.mem_cons.mp hx with hx | hx
      · cases hx
        exact absurd hopen hread
      · obtain ⟨front, hfront, hclosed⟩ := ih hx
        exact ⟨_ :: front, by rw [hfront, List.cons_append],
          List.forall_mem_cons.mpr ⟨hread, hclosed⟩⟩

end Warnings

theorem depthWarning?_eq (source fileName : String) :
    (lex source fileName).depthWarning? = (braceWarning? (lex source fileName).body).map
      (·.at (lex source fileName).last.location) := by
  simp [TokenStream.depthWarning?, braceWarning?, braceDepth, TokenStream.tokens, TokenStream.last]
  split <;> rfl

/-- Pieces of a source are those behind what it opens with. -/
theorem piecesFrom_opening (source : List Char) :
    piecesFrom source (opening source).1.length =
      Piece.placed (Place.start.after (opening source).1 (opening source).2)
        (Piece.divide (opening source).2) := by
  have happend := opening_append source
  have hdrop : ((opening source).1 ++ (opening source).2).drop (opening source).1.length =
      (opening source).2 := List.drop_left
  rw [happend] at hdrop
  rw [Place.start_after happend, piecesFrom, hdrop]

theorem lex_pieces (source fileName : String) :
    (lex source fileName).body =
        tokensFrom fileName source.toList (opening source.toList).1.length ∧
      (lex source fileName).warnings =
        warningsFrom fileName source.toList (opening source.toList).1.length ++
          (lex source fileName).depthWarning?.toList := by
  rw [tokensFrom, warningsFrom, piecesFrom_opening, depthWarning?_eq, lex_eq]
  exact ⟨rfl, rfl⟩

theorem bodyOffsets_pieces (source fileName : String) :
    bodyOffsets source fileName =
      offsetsFrom fileName source.toList (opening source.toList).1.length := by
  rw [bodyOffsets_eq, offsetsFrom, piecesFrom_opening, Piece.offsetsAt]

section Sources

variable {source fileName : String} {n : Nat}

theorem opening_length_le (source : List Char) : (opening source).1.length ≤ source.length := by
  have hlength := congrArg List.length (opening_append source)
  rw [List.length_append] at hlength
  omega

/-- Tokens of a source stand behind what it opens with. -/
theorem covers_iff {m : Nat} (hm : Unclosed (source.toList.drop m)) :
    Covers source.toList 0 (bodyOffsets source fileName) m ↔
      Covers source.toList (opening source.toList).1.length (bodyOffsets source fileName) m := by
  refine covers_opening_iff (fun e he n hn hat => ?_) hm
  have hle := opening_length_le source.toList
  rw [bodyOffsets_pieces] at he
  obtain ⟨k, hk, hkle, hat'⟩ := exists_boundary_of_mem hle he
  have heq := eq_of_byteLength_take (by omega) hkle (hat.symm.trans hat')
  omega

theorem mem_of_leftOpen (h : LeftOpen source.toList (bodyOffsets source fileName) n) :
    ∃ x, (Place.boundary source.toList n, x) ∈
        piecesFrom source.toList (opening source.toList).1.length ∧ x.reading = .openComment :=
  ((covers_iff h.2).mp h.1).mem_piecesFrom (Nat.le_refl _) (opening_length_le _)
    (bodyOffsets_pieces source fileName) h.2

theorem leftOpen_of_mem {p : Place} {x : Piece}
    (hx : (p, x) ∈ piecesFrom source.toList (opening source.toList).1.length)
    (hopen : x.reading = .openComment) :
    ∃ n, LeftOpen source.toList (bodyOffsets source fileName) n := by
  obtain ⟨m, -, hc, hm⟩ := covers_of_mem fileName hx hopen
  rw [← bodyOffsets_pieces] at hc
  exact ⟨m, (covers_iff hm).mpr hc, hm⟩

end Sources

/-- The warnings of a source are, in this order, one for each token that is too long, one for a
block comment that the source ends in, and one for braces that do not match. -/
theorem lex_warnings (source fileName : String) :
    let s := lex source fileName
    let long := s.tokens.filterMap Token.lengthWarning?
    (∀ n, LeftOpen source.toList (bodyOffsets source fileName) n →
      s.warnings = long ++ [openWarning fileName source.toList n] ++ s.depthWarning?.toList) ∧
    ((∀ n, ¬LeftOpen source.toList (bodyOffsets source fileName) n) →
      s.warnings = long ++ s.depthWarning?.toList) ∧
    ∀ w ∈ s.warnings, w.severity = .warning ∧ w.location.fileName = s.fileName := by
  intro s long
  obtain ⟨hbody, hwarnings⟩ := lex_pieces source fileName
  have hlong : long = s.body.filterMap Token.lengthWarning? := by
    have hlast : Token.lengthWarning? s.last = none := rfl
    simp [long, TokenStream.tokens, List.filterMap_append, hlast]
  refine ⟨fun n hopen => ?_, fun hclosed => ?_, fun w hw => ?_⟩
  · obtain ⟨x, hx, hread⟩ := mem_of_leftOpen hopen
    obtain ⟨front, hpieces, hfront⟩ := piecesFrom_eq_append hx hread
    rw [hwarnings, hlong, hbody, tokensFrom, warningsFrom, hpieces, List.filterMap_append,
      List.filterMap_append, filterMap_warning?_eq hfront]
    simp [s, Piece.warning?, Piece.token?, hread, openWarning, Place.location_boundary]
  · have hpieces : ∀ e ∈ piecesFrom source.toList (opening source.toList).1.length,
        e.2.reading ≠ .openComment := by
      intro e he hread
      obtain ⟨n, hopen⟩ := leftOpen_of_mem he hread
      exact hclosed n hopen
    rw [hwarnings, hlong, hbody, tokensFrom, warningsFrom, filterMap_warning?_eq hpieces]
  · rw [hwarnings] at hw
    rcases List.mem_append.mp hw with hw | hw
    · obtain ⟨e, -, he⟩ := List.mem_filterMap.mp hw
      obtain ⟨warning, -, rfl⟩ := Option.map_eq_some_iff.mp he
      exact ⟨rfl, (lex_fileName source fileName).symm⟩
    · rw [depthWarning?_eq, Option.mem_toList, Option.map_eq_some_iff] at hw
      obtain ⟨warning, -, rfl⟩ := hw
      have hlast : s.last.location.fileName = fileName := by
        rw [TokenStream.last, lex_last]
        rfl
      exact ⟨rfl, hlast.trans (lex_fileName source fileName).symm⟩

/-- A brace and a comment that are left open. -/
theorem lex_warnings_of_comment :
    let source := "é \x7b\r/* \x7d"
    let s := lex source "a.hz"
    LeftOpen source.toList (bodyOffsets source "a.hz") 4 ∧
      s.warnings = [⟨.warning, ⟨2, 1, "a.hz"⟩, "unterminated block comment"⟩,
        ⟨.warning, ⟨2, 5, "a.hz"⟩,
          "unbalanced braces at end of file (nesting depth 1)"⟩] := by
  intro source s
  have htokens : bodyOffsets source "a.hz" = [(0, ⟨.identifier, "é", 0, ⟨1, 1, "a.hz"⟩⟩),
      (3, ⟨.leftBrace, "\x7b", 3, ⟨1, 3, "a.hz"⟩⟩)] := by decide +kernel
  have hopen : LeftOpen source.toList (bodyOffsets source "a.hz") 4 := by
    have hname : source.toList.drop 0 = ['é'] ++ " \x7b\r/* \x7d".toList := by decide +kernel
    have hblank : source.toList.drop 1 = [' '] ++ "\x7b\r/* \x7d".toList := by decide +kernel
    have hbrace : source.toList.drop 2 = ['\x7b'] ++ "\r/* \x7d".toList := by decide +kernel
    have hend : source.toList.drop 3 = ['\r'] ++ "/* \x7d".toList := by decide +kernel
    refine ⟨?_, [' ', '\x7d'], by decide +kernel, by decide⟩
    rw [htokens]
    refine .token hname rfl (.plain rfl) ?_
    refine .trivia hblank (.blank (by decide)) ?_
    refine .token hbrace (by decide) (.fixed (k := .leftBrace) rfl) ?_
    exact .trivia hend (.blank (by decide)) .done
  refine ⟨hopen, ?_⟩
  rw [(lex_warnings source "a.hz").1 4 hopen]
  decide +kernel

end FrontEnd
