import FrontEnd.Proofs.Lexer.Pieces.Tiling

/-!
What stands in a source for a token or for nothing. `Spells` tells the lexeme of a
token from its kind and its text, `Trivia` tells the texts that are no token. Every
piece that a text begins with is one or the other, or a fault.
-/

namespace FrontEnd

namespace TokenKind

/-- Keywords, operators, delimiters and separators, written as their names. -/
def isFixed (k : TokenKind) : Bool :=
  k.isKeyword || k.isOperator || k.isDelimiter || k.isSeparator || k == .litTrue || k == .litFalse

/-- Kinds written as the text of the token. -/
def isPlain (k : TokenKind) : Bool :=
  [.identifier, .decimalInteger, .binaryInteger, .hexInteger, .octalInteger, .float,
    .imaginary].contains k

theorem isFixed_of_reserved {k : TokenKind} (h : k ∈ reserved) : k.isFixed = true := by
  revert k
  decide

theorem isFixed_of_mark {k : TokenKind} (h : k ∈ marks) : k.isFixed = true := by
  revert k
  decide

theorem isFixed_of_plain {k : TokenKind} (h : k.isPlain = true) : k.isFixed = false := by
  cases k <;> first | rfl | cases h

theorem keyword?_spec {text : String} {k : TokenKind} (h : keyword? text = some k) :
    k.isFixed = true ∧ k.name = text := by
  constructor
  · exact isFixed_of_reserved (List.mem_of_find?_eq_some h)
  · simpa using List.find?_some h

end TokenKind

/-- `body` is the rest of a line, `rest` what follows it. -/
def RestOfLine (body rest : List Char) : Prop :=
  (∀ c ∈ body, isLineEnd c = false) ∧ ∀ c ∈ rest.head?, isLineEnd c = true

/-- `mark` stands behind `body` and nowhere before. -/
def FirstBehind (mark body rest : List Char) : Prop :=
  ∀ front back, body ++ mark ++ rest = front ++ mark ++ back → body.length ≤ front.length

/-- A token of the kind with the text is written as `lexeme` if `rest` follows. -/
inductive Spells : (kind : TokenKind) → (text lexeme rest : List Char) → Prop where
  | fixed {k : TokenKind} {rest : List Char} (h : k.isFixed = true) :
    Spells k k.name.toList k.name.toList rest
  | plain {k : TokenKind} {text rest : List Char} (h : k.isPlain = true) : Spells k text text rest
  | string {text rest : List Char} : Spells .string text (['"'] ++ text ++ ['"']) rest
  | tripleString {text rest : List Char} :
    Spells .tripleString text (['"', '"', '"'] ++ text ++ ['"', '"', '"']) rest
  | rawString {text rest : List Char} : Spells .rawString text (['`'] ++ text ++ ['`']) rest
  | rune {text rest : List Char} : Spells .rune text (['\''] ++ text ++ ['\'']) rest
  | builtin {text rest : List Char} : Spells .builtinName text ('@' :: text) rest
  | comment {opening body rest : List Char} (ho : opening = ['/', '/'] ∨ opening = ['#'])
    (h : RestOfLine body rest) : Spells .comment (trim body) (opening ++ body) rest
  | docComment {body rest : List Char} (h : RestOfLine body rest) :
    Spells .docComment (trim body) (['/', '/', '/'] ++ body) rest

/-- Between `behind` and `rest` the lexeme is no part of a token. -/
inductive Trivia : (behind lexeme rest : List Char) → Prop where
  | orderMark {rest : List Char} : Trivia [] [byteOrderMark] rest
  | blank {behind rest : List Char} {c : Char} (h : Unicode.isBlank c = true) :
    Trivia behind [c] rest
  | closedComment {behind body rest : List Char} (h : FirstBehind ['*', '/'] body rest) :
    Trivia behind (['/', '*'] ++ body ++ ['*', '/']) rest
  | openComment {behind body : List Char} (h : ¬['*', '/'] <:+: body) :
    Trivia behind (['/', '*'] ++ body) []
  | blankComment {behind opening body rest : List Char}
    (ho : opening = ['/', '/'] ∨ opening = ['#'] ∨ opening = ['/', '/', '/'])
    (h : RestOfLine body rest) (hb : trim body = []) : Trivia behind (opening ++ body) rest
  | interpreter {behind body rest : List Char} (hs : behind = [] ∨ behind = [byteOrderMark])
    (h : RestOfLine body rest) : Trivia behind (['#', '!', '/'] ++ body) rest

/-- Behind `behind` the piece is what it was found to be. -/
def Piece.Sound (behind : List Char) (p : Piece) : Prop :=
  match p.reading with
  | .token kind text => Spells kind text p.lexeme p.rest
  | .trivia | .openComment => Trivia behind p.lexeme p.rest
  | .fault _ => True

theorem Spells.kind_ne {kind : TokenKind} {text lexeme rest : List Char}
    (h : Spells kind text lexeme rest) : kind ≠ .illegal ∧ kind ≠ .endOfFile := by
  cases h with
  | fixed h => constructor <;> rintro rfl <;> cases h
  | plain h => constructor <;> rintro rfl <;> cases h
  | _ => exact ⟨nofun, nofun⟩

/-- Words and marks with a meaning of their own have the name of their kind as text. -/
theorem Spells.text_eq_name {kind : TokenKind} {text lexeme rest : List Char}
    (h : Spells kind text lexeme rest) (hk : kind.isFixed = true) : text = kind.name.toList := by
  cases h with
  | fixed h => rfl
  | plain h =>
    rw [TokenKind.isFixed_of_plain h] at hk
    cases hk
  | _ => cases hk

/-! ## Enclosed texts -/

namespace Closing

variable {q : Closing} {cs text rest taken : List Char}

theorem read_cons (he : q.escapes = false) (hl : q.oneLine = false) (c : Char) (cs : List Char) :
    q.read (c :: cs) =
      if q.mark.isPrefixOf (c :: cs) then .closed [] ((c :: cs).drop q.mark.length)
      else (q.read cs).behind [c] := by
  rw [read.eq_def]
  simp [he, hl]

/-- Where nothing escapes the mark, the text is closed at the first one. -/
theorem firstBehind_of_closed (he : q.escapes = false) (hl : q.oneLine = false)
    (h : q.read cs = .closed text rest) : FirstBehind q.mark text rest := by
  induction cs generalizing text with
  | nil => simp [read] at h
  | cons c cs ih =>
    have hsource := q.source_read (c :: cs)
    rw [h] at hsource
    change text ++ q.mark ++ rest = c :: cs at hsource
    rw [read_cons he hl] at h
    split at h
    · cases h
      exact fun _ _ _ => Nat.zero_le _
    · rename_i hmark
      cases hr : q.read cs with
      | cut taken rest => simp [hr, Enclosed.behind] at h
      | closed text' rest' =>
        simp only [hr, Enclosed.behind, List.singleton_append, Enclosed.closed.injEq] at h
        obtain ⟨rfl, rfl⟩ := h
        intro front back hfront
        cases front with
        | nil =>
          refine absurd (List.isPrefixOf_iff_prefix.mpr ⟨back, ?_⟩) hmark
          rw [← hsource, hfront]
          rfl
        | cons d front =>
          simp only [List.cons_append, List.cons.injEq] at hfront
          exact Nat.succ_le_succ (ih hr front back hfront.2)

/-- What is cut off by the end of the source does not hold the mark. -/
theorem cut_spec (he : q.escapes = false) (hl : q.oneLine = false) (hm : q.mark ≠ [])
    (h : q.read cs = .cut taken rest) : taken = cs ∧ rest = [] ∧ ¬q.mark <:+: cs := by
  induction cs generalizing taken with
  | nil =>
    cases h
    exact ⟨rfl, rfl, by simpa using hm⟩
  | cons c cs ih =>
    rw [read_cons he hl] at h
    split at h
    · cases h
    · rename_i hmark
      cases hr : q.read cs with
      | closed text rest => simp [hr, Enclosed.behind] at h
      | cut taken' rest' =>
        simp only [hr, Enclosed.behind, List.singleton_append, Enclosed.cut.injEq] at h
        obtain ⟨rfl, rfl⟩ := h
        obtain ⟨rfl, hrest, hcs⟩ := ih hr
        refine ⟨rfl, hrest, ?_⟩
        rw [List.infix_cons_iff]
        rintro (hp | hi)
        · exact hmark (List.isPrefixOf_iff_prefix.mpr hp)
        · exact hcs hi

theorem literal_sound (q : Closing) {kind : TokenKind} (unclosed : LexicalError)
    {opening : List Char} (cs behind : List Char)
    (hs : ∀ text rest, Spells kind text (opening ++ text ++ q.mark) rest) :
    (q.literal kind unclosed opening cs).Sound behind := by
  unfold literal
  split
  · exact hs _ _
  · trivial

end Closing

theorem quotedString_sound (behind cs : List Char) : (quotedString cs).Sound behind := by
  unfold quotedString
  split
  · exact Closing.literal_sound _ _ _ _ fun _ _ => .tripleString
  · exact Closing.literal_sound _ _ _ _ fun _ _ => .string

theorem rawString_sound (behind cs : List Char) : (rawString cs).Sound behind :=
  Closing.literal_sound _ _ _ _ fun _ _ => .rawString

theorem rune_sound (behind cs : List Char) : (rune cs).Sound behind := by
  unfold rune
  split
  · trivial
  · exact Closing.literal_sound _ _ _ _ fun _ _ => .rune

theorem blockComment_sound (behind cs : List Char) : (blockComment cs).Sound behind := by
  unfold blockComment
  split
  · rename_i text rest h
    exact .closedComment (Closing.firstBehind_of_closed rfl rfl h)
  · rename_i taken rest h
    obtain ⟨rfl, rfl, hcs⟩ := Closing.cut_spec rfl rfl (by simp [Closing.ofComment]) h
    exact .openComment hcs

/-! ## Numbers -/

namespace Numeral

theorem marked_sound {kind : TokenKind} (hk : kind.isPlain = true) (text cs behind : List Char) :
    (marked kind text cs).Sound behind := by
  fun_cases marked kind text cs
  · exact .plain hk
  · exact .plain rfl
  · exact .plain hk

theorem decimal_sound (first : Char) (cs behind : List Char) :
    (decimal first cs).Sound behind := by
  unfold decimal
  dsimp only
  split
  · apply marked_sound
    split <;> rfl
  · exact marked_sound rfl _ _ _
  · trivial

theorem isPlain_of_letter {c : Char} {r : Radix} (h : Radix.ofLetter? c = some r) :
    r.kind.isPlain = true := by
  have hr := List.mem_of_find?_eq_some h
  simp only [List.mem_cons, List.not_mem_nil, or_false] at hr
  rcases hr with rfl | rfl | rfl <;> rfl

theorem number_sound {r : Radix} (hr : r.kind.isPlain = true) (letter : Char)
    (cs behind : List Char) : (r.number letter cs).Sound behind := by
  unfold Radix.number
  dsimp only
  split
  · exact .plain hr
  · trivial

theorem scan_sound (first : Char) (cs behind : List Char) : (scan first cs).Sound behind := by
  unfold scan
  split
  · exact decimal_sound _ _ _
  split
  · split
    · rename_i h
      exact number_sound (isPlain_of_letter h) _ _ _
    · split
      · trivial
      · exact decimal_sound _ _ _
  · exact decimal_sound _ _ _

end Numeral

/-! ## The first piece of a text -/

theorem restOfLine_takeWhile (cs : List Char) :
    RestOfLine (cs.takeWhile (!isLineEnd ·)) (cs.dropWhile (!isLineEnd ·)) := by
  constructor
  · intro c hc
    simpa using List.all_eq_true.mp List.all_takeWhile c hc
  · intro c hc
    have h := List.head?_dropWhile_not (!isLineEnd ·) cs
    rw [Option.mem_def.mp hc] at h
    simpa using h

namespace Piece

theorem word_sound (c : Char) (cs behind : List Char) : (word c cs).Sound behind := by
  unfold word
  dsimp only
  cases h : TokenKind.keyword? (String.ofList (c :: cs.takeWhile isWordPart)) with
  | none => exact .plain rfl
  | some k =>
    obtain ⟨hk, hname⟩ := TokenKind.keyword?_spec h
    have htext : c :: cs.takeWhile isWordPart = k.name.toList := by
      rw [hname, String.toList_ofList]
    rw [htext]
    exact .fixed hk

theorem builtin_sound (cs behind : List Char) : (builtin cs).Sound behind := by
  unfold builtin
  dsimp only
  split
  · trivial
  · exact .builtin

theorem lineComment_sound (kind : TokenKind) (opening cs behind : List Char)
    (hb : opening = ['/', '/'] ∨ opening = ['#'] ∨ opening = ['/', '/', '/'])
    (hs : ∀ body rest, RestOfLine body rest → Spells kind (trim body) (opening ++ body) rest) :
    (lineComment kind opening cs).Sound behind := by
  have hline := restOfLine_takeWhile cs
  unfold lineComment
  dsimp only
  split
  · rename_i h
    exact .blankComment hb hline (List.isEmpty_iff.mp h)
  · exact hs _ _ hline

theorem mark_sound (c : Char) (cs behind : List Char) : (mark c cs).Sound behind := by
  unfold mark
  split
  · rename_i k h
    exact .fixed (TokenKind.isFixed_of_mark (List.mem_of_find?_eq_some h))
  · trivial

theorem slash_sound (cs behind : List Char) : (slash cs).Sound behind := by
  unfold slash
  split
  · exact lineComment_sound _ _ _ _ (.inr (.inr rfl)) fun _ _ h => .docComment h
  · exact lineComment_sound _ _ _ _ (.inl rfl) fun _ _ h => .comment (.inl rfl) h
  · exact blockComment_sound _ _
  · exact mark_sound _ _ _

theorem first_sound (c : Char) (cs behind : List Char) : (first c cs).Sound behind := by
  unfold first
  split
  · rename_i h
    exact .blank h
  split
  · exact word_sound c cs behind
  split
  · exact Numeral.scan_sound c cs behind
  split
  · exact quotedString_sound behind cs
  split
  · exact rawString_sound behind cs
  split
  · exact rune_sound behind cs
  split
  · exact slash_sound cs behind
  split
  · exact lineComment_sound _ _ _ _ (.inr (.inl rfl)) fun _ _ h => .comment (.inr rfl) h
  split
  · exact builtin_sound cs behind
  · exact mark_sound c cs behind

theorem divide_sound (cs : List Char) : ∀ x ∈ divide cs, ∀ behind, x.Sound behind := by
  intro x hx behind
  obtain ⟨c, ds, rfl⟩ := eq_first_of_mem_divide hx
  exact first_sound c ds behind

end Piece

end FrontEnd
