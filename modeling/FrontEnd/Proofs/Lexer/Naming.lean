import FrontEnd.Proofs.Lexer.Literals
import FrontEnd.Proofs.Lexer.Numbers

/-!
The names of kinds as spellings. A mark is the longest name of a mark that stands where it
starts, and where such a name starts there is no fault. A word reaches as far as characters of
words do, and it is of the reserved kind that its text is the name of, if there is one.
-/

namespace FrontEnd

namespace TokenKind

/-- Operators, delimiters and separators. -/
def isPunctuation (k : TokenKind) : Bool := k.isOperator || k.isDelimiter || k.isSeparator

/-- Keywords and the two truth values. -/
def isReserved (k : TokenKind) : Bool := k.isKeyword || k == .litTrue || k == .litFalse

/-- The kinds of words. -/
def isWord (k : TokenKind) : Bool := k == .identifier || k.isReserved

variable {k k' : TokenKind} {c : Char} {cs : List Char}

/-- The table of marks and the bands of kinds agree. -/
theorem mem_marks_iff : k ∈ marks ↔ k.isPunctuation = true := by
  cases k <;> decide

/-- The table of reserved words and the bands of kinds agree. -/
theorem mem_reserved_iff : k ∈ reserved ↔ k.isReserved = true := by
  cases k <;> decide

theorem isTrivia_of_punctuation (h : k.isPunctuation = true) : k.isTrivia = false := by
  cases k <;> first | rfl | cases h

theorem isWord_of_mark (h : k ∈ marks) : k.isWord = false := by
  revert k
  decide

theorem isWord_of_trivia (h : k.isTrivia = true) : k.isWord = false := by
  cases k <;> first | rfl | cases h

theorem name_injective_of_reserved (h : k ∈ reserved) (h' : k' ∈ reserved)
    (hname : k.name = k'.name) : k = k' := by
  have hall : ∀ k ∈ reserved, ∀ k' ∈ reserved, k.name = k'.name → k = k' := by decide
  exact hall k h k' h' hname

theorem keyword?_eq_some_iff {text : String} :
    keyword? text = some k ↔ k.isReserved = true ∧ k.name = text := by
  rw [← mem_reserved_iff]
  constructor
  · intro h
    exact ⟨List.mem_of_find?_eq_some h, by simpa using List.find?_some h⟩
  · rintro ⟨hk, rfl⟩
    obtain ⟨found, hfound⟩ : ∃ found, keyword? k.name = some found :=
      Option.isSome_iff_exists.mp (List.find?_isSome.mpr ⟨k, hk, by simp⟩)
    obtain rfl : found = k := name_injective_of_reserved (List.mem_of_find?_eq_some hfound) hk
      (by simpa using List.find?_some hfound)
    exact hfound

/-! ## Marks -/

/-- The first character of a mark is a mark by itself. -/
theorem exists_mark_of_head (hk : k ∈ marks) (hc : k.name.toList.head? = some c) :
    ∃ k' ∈ marks, k'.name.toList = [c] := by
  have hall : ∀ k ∈ marks, ∃ k' ∈ marks, k'.name.toList = k.name.toList.head?.toList := by
    decide +kernel
  obtain ⟨k', hk', hname⟩ := hall k hk
  exact ⟨k', hk', by rw [hname, hc]; rfl⟩

theorem mark?_isSome (hk : k ∈ marks) (hc : k.name.toList.head? = some c) (cs : List Char) :
    (mark? (c :: cs)).isSome = true := by
  obtain ⟨k', hk', hname⟩ := exists_mark_of_head hk hc
  refine List.find?_isSome.mpr ⟨k', hk', List.isPrefixOf_iff_prefix.mpr ?_⟩
  rw [hname]
  exact ⟨cs, rfl⟩

end TokenKind

/-- Keywords, marks and truth values stand in the text as their names. -/
theorem Spells.lexeme_eq_name {kind : TokenKind} {text lexeme rest : List Char}
    (h : Spells kind text lexeme rest) (hk : kind.isFixed = true) :
    lexeme = kind.name.toList := by
  cases h with
  | fixed h => rfl
  | plain h =>
    rw [TokenKind.isFixed_of_plain h] at hk
    cases hk
  | _ => cases hk

namespace Piece

open TokenKind

variable {k : TokenKind} {c : Char} {cs text : List Char}

/-! ## Where a mark starts -/

/-- Where the name of a mark starts a mark is read, or a comment behind a slash. -/
theorem first_of_mark (hk : k ∈ marks) (hc : k.name.toList.head? = some c) (cs : List Char) :
    first c cs = if c = '/' then slash cs else mark c cs := by
  have hall : ∀ k ∈ marks, k.name.toList.head?.all (fun c => !(Unicode.isBlank c || isWordStart c ||
      c.isDigit || c == '"' || c == '`' || c == '\'' || c == '#' || c == '@')) = true := by
    decide +kernel
  have hnone := hall k hk
  simp only [hc, Option.all_some, Bool.not_eq_true', Bool.or_eq_false_iff, beq_eq_false_iff_ne]
    at hnone
  obtain ⟨⟨⟨⟨⟨⟨⟨hblank, hstart⟩, hdigit⟩, hquote⟩, htick⟩, hrune⟩, hsharp⟩, hat⟩ := hnone
  simp only [first, hblank, hstart, hdigit, hquote, htick, hrune, hsharp, hat, if_false,
    Bool.false_eq_true]

theorem reading_mark (h : (mark c cs).reading = .token k text) : mark? (c :: cs) = some k := by
  unfold mark at h
  split at h
  · cases h
    assumption
  · cases h

theorem isFault_mark (h : (mark? (c :: cs)).isSome = true) : (mark c cs).isFault = false := by
  obtain ⟨k, hk⟩ := Option.isSome_iff_exists.mp h
  unfold mark
  rw [hk]
  rfl

theorem isFault_lineComment (kind : TokenKind) (opening cs : List Char) :
    (lineComment kind opening cs).isFault = false := by
  unfold lineComment isFault
  dsimp only
  split
  · rename_i hfault
    split at hfault <;> cases hfault
  · rfl

theorem isFault_blockComment (cs : List Char) : (blockComment cs).isFault = false := by
  unfold blockComment
  split <;> rfl

/-- A token behind a slash is a comment, unless it is a mark. -/
theorem reading_slash (h : (slash cs).reading = .token k text) :
    k.isTrivia = true ∨ mark? ('/' :: cs) = some k := by
  unfold slash at h
  split at h
  · exact .inl (isTrivia_of_lineComment rfl h)
  · exact .inl (isTrivia_of_lineComment rfl h)
  · unfold blockComment at h
    split at h <;> cases h
  · exact .inr (reading_mark h)

/-- A name with which the lexeme of a token begins starts where the token does. -/
theorem mark?_of_first (h : (first c cs).reading = .token k text) (hk : k.isPunctuation = true) :
    mark? (c :: cs) = some k := by
  have hmark := mem_marks_iff.mpr hk
  have hsound := first_sound c cs []
  rw [Sound, h] at hsound
  have hlexeme := hsound.lexeme_eq_name (isFixed_of_mark hmark)
  have hhead : k.name.toList.head? = some c := by
    have happend := congrArg List.head? (first_append c cs)
    rw [hlexeme, List.head?_append_of_ne_nil _ k.name_ne_nil] at happend
    exact happend
  rw [first_of_mark hmark hhead] at h
  split at h
  · rename_i hslash
    subst hslash
    refine (reading_slash h).resolve_left fun htrivia => ?_
    rw [isTrivia_of_punctuation hk] at htrivia
    cases htrivia
  · exact reading_mark h

theorem isFault_of_mark (hk : k ∈ marks) (hc : k.name.toList.head? = some c) (cs : List Char) :
    (first c cs).isFault = false := by
  rw [first_of_mark hk hc]
  have hmark := isFault_mark (mark?_isSome hk hc cs)
  split
  · rename_i hslash
    subst hslash
    unfold slash
    split
    · exact isFault_lineComment _ _ _
    · exact isFault_lineComment _ _ _
    · exact isFault_blockComment _
    · exact hmark
  · exact hmark

/-! ## Words -/

theorem isWord_of_number {rest : List Char} (h : Numeral.Number cs (.token k text rest)) :
    k.isWord = false := by
  have hends {kind : TokenKind} {text' behind : List Char} (hkind : kind.isWord = false)
      (h : Numeral.Ends kind text' behind (.token k text rest)) : k.isWord = false := by
    cases h with
    | imaginary => rfl
    | plain => exact hkind
  cases h with
  | based hl =>
    cases hl <;> rfl
  | decimal _ _ _ h =>
    cases h with
    | plain _ h => exact hends (by split <;> rfl) h
    | exponent _ _ _ h => exact hends rfl h

theorem isWord_of_quoted {rest : List Char} (h : Literal.Quoted cs (.token k text rest)) :
    k.isWord = false := by
  cases h <;> rfl

/-- Only words are read as words. -/
theorem first_of_word (h : (first c cs).reading = .token k text) (hk : k.isWord = true) :
    isWordStart c = true ∧ first c cs = word c cs := by
  have hne (hkind : k.isWord = false) : False := by
    rw [hkind] at hk
    cases hk
  have hmark (hm : mark? (c :: cs) = some k) : False :=
    hne (isWord_of_mark (List.mem_of_find?_eq_some hm))
  have hquoted (hc : c = '"' ∨ c = '`' ∨ c = '\'') : False := by
    have hlead : (first c cs).lead? = some (.token k text (first c cs).rest) := by rw [lead?, h]
    exact hne (isWord_of_quoted ((Literal.quoted_iff hc).mpr hlead))
  revert h
  fun_cases first c cs with
  | case1 =>
    intro h
    cases h
  | case2 _ hstart => exact fun _ => ⟨hstart, rfl⟩
  | case3 _ _ hdigit =>
    intro h
    have hlead : (Numeral.scan c cs).lead? = some (.token k text (Numeral.scan c cs).rest) := by
      rw [lead?, h]
    exact (hne (isWord_of_number (Numeral.number_of_lead hdigit hlead))).elim
  | case4 => exact fun _ => (hquoted (.inl ‹_›)).elim
  | case5 => exact fun _ => (hquoted (.inr (.inl ‹_›))).elim
  | case6 => exact fun _ => (hquoted (.inr (.inr ‹_›))).elim
  | case7 _ _ _ _ _ _ hslash =>
    intro h
    subst hslash
    exact ((reading_slash h).elim (fun ht => hne (isWord_of_trivia ht)) hmark).elim
  | case8 => exact fun h => (hne (isWord_of_trivia (isTrivia_of_lineComment rfl h))).elim
  | case9 =>
    intro h
    refine (hne ?_).elim
    change (if _ then _ else _) = _ at h
    split at h <;> cases h
    rfl
  | case10 => exact fun h => (hmark (reading_mark h)).elim

/-- A word ends where the characters of words do, and the table of reserved words tells its
kind. -/
theorem word_reading (h : (word c cs).reading = .token k text) :
    text = c :: cs.takeWhile isWordPart ∧
      k = (keyword? (String.ofList text)).getD .identifier := by
  cases h
  exact ⟨rfl, rfl⟩

end Piece

/-- What the names of kinds tell of a token that stands where the text `cs` begins. -/
structure Token.NamedAt (t : Token) (cs : List Char) : Prop where
  text_eq : t.kind.isPunctuation = true ∨ t.kind.isReserved = true → t.text = t.kind.name
  longest : t.kind.isPunctuation = true → t.kind.name.toList <+: cs ∧
    ∀ k : TokenKind, k.isPunctuation = true → t.kind.name.length < k.name.length →
      ¬k.name.toList <+: cs
  legal : ∀ k : TokenKind, k.isPunctuation = true → cs.head? = k.name.toList.head? →
    t.kind ≠ .illegal
  ends : t.kind.isWord = true → t.text.toList <+: cs ∧
    ∀ c ∈ (cs.drop t.text.length).head?, Unicode.isAlphanumeric c = false ∧ c ≠ '_'
  reserved_iff : t.kind.isWord = true →
    ∀ k : TokenKind, k.isReserved = true → (k.name = t.text ↔ t.kind = k)
  identifier : t.kind = .identifier → ∀ k : TokenKind, k.isReserved = true → k.name ≠ t.text

namespace TokenKind

variable {k k' : TokenKind}

theorem isFixed_of_named (h : k.isPunctuation = true ∨ k.isReserved = true) :
    k.isFixed = true := by
  rcases h with h | h
  · exact isFixed_of_mark (mem_marks_iff.mpr h)
  · exact isFixed_of_reserved (mem_reserved_iff.mpr h)

/-- The kind of a word is reserved exactly for a text that is the name of a reserved kind. -/
theorem reserved_iff_of_word {text : String} (hk' : k'.isReserved = true) :
    k'.name = text ↔ (keyword? text).getD .identifier = k' := by
  have hidentifier : TokenKind.identifier ≠ k' := by
    rintro rfl
    cases hk'
  cases hfound : keyword? text with
  | none =>
    refine ⟨fun hname => ?_, fun h => absurd h hidentifier⟩
    rw [keyword?_eq_some_iff.mpr ⟨hk', hname⟩] at hfound
    cases hfound
  | some found =>
    have hname := (keyword?_eq_some_iff.mp hfound).2
    constructor
    · intro h
      rw [keyword?_eq_some_iff.mpr ⟨hk', h⟩] at hfound
      exact (Option.some.inj hfound).symm
    · rintro rfl
      exact hname

end TokenKind

namespace Token

open TokenKind

variable {t : Token} {c : Char} {cs text : List Char} {kind : TokenKind} {fileName : String}

/-- A token that is neither of a word nor of a mark tells nothing but that it may stand there. -/
theorem namedAt_of_fault (hkind : t.kind = .illegal)
    (hlegal : ∀ k : TokenKind, k.isPunctuation = true → cs.head? ≠ k.name.toList.head?) :
    t.NamedAt cs := by
  refine ⟨?_, ?_, fun k hk hhead => absurd hhead (hlegal k hk), ?_, ?_, ?_⟩ <;> rw [hkind] <;>
    nofun

theorem namedAt_of_end (hkind : t.kind = .endOfFile) : t.NamedAt cs := by
  refine ⟨?_, ?_, fun _ _ _ => by rw [hkind]; nofun, ?_, ?_, ?_⟩ <;> rw [hkind] <;> nofun

theorem ends_of_word (htext : t.text = String.ofList (c :: cs.takeWhile isWordPart)) :
    t.text.toList <+: c :: cs ∧ ∀ d ∈ ((c :: cs).drop t.text.length).head?,
      Unicode.isAlphanumeric d = false ∧ d ≠ '_' := by
  have happend : t.text.toList ++ cs.dropWhile isWordPart = c :: cs := by
    rw [htext, String.toList_ofList, List.cons_append, List.takeWhile_append_dropWhile]
  refine ⟨⟨_, happend⟩, fun d hd => ?_⟩
  rw [← String.length_toList, ← happend, List.drop_left] at hd
  have hpart := List.head?_dropWhile_not isWordPart cs
  rw [hd] at hpart
  simpa [isWordPart] using hpart

theorem namedAt_of_first (hread : (Piece.first c cs).reading = .token kind text)
    (hkind : t.kind = kind) (htext : t.text = String.ofList text) : t.NamedAt (c :: cs) := by
  subst hkind
  have hsound := Piece.first_sound c cs []
  rw [Piece.Sound, hread] at hsound
  have hword (h : t.kind.isWord = true) : t.text = String.ofList (c :: cs.takeWhile isWordPart) ∧
      t.kind = (keyword? t.text).getD .identifier := by
    rw [(Piece.first_of_word hread h).2] at hread
    obtain ⟨rfl, hk⟩ := Piece.word_reading hread
    exact ⟨htext, by rw [htext, ← hk]⟩
  have hreserved (h : t.kind.isWord = true) (k : TokenKind) (hk : k.isReserved = true) :
      k.name = t.text ↔ t.kind = k := by
    rw [reserved_iff_of_word hk, ← (hword h).2]
  refine ⟨fun h => ?_, fun h => ⟨?_, fun k hk hlt hp => ?_⟩, fun k hk hhead hillegal => ?_,
    fun h => ends_of_word (hword h).1, hreserved, fun h k hk hname => ?_⟩
  · rw [htext, hsound.text_eq_name (isFixed_of_named h), String.ofList_toList]
  · exact isPrefix_of_mark? (Piece.mark?_of_first hread h)
  · have hle := length_le_of_mark? (Piece.mark?_of_first hread h) (mem_marks_iff.mpr hk) hp
    omega
  · exact hsound.kind_ne.1 hillegal
  · have hk' := (hreserved (by rw [h]; rfl) k hk).mp hname
    rw [← hk', h] at hk
    cases hk

/-- The token read off the first piece of a text bears out the names of kinds. -/
theorem namedAt_of_token? {p : Place} (h : (Piece.first c cs).token? fileName p = some t) :
    t.NamedAt (c :: cs) := by
  rcases Piece.lead_of_token? h with
    ⟨kind, text, hread, hkind, htext⟩ | ⟨cause, hread, hkind, -⟩
  · exact namedAt_of_first hread hkind htext
  · refine namedAt_of_fault hkind fun k hk hhead => ?_
    have hfault := Piece.isFault_of_mark (mem_marks_iff.mpr hk) hhead.symm cs
    rw [Piece.isFault, hread] at hfault
    cases hfault

end Token

/-- Every token of a source starts somewhere in it, and there the names of kinds tell of it what
they should. -/
theorem lex_named {source fileName : String} {t : Token} (ht : t ∈ (lex source fileName).tokens) :
    (∃ n ≤ source.toList.length, t.IsAt source fileName n) ∧
      ∀ n ≤ source.toList.length, t.IsAt source fileName n →
        t.NamedAt (source.toList.drop n) := by
  refine ⟨Token.exists_isAt ht, fun n hn hat => ?_⟩
  rcases List.mem_append.mp ht with ht | ht
  · have hmem := hat.mem_bodyOffsets ht
    rw [bodyOffsets_pieces] at hmem
    obtain ⟨k, c, cs, -, hk, hdrop, hoffset, hread, -⟩ :=
      exists_first_of_mem (opening_length_le _) hmem
    obtain rfl := eq_of_byteLength_take hn hk hoffset
    exact hdrop ▸ Token.namedAt_of_token? hread
  · rw [List.mem_singleton.mp ht]
    exact Token.namedAt_of_end rfl

/-- The longest of three marks, and a word with the name of a reserved one in it. -/
theorem lex_named_of_shift :
    let source := "é>>=_if"
    let shift : Token := ⟨.shiftRightAssign, ">>=", 2, ⟨1, 2, "a.hz"⟩⟩
    let word : Token := ⟨.identifier, "_if", 5, ⟨1, 5, "a.hz"⟩⟩
    (shift ∈ (lex source "a.hz").tokens ∧ shift.NamedAt ">>=_if".toList) ∧
      word ∈ (lex source "a.hz").tokens ∧ word.NamedAt "_if".toList := by
  intro source shift word
  have hshift : shift ∈ (lex source "a.hz").tokens := by decide +kernel
  have hword : word ∈ (lex source "a.hz").tokens := by decide +kernel
  have hat : shift.IsAt source "a.hz" 1 ∧ word.IsAt source "a.hz" 4 := by
    unfold Token.IsAt
    decide +kernel
  have hnamed := (lex_named hshift).2 1 (by decide +kernel) hat.1
  have hnamed' := (lex_named hword).2 4 (by decide +kernel) hat.2
  have hmark : source.toList.drop 1 = ">>=_if".toList := by decide +kernel
  have hname : source.toList.drop 4 = "_if".toList := by decide +kernel
  exact ⟨⟨hshift, hmark ▸ hnamed⟩, hword, hname ▸ hnamed'⟩

end FrontEnd
