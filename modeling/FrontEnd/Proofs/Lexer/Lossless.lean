import FrontEnd.Proofs.Lexer.Offsets

/-!
Reading loses nothing. The tokens of a source, up to the first fault, stand in it
one behind the other with nothing but trivia between them, each at the byte that
its offset tells, and without a fault they reach to the end.
-/

namespace FrontEnd

/-- Behind `behind` the text `covered`, which `rest` follows, is made of the lexemes of
the tokens in order, each where its token starts, and of trivia between them. -/
inductive Tiles : (behind : List Char) → List Token → (covered rest : List Char) → Prop where
  | done {behind rest : List Char} : Tiles behind [] [] rest
  | trivia {behind lexeme covered rest : List Char} {tokens : List Token}
    (h : Trivia behind lexeme (covered ++ rest))
    (ht : Tiles (behind ++ lexeme) tokens covered rest) :
    Tiles behind tokens (lexeme ++ covered) rest
  | token {behind lexeme covered rest : List Char} {t : Token} {tokens : List Token}
    (hs : t.start = byteLength behind) (h : Spells t.kind t.text.toList lexeme (covered ++ rest))
    (ht : Tiles (behind ++ lexeme) tokens covered rest) :
    Tiles behind (t :: tokens) (lexeme ++ covered) rest

def Token.isIllegal (t : Token) : Bool := t.kind == .illegal

/-- The tokens read from `cs` behind `behind`, up to a fault, tile `cs` up to the token
that tells of it, and without a fault the whole of `cs` up to where reading stopped. -/
def Tiled (behind cs : List Char) (tokens : List Token) (stop : Place) : Prop :=
  ∃ covered rest, cs = covered ++ rest ∧
    Tiles behind (tokens.takeWhile (!·.isIllegal)) covered rest ∧
    match tokens.find? (·.isIllegal) with
    | some t => t.start = byteLength (behind ++ covered)
    | none => rest = [] ∧ stop.offset = byteLength (behind ++ covered)

namespace Tiled

variable {behind cs : List Char} {tokens : List Token} {stop : Place} {x : Piece}

theorem trivia (ht : Trivia behind x.lexeme x.rest)
    (h : Tiled (behind ++ x.lexeme) x.rest tokens stop) :
    Tiled behind (x.lexeme ++ x.rest) tokens stop := by
  obtain ⟨covered, rest, hrest, htiles, hstop⟩ := h
  refine ⟨x.lexeme ++ covered, rest, by rw [hrest, List.append_assoc], .trivia ?_ htiles, ?_⟩
  · rwa [← hrest]
  · rwa [List.append_assoc] at hstop

theorem token {t : Token} (hs : t.start = byteLength behind)
    (ht : Spells t.kind t.text.toList x.lexeme x.rest)
    (h : Tiled (behind ++ x.lexeme) x.rest tokens stop) :
    Tiled behind (x.lexeme ++ x.rest) (t :: tokens) stop := by
  obtain ⟨covered, rest, hrest, htiles, hstop⟩ := h
  have hlegal : t.isIllegal = false := by simpa [Token.isIllegal] using ht.kind_ne.1
  refine ⟨x.lexeme ++ covered, rest, by rw [hrest, List.append_assoc], ?_, ?_⟩
  · rw [List.takeWhile_cons_of_pos (by simp [hlegal])]
    exact .token hs (by rwa [← hrest]) htiles
  · rwa [List.find?_cons_of_neg (by simp [hlegal]), ← List.append_assoc]

theorem fault {t : Token} (hs : t.start = byteLength behind) (ht : t.isIllegal = true) :
    Tiled behind cs [t] stop := by
  refine ⟨[], cs, rfl, ?_, ?_⟩
  · simp only [List.takeWhile_cons, ht]
    exact .done
  · simpa [ht] using hs

end Tiled

namespace Piece

theorem tokenStart_eq {p : Place} {behind cs : List Char} (hp : p.offset = byteLength behind)
    (hsize : byteLength (behind ++ cs) ≤ greatestOffset) : p.tokenStart = byteLength behind := by
  rw [byteLength_append] at hsize
  unfold Place.tokenStart
  omega

theorem divide_tiled (fileName : String) (p : Place) (behind cs : List Char)
    (hp : p.offset = byteLength behind) (hsize : byteLength (behind ++ cs) ≤ greatestOffset) :
    Tiled behind cs (tokensAt fileName p (divide cs)) (stop p (divide cs)) := by
  induction cs using divide_induct generalizing p behind with
  | nil => exact ⟨[], [], rfl, .done, rfl, by simpa [stop, divide_nil] using hp⟩
  | fault c cs hf =>
    have hstart := tokenStart_eq hp hsize
    rw [divide_of_fault hf, tokensAt_cons]
    cases hr : (first c cs).reading with
    | fault cause =>
      simp only [token?, hr]
      exact Tiled.fault hstart rfl
    | trivia | openComment | token =>
      simp [isFault, hr] at hf
  | cons c cs hf ih =>
    have happend := first_append c cs
    have hsound := first_sound c cs behind
    have hstart := tokenStart_eq hp hsize
    have hoffset : (p.after (first c cs).lexeme (first c cs).rest).offset =
        byteLength (behind ++ (first c cs).lexeme) := by
      rw [Place.after_offset, hp, byteLength_append]
    have hrest := ih (p.after (first c cs).lexeme (first c cs).rest) (behind ++ (first c cs).lexeme)
      hoffset (by rwa [List.append_assoc, happend])
    rw [divide_of_read hf, ← happend]
    unfold Sound at hsound
    cases hr : (first c cs).reading with
    | trivia | openComment =>
      rw [hr] at hsound
      simpa [tokensAt_cons, token?, hr, stop_cons] using hrest.trivia hsound
    | token kind text =>
      rw [hr] at hsound
      have ht : Spells kind (String.ofList text).toList (first c cs).lexeme (first c cs).rest := by
        rw [String.toList_ofList]
        exact hsound
      simpa [tokensAt_cons, token?, hr, stop_cons] using
        hrest.token (t := ⟨kind, String.ofList text, p.tokenStart, p.location fileName⟩) hstart ht
    | fault cause => simp [isFault, hr] at hf

end Piece

/-! ## The opening of a source -/

/-- A byte order mark, or none, and then a line that names an interpreter, or none. -/
theorem opening_cases (source : List Char) :
    ∃ front text, front ++ text = source ∧ (front = [] ∨ front = [byteOrderMark]) ∧
      (opening source = (front, text) ∨ ['#', '!', '/'].isPrefixOf text = true ∧
        opening source =
          (front ++ text.takeWhile (!isLineEnd ·), text.dropWhile (!isLineEnd ·))) := by
  unfold opening
  dsimp only
  by_cases hm : source.head? = some byteOrderMark
  · obtain ⟨text, rfl⟩ := List.head?_eq_some_iff.mp hm
    refine ⟨[byteOrderMark], text, rfl, .inr rfl, ?_⟩
    rw [if_pos hm]
    split
    · rename_i hi
      exact .inr ⟨hi, rfl⟩
    · exact .inl rfl
  · refine ⟨[], source, rfl, .inl rfl, ?_⟩
    rw [if_neg hm]
    split
    · rename_i hi
      exact .inr ⟨hi, rfl⟩
    · exact .inl rfl

theorem interpreter_tiles {behind text covered rest : List Char} {tokens : List Token}
    (hb : behind = [] ∨ behind = [byteOrderMark]) (ht : ['#', '!', '/'].isPrefixOf text = true)
    (hrest : text.dropWhile (!isLineEnd ·) = covered ++ rest)
    (h : Tiles (behind ++ text.takeWhile (!isLineEnd ·)) tokens covered rest) :
    Tiles behind tokens (text.takeWhile (!isLineEnd ·) ++ covered) rest := by
  obtain ⟨line, rfl⟩ := List.isPrefixOf_iff_prefix.mp ht
  have hline := restOfLine_takeWhile line
  have htake : (['#', '!', '/'] ++ line).takeWhile (!isLineEnd ·) =
      ['#', '!', '/'] ++ line.takeWhile (!isLineEnd ·) := by
    simp [isLineEnd]
  have hdrop : (['#', '!', '/'] ++ line).dropWhile (!isLineEnd ·) =
      line.dropWhile (!isLineEnd ·) := by
    simp [isLineEnd]
  rw [htake] at h ⊢
  rw [hdrop] at hrest
  rw [hrest] at hline
  exact .trivia (.interpreter hb hline) h

theorem opening_tiles {source covered rest : List Char} {tokens : List Token}
    (hrest : (opening source).2 = covered ++ rest)
    (h : Tiles (opening source).1 tokens covered rest) :
    Tiles [] tokens ((opening source).1 ++ covered) rest := by
  have hfront {front covered : List Char} (hf : front = [] ∨ front = [byteOrderMark])
      (h : Tiles front tokens covered rest) : Tiles [] tokens (front ++ covered) rest := by
    rcases hf with rfl | rfl
    · exact h
    · exact .trivia .orderMark h
  obtain ⟨front, text, -, hf, ho | ⟨hi, ho⟩⟩ := opening_cases source
  · rw [ho] at h ⊢
    exact hfront hf h
  · rw [ho] at hrest h ⊢
    rw [List.append_assoc]
    exact hfront hf (interpreter_tiles hf hi hrest h)

theorem lex_body (source fileName : String) :
    (lex source fileName).body = Piece.tokensAt fileName
      (Place.start.after (opening source.toList).1 (opening source.toList).2)
      (Piece.divide (opening source.toList).2) := by
  rw [lex_eq]
  rfl

theorem lex_last (source fileName : String) :
    (lex source fileName).stop =
      ((Piece.stop (Place.start.after (opening source.toList).1 (opening source.toList).2)
        (Piece.divide (opening source.toList).2)).tokenStart,
      (Piece.stop (Place.start.after (opening source.toList).1 (opening source.toList).2)
        (Piece.divide (opening source.toList).2)).location fileName) := by
  rw [lex_eq]
  rfl

theorem lex_fileName (source fileName : String) : (lex source fileName).fileName = fileName := by
  rw [lex_eq]
  rfl

/-- A token of a source that tells of no fault is written as its kind and its text say. -/
theorem lex_spells {source fileName : String} {t : Token} (h : t ∈ (lex source fileName).body)
    (hlegal : t.kind ≠ .illegal) : ∃ lexeme rest, Spells t.kind t.text.toList lexeme rest := by
  rw [lex_body] at h
  obtain ⟨⟨q, x⟩, hx, ht⟩ := List.mem_filterMap.mp h
  have hsound := Piece.divide_sound _ x (Piece.mem_of_mem_placed hx) []
  unfold Piece.Sound at hsound
  change x.token? fileName q = some t at ht
  unfold Piece.token? at ht
  split at ht
  · rename_i kind text hr
    cases ht
    rw [hr] at hsound
    exact ⟨x.lexeme, x.rest, by simpa using hsound⟩
  · cases ht
    exact absurd rfl hlegal
  · cases ht

namespace TokenStream

/-- The tokens before the one that tells of a fault. -/
def sound (s : TokenStream) : List Token := s.body.takeWhile (!·.isIllegal)

/-- The token that tells of a fault, or else the end. -/
def stopper (s : TokenStream) : Token := (s.body.find? (·.isIllegal)).getD s.last

end TokenStream

/-- The source up to the first fault, or up to its end, is tiled by its tokens. -/
theorem lex_lossless (source fileName : String) (h : source.utf8ByteSize < UInt32.size) :
    ∃ covered rest, source.toList = covered ++ rest ∧
      Tiles [] (lex source fileName).sound covered rest ∧
      (lex source fileName).stopper.start = byteLength covered ∧
      ((∀ t ∈ (lex source fileName).body, t.kind ≠ .illegal) →
        rest = [] ∧ (lex source fileName).last.start = source.utf8ByteSize) := by
  have happend := opening_append source.toList
  have hsize : byteLength ((opening source.toList).1 ++ (opening source.toList).2) ≤
      greatestOffset := by
    rw [happend, byteLength_toList]
    exact Nat.le_of_lt_succ h
  obtain ⟨covered, rest, hrest, htiles, hstop⟩ :=
    Piece.divide_tiled fileName _ _ _ (Place.start_after_offset _ _) hsize
  rw [← lex_body] at htiles hstop
  have hsource : source.toList = ((opening source.toList).1 ++ covered) ++ rest := by
    rw [List.append_assoc, ← hrest, happend]
  refine ⟨(opening source.toList).1 ++ covered, rest, hsource, opening_tiles hrest htiles, ?_⟩
  unfold TokenStream.stopper
  cases hf : (lex source fileName).body.find? (·.isIllegal) with
  | some t =>
    rw [hf] at hstop
    refine ⟨hstop, fun hlegal => ?_⟩
    have ht : t.kind = .illegal := by simpa [Token.isIllegal] using List.find?_some hf
    exact absurd ht (hlegal t (List.mem_of_find?_eq_some hf))
  | none =>
    rw [hf] at hstop
    obtain ⟨rfl, hoffset⟩ := hstop
    rw [List.append_nil] at hsource
    rw [← hsource, byteLength_toList] at hoffset ⊢
    have hstart : (lex source fileName).last.start = source.utf8ByteSize := by
      rw [TokenStream.last, lex_last, Place.tokenStart, hoffset]
      exact Nat.min_eq_left (Nat.le_of_lt_succ h)
    exact ⟨hstart, fun _ => ⟨rfl, hstart⟩⟩

/-- The last character of this source is no token. -/
theorem lex_lossless_of_fault :
    "x /* é */ = 'y' $".utf8ByteSize < UInt32.size ∧
      ∃ covered rest, "x /* é */ = 'y' $".toList = covered ++ rest ∧
        Tiles [] (lex "x /* é */ = 'y' $" "a.hz").sound covered rest ∧
        (lex "x /* é */ = 'y' $" "a.hz").stopper.start = byteLength covered := by
  have h : "x /* é */ = 'y' $".utf8ByteSize < UInt32.size := by decide
  obtain ⟨covered, rest, hsource, htiles, hstart, -⟩ := lex_lossless _ "a.hz" h
  exact ⟨h, covered, rest, hsource, htiles, hstart⟩

end FrontEnd
