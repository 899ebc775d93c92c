import FrontEnd.Proofs.Lexer.Fronts

/-!
Where reading stops. The tokens of a source end with one that tells of the end, before which
one may tell of a fault. What stands before the fault was chosen without it: the source that
is cut off there has the same tokens up to its end.
-/

namespace FrontEnd

namespace Piece

theorem isFault_lineFeed (cs : List Char) : (first '\n' cs).isFault = false := rfl

theorem head?_unread (cs : List Char) : (unread cs).head? ≠ some '\n' := by
  intro h
  obtain ⟨ds, hunread⟩ := List.head?_eq_some_iff.mp h
  have hfault := isFault_of_unread hunread
  rw [isFault_lineFeed] at hfault
  cases hfault

variable {fileName : String} {p : Place} {x : Piece} {t : Token}

/-- Faults give tokens that tell of them, and no piece gives the token of the end. -/
theorem kind_of_token? (hx : x.Sound []) (h : x.token? fileName p = some t) :
    t.kind ≠ .endOfFile ∧ (t.kind = .illegal ↔ x.isFault = true) := by
  unfold token? at h
  unfold Sound at hx
  unfold isFault
  split at h
  · rename_i kind text hr
    rw [hr] at hx ⊢
    cases h
    simpa using ⟨hx.kind_ne.2, hx.kind_ne.1⟩
  · rename_i cause hr
    rw [hr]
    cases h
    simp
  · cases h

theorem kind_ne_illegal_of_clean {cs : List Char} (h : t ∈ tokensAt fileName p (clean cs)) :
    t.kind ≠ .illegal := by
  obtain ⟨⟨q, x⟩, hx, ht⟩ := List.mem_filterMap.mp h
  have hmem := mem_of_mem_placed hx
  have hclean := isFault_of_clean hmem
  have hsound := divide_sound cs x ((List.takeWhile_prefix _).subset hmem) []
  intro hk
  simp [(kind_of_token? hsound ht).2.mp hk] at hclean

theorem offsetsAt_of_fault {c : Char} {cs : List Char} (h : (first c cs).isFault = true)
    (fileName : String) (p : Place) :
    ∃ t, offsetsAt fileName p (divide (c :: cs)) = [(p.offset, t)] ∧ t.kind = .illegal ∧
      t.start = p.tokenStart ∧ t.location = p.location fileName := by
  rw [divide_of_fault h, offsetsAt_cons]
  unfold isFault at h
  unfold token?
  split at h
  · rename_i cause hr
    rw [hr]
    exact ⟨_, rfl, rfl, rfl, rfl⟩
  · cases h

theorem tokensAt_of_fault {c : Char} {cs : List Char} (h : (first c cs).isFault = true)
    (fileName : String) (p : Place) :
    ∃ t, tokensAt fileName p (divide (c :: cs)) = [t] ∧ t.kind = .illegal := by
  obtain ⟨t, hoffsets, hillegal, -⟩ := offsetsAt_of_fault h fileName p
  exact ⟨t, by rw [← offsetsAt_tokens, hoffsets]; rfl, hillegal⟩

end Piece

open Piece

/-- The source up to its first fault. -/
def untilFault (source : String) : String :=
  String.ofList ((opening source.toList).1 ++ covered (clean (opening source.toList).2))

/-- The source from its first fault on. -/
def fromFault (source : String) : String := String.ofList (unread (opening source.toList).2)

variable {source fileName : String} {t : Token}

theorem untilFault_append (source : String) : untilFault source ++ fromFault source = source := by
  rw [untilFault, fromFault, ← String.ofList_append, List.append_assoc, covered_clean,
    opening_append, String.ofList_toList]

/-- The place of the first fault, or of the end. -/
def faultPlace (source : String) : Place := .boundary source.toList (untilFault source).length

theorem faultPlace_offset (source : String) :
    (faultPlace source).offset = (untilFault source).utf8ByteSize := by
  have hlist := congrArg String.toList (untilFault_append source)
  rw [String.toList_append] at hlist
  have htake : source.toList.take (untilFault source).length = (untilFault source).toList := by
    rw [← hlist, ← String.length_toList, List.take_left]
  rw [faultPlace, Place.boundary, htake, byteLength_toList]

theorem faultPlace_eq (source : String) :
    faultPlace source = stop (Place.start.after (opening source.toList).1 (opening source.toList).2)
      (clean (opening source.toList).2) := by
  have happend := congrArg String.toList (untilFault_append source)
  rw [String.toList_append] at happend
  rw [faultPlace, ← String.length_toList, ← Place.start_after happend, untilFault, fromFault,
    String.toList_ofList, String.toList_ofList, Place.after_append, covered_clean,
    ← stop_before, before_unread]

/-- The source that is cut off before its first fault is divided into the same pieces. -/
theorem bodyOffsets_untilFault (source fileName : String) :
    bodyOffsets (untilFault source) fileName =
      offsetsAt fileName (Place.start.after (opening source.toList).1 (opening source.toList).2)
        (clean (opening source.toList).2) := by
  have hnarrower : Narrower ['\n'] (covered (clean (opening source.toList).2))
      (opening source.toList).2 := by
    have hnil : Narrower ['\n'] [] (unread (opening source.toList).2) := .nil
    have hfront := hnil.append (covered (clean (opening source.toList).2))
    rwa [covered_clean, List.append_nil] at hfront
  -- No fault begins with a line feed, so that no place before it is told by what is cut off.
  have hhead : [].head? = some '\n' ↔ (unread (opening source.toList).2).head? = some '\n' :=
    iff_of_false nofun (head?_unread _)
  have hplace :
      Place.start.after (opening source.toList).1 (covered (clean (opening source.toList).2)) =
        Place.start.after (opening source.toList).1 (opening source.toList).2 := by
    have hcongr := Place.head?_append_congr hhead (covered (clean (opening source.toList).2))
    rw [covered_clean, List.append_nil] at hcongr
    exact Place.after_congr .start hcongr
  have hdivide := divide_before (opening source.toList).2 fun _ _ => .nil
  rw [List.append_nil] at hdivide
  rw [bodyOffsets_eq, untilFault, String.toList_ofList, opening_again hnarrower, hdivide,
    divide_nil, List.append_nil, offsetsAt_before_congr fileName hhead, before_unread, hplace]

/-- Behind the tokens of the source that is cut off stands what begins with the fault. -/
theorem bodyOffsets_append (source fileName : String) :
    bodyOffsets source fileName = bodyOffsets (untilFault source) fileName ++
      offsetsAt fileName (faultPlace source) (divide (fromFault source).toList) := by
  rw [bodyOffsets_untilFault, faultPlace_eq, fromFault, String.toList_ofList, ← offsetsAt_append,
    ← divide_eq_clean, bodyOffsets_eq]

theorem body_eq (source fileName : String) :
    (lex source fileName).body = (lex (untilFault source) fileName).body ++
      tokensAt fileName (faultPlace source) (divide (fromFault source).toList) := by
  rw [← bodyOffsets_tokens, bodyOffsets_append, List.map_append, bodyOffsets_tokens,
    offsetsAt_tokens]

theorem kind_ne_endOfFile_of_mem (h : t ∈ (lex source fileName).body) : t.kind ≠ .endOfFile := by
  rw [lex_body] at h
  obtain ⟨⟨q, x⟩, hx, ht⟩ := List.mem_filterMap.mp h
  exact (kind_of_token? (divide_sound _ x (mem_of_mem_placed hx) []) ht).1

theorem kind_ne_illegal_of_untilFault (h : t ∈ (lex (untilFault source) fileName).tokens) :
    t.kind ≠ .illegal := by
  rcases List.mem_append.mp h with h | h
  · rw [← bodyOffsets_tokens, bodyOffsets_untilFault, offsetsAt_tokens] at h
    exact kind_ne_illegal_of_clean h
  · rw [List.mem_singleton.mp h]
    exact nofun

/-- A token that tells of a fault stands where the fault does, behind all other tokens. -/
theorem bodyOffsets_of_illegal (h : t ∈ (lex source fileName).body) (hk : t.kind = .illegal) :
    bodyOffsets source fileName =
        bodyOffsets (untilFault source) fileName ++ [((faultPlace source).offset, t)] ∧
      t.start = (faultPlace source).tokenStart ∧
      t.location = (faultPlace source).location fileName := by
  have happend := bodyOffsets_append source fileName
  have hlegal : t ∉ (lex (untilFault source) fileName).body :=
    fun ht => kind_ne_illegal_of_untilFault (List.mem_append_left _ ht) hk
  rw [← bodyOffsets_tokens] at h hlegal
  cases hrest : unread (opening source.toList).2 with
  | nil =>
    rw [happend, fromFault, hrest] at h
    exact absurd (by simpa [divide_nil, offsetsAt, placed] using h) hlegal
  | cons c cs =>
    obtain ⟨u, hoffsets, -, hplace⟩ :=
      offsetsAt_of_fault (isFault_of_unread hrest) fileName (faultPlace source)
    rw [fromFault, hrest, String.toList_ofList, hoffsets] at happend
    rw [happend, List.map_append, List.mem_append] at h
    obtain rfl := List.mem_singleton.mp (h.resolve_left hlegal)
    exact ⟨happend, hplace⟩

theorem isAt_of_illegal (h : t ∈ (lex source fileName).body) (hk : t.kind = .illegal) :
    t.IsAt source fileName (untilFault source).length := by
  have hoffset : (faultPlace source).offset =
      byteLength (source.toList.take (untilFault source).length) := by
    rw [faultPlace, Place.boundary]
  rw [Token.IsAt, offsets, (bodyOffsets_of_illegal h hk).1, hoffset]
  simp only [List.append_assoc, List.mem_append, List.mem_singleton, true_or, or_true]

theorem body_of_illegal (h : t ∈ (lex source fileName).body) (hk : t.kind = .illegal) :
    (lex source fileName).body = (lex (untilFault source) fileName).body ++ [t] := by
  rw [← bodyOffsets_tokens, (bodyOffsets_of_illegal h hk).1, List.map_append, bodyOffsets_tokens]
  rfl

private theorem concat_cases {α : Type} {list : List α} {x y : α} {i : Nat}
    (h : (list ++ [x])[i]? = some y) : list[i]? = some y ∨ i = list.length ∧ y = x := by
  rw [List.getElem?_append] at h
  split at h
  · exact .inl h
  · obtain ⟨hi, rfl⟩ := List.getElem?_eq_some_iff.mp h
    simp only [List.length_singleton] at hi
    exact .inr ⟨by omega, by simp⟩

/-- The tokens of a source end with the only one that tells of the end. Before it may stand one
that tells of a fault. The source cut off where that stands has the tokens before it, at the
same places, and none that tells of a fault. -/
theorem lex_stops (source fileName : String) :
    let tokens := (lex source fileName).tokens
    tokens ≠ [] ∧
      (∀ i t, tokens[i]? = some t → (t.kind = .endOfFile ↔ i + 1 = tokens.length)) ∧
      ∀ i t, tokens[i]? = some t → t.kind = .illegal →
        i + 2 = tokens.length ∧ ∃ front rest : String, source = front ++ rest ∧
          t.IsAt source fileName front.length ∧
          t.start = min front.utf8ByteSize greatestOffset ∧
          t.location = ⟨.ofNat (lineAt source.toList front.length),
            .ofNat (columnAt source.toList front.length), fileName⟩ ∧
          (lex front fileName).tokens.dropLast = tokens.take i ∧
          ∀ u ∈ (lex front fileName).tokens, u.kind ≠ .illegal := by
  intro tokens
  have htokens : tokens = (lex source fileName).body ++ [(lex source fileName).last] := rfl
  have hlength : tokens.length = (lex source fileName).body.length + 1 := by simp [htokens]
  refine ⟨by simp [htokens], fun i t ht => ?_, fun i t ht hillegal => ?_⟩
  · rw [htokens] at ht
    rcases concat_cases ht with ht | ⟨hi, rfl⟩
    · have hi := (List.getElem?_eq_some_iff.mp ht).1
      exact iff_of_false (kind_ne_endOfFile_of_mem (List.mem_of_getElem? ht)) (by omega)
    · exact iff_of_true rfl (by omega)
  · have ht : (lex source fileName).body[i]? = some t := by
      rcases concat_cases (htokens ▸ ht) with ht | ⟨-, rfl⟩
      · exact ht
      · cases hillegal
    have hbody := body_of_illegal (List.mem_of_getElem? ht) hillegal
    obtain ⟨-, hstart, hlocation⟩ := bodyOffsets_of_illegal (List.mem_of_getElem? ht) hillegal
    have hi : i = (lex (untilFault source) fileName).body.length := by
      rcases concat_cases (hbody ▸ ht) with ht | ⟨hi, -⟩
      · have hmem : t ∈ (lex (untilFault source) fileName).tokens :=
          List.mem_append_left _ (List.mem_of_getElem? ht)
        exact absurd hillegal (kind_ne_illegal_of_untilFault hmem)
      · exact hi
    refine ⟨by simp [hlength, hbody, hi], untilFault source, fromFault source,
      (untilFault_append source).symm, isAt_of_illegal (List.mem_of_getElem? ht) hillegal, ?_, ?_,
      ?_, fun u => kind_ne_illegal_of_untilFault⟩
    · rw [hstart, Place.tokenStart, faultPlace_offset]
    · rw [hlocation, faultPlace, Place.location_boundary]
    · simp [htokens, hbody, hi, TokenStream.tokens]

/-- A number without the digits of its exponent, on the third line. -/
theorem lex_stops_of_exponent :
    let source := "a\r\n/* é */ 'x'\r 1.5+2e+ b"
    let tokens := (lex source "a.hz").tokens
    ∃ t, tokens[4]? = some t ∧ t.kind = .illegal ∧ 4 + 2 = tokens.length ∧
      ∃ front rest : String, source = front ++ rest ∧
        t.IsAt source "a.hz" front.length ∧
        t.start = min front.utf8ByteSize greatestOffset ∧
        t.location = ⟨.ofNat (lineAt source.toList front.length),
          .ofNat (columnAt source.toList front.length), "a.hz"⟩ ∧
        (lex front "a.hz").tokens.dropLast = tokens.take 4 ∧
        ∀ u ∈ (lex front "a.hz").tokens, u.kind ≠ .illegal := by
  intro source tokens
  have hkind : tokens[4]?.map (·.kind) = some .illegal := by decide +kernel
  obtain ⟨t, ht, hillegal⟩ := Option.map_eq_some_iff.mp hkind
  obtain ⟨-, -, hstops⟩ := lex_stops source "a.hz"
  exact ⟨t, ht, hillegal, hstops 4 t ht hillegal⟩

end FrontEnd
