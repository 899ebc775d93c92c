import FrontEnd.Proofs.Lexer.Spacing
import FrontEnd.Proofs.Parser.Guard
import FrontEnd.Proofs.Parser.Names
import FrontEnd.Proofs.Parser.Reprinting.Trees
import FrontEnd.Proofs.Parser.Shapes.Statements

/-!
Printing a tree and reading it again. The text of the tree of a source is read as that tree
but for its anchors, unless the parentheses that printing adds nest it too deeply.
-/

namespace FrontEnd

open Grammar

/-! ## Trees read again -/

section Reading

variable {symbols : Symbols} {ts : List Tree}

/-- The items are as the given ones, but for their anchors. -/
def Alike (ts us : List Tree) : Prop := us.map Tree.unanchored = ts.map Tree.unanchored

/-- Printed statements are read as what they were printed from, or nested too deeply. -/
theorem Rule.unit_of_printed (hts : ∀ limit, ∀ t ∈ ts, ReadsStatement symbols limit t)
    (hsymbols : symbols.toList = ts.flatMap (·.printed.statement)) (limit : Nat) :
    (∃ us s, Rule.unit.eval symbols limit ⟨0, 0⟩ = .read us s ∧ Alike ts us) ∨
      ∃ s, Rule.unit.eval symbols limit ⟨0, 0⟩ = .failed (.nestedTooDeeply limit) s := by
  have hstand : symbols.Stand 0 (ts.flatMap (·.printed.statement) ++ []) := by
    rw [Symbols.Stand, List.drop_zero, hsymbols, List.append_nil]
  obtain ⟨us, hus, hread | ⟨-, s, hfailed⟩⟩ := Grammar.unit_yields (hts limit) 0 0 hstand
  · exact .inl ⟨us, _, (Rule.unit.eval_eq symbols limit _).trans hread, hus⟩
  · exact .inr ⟨s, (Rule.unit.eval_eq symbols limit _).trans hfailed⟩

/-- With levels enough they are read. A rejection would tell its limit, but one level more
changes nothing. -/
theorem Rule.unit_of_levels (hts : ∀ limit, ∀ t ∈ ts, ReadsStatement symbols limit t)
    (hsymbols : symbols.toList = ts.flatMap (·.printed.statement)) {limit : Nat}
    (hlimit : budget symbols ≤ limit) :
    ∃ us s, Rule.unit.eval symbols limit ⟨0, 0⟩ = .read us s ∧ Alike ts us := by
  rcases unit_of_printed hts hsymbols limit with hread | ⟨s, hfailed⟩
  · exact hread
  · have hsame : Rule.unit.eval symbols limit ⟨0, 0⟩ = Rule.unit.eval symbols (limit + 1) ⟨0, 0⟩ :=
      (Rule.exec_eq_unguarded .unit (by simpa using hlimit)).trans
        (Rule.exec_eq_unguarded .unit (by simp; omega)).symm
    rcases unit_of_printed hts hsymbols (limit + 1) with ⟨us, s', hread, -⟩ | ⟨s', hfailed'⟩
    · rw [← hsame, hfailed] at hread
      cases hread
    · rw [← hsame, hfailed] at hfailed'
      simp at hfailed'

end Reading

/-- Where a tree stands does not matter to its printing. -/
theorem Form.printed_mapTokens (g : Nat → Nat) (form : Form Printed) :
    (form.mapTokens g).printed = form.printed := by
  have hitem : (MatchItem.printed ∘ id) = MatchItem.printed := rfl
  cases form <;> simp [mapTokens, printed, Function.comp_def, Param.printed, Variant.printed,
    MatchBranch.printed]

theorem Tree.unanchored_mapTokens (g : Nat → Nat) (t : Tree) :
    (t.mapTokens g).unanchored = t.unanchored := t.mapTokens_mapTokens ..

theorem Tree.printed_mapTokens (g : Nat → Nat) (t : Tree) :
    (t.mapTokens g).printed = t.printed := by
  refine eq_fold (F := fun t => (t.mapTokens g).printed) (fun token form => ?_) t
  rw [mapTokens_node, printed_node, Form.map_mapTokens, Form.printed_mapTokens, Form.map_map]
  rfl

/-- The names and literals of the tree of a source are tokens of it, and can be read. -/
theorem readable_of_names {source fileName : String} {t : Tree}
    (h : parse (lex source fileName) = .ok t) {a : Symbol} (ha : a ∈ t.names) :
    a.Readable ∧ ∃ token ∈ (lex source fileName).tokens, token.symbol = a := by
  rw [TokenStream.names_of_parse (lex_regular source fileName) (fun _ => lex_size_le) h] at ha
  obtain ⟨token, htoken, rfl⟩ := List.mem_map.mp ha
  obtain ⟨hmem, hkind⟩ := List.mem_filter.mp htoken
  have htrivia : token.kind.isTrivia = false := by
    cases hk : token.kind <;> first | rfl | (rw [hk] at hkind; cases hkind)
  refine ⟨?_, token, hmem, rfl⟩
  rcases List.mem_append.mp hmem with hbody | hlast
  · exact lex_readable hbody (TokenStream.kind_ne_illegal_of_parse h hbody) htrivia
  · rw [List.mem_singleton.mp hlast] at hkind
    cases hkind

/-- What a tree that a source has is printed as can be read. -/
theorem readable_of_parse {source fileName : String} {t : Tree}
    (h : parse (lex source fileName) = .ok t) : ∀ a ∈ t.printed.symbols, a.Readable := by
  intro a ha
  rcases Tree.mem_printed ha with hmark | hname
  · exact Symbol.readable_of_mark hmark
  · exact (readable_of_names h hname).1

/-- The stream holds the symbols that the tree is printed as. -/
structure TokenStream.Prints (s : TokenStream) (t : Tree) : Prop where
  illegal : s.illegal? = none
  symbols : s.symbols.toList = t.printed.symbols

section Trees

variable {source fileName : String} {t : Tree} (h : parse (lex source fileName) = .ok t)

include h

/-- The text of the tree of a source is read as what it is printed as. -/
theorem text_prints (fileName' : String) : (lex t.text fileName').Prints t :=
  ⟨TokenStream.illegal?_spaced (readable_of_parse h) fileName',
    TokenStream.symbols_spaced (readable_of_parse h) fileName'⟩

/-- The tree of a source has statements that are read when printed. -/
theorem exists_items_of_parse : ∃ items : List Tree,
    (∀ symbols limit, ∀ item ∈ items, ReadsStatement symbols limit item) ∧
      t.printed.symbols = items.flatMap (·.printed.statement) ∧
      ∀ us g, Alike items us → t.Like ((Tree.node 0 (.root us)).mapTokens g) := by
  obtain ⟨items, q, hunit, rfl⟩ := TokenStream.eval_of_parse h
  have hitems := Rule.shapes_of_eval hunit
  refine ⟨items, fun symbols limit item hitem => (hitems item hitem).reads, ?_, fun us g hus => ?_⟩
  · rw [Tree.printed_mapTokens, Tree.printed_node]
    exact List.flatMap_map ..
  · rw [Tree.Like, Tree.unanchored_mapTokens, Tree.unanchored_mapTokens, Tree.unanchored_node,
      Tree.unanchored_node]
    simpa [Alike] using hus

variable {s : TokenStream} (hs : s.Prints t)

include hs

/-- At any limit the printed tree of a source is read as that tree, or nested too deeply. -/
theorem parseWithin_of_prints (limit : Nat) :
    (∃ u, ((Cursor.start s).parseWithin limit).1 = .ok u ∧ t.Like u) ∨
      ∃ location, ((Cursor.start s).parseWithin limit).1 =
        .error ⟨.structural, (Cause.nestedTooDeeply limit).message, location⟩ := by
  obtain ⟨items, hitems, hprinted, hlike⟩ := exists_items_of_parse h
  rcases Rule.unit_of_printed (hitems s.symbols) (hs.symbols.trans hprinted) limit with
    ⟨us, q, hread, hus⟩ | ⟨q, hfailed⟩
  · have hroot := Cursor.parseWithin_of_read (c := Cursor.start s) hs.illegal hread
    exact .inl ⟨_, hroot, hlike us _ hus⟩
  · exact .inr ⟨_, Cursor.parseWithin_of_failed (c := Cursor.start s) hs.illegal hfailed⟩

/-- With levels enough it is read. -/
theorem parseWithin_of_levels {limit : Nat} (hlimit : budget s.symbols ≤ limit) :
    ∃ u, ((Cursor.start s).parseWithin limit).1 = .ok u ∧ t.Like u := by
  obtain ⟨items, hitems, hprinted, hlike⟩ := exists_items_of_parse h
  obtain ⟨us, q, hread, hus⟩ :=
    Rule.unit_of_levels (hitems s.symbols) (hs.symbols.trans hprinted) hlimit
  exact ⟨_, Cursor.parseWithin_of_read (c := Cursor.start s) hs.illegal hread, hlike us _ hus⟩

end Trees

/-- The text of the tree of a source is read as that tree but for its anchors, or else it is
rejected for its nesting, which it is not where there are levels enough. -/
theorem parse_printed {source fileName : String} {t : Tree}
    (h : parse (lex source fileName) = .ok t) (fileName' : String) :
    ((∃ u, parse (lex t.text fileName') = .ok u ∧ t.Like u) ∨
        ∃ location, parse (lex t.text fileName') =
          .error ⟨.structural, (Cause.nestedTooDeeply nestingLimit).message, location⟩) ∧
      ∃ enough, ∀ limit ≥ enough,
        ∃ u, ((Cursor.start (lex t.text fileName')).parseWithin limit).1 = .ok u ∧ t.Like u := by
  have hprints := text_prints h fileName'
  exact ⟨parseWithin_of_prints h hprints nestingLimit,
    budget (lex t.text fileName').symbols, fun _ hlimit => parseWithin_of_levels h hprints hlimit⟩

theorem parse_printed_of_loop :
    ∃ t u, parse (lex "for (x) \x7b a = -b[1] * c; \x7d" "a.hz") = .ok t ∧
      t.text = "for ( x ) \x7b a = ( ( - ( b [ 1 ] ) ) * c ) ; \x7d" ∧
      parse (lex t.text "b.hz") = .ok u ∧ t.Like u := by
  have htext : (parse (lex "for (x) \x7b a = -b[1] * c; \x7d" "a.hz")).toOption.map Tree.text =
      some "for ( x ) \x7b a = ( ( - ( b [ 1 ] ) ) * c ) ; \x7d" := by decide +kernel
  have hok : (parse (lex "for ( x ) \x7b a = ( ( - ( b [ 1 ] ) ) * c ) ; \x7d" "b.hz")).isOk =
      true := by decide +kernel
  cases h : parse (lex "for (x) \x7b a = -b[1] * c; \x7d" "a.hz") with
  | error fault =>
    rw [h] at htext
    cases htext
  | ok t =>
    rw [h] at htext
    obtain ⟨⟨u, hu, hlike⟩ | ⟨location, herror⟩, -⟩ := parse_printed h "b.hz"
    · exact ⟨t, u, rfl, Option.some.inj htext, hu, hlike⟩
    · rw [show t.text = _ from Option.some.inj htext] at herror
      rw [herror] at hok
      cases hok

end FrontEnd
