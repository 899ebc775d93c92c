import FrontEnd.Proofs.Parser.Reprinting.Statements
import FrontEnd.Proofs.Parser.Shapes

/-!
Printed trees of every shape are read as what they were printed from.
-/

namespace FrontEnd

open Grammar

/-- What reading the printed tree takes, by what the tree stands for. -/
def Category.Reads (symbols : Symbols) (limit : Nat) : Category → Tree → Prop
  | .expression => ReadsExpression symbols limit
  | .assignment => ReadsAssignment symbols limit
  | .typeMark => ReadsMark symbols limit
  | .type => ReadsType symbols limit
  | .prototype isExport isExtern => ReadsPrototype symbols limit isExport isExtern
  | .block label => ReadsBlock symbols limit label
  | .body => ReadsBody symbols limit
  | .conditional _ => ReadsConditional symbols limit
  | .declaration => ReadsDeclaration symbols limit
  | .initial => fun t => ReadsDeclaration symbols limit t ∨ ReadsAssignment symbols limit t
  | .field => ReadsField symbols limit
  | .statement => ReadsStatement symbols limit
  | .deeper category => category.Reads symbols limit

/-- A tree that has been read is printed as symbols that are read, whatever the first were and
wherever the second stand. -/
theorem Shaped.reads {source target : Symbols} {bound limit : Nat} {category : Category}
    {depth : Nat} {t : Tree} (h : Shaped source bound category depth t) :
    category.Reads target limit t := by
  induction h with
  | deeper _ _ ih => exact ih
  | leaf h => exact .leaf h _
  | enclosed _ ih => exact ih
  | signature _ ih => exact ih.expression
  | function _ _ ht hbody => exact ht.function hbody _
  | selection _ hne _ _ hsubject hitems hbodies => exact hsubject.selection hne hitems hbodies _
  | elements _ ih => exact .elements ih _
  | access _ ih => exact ih.access _ _
  | index _ _ h hp => exact h.index hp _
  | slice _ _ _ _ h hstart hstop hsentinel => exact h.slice hstart hstop hsentinel _
  | call _ _ h hargs => exact h.call hargs _
  | unary _ ih => exact ih.prefixed _ _
  | attempt _ ih => exact ih.attempt _
  | recovery _ _ hl hr => exact hl.recovery hr.handler _ _
  | recoveryBlock _ _ hl hr => exact hl.recovery hr.handler _ _
  | binary hlevel hop _ _ hl hr => exact hl.binary hr hlevel hop _
  | unassigned _ ih => exact ih.assignment
  | assignment hop _ _ hl hr => exact .binary hl hr hop _
  | optional _ ih => exact .optional ih _
  | slices _ ih => exact .slices ih _
  | inferred _ _ hsentinel h => exact .inferred hsentinel h _
  | sized _ _ _ hsize hsentinel h => exact .sized hsize hsentinel h _
  | marked _ ih => exact .inl ih
  | unmarked _ ih => exact .inr ih
  | prototype _ hlast _ hparams hresult => exact .of_parts hparams hlast hresult _ _ _ _
  | block _ ih => exact .of_statements ih _ _
  | bodyBlock _ ih => exact .inl ih
  | bodyAssignment _ ih => exact .inr ih
  | field _ _ htype hdefault => exact .of_parts htype hdefault _ _
  | flagged hflags hboth _ _ htype hinit => exact .flagged hflags hboth htype hinit _ _
  | typed _ _ htype hinit => exact .typed htype hinit _ _
  | named _ _ _ hinit => exact .named hinit _ _ _ _
  | declared _ ih => exact ih.statement
  | declaredFunction hboth _ _ ht hbody =>
    exact (ReadsFunction.declaredFunction hboth ht hbody _).statement
  | declaredSignature hboth _ ih => exact (ReadsFunction.declared hboth ih).statement
  | record _ ih => exact .record ih _ _ _ _
  | enumeration hne _ ih => exact .enumeration hne ih _ _ _
  | labelled _ ih => exact ih.labelled.statement
  | conditional _ ih => exact ih.statement
  | branch _ _ _ _ hcondition hthen helse => exact .of_parts hcondition hthen helse _
  | chain _ _ _ _ hcondition hthen helse =>
    refine .of_parts hcondition hthen ?_ _
    rintro _ ⟨⟩
    exact helse.statement
  | whileLoop _ _ hcondition hbody =>
    refine (ReadsLabelled.loop hbody ?_ _).statement
    rintro _ ⟨⟩
    exact hcondition.assignment
  | loop _ _ _ hcondition hbody => exact (ReadsLabelled.loop hbody hcondition _).statement
  | declares _ ih => exact .inl ih
  | assigns _ ih => exact .inr ih
  | steppedLoop _ _ _ _ hinit hcondition hstep hbody =>
    exact (ReadsLabelled.steppedLoop hbody hinit hcondition hstep _).statement
  | eachLoop _ _ hiterable hbody => exact (ReadsLabelled.eachLoop hbody hiterable _ _).statement
  | deferral _ ih => exact .deferral ih _
  | breaking _ ih => exact .breaking ih _ _
  | continuing => exact .continuing _ _
  | returning _ ih => exact .returning ih _
  | raising _ ih => exact .raising ih _
  | performed _ ih => exact ih.statement
  | selected _ ih => exact ih.assignment.statement

/-! ## Sources -/

open Script in
theorem Grammar.unit_yields {symbols : Symbols} {limit : Nat} {ts : List Tree}
    (h : ∀ t ∈ ts, ReadsStatement symbols limit t) :
    Rule.unit.Yields symbols limit (ts.flatMap (·.printed.statement)) []
      fun v => v.map Tree.unanchored = ts.map Tree.unanchored := by
  induction ts with
  | nil => exact yields_front_bind fun p => yields_ite_true rfl (yields_pure rfl)
  | cons t ts ih =>
    obtain ⟨ht, hts⟩ := List.forall_mem_cons.mp h
    rw [List.flatMap_cons]
    refine yields_front_bind fun p => yields_ite_false ?_ ?_
    · rw [List.append_assoc]
      exact TokenKind.ne_of_opensStatement (ht.opens _) rfl
    have hnext := statements_open hts [] (by decide)
    refine yields_bind (yields_require (yields_deeper (ht.reads _ hnext))) fun u hu => ?_
    refine yields_all_bind (yields_run (ih hts)) fun v hv => ?_
    exact yields_pure (by rw [List.map_cons, List.map_cons, hu, hv])

end FrontEnd
