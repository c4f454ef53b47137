import PascalSyntax.Listing.TreePrinter
import PascalSyntax.Proofs.Listing.Captions
import PascalSyntax.Proofs.Listing.Printing

/-!
# The outline is faithful

Two sources with the same outline in plain text have the same program, apart from
its origins (`Program.ofSource_outline_faithful`).  The lines are found again in
the text, since no name, number or string of a source goes over a line end, and
the parts of a program are found again in its lines: a section, a parameter or a
routine by its label, what is declared by the colon before its type, and an
initial value by its depth.
-/

namespace PascalSyntax
namespace Outline

/-! ## Declarations -/

/-- What is declared ends at the colon before its type. -/
theorem typed_injective {front front' type type' : String} (h : ':' ∉ front.toList)
    (h' : ':' ∉ front'.toList) (he : front ++ ": " ++ type = front' ++ ": " ++ type') :
    front = front' ∧ type = type' := by
  have hchars := congrArg String.toList he
  simp only [String.toList_append, List.append_assoc] at hchars
  obtain ⟨hfront, htype⟩ := cut_at h h' hchars
  exact ⟨String.toList_injective hfront, String.toList_injective (List.cons.inj htype).2⟩

theorem told_varDecl {d d' : VarDecl} (h : d.Faithful) (h' : d'.Faithful) (depth : Nat) :
    Told (ofVarDecl depth) VarDecl.erase depth d d' := by
  intro rest rest' hrest hrest' he
  simp only [ofVarDecl_eq, List.cons_append, List.cons.injEq, node_inj] at he
  obtain ⟨⟨-, -, hdetail, -⟩, he⟩ := he
  obtain ⟨hname, htype⟩ := typed_injective (h.name.not_mem rfl) (h'.name.not_mem rfl) hdetail
  obtain ⟨hinit, he⟩ := told_option (opens_ofExpr (depth + 1))
    (fun e he e' he' => told_expr (h.init e he) (h'.init e' he') (depth + 1)) hrest.closes
    hrest'.closes he
  refine ⟨?_, he⟩
  have hinit : d.init.map (·.mapOrigin fun _ => .erased) =
      d'.init.map (·.mapOrigin fun _ => .erased) := hinit
  simp only [VarDecl.erase, VarDecl.mapOrigin, hinit, Identifier.erase_eq htype,
    Identifier.erase_eq hname]

theorem told_constDecl {d d' : ConstDecl} (h : d.Faithful) (h' : d'.Faithful) (depth : Nat) :
    Told (ofConstDecl depth) ConstDecl.erase depth d d' := by
  intro rest rest' hrest hrest' he
  simp only [ofConstDecl, List.cons_append, List.cons.injEq, node_inj] at he
  obtain ⟨⟨-, -, hname, -⟩, he⟩ := he
  obtain ⟨hvalue, he⟩ := told_expr h.value h'.value (depth + 1) _ _ hrest.succ hrest'.succ he
  refine ⟨?_, he⟩
  simp only [Expr.erase] at hvalue
  simp only [ConstDecl.erase, ConstDecl.mapOrigin, hvalue, Identifier.erase_eq hname]

/-- The word `var` is told from a name by the space after it. -/
theorem mode_injective {x y : Identifier} (hx : x.WellFormed) (hy : y.WellFormed)
    {byReference byReference' : Bool}
    (h : (if byReference then "var " else "") ++ x.name =
      (if byReference' then "var " else "") ++ y.name) :
    byReference = byReference' ∧ x.name = y.name := by
  have hspace (z w : Identifier) (hw : w.WellFormed) : "var " ++ z.name ≠ "" ++ w.name := by
    intro he
    refine hw.not_mem (c := ' ') rfl ?_
    rw [← String.empty_append (s := w.name), ← he, String.toList_append]
    exact List.mem_append_left _ (by decide)
  cases byReference <;> cases byReference'
  · exact ⟨rfl, String.append_right_inj _ |>.mp h⟩
  · exact absurd h.symm (hspace y x hx)
  · exact absurd h (hspace x y hy)
  · exact ⟨rfl, String.append_right_inj _ |>.mp h⟩

theorem told_parameter {p p' : Parameter} (h : p.WellFormed) (h' : p'.WellFormed) (depth : Nat) :
    Told (fun p => [ofParameter depth p]) Parameter.erase depth p p' := by
  intro rest rest' hrest hrest' he
  simp only [ofParameter, List.cons_append, List.nil_append, List.cons.injEq, node_inj] at he
  obtain ⟨⟨-, -, hdetail, -⟩, he⟩ := he
  have hcolon {p : Parameter} (h : p.WellFormed) :
      ':' ∉ ((if p.byReference then "var " else "") ++ p.name.name).toList := by
    rw [String.toList_append, List.mem_append]
    rintro (hmode | hname)
    · split at hmode <;> revert hmode <;> decide
    · exact h.name.not_mem rfl hname
  obtain ⟨hfront, htype⟩ := typed_injective (hcolon h) (hcolon h') hdetail
  obtain ⟨hmode, hname⟩ := mode_injective h.name h'.name hfront
  refine ⟨?_, he⟩
  simp only [Parameter.erase, Parameter.mapOrigin, hmode, Identifier.erase_eq hname,
    Identifier.erase_eq htype]

/-- A section is told by its lines if its declarations are. -/
theorem told_section {label : String} {ofDecl : α → List OutlineLine} {erase : α → β}
    {depth : Nat} {P : String → Prop} (hopens : ∀ d, Opens (depth + 1) P (ofDecl d))
    {s s' : DeclSection α}
    (h : ∀ d ∈ s.decls, ∀ d' ∈ s'.decls, Told ofDecl erase (depth + 1) d d') :
    Told (fun s => node depth label "" s.origin :: s.decls.flatMap ofDecl)
      (fun s => s.decls.map erase) depth s s' := by
  intro rest rest' hrest hrest' he
  simp only [List.cons_append, List.cons.injEq] at he
  exact told_flatMap hopens h hrest.closes hrest'.closes he.2

/-! ## Routines -/

theorem heading_injective {r r' : Routine} {depth : Nat} (h : r.Faithful) (h' : r'.Faithful)
    (he : ofHeading depth r = ofHeading depth r') :
    r.kind.mapOrigin (fun _ => .erased) = r'.kind.mapOrigin (fun _ => .erased) ∧
      r.name.name = r'.name.name := by
  unfold ofHeading at he
  cases hkind : r.kind with
  | function returnType =>
    cases hkind' : r'.kind with
    | function returnType' =>
      simp only [hkind, hkind', node_inj] at he
      obtain ⟨hname, htype⟩ := typed_injective (h.name.not_mem rfl) (h'.name.not_mem rfl) he.2.2.1
      simp only [Routine.Kind.mapOrigin, Identifier.erase_eq htype, hname, and_self]
    | procedure => simp [hkind, hkind'] at he
  | procedure =>
    cases hkind' : r'.kind with
    | function returnType' => simp [hkind, hkind'] at he
    | procedure =>
      simp only [hkind, hkind', node_inj] at he
      exact ⟨rfl, he.2.2.1⟩

theorem opens_ofVarDecl (depth : Nat) (d : VarDecl) :
    Opens depth (· = "VarDecl") (ofVarDecl depth d) :=
  opens_label ..

theorem opens_ofRoutine (depth : Nat) (r : Routine) :
    Opens depth (fun label => label = "Function" ∨ label = "Procedure") (ofRoutine depth r) := by
  rw [ofRoutine, ofHeading]
  cases r.kind with
  | function returnType => exact ⟨_, _, rfl, rfl, .inl rfl⟩
  | procedure => exact ⟨_, _, rfl, rfl, .inr rfl⟩

theorem told_routine {r r' : Routine} (h : r.Faithful) (h' : r'.Faithful) (depth : Nat) :
    Told (ofRoutine depth) Routine.erase depth r r' := by
  intro rest rest' hrest hrest' he
  simp only [ofRoutine, List.map_eq_flatMap, List.cons_append, List.append_assoc,
    List.cons.injEq] at he
  obtain ⟨hheading, he⟩ := he
  have hbody (b : Block) (more : List OutlineLine) :
      Opens (depth + 1) (· = "Block") (ofBlock (depth + 1) b ++ more) :=
    (opens_ofBlock _ b).append more
  have hlocals (ds : List VarDecl) (b : Block) (more : List OutlineLine) :
      Opens (depth + 1) (fun label => label = "VarDecl" ∨ label = "Block")
        (ds.flatMap (ofVarDecl (depth + 1)) ++ (ofBlock (depth + 1) b ++ more)) :=
    (hbody b more).flatMap (opens_ofVarDecl (depth + 1)) ds
  obtain ⟨hkind, hname⟩ := heading_injective h h' hheading
  obtain ⟨hparameters, he⟩ := told_flatMap
    (fun p => opens_label ..)
    (fun p hp p' hp' => told_parameter (h.parameters p hp) (h'.parameters p' hp') (depth + 1))
    ((hlocals ..).closes (by rintro _ (rfl | rfl) <;> decide))
    ((hlocals ..).closes (by rintro _ (rfl | rfl) <;> decide)) he
  obtain ⟨hdecls, he⟩ := told_flatMap (opens_ofVarDecl (depth + 1))
    (fun d hd d' hd' => told_varDecl (h.locals d hd) (h'.locals d' hd') (depth + 1))
    ((hbody ..).closes (by rintro _ rfl; decide)) ((hbody ..).closes (by rintro _ rfl; decide)) he
  obtain ⟨hbody, he⟩ := told_block
    (fun s hs s' hs' => told_statement (h.body s hs) (h'.body s' hs') (depth + 2)) _ _
    hrest.succ hrest'.succ he
  exact ⟨Routine.erase_congr hkind (Identifier.erase_eq hname) hparameters hdecls hbody, he⟩

/-! ## Programs -/

/-- The lines of a program tell it, apart from its origins: each of its parts ends
where a line with another label stands. -/
theorem told_program {p q : Program} (hp : p.Faithful) (hq : q.Faithful)
    (he : p.outline = q.outline) : p.erase = q.erase := by
  have hbody (b : Block) : Opens 1 (· = "Block") (ofBlock 1 b ++ []) :=
    (opens_ofBlock 1 b).append []
  have hroutines (rs : List Routine) (b : Block) :=
    (hbody b).flatMap (opens_ofRoutine 1) rs
  have hconst (s : DeclSection ConstDecl) : Opens 1 (· = "Const")
      (node 1 "Const" "" s.origin :: s.decls.flatMap (ofConstDecl 2)) := opens_label ..
  have hconsts (o : Option (DeclSection ConstDecl)) (rs : List Routine) (b : Block) :=
    (hroutines rs b).flatMap hconst o.toList
  simp only [Program.outline, ofSection_eq, List.append_assoc, List.cons.injEq, node_inj] at he
  obtain ⟨⟨-, -, hname, -⟩, he⟩ := he
  rw [← List.append_nil (ofBlock 1 p.body), ← List.append_nil (ofBlock 1 q.body)] at he
  obtain ⟨hvars, he⟩ := told_option (fun s => opens_label ..)
    (fun s hs s' hs' => told_section (opens_ofVarDecl 2) fun d hd d' hd' =>
      told_varDecl (hp.vars s hs d hd) (hq.vars s' hs' d' hd') 2)
    ((hconsts ..).closes (by rintro _ (rfl | (rfl | rfl) | rfl) <;> decide))
    ((hconsts ..).closes (by rintro _ (rfl | (rfl | rfl) | rfl) <;> decide)) he
  obtain ⟨hconsts, he⟩ := told_option hconst
    (fun s hs s' hs' => told_section (fun d => opens_label ..) fun d hd d' hd' =>
      told_constDecl (hp.consts s hs d hd) (hq.consts s' hs' d' hd') 2)
    ((hroutines ..).closes (by rintro _ ((rfl | rfl) | rfl) <;> decide))
    ((hroutines ..).closes (by rintro _ ((rfl | rfl) | rfl) <;> decide)) he
  obtain ⟨hroutines, he⟩ := told_flatMap (opens_ofRoutine 1)
    (fun r hr r' hr' => told_routine (hp.routines r hr) (hq.routines r' hr') 1)
    ((hbody _).closes (by rintro _ rfl; decide)) ((hbody _).closes (by rintro _ rfl; decide)) he
  obtain ⟨hbody, -⟩ := told_block
    (fun s hs s' hs' => told_statement (hp.body s hs) (hq.body s' hs') 2) [] []
    (by simp [Ends]) (by simp [Ends]) he
  exact Program.erase_congr (Identifier.erase_eq hname) hvars hconsts hroutines hbody

/-! ## Legible lines -/

/-- No detail of a faithful program goes over a line end: a string ends on its line. -/
theorem legible_program {p : Program} (h : p.Faithful) : ∀ l ∈ p.outline, l.Legible := by
  intro l hl
  obtain ⟨n, hbelow, hline⟩ := linesOf_program p l hl
  have hroot : (Node.program p).Faithful := h
  have hn := hroot.below hbelow
  refine ⟨Node.label_of_caption _ hline.caption,
    hn.not_mem_caption rfl (by decide) ?_ _ hline.caption⟩
  rintro literal rfl
  cases hn with
  | string hliteral =>
    have hvalue : '\n' ∉ literal.value.toList := fun hmem => (hliteral.onLine _ hmem).2.1 rfl
    rw [hliteral.text]
    simp [hvalue]

end Outline

/-! ## The text of an outline -/

namespace Program

/-- If the outlines of the programs of two sources are printed as the same plain
text, the programs are the same, apart from their origins. -/
theorem ofSource_outline_faithful {limits limits' : Limits} {source source' : String}
    {p q : Program} (hp : ofSource limits source = .ok p) (hq : ofSource limits' source' = .ok q)
    (h : (p.print .plain).bytes = (q.print .plain).bytes) : p.erase = q.erase := by
  have hp := ofSource_faithful hp
  have hq := ofSource_faithful hq
  rw [print_eq, print_eq, Printer.bytes_write, Printer.bytes_write] at h
  have htext : String.join (p.listing .plain) = String.join (q.listing .plain) :=
    String.toByteArray_inj.mp h
  exact Outline.told_program hp hq (Outline.text_injective (Outline.legible_program hp)
    (Outline.legible_program hq) htext)

/-- A source with both meanings of `-`, a string that looks like a place, and a
call without parentheses. -/
def bareCall : String :=
  "program p; begin x := a - -1; s := '@1:2'; f end."

/-- The same with empty parentheses, one more semicolon and a comment. -/
def emptyCall : String :=
  "program p; begin x := a - -1; s := '@1:2'; f(); \x7bdone\x7d end."

/-- The outline of both. -/
def callListing : List String :=
  ["Program p @1:1\n", "  Block @1:12\n", "    Assignment x @1:18\n", "      Operator - @1:25\n",
    "        Identifier a @1:23\n", "        Operator - @1:27\n", "          Integer 1 @1:28\n",
    "    Assignment s @1:31\n", "      String '@1:2' @1:36\n", "    Call f @1:44\n"]

theorem emptyCall_outline_faithful :
    ∃ p q, ofSource .standard bareCall = .ok p ∧ ofSource .standard emptyCall = .ok q ∧
      (p.print .plain).bytes = (q.print .plain).bytes ∧ p.erase = q.erase := by
  have hbare : (ofSource .standard bareCall).map (listing .plain) = .ok callListing := by
    decide +kernel
  have hempty : (ofSource .standard emptyCall).map (listing .plain) = .ok callListing := by
    decide +kernel
  cases hp : ofSource .standard bareCall with
  | error e => simp [hp, Except.map] at hbare
  | ok p =>
    cases hq : ofSource .standard emptyCall with
    | error e => simp [hq, Except.map] at hempty
    | ok q =>
      rw [hp] at hbare
      rw [hq] at hempty
      have hbytes : (p.print .plain).bytes = (q.print .plain).bytes := by
        rw [print_eq, print_eq, Except.ok.inj hbare, Except.ok.inj hempty]
      exact ⟨p, q, rfl, rfl, hbytes, ofSource_outline_faithful hp hq hbytes⟩

end Program
end PascalSyntax
