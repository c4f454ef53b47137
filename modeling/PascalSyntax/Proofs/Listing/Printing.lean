import PascalSyntax.Listing.TreePrinter
import PascalSyntax.Listing.Tokens

/-!
# What printers write

Printers are put together like texts: `++` is associative, and printing a text in
pieces is printing it at once, wherever the room ends.  So a printer that stops
at the first piece that does not fit has written as much of its whole text as
there was room for.

The printers of the listings go through their data by themselves.  Here each of
them is shown to be the printer of one text, the lines of its listing.
-/

namespace PascalSyntax

/-! ## One text -/

namespace Sink

/-- However much room there is, a sink takes what fits. -/
theorem write_some (taken : ByteArray) (room : Nat) (text : String) :
    write ⟨taken, some room⟩ text =
      (⟨taken ++ text.toUTF8.extract 0 room, some (room - text.toUTF8.size)⟩,
        decide (text.toUTF8.size ≤ room)) := by
  by_cases h : text.toUTF8.size ≤ room
  · have hwhole : text.toUTF8.extract 0 (max room text.toUTF8.size) = text.toUTF8 :=
      ByteArray.extract_zero_max_size
    rw [Nat.max_eq_left h] at hwhole
    simp only [write, h, hwhole, decide_true, if_true]
  · have hfull : room - text.toUTF8.size = 0 := by omega
    simp only [write, h, hfull, decide_false, if_false]

end Sink

namespace Printer

theorem append_apply (p q : Printer) (sink : Sink) :
    (p ++ q) sink = if (p sink).2 then q (p sink).1 else p sink := by
  change andThen p q sink = _
  rcases h : p sink with ⟨next, _ | _⟩ <;> simp [andThen, h]

@[simp] theorem nothing_append (p : Printer) : nothing ++ p = p := rfl

@[simp] theorem append_nothing (p : Printer) : p ++ nothing = p := by
  funext sink
  rcases h : p sink with ⟨next, _ | _⟩ <;> simp [append_apply, nothing, h]

theorem append_assoc (p q r : Printer) : p ++ q ++ r = p ++ (q ++ r) := by
  funext sink
  rcases h : p sink with ⟨next, _ | _⟩ <;> simp [append_apply, h]

theorem write_empty : write "" = nothing := by
  funext ⟨taken, room⟩
  cases room <;> simp [write, nothing, Sink.write]

/-- A text can be written in two pieces. -/
theorem write_append (s t : String) : write (s ++ t) = write s ++ write t := by
  funext ⟨taken, room⟩
  have hbytes : (s ++ t).toUTF8 = s.toUTF8 ++ t.toUTF8 := String.toByteArray_append
  cases room with
  | none => simp only [append_apply, write, Sink.write, hbytes, ByteArray.append_assoc, if_true]
  | some room =>
    have hcut : (s.toUTF8 ++ t.toUTF8).extract 0 room =
        s.toUTF8.extract 0 room ++ t.toUTF8.extract 0 (room - s.toUTF8.size) := by
      rw [ByteArray.extract_append, Nat.zero_sub]
    simp only [append_apply, write, Sink.write_some, hbytes, hcut, ByteArray.size_append]
    by_cases hs : s.toUTF8.size ≤ room
    · have hroom : s.toUTF8.size + t.toUTF8.size ≤ room ↔
          t.toUTF8.size ≤ room - s.toUTF8.size := by omega
      simp only [hs, hroom, decide_true, if_true, ByteArray.append_assoc, Nat.sub_sub]
    · -- The first piece has used up the room.
      have hnone : room - s.toUTF8.size = 0 := by omega
      have hroom : ¬ s.toUTF8.size + t.toUTF8.size ≤ room := by omega
      have hend : room - (s.toUTF8.size + t.toUTF8.size) = 0 := by omega
      have hlost : t.toUTF8.extract 0 0 = .empty := ByteArray.extract_same
      simp only [hs, hroom, hnone, hend, hlost, ByteArray.append_empty, decide_false,
        Bool.false_eq_true, if_false]

theorem bytes_write (s : String) : (write s).bytes = s.toUTF8 := by
  simp only [bytes, write, Sink.write, ByteArray.empty_append]

theorem fromUTF8?_toUTF8 (s : String) : String.fromUTF8? s.toUTF8 = some s := by
  rw [String.fromUTF8?, String.toUTF8_eq_toByteArray, dif_pos s.isValidUTF8]
  rfl

/-- The text that a printer writes when there is no end of room. -/
def text? (print : Printer) : Option String := String.fromUTF8? print.bytes

theorem text?_write (s : String) : (write s).text? = some s := by
  rw [text?, bytes_write, fromUTF8?_toUTF8]

/-! ## Many things -/

@[simp] theorem each_nil (print : α → Printer) : each print [] = nothing := rfl

@[simp] theorem each_cons (print : α → Printer) (x : α) (xs : List α) :
    each print (x :: xs) = print x ++ each print xs := rfl

@[simp] theorem each_append (print : α → Printer) (xs ys : List α) :
    each print (xs ++ ys) = each print xs ++ each print ys := by
  induction xs with
  | nil => rfl
  | cons x xs ih => simp only [List.cons_append, each_cons, ih, append_assoc]

theorem each_map (print : β → Printer) (f : α → β) (xs : List α) :
    each print (xs.map f) = each (fun x => print (f x)) xs := by
  induction xs with
  | nil => rfl
  | cons x xs ih => simp only [List.map_cons, each_cons, ih]

theorem each_flatMap (print : β → Printer) (f : α → List β) (xs : List α) :
    each print (xs.flatMap f) = each (fun x => each print (f x)) xs := by
  induction xs with
  | nil => rfl
  | cons x xs ih => simp only [List.flatMap_cons, each_cons, each_append, ih]

/-- Writing some texts is writing the text that they make together. -/
theorem each_write (texts : List String) : each write texts = write (String.join texts) := by
  induction texts with
  | nil => rw [each_nil, String.join_nil, write_empty]
  | cons text texts ih => rw [each_cons, ih, String.join_cons, write_append]

end Printer

/-! ## The listing of tokens -/

theorem Token.printLine_eq (palette : Palette) (t : Token) :
    t.printLine palette = .write (t.listingLine palette) := by
  simp only [printLine, listingLine, ← Printer.write_append, String.append_assoc, toString]

/-- The listing of tokens is printed as one text. -/
theorem Token.print_eq (palette : Palette) (tokens : List Token) :
    Token.print palette tokens = .write (String.join (Token.listing palette tokens)) := by
  rw [← Printer.each_write, Token.listing, Printer.each_map]
  exact congrArg (fun line => Printer.each line tokens) (funext fun t => t.printLine_eq palette)

/-! ## The outline -/

/-- The line of a node is printed as one text. -/
theorem OutlineLine.print_eq (palette : Palette) (line : OutlineLine) :
    line.print palette = .write (line.render palette) := by
  rw [OutlineLine.print, OutlineLine.render]
  split <;>
    simp only [← Printer.write_append, ← Printer.write_empty, String.append_assoc,
      String.empty_append]

namespace TreePrinter

variable (palette : Palette)

section

open Printer

mutual

theorem expr_eq (depth : Nat) :
    (e : Expr) → expr palette depth e = each (·.print palette) (Outline.ofExpr depth e)
  | .identifier name => by simp [expr, line, Outline.ofExpr]
  | .integer literal => by simp [expr, line, Outline.ofExpr]
  | .string literal => by simp [expr, line, Outline.ofExpr]
  | .call c => by simp [expr, Outline.ofExpr, call_eq depth c]
  | .binary op left right origin => by
    simp [expr, line, Outline.ofExpr, expr_eq (depth + 1) left, expr_eq (depth + 1) right]
  | .unary op operand origin => by
    simp [expr, line, Outline.ofExpr, expr_eq (depth + 1) operand]

theorem call_eq (depth : Nat) :
    (c : Call) → call palette depth c = each (·.print palette) (Outline.ofCall depth c)
  | ⟨routine, args, origin⟩ => by
    simp [call, line, Outline.ofCall, arguments_eq (depth + 1) args]

theorem arguments_eq (depth : Nat) : (args : List Argument) →
    arguments palette depth args = each (·.print palette) (Outline.ofArguments depth args)
  | [] => by simp [arguments, Outline.ofArguments]
  | ⟨value, _, _, _, _⟩ :: others => by
    simp [arguments, Outline.ofArguments, expr_eq depth value, arguments_eq depth others]

end

mutual

theorem statement_eq (depth : Nat) : (s : Statement) →
    statement palette depth s = each (·.print palette) (Outline.ofStatement depth s)
  | .assignment target value origin => by
    simp [statement, line, Outline.ofStatement, expr_eq palette (depth + 1) value]
  | .call c => by simp [statement, Outline.ofStatement, call_eq palette depth c]
  | .conditional cases otherwise origin => by
    simp [statement, line, Outline.ofStatement, branches_eq (depth + 1) cases,
      elseBranch_eq (depth + 1) otherwise]
  | .whileLoop body origin => by
    simp [statement, line, Outline.ofStatement, branch_eq (depth + 1) body]
  | .forLoop counter first last direction body origin => by
    simp [statement, line, Outline.ofStatement, expr_eq palette (depth + 1) first,
      expr_eq palette (depth + 1) last, block_eq (depth + 1) body, append_assoc]
  | .block b => by simp [statement, Outline.ofStatement, block_eq depth b]

theorem block_eq (depth : Nat) : (b : Block) →
    block palette depth b = each (·.print palette) (Outline.ofBlock depth b)
  | ⟨body, origin⟩ => by
    simp [block, line, Outline.ofBlock, statements_eq (depth + 1) body]

theorem branch_eq (depth : Nat) : (b : Branch) →
    branch palette depth b = each (·.print palette) (Outline.ofBranch depth b)
  | ⟨condition, body, origin⟩ => by
    simp [branch, line, Outline.ofBranch, expr_eq palette (depth + 1) condition,
      block_eq (depth + 1) body]

theorem elseBranch_eq (depth : Nat) : (otherwise : Option Block) →
    elseBranch palette depth otherwise = each (·.print palette) (Outline.ofElse depth otherwise)
  | none => by simp [elseBranch, Outline.ofElse]
  | some ⟨body, origin⟩ => by
    simp [elseBranch, line, Outline.ofElse, statements_eq (depth + 2) body]

theorem statements_eq (depth : Nat) : (body : List Statement) →
    statements palette depth body = each (·.print palette) (Outline.ofStatements depth body)
  | [] => by simp [statements, Outline.ofStatements]
  | first :: others => by
    simp [statements, Outline.ofStatements, statement_eq depth first, statements_eq depth others]

theorem branches_eq (depth : Nat) : (cases : List Branch) →
    branches palette depth cases = each (·.print palette) (Outline.ofBranches depth cases)
  | [] => by simp [branches, Outline.ofBranches]
  | first :: others => by
    simp [branches, Outline.ofBranches, branch_eq depth first, branches_eq depth others]

end

theorem varDecl_eq (depth : Nat) (decl : VarDecl) :
    varDecl palette depth decl = each (·.print palette) (Outline.ofVarDecl depth decl) := by
  rw [varDecl, Outline.ofVarDecl]
  cases decl.init <;> simp [line, expr_eq]

theorem constDecl_eq (depth : Nat) (decl : ConstDecl) :
    constDecl palette depth decl = each (·.print palette) (Outline.ofConstDecl depth decl) := by
  simp [constDecl, line, Outline.ofConstDecl, expr_eq]

/-- A section is printed as its outline, if its declarations are. -/
theorem declSection_eq {decl : α → Printer} {ofDecl : α → List OutlineLine}
    (hdecl : ∀ d, decl d = each (·.print palette) (ofDecl d)) (depth : Nat) (label : String)
    (decls : Option (DeclSection α)) :
    declSection palette depth label decl decls =
      each (·.print palette) (Outline.ofSection depth label ofDecl decls) := by
  rcases decls with _ | ⟨ds, origin⟩
  · rfl
  · simp only [declSection, line, Outline.ofSection, each_cons, each_flatMap, ← hdecl]

theorem routine_eq (depth : Nat) (r : Routine) :
    routine palette depth r = each (·.print palette) (Outline.ofRoutine depth r) := by
  simp only [routine, Outline.ofRoutine, each_cons, each_append, each_map, each_flatMap,
    ← varDecl_eq, ← block_eq]
  rfl

end

end TreePrinter

/-- The outline of a program is printed as one text. -/
theorem Program.print_eq (palette : Palette) (p : Program) :
    p.print palette = .write (String.join (p.listing palette)) := by
  have hlines : p.print palette = Printer.each (·.print palette) p.outline := by
    simp only [Program.print, Program.outline, Printer.each_cons, Printer.each_append,
      Printer.each_flatMap, ← TreePrinter.routine_eq, ← TreePrinter.block_eq,
      TreePrinter.declSection_eq palette (TreePrinter.varDecl_eq palette 2),
      TreePrinter.declSection_eq palette (TreePrinter.constDecl_eq palette 2)]
    rfl
  rw [hlines, ← Printer.each_write, Program.listing, Printer.each_map]
  exact congrArg (fun line => Printer.each line p.outline) (funext fun l => l.print_eq palette)

end PascalSyntax
