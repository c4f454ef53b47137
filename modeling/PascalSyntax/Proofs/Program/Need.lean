import PascalSyntax.Proofs.Program.Conservation
import PascalSyntax.Proofs.Program.Depth
import PascalSyntax.Proofs.Tree.Need

/-!
# The bound that a source needs

A source is accepted only under a bound that its tree needs, and without
parentheses around operands under each such bound (`Program.ofSource_need`).

One direction goes along the spellings, which take a level where the tree needs
one.  For the other one the tokens are spelled anew with the levels that the tree
needs.  Parentheses around an operand would take a level that the tree does not
show.  A body that is wrapped is told from one with a `begin` by its origin, and
for this no two tokens may have the same origin.
-/

namespace PascalSyntax

/-! ## What is spelled needs no more levels than there are -/

theorem Expr.Spelling.inner_le {levels k : Nat} {e : Expr} {ts : List Token}
    (h : Expr.Spelling levels k e ts) : e.inner ≤ levels := by
  induction h with
  | identifier _ => exact Nat.zero_le _
  | integer _ _ => exact Nat.zero_le _
  | string _ => exact Nat.zero_le _
  | emptyCall _ _ _ => exact Nat.zero_le _
  | call _ _ _ _ _ ih =>
    rw [inner, Call.inner_le_iff, List.forall_mem_map]
    exact fun piece hpiece => Nat.succ_le_succ (ih piece hpiece)
  | parenthesized _ _ _ ih => exact Nat.le_succ_of_le ih
  | unary _ _ ih => exact Nat.succ_le_succ ih
  | binary _ _ _ _ ihl ihr => exact Nat.max_le.mpr ⟨ihl, ihr⟩

theorem Expr.Within.need_le {levels : Nat} {e : Expr} {ts : List Token}
    (h : Expr.Within levels e ts) : e.need ≤ levels := by
  cases levels with
  | zero => exact h.elim
  | succ levels => exact Nat.succ_le_succ (Expr.Spelling.inner_le h)

theorem Call.Arguments.inner_le {levels : Nat} {routine : Identifier} {args : List Argument}
    {origin : Origin} {ts : List Token} (h : Call.Arguments (Expr.Within levels) args ts) :
    Call.inner ⟨routine, args, origin⟩ ≤ levels := by
  cases h with
  | empty _ _ => exact Nat.zero_le _
  | given _ hs _ =>
    rw [Call.inner_le_iff, List.forall_mem_map]
    exact hs.forall_mem fun _ _ h => h.need_le

theorem Statement.Spelling.need_le {levels : Nat} {isOpen : Bool} {s : Statement}
    {ts : List Token} (h : Statement.Spelling levels isOpen s ts) : s.need ≤ levels := by
  have hbody {n : Nat} {s : Statement} (h : s.need ≤ n) : (Block.ofStatement s).need ≤ n :=
    Nat.le_trans (Block.need_ofStatement_le s) h
  induction h with
  | assignment _ _ he => exact Nat.succ_le_succ he.need_le
  | bareCall _ => exact Nat.succ_le_succ (Nat.zero_le _)
  | call _ ha => exact Nat.succ_le_succ ha.inner_le
  | block _ _ _ _ _ ih =>
    rw [need_block_le_iff]
    intro s hs
    obtain ⟨piece, hpiece, hsome⟩ := List.mem_filterMap.mp hs
    exact ih piece hpiece s hsome
  | whileLoop _ he _ _ ih =>
    rw [need_whileLoop_le_iff]
    exact ⟨he.need_le, hbody ih⟩
  | forLoop _ _ _ hf _ hl _ _ ih =>
    rw [need_forLoop_le_iff]
    exact ⟨hf.need_le, hl.need_le, hbody ih⟩
  | ifThen _ he _ _ ih =>
    rw [need_conditional_le_iff, List.forall_mem_singleton]
    exact ⟨⟨he.need_le, hbody ih⟩, nofun⟩
  | ifElse _ he _ _ _ _ _ ih iho =>
    rw [need_conditional_le_iff, List.forall_mem_singleton]
    refine ⟨⟨he.need_le, hbody ih⟩, ?_⟩
    rintro _ ⟨⟩
    exact hbody iho
  | elseIf _ he _ _ _ _ ih iho =>
    rw [need_conditional_le_iff] at iho ⊢
    exact ⟨List.forall_mem_cons.mpr ⟨⟨he.need_le, hbody ih⟩, iho.1⟩, iho.2⟩

theorem Block.Spelling.inner_le {levels : Nat} {b : Block} {ts : List Token}
    (h : Block.Spelling levels b ts) : b.inner ≤ levels := by
  have hstatement : Statement.Spelling (levels + 1) true (.block b) ts :=
    Statement.spelling_block_iff.mpr h
  exact Nat.le_of_succ_le_succ hstatement.need_le

theorem VarSection.Spelling.need_le {levels : Nat} {o : Option (DeclSection VarDecl)}
    {ts : List Token} (h : VarSection.Spelling levels o ts) :
    ∀ s ∈ o, ∀ d ∈ s.decls, d.need ≤ levels := by
  cases h with
  | absent => nofun
  | present _ _ hs =>
    rintro _ ⟨⟩
    refine hs.forall_mem_flatten ?_
    intro group us h
    cases h with
    | plain _ _ _ _ => exact List.forall_mem_map.mpr fun _ _ => Nat.zero_le _
    | initialized _ _ _ _ he _ =>
      rw [List.forall_mem_singleton, VarDecl.need_le_iff]
      rintro _ ⟨⟩
      exact he.need_le

theorem ConstSection.Spelling.need_le {levels : Nat} {o : Option (DeclSection ConstDecl)}
    {ts : List Token} (h : ConstSection.Spelling levels o ts) :
    ∀ s ∈ o, ∀ d ∈ s.decls, d.value.need ≤ levels := by
  cases h with
  | absent => nofun
  | present _ _ hs =>
    rintro _ ⟨⟩
    refine hs.forall_mem ?_
    intro d us h
    cases h with
    | mk _ _ he _ => exact he.need_le

theorem Routine.Spelling.need_le {levels : Nat} {r : Routine} {ts : List Token}
    (h : Routine.Spelling levels r ts) : r.need ≤ levels := by
  cases h with
  | @mk _ _ _ _ _ _ _ locals _ _ _ _ _ _ _ _ _ _ hlocals hb _ =>
    rw [Routine.need_le_iff]
    refine ⟨?_, hb.inner_le⟩
    cases locals with
    | none => nofun
    | some s => exact hlocals.need_le s rfl

theorem Program.Spelling.need_le {levels : Nat} {p : Program} {ts : List Token}
    (h : Program.Spelling levels p ts) : p.need ≤ levels := by
  cases h with
  | mk _ _ _ hv hc hr hb _ =>
    rw [Program.need_le_iff]
    exact ⟨hv.need_le, hc.need_le, hr.forall_mem fun _ _ h => h.need_le, hb.inner_le⟩

/-! ## Tokens without parentheses around operands -/

namespace Token

/-- Every opening parenthesis stands right after a name, so that it opens the
arguments of a call or the parameters of a routine.  The first token is taken to
stand after a name if `afterName` is true. -/
def Ungrouped : (afterName : Bool) → List Token → Prop
  | _, [] => True
  | afterName, t :: ts =>
    ((Terminal.symbol "(").admits t = true → afterName = true) ∧
      Ungrouped (Terminal.identifier.admits t) ts

instance decidableUngrouped : ∀ afterName ts, Decidable (Ungrouped afterName ts)
  | _, [] => inferInstanceAs (Decidable True)
  | _, t :: ts =>
    have := decidableUngrouped (Terminal.identifier.admits t) ts
    inferInstanceAs (Decidable (_ ∧ _))

variable {afterName : Bool} {t : Token} {ts us : List Token}

namespace Ungrouped

theorem weaken (h : Ungrouped afterName ts) : Ungrouped true ts := by
  cases ts with
  | nil => exact trivial
  | cons t ts => exact ⟨fun _ => rfl, h.2⟩

theorem append (h : Ungrouped afterName (ts ++ us)) :
    Ungrouped afterName ts ∧ Ungrouped true us := by
  induction ts generalizing afterName with
  | nil => exact ⟨trivial, h.weaken⟩
  | cons t ts ih =>
    obtain ⟨hts, hus⟩ := ih h.2
    exact ⟨⟨h.1, hts⟩, hus⟩

/-- After a token that is no name no opening parenthesis stands. -/
theorem after {a : Terminal} (h : Ungrouped afterName (t :: ts)) (ht : a.admits t = true)
    (ha : a ≠ .identifier) : Ungrouped false ts := by
  have hname : Terminal.identifier.admits t = false := by
    rw [Bool.eq_false_iff]
    intro hname
    have hsame := (Terminal.admits_iff.mp ht).symm.trans (Terminal.admits_iff.mp hname)
    exact ha (Option.some.inj hsame)
  rw [← hname]
  exact h.2

theorem separated {spells : α → List Token → Prop} {as : List α} (h : Ungrouped false ts)
    (hs : Separated (.symbol ",") spells as ts) :
    Separated (.symbol ",") (fun a us => Ungrouped false us ∧ spells a us) as ts :=
  hs.inherit (fun h => h.append.1) (fun ht h => h.append.2.after ht (by decide)) h

end Ungrouped

/-- The tokens have origins of their own and no parentheses around operands. -/
structure Plain (ts : List Token) : Prop where
  ungrouped : Ungrouped true ts
  apart : Apart ts

namespace Plain

theorem tail (h : Plain (t :: ts)) : Plain ts :=
  ⟨h.ungrouped.2.weaken, (List.nodup_cons.mp h.apart).2⟩

theorem append (h : Plain (ts ++ us)) : Plain ts ∧ Plain us := by
  obtain ⟨hts, hus⟩ := h.ungrouped.append
  have hapart : (ts.map origin ++ us.map origin).Nodup := by
    rw [← List.map_append]
    exact h.apart
  obtain ⟨hts', hus', -⟩ := List.nodup_append.mp hapart
  exact ⟨⟨hts, hts'⟩, ⟨hus, hus'⟩⟩

/-- An operand after a token that is no name, and what follows the operand. -/
theorem operand {a : Terminal} (h : Plain (t :: (ts ++ us))) (ht : a.admits t = true)
    (ha : a ≠ .identifier) : Ungrouped false ts ∧ Plain us :=
  ⟨(h.ungrouped.after ht ha).append.1, h.tail.append.2⟩

theorem separated {separator : Terminal} {tss : List (List Token)} (h : Plain ts)
    (hs : Separated separator Eq tss ts) : ∀ us ∈ tss, Plain us :=
  (hs.inherit (fun h => h.append.1) (fun _ h => h.append.2.tail) h).forall_mem
    fun _ _ h => h.2 ▸ h.1

end Plain
end Token

open Token

/-! ## Spelling anew with the levels that are needed -/

theorem Expr.Spelling.respell {levels k : Nat} {e : Expr} {ts : List Token}
    (h : Expr.Spelling levels k e ts) (hu : Ungrouped false ts) {levels' : Nat}
    (hneed : e.inner ≤ levels') : Expr.Spelling levels' k e ts := by
  induction h generalizing levels' with
  | identifier ht => exact .identifier ht
  | integer ht hv => exact .integer ht hv
  | string ht => exact .string ht
  | emptyCall hn ho hc => exact .emptyCall hn ho hc
  | @call _ _ _ _ _ pieces ts hn ho _ hs hc ih =>
    rw [inner, Call.inner_le_iff, List.forall_mem_map] at hneed
    have hts : Ungrouped false ts := (hu.2.after ho (by decide)).append.1
    have hpieces : ∀ us ∈ pieces.map (·.2), Ungrouped false us :=
      (hts.separated hs).forall_mem fun us _ h => h.2 ▸ h.1
    obtain ⟨piece, hpiece⟩ :=
      List.exists_mem_of_ne_nil pieces (mt List.map_eq_nil_iff.mpr hs.ne_nil)
    obtain ⟨n, rfl⟩ : ∃ n, levels' = n + 1 := Expr.exists_levels (hneed piece hpiece)
    exact .call hn ho (fun piece hpiece => ih piece hpiece
      (hpieces _ (List.mem_map_of_mem hpiece)) (Nat.le_of_succ_le_succ (hneed piece hpiece))) hs hc
  | parenthesized ho _ _ _ => exact nomatch hu.1 ho
  | @unary _ _ op _ _ _ ht _ ih =>
    obtain ⟨n, rfl⟩ : ∃ n, levels' = n + 1 := Expr.exists_levels hneed
    exact .unary ht (ih (hu.after ht (by cases op <;> decide)) (Nat.le_of_succ_le_succ hneed))
  | @binary _ _ op _ _ _ _ _ hk _ ht _ ihl ihr =>
    obtain ⟨hleft, hrest⟩ := hu.append
    obtain ⟨hneedl, hneedr⟩ := Nat.max_le.mp hneed
    exact .binary hk (ihl hleft hneedl) ht
      (ihr (hrest.after ht (by cases op <;> decide)) hneedr)

theorem Expr.Within.respell {levels : Nat} {e : Expr} {ts : List Token}
    (h : Expr.Within levels e ts) (hu : Ungrouped false ts) {levels' : Nat}
    (hneed : e.need ≤ levels') : Expr.Within levels' e ts := by
  obtain ⟨n, rfl⟩ := Expr.exists_levels hneed
  cases levels with
  | zero => exact h.elim
  | succ levels => exact Expr.Spelling.respell h hu (Nat.le_of_succ_le_succ hneed)

theorem Call.Arguments.respell {levels : Nat} {args : List Argument} {ts : List Token}
    (h : Call.Arguments (Expr.Within levels) args ts) (hu : Ungrouped true ts) {levels' : Nat}
    (hneed : ∀ a ∈ args, a.value.need ≤ levels') :
    Call.Arguments (Expr.Within levels') args ts := by
  cases h with
  | empty ho hc => exact .empty ho hc
  | given ho hs hc =>
    rw [List.forall_mem_map] at hneed
    have hts := (hu.after ho (by decide)).append.1
    exact .given ho ((hts.separated hs).imp fun e he _ h => h.2.respell h.1 (hneed e he)) hc

/-- The body that a spelled statement becomes needs just what the statement needs. -/
theorem Statement.Spelling.need_ofStatement {levels : Nat} {isOpen : Bool} {s : Statement}
    {ts : List Token} (h : Statement.Spelling levels isOpen s ts) (hapart : Apart ts) :
    (Block.ofStatement s).need = s.need := by
  cases h with
  | @block _ _ opening _ pieces ts _ hp _ hs _ =>
    refine Block.need_of_begin ?_
    -- a statement in the block has the origin of a token after the `begin`
    intro hbare
    have hmem : opening.origin ∈ (pieces.filterMap (·.1)).map Statement.origin :=
      hbare ▸ List.mem_singleton_self _
    obtain ⟨s, hs', horigin⟩ := List.mem_map.mp hmem
    obtain ⟨piece, hpiece, hsome⟩ := List.mem_filterMap.mp hs'
    have hsubset := hs.subset _ (List.mem_map_of_mem hpiece)
    have hlater : opening.origin ∈ ts.map Token.origin := by
      rw [← horigin]
      exact List.map_subset _ hsubset (hp piece hpiece s hsome).origin_mem
    rw [Apart, List.map_cons, List.map_append] at hapart
    exact (List.nodup_cons.mp hapart).1 (List.mem_append_left _ hlater)
  | _ => exact Block.need_bare _

theorem Statement.Spelling.respell {levels : Nat} {isOpen : Bool} {s : Statement}
    {ts : List Token} (h : Statement.Spelling levels isOpen s ts) (hp : Plain ts) {levels' : Nat}
    (hneed : s.need ≤ levels') : Statement.Spelling levels' isOpen s ts := by
  induction h generalizing levels' with
  | assignment hn hb he =>
    obtain ⟨n, rfl⟩ := exists_levels hneed
    exact .assignment hn hb (he.respell (hp.tail.ungrouped.after hb (by decide))
      (Nat.le_of_succ_le_succ hneed))
  | bareCall hn =>
    obtain ⟨n, rfl⟩ := exists_levels hneed
    exact .bareCall hn
  | call hn ha =>
    obtain ⟨n, rfl⟩ := exists_levels hneed
    exact .call hn (ha.respell hp.tail.ungrouped
      (Call.inner_le_iff.mp (Nat.le_of_succ_le_succ hneed)))
  | @block _ _ _ _ pieces ts ho _ hnone hs hc ih =>
    obtain ⟨n, rfl⟩ := exists_levels hneed
    rw [need_block_le_iff] at hneed
    have hpieces : ∀ us ∈ pieces.map (·.2), Plain us := hp.tail.append.1.separated hs
    refine .block ho (fun piece hpiece s hsome => ?_) hnone hs hc
    exact ih piece hpiece s hsome (hpieces _ (List.mem_map_of_mem hpiece))
      (hneed s (List.mem_filterMap.mpr ⟨piece, hpiece, hsome⟩))
  | whileLoop hk he hd hs ih =>
    obtain ⟨n, rfl⟩ := exists_levels hneed
    obtain ⟨hcondition, hbody⟩ := hp.operand hk (by decide)
    rw [need_whileLoop_le_iff, hs.need_ofStatement hbody.tail.apart] at hneed
    exact .whileLoop hk (he.respell hcondition hneed.1) hd (ih hbody.tail hneed.2)
  | forLoop hk hn hb hf hw hl hd hs ih =>
    obtain ⟨n, rfl⟩ := exists_levels hneed
    obtain ⟨hfirst, hrest⟩ := hp.tail.tail.operand hb (by decide)
    obtain ⟨hlast, hbody⟩ := hrest.operand hw nofun
    rw [need_forLoop_le_iff, hs.need_ofStatement hbody.tail.apart] at hneed
    exact .forLoop hk hn hb (hf.respell hfirst hneed.1) hw (hl.respell hlast hneed.2.1) hd
      (ih hbody.tail hneed.2.2)
  | ifThen hk he ht hs ih =>
    obtain ⟨n, rfl⟩ := exists_levels hneed
    obtain ⟨hcondition, hbody⟩ := hp.operand hk (by decide)
    rw [need_conditional_le_iff, List.forall_mem_singleton,
      hs.need_ofStatement hbody.tail.apart] at hneed
    exact .ifThen hk (he.respell hcondition hneed.1.1) ht (ih hbody.tail hneed.1.2)
  | ifElse hk he ht hs hel ho hne ih iho =>
    obtain ⟨n, rfl⟩ := exists_levels hneed
    obtain ⟨hcondition, hrest⟩ := hp.operand hk (by decide)
    obtain ⟨hbody, hotherwise⟩ := hrest.tail.append
    rw [need_conditional_le_iff, List.forall_mem_singleton,
      hs.need_ofStatement hbody.apart] at hneed
    obtain ⟨⟨hneedc, hneeds⟩, hneedo⟩ := hneed
    have hneedo := hneedo _ rfl
    rw [ho.need_ofStatement hotherwise.tail.apart] at hneedo
    exact .ifElse hk (he.respell hcondition hneedc) ht (ih hbody hneeds) hel
      (iho hotherwise.tail hneedo) hne
  | elseIf hk he ht hs hel _ ih iho =>
    obtain ⟨n, rfl⟩ := exists_levels hneed
    obtain ⟨hcondition, hrest⟩ := hp.operand hk (by decide)
    obtain ⟨hbody, hothers⟩ := hrest.tail.append
    rw [need_conditional_le_iff, List.forall_mem_cons, hs.need_ofStatement hbody.apart] at hneed
    obtain ⟨⟨⟨hneedc, hneeds⟩, hneedbs⟩, hneedo⟩ := hneed
    exact .elseIf hk (he.respell hcondition hneedc) ht (ih hbody hneeds) hel
      (iho hothers.tail (need_conditional_le_iff.mpr ⟨hneedbs, hneedo⟩))

theorem Block.Spelling.respell {levels : Nat} {b : Block} {ts : List Token}
    (h : Block.Spelling levels b ts) (hp : Plain ts) {levels' : Nat} (hneed : b.inner ≤ levels') :
    Block.Spelling levels' b ts := by
  have hstatement : Statement.Spelling (levels + 1) true (.block b) ts :=
    Statement.spelling_block_iff.mpr h
  exact Statement.spelling_block_iff.mp (hstatement.respell hp (Nat.succ_le_succ hneed))

/-! ## Declarations and programs -/

theorem VarDecl.Group.respell {levels : Nat} {decls : List VarDecl} {ts : List Token}
    (h : VarDecl.Group levels decls ts) (hp : Plain ts) {levels' : Nat}
    (hneed : ∀ d ∈ decls, d.need ≤ levels') : VarDecl.Group levels' decls ts := by
  cases h with
  | plain hs hc ht hsemi => exact .plain hs hc ht hsemi
  | initialized hn hc ht he hv hsemi =>
    rw [List.forall_mem_singleton, VarDecl.need_le_iff] at hneed
    obtain ⟨hvalue, -⟩ := hp.tail.tail.tail.operand he (by decide)
    exact .initialized hn hc ht he (hv.respell hvalue (hneed _ rfl)) hsemi

theorem ConstDecl.Spelling.respell {levels : Nat} {d : ConstDecl} {ts : List Token}
    (h : ConstDecl.Spelling levels d ts) (hp : Plain ts) {levels' : Nat}
    (hneed : d.value.need ≤ levels') : ConstDecl.Spelling levels' d ts := by
  cases h with
  | mk hn he hv hsemi =>
    obtain ⟨hvalue, -⟩ := hp.tail.operand he (by decide)
    exact .mk hn he (hv.respell hvalue hneed) hsemi

theorem VarSection.Spelling.respell {levels : Nat} {o : Option (DeclSection VarDecl)}
    {ts : List Token} (h : VarSection.Spelling levels o ts) (hp : Plain ts) {levels' : Nat}
    (hneed : ∀ s ∈ o, ∀ d ∈ s.decls, d.need ≤ levels') : VarSection.Spelling levels' o ts := by
  cases h with
  | absent => exact .absent
  | present hk hne hs =>
    refine .present hk hne ((hs.inherit Plain.append hp.tail).imp ?_)
    intro group hgroup us h
    exact h.2.respell h.1 fun d hd => hneed _ rfl d (List.mem_flatten_of_mem hgroup hd)

theorem ConstSection.Spelling.respell {levels : Nat} {o : Option (DeclSection ConstDecl)}
    {ts : List Token} (h : ConstSection.Spelling levels o ts) (hp : Plain ts) {levels' : Nat}
    (hneed : ∀ s ∈ o, ∀ d ∈ s.decls, d.value.need ≤ levels') :
    ConstSection.Spelling levels' o ts := by
  cases h with
  | absent => exact .absent
  | present hk hne hs =>
    refine .present hk hne ((hs.inherit Plain.append hp.tail).imp ?_)
    intro d hd us h
    exact h.2.respell h.1 (hneed _ rfl d hd)

theorem Routine.Spelling.respell {levels : Nat} {r : Routine} {ts : List Token}
    (h : Routine.Spelling levels r ts) (hp : Plain ts) {levels' : Nat} (hneed : r.need ≤ levels') :
    Routine.Spelling levels' r ts := by
  cases h with
  | @mk _ _ _ _ _ _ _ locals _ _ _ _ _ hk hn hf hkind hs hl hb hlast =>
    rw [Routine.need_le_iff] at hneed
    obtain ⟨-, hrest⟩ := hp.tail.tail.append
    obtain ⟨-, hrest⟩ := hrest.append
    obtain ⟨hlocals, hrest⟩ := hrest.tail.append
    refine .mk hk hn hf hkind hs (hl.respell hlocals ?_) (hb.respell hrest.append.1 hneed.2) hlast
    rintro s rfl
    exact hneed.1

theorem Program.Spelling.respell {levels : Nat} {p : Program} {ts : List Token}
    (h : Program.Spelling levels p ts) (hp : Plain ts) {levels' : Nat} (hneed : p.need ≤ levels') :
    Program.Spelling levels' p ts := by
  cases h with
  | mk hk hn hs hv hc hr hb hpoint =>
    rw [Program.need_le_iff] at hneed
    obtain ⟨hneedv, hneedc, hneedr, hneedb⟩ := hneed
    obtain ⟨hvars, hrest⟩ := hp.tail.tail.tail.append
    obtain ⟨hconsts, hrest⟩ := hrest.append
    obtain ⟨hroutines, hrest⟩ := hrest.append
    have hr' := (hr.inherit Plain.append hroutines).imp fun r hmem _ h =>
      h.2.respell h.1 (hneedr r hmem)
    exact .mk hk hn hs (hv.respell hvars hneedv) (hc.respell hconsts hneedc) hr'
      (hb.respell hrest.append.1 hneedb) hpoint

/-! ## Sources -/

namespace Program

variable {limits : Limits} {source : String} {p : Program}

theorem ofSource_of_tokenize {tokens : List Token}
    (h : tokenize limits.maxTokens source = .ok tokens) (maxDepth : Nat) :
    ofSource { limits with maxDepth := maxDepth } source =
      (parse maxDepth tokens).mapError .syntactic := by
  rw [ofSource, h]

/-- How many levels of nesting a source needs is given by its tree.  A source is
only accepted if there are as many levels as its tree needs, and with fewer the
error for want of a level is reported.  Where no parentheses stand around operands
no more levels are needed: with as many as the tree needs the source is accepted,
and has the same tree. -/
theorem ofSource_need (h : ofSource limits source = .ok p) :
    p.need ≤ limits.maxDepth ∧
    (∀ maxDepth < p.need, ∃ position, ofSource { limits with maxDepth := maxDepth } source =
      .error (.syntactic (.nestingTooDeep maxDepth position))) ∧
    ∀ tokens, tokenize limits.maxTokens source = .ok tokens →
      Token.Ungrouped false (Token.significant tokens) → ∀ maxDepth, p.need ≤ maxDepth →
        ofSource { limits with maxDepth := maxDepth } source = .ok p := by
  obtain ⟨tokens, htokens, hparse⟩ := ofSource_eq_ok_iff.mp h
  have hspelling : Spelling limits.maxDepth p (Token.significant tokens) := parse_iff.mp hparse
  have hle : p.need ≤ limits.maxDepth := hspelling.need_le
  refine ⟨hle, ?_, ?_⟩
  · intro maxDepth hlt
    have hdeep : TooDeep maxDepth tokens := by
      by_contra hdeep
      have hsame := parse_of_le (Nat.le_of_lt (Nat.lt_of_lt_of_le hlt hle)) hdeep
      have hspelled : Spelling maxDepth p (Token.significant tokens) :=
        parse_iff.mp (hsame.symm.trans hparse)
      exact Nat.not_le_of_lt hlt hspelled.need_le
    obtain ⟨limit, position, htoo⟩ := hdeep
    obtain ⟨rfl, -⟩ := fails_of_tooDeep htoo
    exact ⟨position, by rw [ofSource_of_tokenize htokens, htoo]; rfl⟩
  · intro tokens' htokens' hungrouped maxDepth hneed
    obtain rfl : tokens = tokens' := Except.ok.inj (htokens.symm.trans htokens')
    have hplain : Token.Plain (Token.significant tokens) :=
      ⟨hungrouped.weaken, Token.apart_significant htokens⟩
    rw [ofSource_of_tokenize htokens, parse_iff.mpr (hspelling.respell hplain hneed)]
    rfl

/-- The first body has its `begin`, the second one is wrapped. -/
def layeredSource : String :=
  "program p; var a: integer = 1; " ++
    "begin if a = 1 then begin x := -f(1, -2) end else while a < 2 do x := 1 end."

/-- The conditional, its first body, the assignment, its value, the two signs and
the argument between them take a level each. -/
theorem layeredSource_need :
    ∃ p, ofSource .standard layeredSource = .ok p ∧ p.need = 7 ∧
      (∃ position, ofSource { Limits.standard with maxDepth := 6 } layeredSource =
        .error (.syntactic (.nestingTooDeep 6 position))) ∧
      ofSource { Limits.standard with maxDepth := 7 } layeredSource = .ok p := by
  have hread : (ofSource .standard layeredSource).map need = .ok 7 := by
    decide +kernel
  have hungrouped : (tokenize Limits.standard.maxTokens layeredSource).map
      (fun tokens => decide (Token.Ungrouped false (Token.significant tokens))) = .ok true := by
    decide +kernel
  cases h : ofSource .standard layeredSource with
  | error e =>
    rw [h] at hread
    cases hread
  | ok p =>
    rw [h] at hread
    have hneed : p.need = 7 := Except.ok.inj hread
    obtain ⟨tokens, htokens, -⟩ := ofSource_eq_ok_iff.mp h
    rw [htokens] at hungrouped
    obtain ⟨-, below, enough⟩ := ofSource_need h
    exact ⟨p, rfl, hneed, below 6 (by omega),
      enough tokens htokens (of_decide_eq_true (Except.ok.inj hungrouped)) 7 (by omega)⟩

end Program
end PascalSyntax
