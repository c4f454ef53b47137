import PascalSyntax.Proofs.Program.Spelling

/-!
# Alphabets and parentheses

A part of a program is written with the terminals of its alphabet, and with
parentheses, which are always matched.  `Token.Bracketed` says this of some
tokens, whatever the part is that they spell.  It tells where a terminal cannot
be found: in no part whose alphabet it is not in (`Bracketed.not_admits`).
-/

namespace PascalSyntax

/-- The tokens are instances of the terminals of an alphabet, and of parentheses
that are matched. -/
inductive Token.Bracketed (alphabet : List Terminal) : List Token → Prop
  | nil : Bracketed alphabet []
  | token {a : Terminal} {t : Token} : a ∈ alphabet → a.admits t → Bracketed alphabet [t]
  | parenthesized {opening closing : Token} {ts : List Token} :
      (Terminal.symbol "(").admits opening → Bracketed alphabet ts →
      (Terminal.symbol ")").admits closing → Bracketed alphabet (opening :: (ts ++ [closing]))
  | append {ts us : List Token} : Bracketed alphabet ts → Bracketed alphabet us →
      Bracketed alphabet (ts ++ us)

namespace Token.Bracketed

variable {alphabet : List Terminal} {ts us : List Token}

theorem cons {a : Terminal} {t : Token} (ha : a ∈ alphabet) (ht : a.admits t)
    (h : Bracketed alphabet ts) : Bracketed alphabet (t :: ts) :=
  .append (.token ha ht) h

theorem mono {alphabet' : List Terminal} (h : Bracketed alphabet ts)
    (hsub : alphabet ⊆ alphabet') : Bracketed alphabet' ts := by
  induction h with
  | nil => exact .nil
  | token ha ht => exact .token (hsub ha) ht
  | parenthesized ho _ hc ih => exact .parenthesized ho ih hc
  | append _ _ ih ih' => exact .append ih ih'

theorem admitted (h : Bracketed alphabet ts) :
    ∀ t ∈ ts, ∃ a ∈ .symbol "(" :: .symbol ")" :: alphabet, a.admits t := by
  induction h with
  | nil => exact List.forall_mem_nil _
  | token ha ht =>
    refine List.forall_mem_singleton.mpr ⟨_, ?_, ht⟩
    exact List.mem_cons_of_mem _ (List.mem_cons_of_mem _ ha)
  | parenthesized ho _ hc ih =>
    refine List.forall_mem_cons.mpr ⟨⟨_, List.mem_cons_self, ho⟩, ?_⟩
    refine List.forall_mem_append.mpr ⟨ih, List.forall_mem_singleton.mpr ⟨_, ?_, hc⟩⟩
    exact List.mem_cons_of_mem _ List.mem_cons_self
  | append _ _ ih ih' => exact List.forall_mem_append.mpr ⟨ih, ih'⟩

/-- A terminal outside the alphabet is not to be found. -/
theorem not_admits (h : Bracketed alphabet ts) {a : Terminal}
    (ha : a ∉ .symbol "(" :: .symbol ")" :: alphabet) : ∀ t ∈ ts, a.admits t = false := by
  intro t ht
  obtain ⟨b, hb, hadmits⟩ := h.admitted t ht
  exact Terminal.not_admits hadmits fun he => ha (he ▸ hb)

theorem sequence {spells : α → List Token → Prop}
    (each : ∀ a us, spells a us → Bracketed alphabet us) {as : List α}
    (h : Sequence spells as ts) : Bracketed alphabet ts := by
  induction h with
  | nil => exact .nil
  | cons ha _ ih => exact .append (each _ _ ha) ih

theorem separated {separator : Terminal} {spells : α → List Token → Prop} {as : List α}
    (h : Separated separator spells as ts) (hs : separator ∈ alphabet)
    (each : ∀ a ∈ as, ∀ us, spells a us → Bracketed alphabet us) : Bracketed alphabet ts := by
  induction h with
  | single ha => exact each _ List.mem_cons_self _ ha
  | cons ha ht _ ih =>
    obtain ⟨hfirst, hrest⟩ := List.forall_mem_cons.mp each
    exact .append (hfirst _ ha) (.cons hs ht (ih hrest))

end Token.Bracketed

/-! ## Expressions and statements -/

/-- What expressions are written with, parentheses apart. -/
def Expr.alphabet : List Terminal :=
  [.identifier, .number, .string, .symbol ","] ++ BinaryOperator.relational.map (·.terminal) ++
    BinaryOperator.additive.map (·.terminal) ++ BinaryOperator.multiplicative.map (·.terminal) ++
    UnaryOperator.all.map (·.terminal)

theorem BinaryOperator.terminal_mem_alphabet (op : BinaryOperator) :
    op.terminal ∈ Expr.alphabet := by
  cases op <;> decide

theorem UnaryOperator.terminal_mem_alphabet (op : UnaryOperator) :
    op.terminal ∈ Expr.alphabet := by
  cases op <;> decide

theorem Expr.Spelling.bracketed {levels k : Nat} {e : Expr} {ts : List Token}
    (h : Expr.Spelling levels k e ts) : Token.Bracketed Expr.alphabet ts := by
  induction h with
  | identifier ht => exact .token (by decide) ht
  | integer ht _ => exact .token (by decide) ht
  | string ht => exact .token (by decide) ht
  | emptyCall hn ho hc => exact .cons (by decide) hn (.parenthesized ho .nil hc)
  | @call _ _ _ _ _ pieces _ hn ho _ hs hc ih =>
    have each : ∀ us ∈ pieces.map (·.2), ∀ vs, us = vs → Token.Bracketed Expr.alphabet vs := by
      intro us hus vs he
      obtain ⟨piece, hpiece, rfl⟩ := List.mem_map.mp hus
      exact he ▸ ih piece hpiece
    exact .cons (by decide) hn (.parenthesized ho (.separated hs (by decide) each) hc)
  | parenthesized ho _ hc ih => exact .parenthesized ho ih hc
  | @unary _ _ op _ _ _ ht _ ih => exact .cons op.terminal_mem_alphabet ht ih
  | @binary _ _ op _ _ _ _ _ _ _ ht _ ihl ihr =>
    exact .append ihl (.cons op.terminal_mem_alphabet ht ihr)

theorem Expr.Within.bracketed {levels : Nat} {e : Expr} {ts : List Token}
    (h : Expr.Within levels e ts) : Token.Bracketed Expr.alphabet ts := by
  cases levels with
  | zero => exact h.elim
  | succ levels => exact Expr.Spelling.bracketed h

theorem Call.Arguments.bracketed {levels : Nat} {args : List Argument} {ts : List Token}
    (h : Call.Arguments (Expr.Within levels) args ts) : Token.Bracketed Expr.alphabet ts := by
  cases h with
  | empty ho hc => exact .parenthesized ho .nil hc
  | given ho hs hc =>
    exact .parenthesized ho (.separated hs (by decide) fun _ _ _ he => he.bracketed) hc

/-- What statements are written with, parentheses apart. -/
def Statement.alphabet : List Terminal :=
  Expr.alphabet ++ [.symbol ":=", .symbol ";", .word "begin", .word "end", .word "while",
    .word "do", .word "for", .word "to", .word "downto", .word "if", .word "then", .word "else"]

theorem Expr.alphabet_subset : Expr.alphabet ⊆ Statement.alphabet :=
  List.subset_append_left _ _

theorem Direction.word_mem_alphabet (direction : Direction) :
    .word direction.word ∈ Statement.alphabet := by
  cases direction <;> decide

/-- An expression that is part of a statement. -/
theorem Expr.Within.inStatement {levels : Nat} {e : Expr} {ts : List Token}
    (h : Expr.Within levels e ts) : Token.Bracketed Statement.alphabet ts :=
  h.bracketed.mono Expr.alphabet_subset

theorem Statement.Spelling.bracketed {levels : Nat} {isOpen : Bool} {s : Statement}
    {ts : List Token} (h : Statement.Spelling levels isOpen s ts) :
    Token.Bracketed Statement.alphabet ts := by
  induction h with
  | assignment hn hb he => exact .cons (by decide) hn (.cons (by decide) hb he.inStatement)
  | bareCall hn => exact .token (by decide) hn
  | call hn ha => exact .cons (by decide) hn (ha.bracketed.mono Expr.alphabet_subset)
  | @block _ _ _ _ pieces _ ho _ hnone hs hc ih =>
    have each : ∀ us ∈ pieces.map (·.2), ∀ vs, us = vs →
        Token.Bracketed Statement.alphabet vs := by
      intro us hus vs he
      obtain ⟨piece, hpiece, rfl⟩ := List.mem_map.mp hus
      subst he
      rcases hsome : piece.1 with _ | s
      · rw [hnone piece hpiece hsome]
        exact .nil
      · exact ih piece hpiece s hsome
    exact .cons (by decide) ho (.append (.separated hs (by decide) each) (.token (by decide) hc))
  | whileLoop hk he hd _ ih =>
    exact .cons (by decide) hk (.append he.inStatement (.cons (by decide) hd ih))
  | @forLoop _ _ _ _ _ _ _ _ _ direction _ _ _ _ hk hn hb hf hw hl hd _ ih =>
    have hbody := Token.Bracketed.append hl.inStatement (.cons (by decide) hd ih)
    have hrange := Token.Bracketed.append hf.inStatement
      (.cons direction.word_mem_alphabet hw hbody)
    exact .cons (by decide) hk (.cons (by decide) hn (.cons (by decide) hb hrange))
  | ifThen hk he ht _ ih =>
    exact .cons (by decide) hk (.append he.inStatement (.cons (by decide) ht ih))
  | ifElse hk he ht _ hel _ _ ih iho =>
    have hbranches := Token.Bracketed.append ih (.cons (by decide) hel iho)
    exact .cons (by decide) hk (.append he.inStatement (.cons (by decide) ht hbranches))
  | elseIf hk he ht _ hel _ ih iho =>
    have hbranches := Token.Bracketed.append ih (.cons (by decide) hel iho)
    exact .cons (by decide) hk (.append he.inStatement (.cons (by decide) ht hbranches))

theorem Block.Spelling.bracketed {levels : Nat} {b : Block} {ts : List Token}
    (h : Block.Spelling levels b ts) : Token.Bracketed Statement.alphabet ts := by
  have hstatement : Statement.Spelling (levels + 1) true (.block b) ts :=
    Statement.spelling_block_iff.mpr h
  exact hstatement.bracketed

/-! ## Declarations -/

/-- What constants are declared with. -/
def ConstDecl.alphabet : List Terminal :=
  Expr.alphabet ++ [.symbol ";", .word "const"]

theorem ConstSection.Spelling.bracketed {levels : Nat} {part : Option (DeclSection ConstDecl)}
    {ts : List Token} (h : ConstSection.Spelling levels part ts) :
    Token.Bracketed ConstDecl.alphabet ts := by
  cases h with
  | absent => exact .nil
  | present hk _ hs =>
    refine .cons (by decide) hk (.sequence ?_ hs)
    intro c us hc
    cases hc with
    | mk hn he hv hsemi =>
      have hvalue : Token.Bracketed ConstDecl.alphabet _ :=
        hv.bracketed.mono (List.subset_append_left _ _)
      exact .cons (by decide) hn
        (.cons (by decide) he (.append hvalue (.token (by decide) hsemi)))

/-- What variables and parameters are declared with, and what a function gives
back. -/
def VarDecl.alphabet : List Terminal :=
  Expr.alphabet ++ [.symbol ":", .symbol ";", .word "var"]

theorem Identifier.separated_bracketed {names : List Identifier} {ts : List Token}
    (h : Separated (.symbol ",") Identifier.Spelling names ts) :
    Token.Bracketed VarDecl.alphabet ts := by
  refine .separated h (by decide) ?_
  intro x _ us hx
  cases hx with
  | mk ht => exact .token (by decide) ht

theorem VarDecl.Group.bracketed {levels : Nat} {decls : List VarDecl} {ts : List Token}
    (h : VarDecl.Group levels decls ts) : Token.Bracketed VarDecl.alphabet ts := by
  cases h with
  | plain hs hc ht hsemi =>
    exact .append (Identifier.separated_bracketed hs)
      (.cons (by decide) hc (.cons (by decide) ht (.token (by decide) hsemi)))
  | initialized hn hc ht he hv hsemi =>
    have hvalue : Token.Bracketed VarDecl.alphabet _ :=
      hv.bracketed.mono (List.subset_append_left _ _)
    exact .cons (by decide) hn (.cons (by decide) hc (.cons (by decide) ht
      (.cons (by decide) he (.append hvalue (.token (by decide) hsemi)))))

theorem VarSection.Spelling.bracketed {levels : Nat} {part : Option (DeclSection VarDecl)}
    {ts : List Token} (h : VarSection.Spelling levels part ts) :
    Token.Bracketed VarDecl.alphabet ts := by
  cases h with
  | absent => exact .nil
  | present hk _ hs => exact .cons (by decide) hk (.sequence (fun _ _ hg => hg.bracketed) hs)

theorem Parameter.Group.bracketed {parameters : List Parameter} {ts : List Token}
    (h : Parameter.Group parameters ts) : Token.Bracketed VarDecl.alphabet ts := by
  cases h with
  | byValue hs hc ht =>
    exact .append (Identifier.separated_bracketed hs) (.cons (by decide) hc (.token (by decide) ht))
  | byReference hk hs hc ht =>
    exact .cons (by decide) hk
      (.append (Identifier.separated_bracketed hs) (.cons (by decide) hc (.token (by decide) ht)))

theorem Routine.Formals.bracketed {parameters : List Parameter} {ts : List Token}
    (h : Routine.Formals parameters ts) : Token.Bracketed VarDecl.alphabet ts := by
  cases h with
  | absent => exact .nil
  | empty ho hc => exact .parenthesized ho .nil hc
  | given ho hs hc =>
    exact .parenthesized ho (.separated hs (by decide) fun _ _ _ hg => hg.bracketed) hc

theorem Routine.Kind.Spelling.bracketed {isFunction : Bool} {kind : Routine.Kind}
    {ts : List Token} (h : Routine.Kind.Spelling isFunction kind ts) :
    Token.Bracketed VarDecl.alphabet ts := by
  cases h with
  | function hc ht => exact .cons (by decide) hc (.token (by decide) ht)
  | procedure => exact .nil

/-- What routines are written with, parentheses apart. -/
def Routine.alphabet : List Terminal :=
  VarDecl.alphabet ++ (Statement.alphabet ++ [.word "function", .word "procedure"])

theorem Routine.keyword_mem_alphabet (isFunction : Bool) :
    keyword isFunction ∈ alphabet := by
  cases isFunction <;> decide

theorem Routine.Spelling.bracketed {levels : Nat} {r : Routine} {ts : List Token}
    (h : Routine.Spelling levels r ts) : Token.Bracketed Routine.alphabet ts := by
  have hdecls : VarDecl.alphabet ⊆ Routine.alphabet := List.subset_append_left _ _
  have hstatements : Statement.alphabet ⊆ Routine.alphabet :=
    List.Subset.trans (List.subset_append_left _ _) (List.subset_append_right _ _)
  cases h with
  | @mk isFunction _ _ _ _ _ _ _ _ _ _ _ _ hk hn hformals hkind hsemi hlocals hbody hlast =>
    have htail := Token.Bracketed.append (hbody.bracketed.mono hstatements)
      (.token (by decide) hlast)
    have hrest := Token.Bracketed.append (hlocals.bracketed.mono hdecls) htail
    have hheading := Token.Bracketed.append (hformals.bracketed.mono hdecls)
      (.append (hkind.bracketed.mono hdecls) (.cons (by decide) hsemi hrest))
    exact .cons (Routine.keyword_mem_alphabet isFunction) hk (.cons (by decide) hn hheading)

end PascalSyntax
