import Mathlib.Data.List.Nodup
import PascalSyntax.Proofs.Program.Reading
import PascalSyntax.Proofs.Token.Positions
import PascalSyntax.Proofs.Tree.Entries
import PascalSyntax.Program.FrontEnd

/-!
# No token is lost

The tree of a source keeps all of its names and literals, each of them once and
in their order, and its operators stand between them as they do in the source
(`Program.ofSource_entries`).

The proof goes along the spellings: each of them turns tokens into entries and
drops only tokens that are no names and no literals.  That the type of a group
is not taken for the type of the next one is due to the tokens: no two tokens of
a source have the same origin.
-/

namespace PascalSyntax

/-! ## Tokens and entries -/

/-- Whether tokens of a kind are names or literals. -/
def Token.Kind.isLeaf : Token.Kind → Bool
  | .identifier => true
  | .number => true
  | .string => true
  | .symbol => false
  | .reservedWord => false
  | .comment => false

/-- Whether the instances of a terminal are names or literals. -/
def Terminal.isLeaf : Terminal → Bool
  | .identifier => true
  | .number => true
  | .string => true
  | .symbol _ => false
  | .word _ => false

theorem Terminal.isLeaf_kind {a : Terminal} {t : Token} (h : a.admits t = true) :
    t.kind.isLeaf = a.isLeaf := by
  cases a <;> simp_all [admits, isLeaf, Token.Kind.isLeaf]

/-- The entries are the names and literals among the tokens, and some of the
other tokens, as operators. -/
inductive Kept : List Entry → List Token → Prop
  | nil : Kept [] []
  | leaf {t : Token} {es : List Entry} {ts : List Token} : t.kind.isLeaf = true → Kept es ts →
      Kept (.leaf t.origin :: es) (t :: ts)
  | operator {t : Token} {es : List Entry} {ts : List Token} : t.kind.isLeaf = false →
      Kept es ts → Kept (.operator t.origin :: es) (t :: ts)
  | other {t : Token} {es : List Entry} {ts : List Token} : t.kind.isLeaf = false → Kept es ts →
      Kept es (t :: ts)

namespace Kept

variable {es fs : List Entry} {ts us : List Token}

theorem append (h : Kept es ts) (h' : Kept fs us) : Kept (es ++ fs) (ts ++ us) := by
  induction h with
  | nil => exact h'
  | leaf ht _ ih => exact .leaf ht ih
  | operator ht _ ih => exact .operator ht ih
  | other ht _ ih => exact .other ht ih

theorem leaves (h : Kept es ts) :
    es.filterMap Entry.leaf? = (ts.filter (·.kind.isLeaf)).map Token.origin := by
  induction h with
  | nil => rfl
  | leaf ht _ ih => simp [Entry.leaf?, ht, ih]
  | operator ht _ ih => simp [List.filterMap_cons, Entry.leaf?, ht, ih]
  | other ht _ ih => simp [ht, ih]

theorem sublist (h : Kept es ts) : (es.map Entry.origin).Sublist (ts.map Token.origin) := by
  induction h with
  | nil => exact .slnil
  | leaf _ _ ih => exact ih.cons_cons _
  | operator _ _ ih => exact ih.cons_cons _
  | other _ _ ih => exact ih.cons _

end Kept

/-- No two of the tokens have the same origin. -/
def Token.Apart (ts : List Token) : Prop :=
  (ts.map Token.origin).Nodup

/-- The entries are what is kept of the tokens, if these are apart. -/
def KeptIfApart (es : List Entry) (ts : List Token) : Prop :=
  Token.Apart ts → Kept es ts

namespace KeptIfApart

variable {es fs : List Entry} {ts us : List Token} {t : Token}

theorem nil : KeptIfApart [] [] := fun _ => .nil

theorem append (h : KeptIfApart es ts) (h' : KeptIfApart fs us) :
    KeptIfApart (es ++ fs) (ts ++ us) := by
  intro hapart
  rw [Token.Apart, List.map_append, List.nodup_append] at hapart
  exact (h hapart.1).append (h' hapart.2.1)

theorem leaf {a : Terminal} (ha : a.isLeaf = true) (ht : a.admits t = true)
    (h : KeptIfApart es ts) : KeptIfApart (.leaf t.origin :: es) (t :: ts) := by
  intro hapart
  exact .leaf ((Terminal.isLeaf_kind ht).trans ha) (h (List.nodup_cons.mp hapart).2)

theorem operator {a : Terminal} (ha : a.isLeaf = false) (ht : a.admits t = true)
    (h : KeptIfApart es ts) : KeptIfApart (.operator t.origin :: es) (t :: ts) := by
  intro hapart
  exact .operator ((Terminal.isLeaf_kind ht).trans ha) (h (List.nodup_cons.mp hapart).2)

theorem other {a : Terminal} (ha : a.isLeaf = false) (ht : a.admits t = true)
    (h : KeptIfApart es ts) : KeptIfApart es (t :: ts) := by
  intro hapart
  exact .other ((Terminal.isLeaf_kind ht).trans ha) (h (List.nodup_cons.mp hapart).2)

theorem name (ht : Terminal.identifier.admits t = true) (h : KeptIfApart es ts) :
    KeptIfApart (t.toIdentifier.entry :: es) (t :: ts) :=
  .leaf rfl ht h

/-- One token of no account at the end. -/
theorem last {a : Terminal} (ha : a.isLeaf = false) (h : KeptIfApart es ts)
    (ht : a.admits t = true) : KeptIfApart es (ts ++ [t]) := by
  rw [← List.append_nil es]
  exact h.append (.other ha ht .nil)

theorem sequence {spells : α → List Token → Prop} {entries : α → List Entry} {as : List α}
    (each : ∀ a ts, spells a ts → KeptIfApart (entries a) ts) (h : Sequence spells as ts) :
    KeptIfApart (as.flatMap entries) ts := by
  induction h with
  | nil => exact .nil
  | cons ha _ ih => exact (each _ _ ha).append ih

theorem separated {spells : α → List Token → Prop} {entries : α → List Entry} {as : List α}
    {separator : Terminal} (hs : separator.isLeaf = false)
    (each : ∀ a ts, spells a ts → KeptIfApart (entries a) ts)
    (h : Separated separator spells as ts) : KeptIfApart (as.flatMap entries) ts := by
  induction h with
  | single ha =>
    rw [List.flatMap_singleton]
    exact each _ _ ha
  | cons ha ht _ ih => exact (each _ _ ha).append (.other hs ht ih)

end KeptIfApart

/-! ## Expressions and statements -/

theorem BinaryOperator.isLeaf_terminal (op : BinaryOperator) : op.terminal.isLeaf = false := by
  cases op <;> rfl

theorem UnaryOperator.isLeaf_terminal (op : UnaryOperator) : op.terminal.isLeaf = false := by
  cases op <;> rfl

/-- The values between the parentheses of a call. -/
theorem KeptIfApart.values {spells : Expr → List Token → Prop}
    (each : ∀ e ts, spells e ts → KeptIfApart e.entries ts) {values : List Expr}
    {ts : List Token} (h : Separated (.symbol ",") spells values ts) :
    KeptIfApart (Argument.allEntries (values.map .ofValue)) ts := by
  rw [Argument.allEntries_eq, List.flatMap_map]
  simp only [Argument.entries_ofValue]
  exact .separated rfl each h

theorem Expr.Spelling.kept {levels k : Nat} {e : Expr} {ts : List Token}
    (h : Expr.Spelling levels k e ts) : KeptIfApart e.entries ts := by
  induction h with
  | identifier ht => exact .name ht .nil
  | integer ht _ => exact .leaf rfl ht .nil
  | string ht => exact .leaf rfl ht .nil
  | emptyCall hn ho hc => exact .name hn (.other rfl ho (.other rfl hc .nil))
  | @call _ _ _ _ _ pieces _ hn ho _ hs hc ih =>
    have hvalues : Separated (.symbol ",") (fun e ts => KeptIfApart e.entries ts)
        (pieces.map (·.1)) _ :=
      separated_iff_pieces.mpr ⟨pieces, rfl, ih, hs⟩
    have hkept := KeptIfApart.values (fun _ _ h => h) hvalues
    rw [List.map_map] at hkept
    exact .name hn (.other rfl ho (hkept.last rfl hc))
  | parenthesized ho _ hc ih => exact .other rfl ho (ih.last rfl hc)
  | unary ht _ ih => exact .operator (UnaryOperator.isLeaf_terminal _) ht ih
  | binary _ _ ht _ ihl ihr =>
    exact ihl.append (.operator (BinaryOperator.isLeaf_terminal _) ht ihr)

theorem Expr.Within.kept {levels : Nat} {e : Expr} {ts : List Token}
    (h : Expr.Within levels e ts) : KeptIfApart e.entries ts := by
  cases levels with
  | zero => exact h.elim
  | succ levels => exact Expr.Spelling.kept h

theorem Call.Arguments.kept {levels : Nat} {args : List Argument} {ts : List Token}
    (h : Call.Arguments (Expr.Within levels) args ts) :
    KeptIfApart (Argument.allEntries args) ts := by
  cases h with
  | empty ho hc => exact .other rfl ho (.other rfl hc .nil)
  | given ho hs hc =>
    exact .other rfl ho ((KeptIfApart.values (fun _ _ h => h.kept) hs).last rfl hc)

/-- The entries of what stands between two semicolons of a block. -/
def Statement.pieceEntries (o : Option Statement) : List Entry :=
  o.toList.flatMap Statement.entries

theorem Statement.allEntries_filterMap (items : List (Option Statement)) :
    Statement.allEntries (items.filterMap id) = items.flatMap Statement.pieceEntries := by
  rw [allEntries_eq, List.filterMap_eq_flatMap_toList, List.flatMap_assoc]
  rfl

theorem KeptIfApart.block {spells : Statement → List Token → Prop}
    (each : ∀ s ts, spells s ts → KeptIfApart s.entries ts) {opening closing : Token}
    {items : List (Option Statement)} {ts : List Token}
    (ho : (Terminal.word "begin").admits opening)
    (h : Separated (.symbol ";") (Statement.Piece spells) items ts)
    (hc : (Terminal.word "end").admits closing) :
    KeptIfApart (Statement.allEntries (items.filterMap id)) (opening :: (ts ++ [closing])) := by
  have hpiece : ∀ o us, Statement.Piece spells o us →
      KeptIfApart (Statement.pieceEntries o) us := by
    intro o us hpiece
    cases o with
    | none =>
      obtain rfl := hpiece
      exact .nil
    | some s =>
      rw [Statement.pieceEntries, Option.toList_some, List.flatMap_singleton]
      exact each s us hpiece
  rw [Statement.allEntries_filterMap]
  exact .other rfl ho ((KeptIfApart.separated rfl hpiece h).last rfl hc)

theorem Statement.Spelling.kept {levels : Nat} {isOpen : Bool} {s : Statement} {ts : List Token}
    (h : Statement.Spelling levels isOpen s ts) : KeptIfApart s.entries ts := by
  induction h with
  | assignment hn hb he => exact .name hn (.other rfl hb he.kept)
  | bareCall hn => exact .name hn .nil
  | call hn ha => exact .name hn ha.kept
  | @block _ _ opening closing pieces us ho _ hnone hs hc ih =>
    have hitems : Separated (.symbol ";") (Statement.Piece fun s vs => KeptIfApart s.entries vs)
        (pieces.map (·.1)) us := by
      refine separated_iff_pieces.mpr ⟨pieces, rfl, ?_, hs⟩
      intro h hpiece
      rcases h with ⟨o, vs⟩
      cases o with
      | none => exact hnone _ hpiece rfl
      | some s => exact ih _ hpiece s rfl
    have hkept := KeptIfApart.block (fun _ _ h => h) ho hitems hc
    rwa [List.filterMap_map] at hkept
  | whileLoop hk he hd _ ih =>
    rw [Statement.entries, Branch.entries_mk]
    exact .other rfl hk (he.kept.append (.other rfl hd ih))
  | @forLoop _ _ _ _ _ _ _ _ _ d _ _ _ _ hk hn hb hf hw hl hd _ ih =>
    rw [Statement.entries, Block.entries_ofStatement, List.append_assoc]
    exact .other rfl hk (.name hn (.other rfl hb (hf.kept.append (.other rfl hw
      (hl.kept.append (.other rfl hd ih))))))
  | ifThen hk he ht _ ih =>
    rw [Statement.entries_conditional, List.flatMap_singleton, Branch.entries_mk,
      Option.toList_none, List.flatMap_nil, List.append_nil]
    exact .other rfl hk (he.kept.append (.other rfl ht ih))
  | ifElse hk he ht _ hel _ _ ih iho =>
    rw [Statement.entries_conditional, List.flatMap_singleton, Branch.entries_mk,
      Option.toList_some, List.flatMap_singleton, Block.entries_ofStatement, List.append_assoc]
    exact .other rfl hk (he.kept.append (.other rfl ht (ih.append (.other rfl hel iho))))
  | elseIf hk he ht _ hel _ ih iho =>
    rw [Statement.entries_conditional] at iho ⊢
    rw [List.flatMap_cons, Branch.entries_mk, List.append_assoc, List.append_assoc]
    exact .other rfl hk (he.kept.append (.other rfl ht (ih.append (.other rfl hel iho))))

theorem Block.Spelling.kept {levels : Nat} {b : Block} {ts : List Token}
    (h : Block.Spelling levels b ts) : KeptIfApart b.entries ts := by
  cases h with
  | mk ho hs hc => exact .block (fun _ _ h => h.kept) ho hs hc

/-! ## Runs of declarations -/

section Runs

variable {α : Type} {name typeName : α → Identifier} {rest : α → List Entry}

/-- The declarations are some that share a type. -/
def IsRun (typeName : α → Identifier) (run : List α) : Prop :=
  run ≠ [] ∧ ∃ x, ∀ d ∈ run, typeName d = x

theorem typeName_mem_runEntries {run : List α} {x : Identifier} (hne : run ≠ [])
    (hx : ∀ d ∈ run, typeName d = x) : x.entry ∈ runEntries name typeName rest run := by
  obtain ⟨d, ds, rfl⟩ := List.exists_cons_of_ne_nil hne
  rw [← hx d List.mem_cons_self]
  simp [runEntries]

/-- Runs one after another are found again if no entry occurs twice. -/
theorem declEntries_flatten {runs : List (List α)} (hruns : ∀ run ∈ runs, IsRun typeName run)
    (hnodup : (runs.flatMap (runEntries name typeName rest)).Nodup) :
    declEntries name typeName rest runs.flatten =
      runs.flatMap (runEntries name typeName rest) := by
  rw [declEntries, List.splitBy_flatten]
  · intro hnil
    exact (hruns [] hnil).1 rfl
  · intro run hrun
    obtain ⟨-, x, hx⟩ := hruns run hrun
    refine (List.pairwise_of_forall_mem_list fun d hd e he => ?_).isChain
    exact decide_eq_true ((hx d hd).trans (hx e he).symm)
  · refine ((List.nodup_flatMap.mp hnodup).2.imp_of_mem ?_).isChain
    intro run run' hrun hrun' hdisjoint
    obtain ⟨hne, x, hx⟩ := hruns run hrun
    obtain ⟨hne', x', hx'⟩ := hruns run' hrun'
    refine ⟨hne, hne', decide_eq_false fun he => ?_⟩
    -- the same type in both would be an entry that occurs twice
    rw [hx _ (List.getLast_mem _), hx' _ (List.head_mem _)] at he
    subst he
    exact hdisjoint (typeName_mem_runEntries hne hx) (typeName_mem_runEntries hne' hx')

/-- What is kept of the runs one by one is kept of all declarations. -/
theorem KeptIfApart.declarations {runs : List (List α)} {ts : List Token}
    (hruns : ∀ run ∈ runs, IsRun typeName run)
    (h : KeptIfApart (runs.flatMap (runEntries name typeName rest)) ts) :
    KeptIfApart (declEntries name typeName rest runs.flatten) ts := by
  intro hapart
  have hkept := h hapart
  have hnodup : (runs.flatMap (runEntries name typeName rest)).Nodup :=
    List.Nodup.of_map _ (hkept.sublist.nodup hapart)
  rwa [declEntries_flatten hruns hnodup]

/-! ## Groups of names -/

theorem Identifier.Spelling.kept {x : Identifier} {ts : List Token}
    (h : Identifier.Spelling x ts) : KeptIfApart [x.entry] ts := by
  cases h with
  | mk ht => exact .name ht .nil

variable {declare : Identifier → α} {names : List Identifier} {ts us : List Token}

theorem isRun_map {x : Identifier} (hs : Separated (.symbol ",") Identifier.Spelling names ts)
    (htype : ∀ y, typeName (declare y) = x) : IsRun typeName (names.map declare) :=
  ⟨mt List.map_eq_nil_iff.mp hs.ne_nil, x,
    List.forall_mem_map.mpr fun y _ => htype y⟩

/-- Names, a colon and a type are kept as one declaration for each name. -/
theorem KeptIfApart.group {colon t : Token}
    (hs : Separated (.symbol ",") Identifier.Spelling names ts)
    (hc : (Terminal.symbol ":").admits colon) (ht : Terminal.identifier.admits t)
    (hus : KeptIfApart [] us) (hname : ∀ y, name (declare y) = y)
    (htype : ∀ y, typeName (declare y) = t.toIdentifier) (hrest : ∀ y, rest (declare y) = []) :
    KeptIfApart (runEntries name typeName rest (names.map declare)) (ts ++ colon :: t :: us) := by
  have hentries : runEntries name typeName rest (names.map declare) =
      names.map Identifier.entry ++ [t.toIdentifier.entry] := by
    obtain ⟨y, ys, rfl⟩ := List.exists_cons_of_ne_nil hs.ne_nil
    simp [runEntries, hname, htype, hrest, Function.comp_def]
  have hnames := KeptIfApart.separated rfl (fun _ _ h => h.kept) hs
  rw [← List.map_eq_flatMap] at hnames
  rw [hentries]
  exact hnames.append (.other rfl hc (.name ht hus))

end Runs

/-! ## Declarations -/

theorem VarDecl.Group.kept {levels : Nat} {decls : List VarDecl} {ts : List Token}
    (h : VarDecl.Group levels decls ts) :
    IsRun VarDecl.typeName decls ∧
      KeptIfApart (runEntries VarDecl.name VarDecl.typeName VarDecl.initEntries decls) ts := by
  cases h with
  | plain hs hc ht hsemi =>
    exact ⟨isRun_map hs fun _ => rfl, .group hs hc ht (.other rfl hsemi .nil) (fun _ => rfl)
      (fun _ => rfl) fun _ => rfl⟩
  | initialized hn hc ht he hv hsemi =>
    refine ⟨⟨List.cons_ne_nil _ _, _, List.forall_mem_singleton.mpr rfl⟩, ?_⟩
    rw [runEntries, List.flatMap_singleton, VarDecl.initEntries, Option.toList_some,
      List.flatMap_singleton]
    exact .name hn (.other rfl hc (.name ht (.other rfl he (hv.kept.last rfl hsemi))))

theorem VarSection.Spelling.kept {levels : Nat} {o : Option (DeclSection VarDecl)}
    {ts : List Token} (h : VarSection.Spelling levels o ts) :
    KeptIfApart (o.toList.flatMap (VarDecl.allEntries ·.decls)) ts := by
  cases h with
  | absent => exact .nil
  | present hk _ hs =>
    rw [Option.toList_some, List.flatMap_singleton]
    exact .other rfl hk (.declarations (hs.forall_mem fun _ _ h => h.kept.1)
      (.sequence (fun _ _ h => h.kept.2) hs))

theorem ConstSection.Spelling.kept {levels : Nat} {o : Option (DeclSection ConstDecl)}
    {ts : List Token} (h : ConstSection.Spelling levels o ts) :
    KeptIfApart (o.toList.flatMap (·.decls.flatMap ConstDecl.entries)) ts := by
  cases h with
  | absent => exact .nil
  | present hk _ hs =>
    rw [Option.toList_some, List.flatMap_singleton]
    refine .other rfl hk (.sequence ?_ hs)
    intro c us hc
    cases hc with
    | mk hn he hv hsemi => exact .name hn (.other rfl he (hv.kept.last rfl hsemi))

theorem Parameter.Group.kept {parameters : List Parameter} {ts : List Token}
    (h : Parameter.Group parameters ts) :
    IsRun Parameter.typeName parameters ∧
      KeptIfApart (runEntries Parameter.name Parameter.typeName (fun _ => []) parameters) ts := by
  cases h with
  | byValue hs hc ht =>
    exact ⟨isRun_map hs fun _ => rfl, .group hs hc ht .nil (fun _ => rfl) (fun _ => rfl)
      fun _ => rfl⟩
  | byReference hk hs hc ht =>
    exact ⟨isRun_map hs fun _ => rfl, .other rfl hk (.group hs hc ht .nil (fun _ => rfl)
      (fun _ => rfl) fun _ => rfl)⟩

theorem Routine.Formals.kept {parameters : List Parameter} {ts : List Token}
    (h : Routine.Formals parameters ts) : KeptIfApart (Parameter.allEntries parameters) ts := by
  cases h with
  | absent => exact .nil
  | empty ho hc => exact .other rfl ho (.other rfl hc .nil)
  | given ho hs hc =>
    have hgroups : KeptIfApart (Parameter.allEntries _) _ :=
      .declarations (hs.forall_mem fun _ _ h => h.kept.1)
        (.separated rfl (fun _ _ h => h.kept.2) hs)
    exact .other rfl ho (hgroups.last rfl hc)

/-! ## Programs -/

theorem Routine.Kind.Spelling.kept {isFunction : Bool} {kind : Routine.Kind} {ts : List Token}
    (h : Routine.Kind.Spelling isFunction kind ts) : KeptIfApart kind.entries ts := by
  cases h with
  | function hc ht => exact .other rfl hc (.name ht .nil)
  | procedure => exact .nil

theorem Routine.Spelling.kept {levels : Nat} {r : Routine} {ts : List Token}
    (h : Routine.Spelling levels r ts) : KeptIfApart r.entries ts := by
  cases h with
  | @mk isFunction _ _ _ _ _ _ locals _ _ _ _ _ hk hn hp hkind hs hl hb hlast =>
    have hlocals : VarDecl.allEntries ((locals.map (·.decls)).getD []) =
        locals.toList.flatMap (VarDecl.allEntries ·.decls) := by
      cases locals with
      | none => rfl
      | some s => exact (List.append_nil _).symm
    have hkeyword : (Routine.keyword isFunction).isLeaf = false := rfl
    rw [Routine.entries, hlocals]
    exact .other hkeyword hk (.name hn (hp.kept.append (hkind.kept.append (.other rfl hs
      (hl.kept.append (hb.kept.last rfl hlast))))))

theorem Program.Spelling.kept {levels : Nat} {p : Program} {ts : List Token}
    (h : Program.Spelling levels p ts) : KeptIfApart p.entries ts := by
  cases h with
  | mk hk hn hs hv hc hr hb hp =>
    exact .other rfl hk (.name hn (.other rfl hs (hv.kept.append (hc.kept.append
      (KeptIfApart.append (.sequence (fun _ _ h => h.kept) hr) (hb.kept.last rfl hp))))))

/-! ## Sources -/

theorem Token.apart_significant {maxTokens : Nat} {source : String} {tokens : List Token}
    (h : tokenize maxTokens source = .ok tokens) : Apart (significant tokens) := by
  refine List.pairwise_map.mpr (((tokenize_pairwise h).filter _).imp ?_)
  intro t u hbefore he
  have hposition : t.position = u.position := congrArg Origin.position he
  rw [hposition] at hbefore
  exact Position.not_before_self _ hbefore

theorem Program.ofSource_eq_ok_iff {limits : Limits} {source : String} {p : Program} :
    ofSource limits source = .ok p ↔
      ∃ tokens, tokenize limits.maxTokens source = .ok tokens ∧
        parse limits.maxDepth tokens = .ok p := by
  rw [ofSource]
  cases tokenize limits.maxTokens source with
  | error e => simp
  | ok tokens =>
    simp only [Except.ok.injEq, exists_eq_left']
    cases parse limits.maxDepth tokens with
    | error e => exact ⟨nofun, nofun⟩
    | ok q =>
      show Except.ok q = Except.ok p ↔ _
      rw [Except.ok.injEq, Except.ok.injEq]

/-- No token of a source is lost, doubled or moved in its tree.  The names and
literals of the tree, in their order, are just the tokens of these kinds, and
with the operators between them they are some of the tokens that are no
comments, in the order of the source. -/
theorem Program.ofSource_entries {limits : Limits} {source : String} {p : Program}
    (h : ofSource limits source = .ok p) :
    ∃ tokens, tokenize limits.maxTokens source = .ok tokens ∧
      p.entries.filterMap Entry.leaf? = (tokens.filter (·.kind.isLeaf)).map Token.origin ∧
      (p.entries.map Entry.origin).Sublist ((Token.significant tokens).map Token.origin) := by
  obtain ⟨tokens, htokens, hparse⟩ := ofSource_eq_ok_iff.mp h
  have hkept := (parse_iff.mp hparse).kept (Token.apart_significant htokens)
  refine ⟨tokens, htokens, ?_, hkept.sublist⟩
  rw [hkept.leaves, Token.significant, List.filter_filter]
  congr 2
  funext t
  cases t.kind <;> rfl

namespace Program

/-- A source with two groups of the same type, operations, a string and a comment. -/
def groupedSource : String :=
  "program p; var a, b: integer; c: integer = -1; " ++
    "function f(var x: integer; y, z: integer): text; begin f := g(x * 2, 's') end; " ++
    "begin \x7bnote\x7d end."

/-- The texts of the entries of `groupedSource`. -/
def groupedTexts : List String :=
  ["p", "a", "b", "integer", "c", "integer", "-", "1", "f", "x", "integer", "y", "z", "integer",
    "text", "f", "g", "x", "*", "2", "'s'"]

/-- The type that a group shares comes once, and the next group has its own. -/
theorem groupedSource_entries :
    ∃ p, ofSource .standard groupedSource = .ok p ∧
      p.entries.map (·.origin.text) = groupedTexts ∧
      ∃ tokens, tokenize Limits.standard.maxTokens groupedSource = .ok tokens ∧
        p.entries.filterMap Entry.leaf? = (tokens.filter (·.kind.isLeaf)).map Token.origin ∧
        (p.entries.map Entry.origin).Sublist ((Token.significant tokens).map Token.origin) := by
  have hread : (ofSource .standard groupedSource).map (·.entries.map (·.origin.text)) =
      .ok groupedTexts := by
    decide +kernel
  cases h : ofSource .standard groupedSource with
  | error e =>
    rw [h] at hread
    cases hread
  | ok p =>
    rw [h] at hread
    exact ⟨p, rfl, Except.ok.inj hread, ofSource_entries h⟩

end Program
end PascalSyntax
