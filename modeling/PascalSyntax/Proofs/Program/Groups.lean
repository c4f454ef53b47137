import Mathlib.Logic.Relation
import PascalSyntax.Proofs.Program.Colons
import PascalSyntax.Proofs.Program.Reading

/-!
# Groups of declarations

Names that share a type may be declared together or one by one.  A list of tokens
that is a program stays one, and the same, if any of its groups are written out
name by name (`Program.parse_ungrouped`): each name gets a copy of the colon and
the type, and a parameter by reference its own `var`.

A group is found by its tokens alone.  Variables are declared outside of
parentheses, after the word `var` or a semicolon, and parameters inside, after the
opening parenthesis or a semicolon.
-/

namespace PascalSyntax

/-- Names that are declared together, with the tokens that they share. -/
structure NameGroup where
  keyword : Option Token
  names : List Token
  colon : Token
  typeName : Token
  keyword_admits : ∀ t ∈ keyword, (Terminal.word "var").admits t
  names_admit : ∀ t ∈ names, Terminal.identifier.admits t
  colon_admits : (Terminal.symbol ":").admits colon
  typeName_admits : Terminal.identifier.admits typeName

namespace NameGroup

/-- The declaration of one of the names on its own. -/
def single (g : NameGroup) (name : Token) : List Token :=
  g.keyword.toList ++ [name, g.colon, g.typeName]

/-- The tokens of a group: the names stand between commas. -/
def Written (g : NameGroup) (ts : List Token) : Prop :=
  ∃ us, Separated (.symbol ",") (fun name vs => vs = [name]) g.names us ∧
    ts = g.keyword.toList ++ (us ++ [g.colon, g.typeName])

/-- The tokens of the same declarations one by one, between semicolons. -/
def Expanded (g : NameGroup) (ts : List Token) : Prop :=
  Separated (.symbol ";") (fun name us => us = g.single name) g.names ts

/-- A group stands as one of variables without an initial value. -/
def AtVariables (g : NameGroup) (front back : List Token) : Prop :=
  g.keyword = none ∧ Token.BeforeVariables front ∧ Token.front? back = some (.symbol ";")

/-- The variable that a name of the group is. -/
def varDecl (g : NameGroup) (name : Token) : VarDecl :=
  ⟨name.toIdentifier, g.typeName.toIdentifier, none, name.origin⟩

/-- The parameter that a name of the group is.  With `var` it is by reference and
has the origin of that word. -/
def parameter (g : NameGroup) (name : Token) : Parameter :=
  ⟨name.toIdentifier, g.typeName.toIdentifier, g.keyword.isSome,
    (g.keyword.map Token.origin).getD name.origin⟩

end NameGroup

/-- The tokens end with the name of a function, or with its parameters. -/
def Token.EndsHeading (front : List Token) : Prop :=
  last? front = some (.symbol ")") ∨
    ∃ before name, front = before ++ [name] ∧ last? before = some (.word "function")

/-- One group of declarations is written out name by name. -/
inductive Ungroups : List Token → List Token → Prop
  | ofVariables {g : NameGroup} {front ts us back : List Token} : g.AtVariables front back →
      g.Written ts → g.Expanded us → Ungroups (front ++ (ts ++ back)) (front ++ (us ++ back))
  | ofParameters {g : NameGroup} {front ts us back : List Token} : Token.BeforeParameters front →
      g.Written ts → g.Expanded us → Ungroups (front ++ (ts ++ back)) (front ++ (us ++ back))

namespace NameGroup

variable {g : NameGroup} {levels : Nat}

theorem map_varDecl (g : NameGroup) :
    VarDecl.ofNames (g.names.map Token.toIdentifier) g.typeName.toIdentifier =
      g.names.map g.varDecl := by
  rw [VarDecl.ofNames, List.map_map]
  rfl

theorem map_parameter (g : NameGroup) :
    Parameter.ofNames g.keyword (g.names.map Token.toIdentifier) g.typeName.toIdentifier =
      g.names.map g.parameter := by
  rw [Parameter.ofNames, List.map_map]
  rfl

/-! ## What a group declares one by one -/

theorem varDecl_group (g : NameGroup) (hkeyword : g.keyword = none) {name : Token}
    (hname : name ∈ g.names) {semicolon : Token} (hsemi : (Terminal.symbol ";").admits semicolon) :
    VarDecl.Group levels [g.varDecl name] (g.single name ++ [semicolon]) := by
  have hnames : Separated (.symbol ",") Identifier.Spelling [name.toIdentifier] [name] :=
    .single (.mk (g.names_admit name hname))
  rw [single, hkeyword]
  exact .plain hnames g.colon_admits g.typeName_admits hsemi

theorem parameter_group (g : NameGroup) {name : Token} (hname : name ∈ g.names) :
    Parameter.Group [g.parameter name] (g.single name) := by
  have hnames : Separated (.symbol ",") Identifier.Spelling [name.toIdentifier] [name] :=
    .single (.mk (g.names_admit name hname))
  rw [single, parameter]
  rcases hkeyword : g.keyword with _ | keyword
  · exact .byValue hnames g.colon_admits g.typeName_admits
  · exact .byReference (g.keyword_admits keyword hkeyword) hnames g.colon_admits g.typeName_admits

theorem flatten_map_singleton (f : α → β) (as : List α) :
    (as.map fun a => [f a]).flatten = as.map f := by
  rw [← List.flatMap_def, ← List.map_eq_flatMap]

/-- Behind the last of them a semicolon follows. -/
theorem Expanded.variables {us : List Token} (h : g.Expanded us) (levels : Nat)
    (hkeyword : g.keyword = none) {semicolon : Token}
    (hsemi : (Terminal.symbol ";").admits semicolon) :
    ∃ groups, groups.flatten = g.names.map g.varDecl ∧
      Sequence (VarDecl.Group levels) groups (us ++ [semicolon]) := by
  refine ⟨g.names.map fun name => [g.varDecl name], flatten_map_singleton g.varDecl g.names, ?_⟩
  refine (h.terminated hsemi).map_items ?_
  rintro name hname _ ⟨vs, t, rfl, rfl, ht⟩
  exact g.varDecl_group hkeyword hname ht

theorem Expanded.parameters {us : List Token} (h : g.Expanded us) :
    ∃ groups, groups.flatten = g.names.map g.parameter ∧
      Separated (.symbol ";") Parameter.Group groups us := by
  refine ⟨g.names.map fun name => [g.parameter name],
    flatten_map_singleton g.parameter g.names, ?_⟩
  refine Separated.map_items h ?_
  rintro name hname _ rfl
  exact g.parameter_group hname

/-! ## Finding a group in a program -/

/-- Tokens that spell the names spell them as the names of the group. -/
theorem names_spelled {us : List Token}
    (h : Separated (.symbol ",") (fun name vs => vs = [name]) g.names us) :
    Separated (.symbol ",") Identifier.Spelling (g.names.map Token.toIdentifier) us := by
  refine h.map_items ?_
  rintro name hname _ rfl
  exact .mk (g.names_admit name hname)

end NameGroup

/-- A list of names is known by its tokens. -/
theorem Identifier.separated_eq {names : List Identifier} {ts : List Token}
    (h : Separated (.symbol ",") Identifier.Spelling names ts) :
    names = (ts.filter Terminal.identifier.admits).map Token.toIdentifier := by
  induction h with
  | single hx =>
    cases hx with
    | mk ht => rw [List.filter_cons_of_pos ht, List.filter_nil, List.map_singleton]
  | cons hx ht _ ih =>
    cases hx with
    | mk ht' =>
      rw [List.singleton_append, List.filter_cons_of_pos ht',
        List.filter_cons_of_neg (by simp [Terminal.not_admits ht (b := .identifier)]),
        List.map_cons, ← ih]

/-- The tokens of a list of names, without the commas. -/
theorem Identifier.exists_tokens {names : List Identifier} {ts : List Token}
    (h : Separated (.symbol ",") Identifier.Spelling names ts) :
    ∃ tokens, names = tokens.map Token.toIdentifier ∧
      (∀ t ∈ tokens, Terminal.identifier.admits t) ∧
      Separated (.symbol ",") (fun name vs => vs = [name]) tokens ts := by
  induction h with
  | single hx =>
    cases hx with
    | @mk t ht => exact ⟨[t], rfl, List.forall_mem_singleton.mpr ht, .single rfl⟩
  | cons hx hcomma _ ih =>
    cases hx with
    | @mk t ht =>
      obtain ⟨tokens, rfl, htokens, hs⟩ := ih
      exact ⟨t :: tokens, rfl, List.forall_mem_cons.mpr ⟨ht, htokens⟩, .cons rfl hcomma hs⟩

/-- Names go back as far as they can: before them something else stands. -/
theorem Token.last?_not_names {front ts : List Token} {a : Terminal}
    (hlast : last? (front ++ ts) = some a) (ha : a ∉ Identifier.alphabet)
    (hts : ∀ t ∈ ts, ∃ b ∈ Identifier.alphabet, b.admits t) : ts = [] := by
  rcases List.eq_nil_or_concat ts with rfl | ⟨us, t, rfl⟩
  · rfl
  · obtain ⟨b, hb, hadmits⟩ := hts t (by simp)
    rw [List.concat_eq_append, ← List.append_assoc, last?_concat hadmits] at hlast
    exact absurd (Option.some.inj hlast ▸ hb) ha

theorem Token.names_unique {front front' ts ts' : List Token} {a a' : Terminal}
    (hts : ∀ t ∈ ts, ∃ b ∈ Identifier.alphabet, b.admits t)
    (hts' : ∀ t ∈ ts', ∃ b ∈ Identifier.alphabet, b.admits t)
    (hfront : last? front = some a) (ha : a ∉ Identifier.alphabet)
    (hfront' : last? front' = some a') (ha' : a' ∉ Identifier.alphabet)
    (h : front ++ ts = front' ++ ts') : front = front' ∧ ts = ts' := by
  rcases List.append_eq_append_iff.mp h with ⟨mid, rfl, rfl⟩ | ⟨mid, rfl, rfl⟩
  · obtain rfl := last?_not_names hfront' ha' fun t ht => hts t (List.mem_append_left _ ht)
    exact ⟨(List.append_nil _).symm, List.nil_append _⟩
  · obtain rfl := last?_not_names hfront ha fun t ht => hts' t (List.mem_append_left _ ht)
    exact ⟨List.append_nil _, (List.nil_append _).symm⟩

/-- What may stand before the names of a group. -/
def NameGroup.openers : List Terminal :=
  [.word "var", .symbol "(", .symbol ";"]

theorem NameGroup.openers_disjoint : ∀ a ∈ openers, a ∉ Identifier.alphabet := by
  decide

theorem Token.balanced_keyword {keyword : Option Token}
    (hk : ∀ t ∈ keyword, (Terminal.word "var").admits t) : Balanced keyword.toList := by
  rcases keyword with _ | t
  · rfl
  · exact balanced_singleton (hk t rfl) (by decide) (by decide)

theorem Token.BeforeVariables.opener {front : List Token} (h : BeforeVariables front) :
    ∃ a ∈ NameGroup.openers, last? front = some a := by
  have hsub : ∀ a ∈ [.word "var", .symbol ";"], a ∈ NameGroup.openers := by decide
  obtain ⟨-, a, ha, hlast⟩ := h
  exact ⟨a, hsub a ha, hlast⟩

theorem Token.BeforeParameters.opener {front : List Token} (h : BeforeParameters front)
    {keyword : Option Token} (hk : ∀ t ∈ keyword, (Terminal.word "var").admits t) :
    ∃ a ∈ NameGroup.openers, last? (front ++ keyword.toList) = some a := by
  have hsub : ∀ a ∈ [.symbol "(", .symbol ";"], a ∈ NameGroup.openers := by decide
  obtain ⟨-, a, ha, hlast⟩ := h
  rcases keyword with _ | t
  · exact ⟨a, hsub a ha, (congrArg last? (List.append_nil front)).trans hlast⟩
  · exact ⟨_, by decide, last?_concat (hk t rfl) front⟩

/-- The word before a group of parameters is told from what stands before it. -/
theorem Token.BeforeParameters.unique {front front' : List Token} {keyword keyword' : Option Token}
    (h : BeforeParameters front) (h' : BeforeParameters front')
    (hk : ∀ t ∈ keyword, (Terminal.word "var").admits t)
    (hk' : ∀ t ∈ keyword', (Terminal.word "var").admits t)
    (he : front ++ keyword.toList = front' ++ keyword'.toList) :
    front = front' ∧ keyword = keyword' := by
  have hvar : ∀ {ts : List Token} {t : Token}, (Terminal.word "var").admits t →
      ¬ BeforeParameters (ts ++ [t]) := by
    rintro ts t ht ⟨-, a, ha, hlast⟩
    obtain rfl := Option.some.inj ((last?_concat ht ts).symm.trans hlast)
    revert ha
    decide
  rcases keyword with _ | t <;> rcases keyword' with _ | t'
  · exact ⟨by simpa using he, rfl⟩
  · rw [Option.toList_none, List.append_nil] at he
    exact absurd (he ▸ h) (hvar (hk' t' rfl))
  · rw [Option.toList_none, List.append_nil] at he
    exact absurd (he ▸ h') (hvar (hk t rfl))
  · obtain ⟨rfl, ht⟩ := List.append_inj' he rfl
    exact ⟨rfl, congrArg some (List.singleton_inj.mp ht)⟩

namespace ColonPlace

variable {levels : Nat} {spells : List Token → Prop} {decls : List VarDecl}
  {parameters : List Parameter} {front ts back : List Token}

/-- What stands before the names of a group is none of them. -/
theorem names (h : ColonPlace levels spells decls parameters front ts back) :
    (∀ t ∈ ts, ∃ b ∈ Identifier.alphabet, b.admits t) ∧
      ∃ a, Token.last? front = some a ∧ a ∉ Identifier.alphabet := by
  have hopener : (∃ a ∈ NameGroup.openers, Token.last? front = some a) →
      ∃ a, Token.last? front = some a ∧ a ∉ Identifier.alphabet :=
    fun ⟨a, ha, hlast⟩ => ⟨a, hlast, NameGroup.openers_disjoint a ha⟩
  cases h with
  | ofVariables hfront hs _ _ _ _ => exact ⟨Identifier.separated_admits hs, hopener hfront.opener⟩
  | ofInitialized hfront hn _ =>
    exact ⟨List.forall_mem_singleton.mpr ⟨_, by decide, hn⟩, hopener hfront.opener⟩
  | ofParameters hfront hk hs _ _ _ =>
    exact ⟨Identifier.separated_admits hs, hopener (hfront.opener hk)⟩
  | ofFunction hkind =>
    rcases hkind with ⟨hlast, rfl⟩ | ⟨hlast, name, hn, rfl⟩
    · exact ⟨List.forall_mem_nil _, _, hlast, by decide⟩
    · exact ⟨List.forall_mem_singleton.mpr ⟨_, by decide, hn⟩, _, hlast, by decide⟩

/-- Behind the name or the parameters of a function no group begins. -/
theorem not_function (hopener : ∃ a ∈ NameGroup.openers, Token.last? front = some a)
    (h : (Token.last? front = some (.symbol ")") ∧ ts = []) ∨
      (Token.last? front = some (.word "function") ∧
        ∃ name, Terminal.identifier.admits name ∧ ts = [name])) : False := by
  obtain ⟨a, ha, hlast⟩ := hopener
  rcases h with ⟨hlast', -⟩ | ⟨hlast', -⟩
  all_goals
    obtain rfl := Option.some.inj (hlast.symm.trans hlast')
    revert ha
    decide

end ColonPlace

namespace Program.Spelling

variable {levels : Nat} {p : Program} {g : NameGroup} {front ts back : List Token}

/-- The colon of a group that is found in a program has its place behind the names
of the group. -/
theorem atGroup (h : Program.Spelling levels p (front ++ (ts ++ back))) (hwritten : g.Written ts)
    (hopener : ∃ a ∈ NameGroup.openers, Token.last? (front ++ g.keyword.toList) = some a) :
    ∃ us, Separated (.symbol ",") Identifier.Spelling (g.names.map Token.toIdentifier) us ∧
      ColonPlace levels (Program.Spelling levels p) p.variables p.parameters
        (front ++ g.keyword.toList) us (g.typeName :: back) := by
  obtain ⟨us, hs, rfl⟩ := hwritten
  have hnames := NameGroup.names_spelled hs
  have htokens : front ++ (g.keyword.toList ++ (us ++ [g.colon, g.typeName]) ++ back) =
      (front ++ g.keyword.toList ++ us) ++ g.colon :: (g.typeName :: back) := by
    simp
  rw [htokens] at h
  obtain ⟨before, names, hsplit, hplace⟩ := h.atColon g.colon_admits
  obtain ⟨a, ha, hlast⟩ := hopener
  obtain ⟨hrun, a', hlast', ha'⟩ := hplace.names
  obtain ⟨hbefore, rfl⟩ := Token.names_unique (Identifier.separated_admits hnames) hrun hlast
    (NameGroup.openers_disjoint a ha) hlast' ha' hsplit
  exact ⟨us, hnames, hbefore ▸ hplace⟩

/-- A colon of a program is that of a group of variables or of parameters, unless it
stands in a variable with an initial value or in the heading of a function. -/
theorem group_of_colon {colon : Token} (h : Program.Spelling levels p (front ++ colon :: back))
    (hc : (Terminal.symbol ":").admits colon) :
    (∃ (g : NameGroup) (before ts after : List Token), g.Written ts ∧
      before ++ ts = front ++ [colon, g.typeName] ∧ back = g.typeName :: after ∧
      (g.AtVariables before after ∨ Token.BeforeParameters before)) ∨
    Token.front? back.tail = some (.symbol "=") ∨ Token.EndsHeading front := by
  obtain ⟨before, names, rfl, hplace⟩ := h.atColon hc
  cases hplace with
  | @ofVariables _ _ after _ typeName semicolon hbefore hs ht hsemi _ _ =>
    obtain ⟨tokens, -, htokens, hs⟩ := Identifier.exists_tokens hs
    refine .inl ⟨⟨none, tokens, colon, typeName, nofun, htokens, hc, ht⟩, before, _, _,
      ⟨_, hs, rfl⟩, ?_, rfl, .inl ⟨rfl, hbefore, Terminal.front?_of_admits hsemi after⟩⟩
    simp
  | @ofInitialized _ after _ _ _ _ _ hequals =>
    exact .inr (.inl (Terminal.front?_of_admits hequals after))
  | @ofParameters before _ after keyword _ typeName hbefore hk hs ht _ _ =>
    obtain ⟨tokens, -, htokens, hs⟩ := Identifier.exists_tokens hs
    refine .inl ⟨⟨keyword, tokens, colon, typeName, hk, htokens, hc, ht⟩, before, _, _,
      ⟨_, hs, rfl⟩, ?_, rfl, .inr hbefore⟩
    simp
  | ofFunction hkind =>
    rcases hkind with ⟨hlast, rfl⟩ | ⟨hlast, name, hn, rfl⟩
    · exact .inr (.inr (.inl (by rwa [List.append_nil])))
    · exact .inr (.inr (.inr ⟨before, name, rfl, hlast⟩))

/-- A group of variables declares what it declares one by one. -/
theorem ofVariables (h : Program.Spelling levels p (front ++ (ts ++ back)))
    (hwritten : g.Written ts) (hat : g.AtVariables front back) :
    g.names.map g.varDecl ⊆ p.variables ∧
      ∀ us, g.Expanded us → Program.Spelling levels p (front ++ (us ++ back)) := by
  obtain ⟨hkeyword, hbefore, hsemicolon⟩ := hat
  have hfront : front ++ g.keyword.toList = front := by
    rw [hkeyword, Option.toList_none, List.append_nil]
  obtain ⟨us, hs, hplace⟩ := h.atGroup hwritten (hfront.symm ▸ hbefore.opener)
  rw [hfront] at hplace
  generalize hback : g.typeName :: back = rest at hplace
  cases hplace with
  | @ofVariables _ _ after names typeName semicolon _ hs' _ hsemi hdecls hother =>
    obtain ⟨rfl, rfl⟩ := List.cons.inj hback
    obtain rfl := (Identifier.separated_eq hs').trans (Identifier.separated_eq hs).symm
    rw [g.map_varDecl] at hdecls hother
    refine ⟨hdecls, fun vs hvs => ?_⟩
    obtain ⟨groups, hgroups, hsequence⟩ := hvs.variables levels hkeyword hsemi
    simpa using hother groups _ hgroups hsequence
  | ofInitialized _ _ he =>
    obtain ⟨-, rfl⟩ := List.cons.inj hback
    exact absurd hsemicolon (Terminal.front?_ne he (by decide) _)
  | ofParameters hopened hk _ _ _ _ =>
    exact absurd ((Token.balanced_append_right (Token.balanced_keyword hk) _).mp hbefore.1)
      hopened.1
  | ofFunction hkind => exact (ColonPlace.not_function hbefore.opener hkind).elim

/-- A group of parameters declares what it declares one by one. -/
theorem ofParameters (h : Program.Spelling levels p (front ++ (ts ++ back)))
    (hwritten : g.Written ts) (hbefore : Token.BeforeParameters front) :
    g.names.map g.parameter ⊆ p.parameters ∧
      ∀ us, g.Expanded us → Program.Spelling levels p (front ++ (us ++ back)) := by
  have hopener := hbefore.opener g.keyword_admits
  obtain ⟨us, hs, hplace⟩ := h.atGroup hwritten hopener
  have hopened : ¬ Token.Balanced (front ++ g.keyword.toList) :=
    mt (Token.balanced_append_right (Token.balanced_keyword g.keyword_admits) _).mp hbefore.1
  generalize hfront : front ++ g.keyword.toList = before at hplace hopened hopener
  generalize hback : g.typeName :: back = rest at hplace
  cases hplace with
  | ofVariables hvariables _ _ _ _ _ => exact absurd hvariables.1 hopened
  | ofInitialized hvariables _ _ => exact absurd hvariables.1 hopened
  | @ofParameters _ _ after keyword names typeName hbefore' hk hs' _ hparameters hother =>
    obtain ⟨rfl, rfl⟩ := List.cons.inj hback
    obtain ⟨rfl, rfl⟩ := hbefore.unique hbefore' g.keyword_admits hk hfront
    obtain rfl := (Identifier.separated_eq hs').trans (Identifier.separated_eq hs).symm
    rw [g.map_parameter] at hparameters hother
    refine ⟨hparameters, fun vs hvs => ?_⟩
    obtain ⟨groups, hgroups, hseparated⟩ := hvs.parameters
    exact hother groups vs hgroups hseparated
  | ofFunction hkind => exact (ColonPlace.not_function hopener hkind).elim

/-- Writing out a group keeps the program. -/
theorem ungroups {tokens tokens' : List Token} (h : Program.Spelling levels p tokens)
    (hstep : Ungroups tokens tokens') : Program.Spelling levels p tokens' := by
  cases hstep with
  | ofVariables hat hwritten hexpanded => exact (h.ofVariables hwritten hat).2 _ hexpanded
  | ofParameters hbefore hwritten hexpanded => exact (h.ofParameters hwritten hbefore).2 _ hexpanded

end Program.Spelling

namespace Program

/-- Groups of declarations stand for the declarations of their names one by one.
Where any of them are written out the tokens are read as the same program, with
all its origins, comments being nothing to it.  And each name of a group that is
found in the tokens is declared with the type of the group, as a variable or as a
parameter, by reference and with the origin of `var` if that word stands before
the group.  All groups are found: every colon is that of one, but for those before
an initial value or behind the heading of a function. -/
theorem parse_ungrouped {maxDepth : Nat} {tokens : List Token} {p : Program}
    (h : parse maxDepth tokens = .ok p) :
    (∀ tokens', Relation.ReflTransGen Ungroups (Token.significant tokens)
      (Token.significant tokens') → parse maxDepth tokens' = .ok p) ∧
    (∀ (g : NameGroup) (front ts back : List Token),
      Token.significant tokens = front ++ (ts ++ back) → g.Written ts →
        (g.AtVariables front back → ∀ name ∈ g.names,
          ⟨name.toIdentifier, g.typeName.toIdentifier, none, name.origin⟩ ∈ p.variables) ∧
        (Token.BeforeParameters front → ∀ name ∈ g.names,
          ⟨name.toIdentifier, g.typeName.toIdentifier, g.keyword.isSome,
            (g.keyword.map Token.origin).getD name.origin⟩ ∈ p.parameters)) ∧
    ∀ front colon back, Token.significant tokens = front ++ colon :: back →
      (Terminal.symbol ":").admits colon →
        (∃ (g : NameGroup) (before ts after : List Token), g.Written ts ∧
          before ++ ts = front ++ [colon, g.typeName] ∧ back = g.typeName :: after ∧
          (g.AtVariables before after ∨ Token.BeforeParameters before)) ∨
        Token.front? back.tail = some (.symbol "=") ∨ Token.EndsHeading front := by
  rw [parse_iff] at h
  refine ⟨?_, ?_, ?_⟩
  · intro tokens' hsteps
    rw [parse_iff]
    generalize Token.significant tokens' = us at hsteps
    induction hsteps with
    | refl => exact h
    | tail _ hstep ih => exact ih.ungroups hstep
  · intro g front ts back htokens hwritten
    rw [htokens] at h
    constructor
    · intro hat name hname
      exact (h.ofVariables hwritten hat).1 (List.mem_map_of_mem hname)
    · intro hbefore name hname
      exact (h.ofParameters hwritten hbefore).1 (List.mem_map_of_mem hname)
  · intro front colon back htokens hc
    rw [htokens] at h
    exact h.group_of_colon hc

/-- The tokens of `program p; var` on a line. -/
def heading : List Token :=
  [⟨.reservedWord, "program", ⟨1, 1⟩⟩, ⟨.identifier, "p", ⟨1, 9⟩⟩, ⟨.symbol, ";", ⟨1, 10⟩⟩,
    ⟨.reservedWord, "var", ⟨1, 12⟩⟩]

/-- Those of `; procedure q(` behind a group of variables. -/
def signature : List Token :=
  [⟨.symbol, ";", ⟨1, 24⟩⟩, ⟨.reservedWord, "procedure", ⟨1, 26⟩⟩, ⟨.identifier, "q", ⟨1, 36⟩⟩,
    ⟨.symbol, "(", ⟨1, 37⟩⟩]

/-- Those of `); begin end; begin end.` behind a group of parameters. -/
def bodies : List Token :=
  [⟨.symbol, ")", ⟨1, 51⟩⟩, ⟨.symbol, ";", ⟨1, 52⟩⟩, ⟨.reservedWord, "begin", ⟨1, 54⟩⟩,
    ⟨.reservedWord, "end", ⟨1, 60⟩⟩, ⟨.symbol, ";", ⟨1, 63⟩⟩, ⟨.reservedWord, "begin", ⟨1, 65⟩⟩,
    ⟨.reservedWord, "end", ⟨1, 71⟩⟩, ⟨.symbol, ".", ⟨1, 74⟩⟩]

/-- The group `a, b : t`. -/
def twoVariables : NameGroup where
  keyword := none
  names := [⟨.identifier, "a", ⟨1, 16⟩⟩, ⟨.identifier, "b", ⟨1, 19⟩⟩]
  colon := ⟨.symbol, ":", ⟨1, 21⟩⟩
  typeName := ⟨.identifier, "t", ⟨1, 23⟩⟩
  keyword_admits := nofun
  names_admit := by decide
  colon_admits := rfl
  typeName_admits := rfl

/-- The group `var x, y : u`. -/
def twoParameters : NameGroup where
  keyword := some ⟨.reservedWord, "var", ⟨1, 38⟩⟩
  names := [⟨.identifier, "x", ⟨1, 42⟩⟩, ⟨.identifier, "y", ⟨1, 45⟩⟩]
  colon := ⟨.symbol, ":", ⟨1, 47⟩⟩
  typeName := ⟨.identifier, "u", ⟨1, 49⟩⟩
  keyword_admits := by simp [Terminal.admits]
  names_admit := by decide
  colon_admits := rfl
  typeName_admits := rfl

/-- The tokens of a group of two names, given what stands between them. -/
def together (g : NameGroup) (between : List Token) : List Token :=
  g.keyword.toList ++ ((g.names.take 1 ++ (between ++ g.names.drop 1)) ++ [g.colon, g.typeName])

/-- The declarations of the names of a group, with semicolons that are all in one
place. -/
def apart (g : NameGroup) : List Token :=
  [⟨.symbol, ";", .start⟩].intercalate (g.names.map g.single)

/-- Both groups are written out, although there is a comment in the first, and
both names of each have its type. -/
theorem twoGroups_ungrouped :
    let comma : Token := ⟨.symbol, ",", ⟨1, 17⟩⟩
    let comment : Token := ⟨.comment, "{}", ⟨1, 17⟩⟩
    ∃ p, parse 64 (heading ++ (together twoVariables [comment, comma] ++
        (signature ++ (together twoParameters [comma] ++ bodies)))) = .ok p ∧
      parse 64 (heading ++ (apart twoVariables ++
        (signature ++ (apart twoParameters ++ bodies)))) = .ok p ∧
      ⟨⟨"b", ⟨⟨1, 19⟩, "b"⟩⟩, ⟨"t", ⟨⟨1, 23⟩, "t"⟩⟩, none, ⟨⟨1, 19⟩, "b"⟩⟩ ∈ p.variables ∧
      ⟨⟨"y", ⟨⟨1, 45⟩, "y"⟩⟩, ⟨"u", ⟨⟨1, 49⟩, "u"⟩⟩, true, ⟨⟨1, 38⟩, "var"⟩⟩ ∈ p.parameters := by
  intro comma comment
  have hread : (parse 64 (heading ++ (together twoVariables [comment, comma] ++
      (signature ++ (together twoParameters [comma] ++ bodies))))).isOk = true := by
    decide +kernel
  have hvariables : twoVariables.Written (together twoVariables [comma]) :=
    ⟨_, .cons rfl rfl (.single rfl), rfl⟩
  have hparameters : twoParameters.Written (together twoParameters [comma]) :=
    ⟨_, .cons rfl rfl (.single rfl), rfl⟩
  have hexpanded : twoVariables.Expanded (apart twoVariables) := .cons rfl rfl (.single rfl)
  have hexpanded' : twoParameters.Expanded (apart twoParameters) := .cons rfl rfl (.single rfl)
  have hat : twoVariables.AtVariables heading
      (signature ++ (together twoParameters [comma] ++ bodies)) :=
    ⟨rfl, ⟨rfl, .word "var", by decide, rfl⟩, rfl⟩
  have hbefore : Token.BeforeParameters (heading ++ (together twoVariables [comma] ++ signature)) :=
    ⟨by unfold Token.Balanced; decide, .symbol "(", by decide, rfl⟩
  have hbefore' : Token.BeforeParameters (heading ++ (apart twoVariables ++ signature)) :=
    ⟨by unfold Token.Balanced; decide, .symbol "(", by decide, rfl⟩
  cases h : parse 64 (heading ++ (together twoVariables [comment, comma] ++
      (signature ++ (together twoParameters [comma] ++ bodies)))) with
  | error e =>
    rw [h] at hread
    cases hread
  | ok p =>
    obtain ⟨hapart, hdeclared, -⟩ := parse_ungrouped h
    have hfirst := Ungroups.ofVariables hat hvariables hexpanded
    have hsecond : Ungroups
        (heading ++ (apart twoVariables ++ signature) ++ (together twoParameters [comma] ++ bodies))
        (heading ++ (apart twoVariables ++ signature) ++ (apart twoParameters ++ bodies)) :=
      .ofParameters hbefore' hparameters hexpanded'
    obtain ⟨hinSection, -⟩ := hdeclared twoVariables heading _
      (signature ++ (together twoParameters [comma] ++ bodies)) rfl hvariables
    obtain ⟨-, hinFormals⟩ := hdeclared twoParameters
      (heading ++ (together twoVariables [comma] ++ signature)) _ bodies rfl hparameters
    have hb := hinSection hat ⟨.identifier, "b", ⟨1, 19⟩⟩ (by decide)
    have hy := hinFormals hbefore ⟨.identifier, "y", ⟨1, 45⟩⟩ (by decide)
    exact ⟨p, rfl, hapart _ ((Relation.ReflTransGen.single hfirst).tail hsecond), hb, hy⟩

end Program
end PascalSyntax
