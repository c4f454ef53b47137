import PascalSyntax.Proofs.Program.Alphabet

/-!
# Where colons stand

A colon stands behind the names of a group of variables or of parameters, or
before the type that a function gives back, and nowhere else in a program
(`Program.Spelling.atColon`).  What stands before it tells which of these it is:
the names go back to the word or the symbol that opens the group, and around a
group of parameters a parenthesis is still open.

Each place comes with what may stand there instead: any groups that declare the
same, for the tokens around them then spell the same program.
-/

namespace PascalSyntax

namespace Token

/-- The terminal that some tokens end with. -/
def last? (tokens : List Token) : Option Terminal :=
  tokens.getLast?.bind terminal?

theorem last?_concat {a : Terminal} {t : Token} (ht : a.admits t) (ts : List Token) :
    last? (ts ++ [t]) = some a := by
  rw [last?, List.getLast?_concat]
  exact Terminal.admits_iff.mp ht

theorem last?_append {a : Terminal} {us : List Token} (h : last? us = some a) (ts : List Token) :
    last? (ts ++ us) = some a := by
  obtain ⟨t, ht, hterminal⟩ := Option.bind_eq_some_iff.mp h
  rw [last?, List.getLast?_append, ht]
  exact hterminal

/-- As many parentheses are opened as are closed. -/
def Balanced (tokens : List Token) : Prop :=
  tokens.countP (Terminal.symbol "(").admits = tokens.countP (Terminal.symbol ")").admits

theorem balanced_append_left {ts : List Token} (h : Balanced ts) (us : List Token) :
    Balanced (ts ++ us) ↔ Balanced us := by
  unfold Balanced at *
  rw [List.countP_append, List.countP_append]
  omega

theorem balanced_append_right {us : List Token} (h : Balanced us) (ts : List Token) :
    Balanced (ts ++ us) ↔ Balanced ts := by
  unfold Balanced at *
  rw [List.countP_append, List.countP_append]
  omega

theorem Balanced.append {ts us : List Token} (h : Balanced ts) (h' : Balanced us) :
    Balanced (ts ++ us) :=
  (balanced_append_left h us).mpr h'

theorem balanced_singleton {a : Terminal} {t : Token} (ht : a.admits t)
    (hopening : a ≠ .symbol "(") (hclosing : a ≠ .symbol ")") : Balanced [t] := by
  rw [Balanced, List.countP_singleton, List.countP_singleton, Terminal.not_admits ht hopening,
    Terminal.not_admits ht hclosing]

/-- After an opening parenthesis that is not closed yet. -/
theorem not_balanced_opening {t : Token} {ts : List Token} (ht : (Terminal.symbol "(").admits t)
    (h : Balanced ts) : ¬ Balanced (t :: ts) := by
  have hclosing := Terminal.not_admits ht (b := .symbol ")") (by decide)
  unfold Balanced at *
  rw [List.countP_cons_of_pos ht, List.countP_cons_of_neg (by simp [hclosing])]
  omega

theorem Bracketed.balanced {alphabet : List Terminal} {ts : List Token}
    (h : Bracketed alphabet ts) (hopening : .symbol "(" ∉ alphabet)
    (hclosing : .symbol ")" ∉ alphabet) : Balanced ts := by
  induction h with
  | nil => rfl
  | token ha ht =>
    exact balanced_singleton ht (fun he => hopening (he ▸ ha)) (fun he => hclosing (he ▸ ha))
  | @parenthesized opening closing ts ho _ hc ih =>
    have hclosing := Terminal.not_admits ho (b := .symbol ")") (by decide)
    have hopening := Terminal.not_admits hc (b := .symbol "(") (by decide)
    unfold Balanced at *
    simp [List.countP_append, ho, hc, hclosing, hopening, ih]
  | append _ _ ih ih' => exact ih.append ih'

end Token

/-! ## Cutting at a token -/

section Cut

variable {a : Terminal} {c : Token} {front back : List Token}

/-- A token of two lists is in the first or in the second. -/
theorem cut_append {xs ys : List Token} (h : xs ++ ys = front ++ c :: back) :
    (∃ mid, xs = front ++ c :: mid ∧ back = mid ++ ys) ∨
      ∃ mid, front = xs ++ mid ∧ ys = mid ++ c :: back := by
  rcases List.append_eq_append_iff.mp h with ⟨mid, hfront, hys⟩ | ⟨mid, hxs, hback⟩
  · exact .inr ⟨mid, hfront, hys⟩
  rcases List.append_eq_cons_iff.mp hback.symm with ⟨rfl, rfl⟩ | ⟨rest, rfl, hrest⟩
  · exact .inr ⟨[], by simpa using hxs.symm, rfl⟩
  · exact .inl ⟨rest, hxs, hrest⟩

/-- It is behind those that it is not among. -/
theorem cut_after {xs ys : List Token} (hc : a.admits c) (hxs : ∀ t ∈ xs, a.admits t = false)
    (h : xs ++ ys = front ++ c :: back) : ∃ mid, front = xs ++ mid ∧ ys = mid ++ c :: back := by
  obtain ⟨mid, rfl, -⟩ | h := cut_append h
  · have := hxs c (List.mem_append_right _ List.mem_cons_self)
    rw [hc] at this
    cases this
  · exact h

/-- It is before those that it is not among. -/
theorem cut_before {xs ys : List Token} (hc : a.admits c) (hys : ∀ t ∈ ys, a.admits t = false)
    (h : xs ++ ys = front ++ c :: back) : ∃ mid, xs = front ++ c :: mid ∧ back = mid ++ ys := by
  obtain h | ⟨mid, -, rfl⟩ := cut_append h
  · exact h
  · have := hys c (List.mem_append_right _ List.mem_cons_self)
    rw [hc] at this
    cases this

theorem cut_cons {t : Token} {ts : List Token} (hc : a.admits c) (ht : a.admits t = false)
    (h : t :: ts = front ++ c :: back) : ∃ mid, front = t :: mid ∧ ts = mid ++ c :: back :=
  cut_after hc (List.forall_mem_singleton.mpr ht) (show [t] ++ ts = _ from h)

/-- Between tokens that it is not among, it is the one in the middle. -/
theorem cut_middle {t : Token} {xs ys : List Token} (hc : a.admits c)
    (hxs : ∀ t ∈ xs, a.admits t = false) (hys : ∀ t ∈ ys, a.admits t = false)
    (h : xs ++ t :: ys = front ++ c :: back) : front = xs ∧ c = t ∧ back = ys := by
  obtain ⟨mid, rfl, hrest⟩ := cut_after hc hxs h
  obtain ⟨rest, hsingle, rfl⟩ := cut_before hc hys (show [t] ++ ys = _ from hrest)
  rcases List.append_eq_singleton_iff.mp hsingle.symm with ⟨rfl, he⟩ | ⟨-, he⟩
  · obtain ⟨rfl, rfl⟩ := List.cons.inj he
    exact ⟨List.append_nil _, rfl, rfl⟩
  · cases he

theorem Sequence.cut {spells : α → List Token → Prop} {as : List α} {ts : List Token}
    (h : Sequence spells as ts) : ts = front ++ c :: back →
      ∃ as₁ x as₂ before inside inside' after, as = as₁ ++ x :: as₂ ∧ front = before ++ inside ∧
        back = inside' ++ after ∧ Sequence spells as₁ before ∧
        spells x (inside ++ c :: inside') ∧ Sequence spells as₂ after := by
  induction h generalizing front with
  | nil =>
    intro h
    cases front <;> cases h
  | @cons x as ts us hx hs ih =>
    intro h
    obtain ⟨mid, rfl, rfl⟩ | ⟨mid, rfl, hrest⟩ := cut_append h
    · exact ⟨[], x, as, [], front, mid, us, rfl, rfl, rfl, .nil, hx, hs⟩
    · obtain ⟨as₁, y, as₂, before, inside, inside', after, rfl, rfl, rfl, hbefore, hy, hafter⟩ :=
        ih hrest
      exact ⟨x :: as₁, y, as₂, ts ++ before, inside, inside', after, rfl,
        (List.append_assoc _ _ _).symm, rfl, .cons hx hbefore, hy, hafter⟩

theorem Separated.cut {separator : Terminal} {spells : α → List Token → Prop} {as : List α}
    {ts : List Token} (hne : separator ≠ a) (hc : a.admits c)
    (h : Separated separator spells as ts) : ts = front ++ c :: back →
      ∃ as₁ x as₂ before inside inside' after, as = as₁ ++ x :: as₂ ∧ front = before ++ inside ∧
        back = inside' ++ after ∧ Sequence (Terminated separator spells) as₁ before ∧
        spells x (inside ++ c :: inside') ∧
        ∀ bs us, Separated separator spells bs us →
          Separated separator spells (bs ++ as₂) (us ++ after) := by
  induction h generalizing front with
  | @single x ts hx =>
    rintro rfl
    refine ⟨[], x, [], [], front, back, [], rfl, rfl, (List.append_nil _).symm, .nil, hx, ?_⟩
    intro bs us hs
    rwa [List.append_nil, List.append_nil]
  | @cons x as t ts us hx ht hs ih =>
    intro h
    obtain ⟨mid, rfl, rfl⟩ | ⟨mid, rfl, hrest⟩ := cut_append h
    · exact ⟨[], x, as, [], front, mid, t :: us, rfl, rfl, rfl, .nil, hx,
        fun bs vs hbs => hbs.append ht hs⟩
    · obtain ⟨mid, rfl, hothers⟩ := cut_cons hc (Terminal.not_admits ht hne) hrest
      obtain ⟨as₁, y, as₂, before, inside, inside', after, rfl, rfl, rfl, hbefore, hy, hafter⟩ :=
        ih hothers
      refine ⟨x :: as₁, y, as₂, ts ++ [t] ++ before, inside, inside', after, rfl, ?_, rfl,
        .cons ⟨ts, t, rfl, hx, ht⟩ hbefore, hy, hafter⟩
      simp

end Cut

/-! ## The place of a colon -/

/-- What a list of names is written with. -/
def Identifier.alphabet : List Terminal :=
  [.identifier, .symbol ","]

/-- The variables of a group. -/
def VarDecl.ofNames (names : List Identifier) (typeName : Identifier) : List VarDecl :=
  names.map fun name => ⟨name, typeName, none, name.origin⟩

/-- The parameters of a group, by reference if a word stands before them. -/
def Parameter.ofNames (keyword : Option Token) (names : List Identifier)
    (typeName : Identifier) : List Parameter :=
  names.map fun name =>
    ⟨name, typeName, keyword.isSome, (keyword.map Token.origin).getD name.origin⟩

/-- Before a group of variables: outside parentheses, behind the word that opens
the section or the end of another declaration. -/
def Token.BeforeVariables (front : List Token) : Prop :=
  Balanced front ∧ ∃ a ∈ [.word "var", .symbol ";"], last? front = some a

/-- Before a group of parameters: inside parentheses, behind the one that opens
them or the end of another group. -/
def Token.BeforeParameters (front : List Token) : Prop :=
  ¬ Balanced front ∧ ∃ a ∈ [.symbol "(", .symbol ";"], last? front = some a

theorem Token.BeforeVariables.append {before front : List Token} (h : BeforeVariables front)
    (hbefore : Balanced before) : BeforeVariables (before ++ front) := by
  obtain ⟨hbalanced, a, ha, hlast⟩ := h
  exact ⟨(balanced_append_left hbefore _).mpr hbalanced, a, ha, last?_append hlast _⟩

theorem Token.BeforeParameters.append {before front : List Token} (h : BeforeParameters front)
    (hbefore : Balanced before) : BeforeParameters (before ++ front) := by
  obtain ⟨hopened, a, ha, hlast⟩ := h
  exact ⟨mt (balanced_append_left hbefore _).mp hopened, a, ha, last?_append hlast _⟩

/-- What a colon belongs to, by the tokens before the names that it follows, the
names and the tokens after it.  A group of variables or of parameters may be
replaced by others that declare the same: what `spells` says of the tokens then
holds as before. -/
inductive ColonPlace (levels : Nat) (spells : List Token → Prop) (decls : List VarDecl)
    (parameters : List Parameter) : List Token → List Token → List Token → Prop
  | ofVariables {front ts back : List Token} {names : List Identifier}
      {typeName semicolon : Token} :
      Token.BeforeVariables front → Separated (.symbol ",") Identifier.Spelling names ts →
      Terminal.identifier.admits typeName → (Terminal.symbol ";").admits semicolon →
      VarDecl.ofNames names typeName.toIdentifier ⊆ decls →
      (∀ groups us, groups.flatten = VarDecl.ofNames names typeName.toIdentifier →
        Sequence (VarDecl.Group levels) groups us → spells (front ++ (us ++ back))) →
      ColonPlace levels spells decls parameters front ts (typeName :: semicolon :: back)
  | ofInitialized {front back : List Token} {name typeName equals : Token} :
      Token.BeforeVariables front → Terminal.identifier.admits name →
      (Terminal.symbol "=").admits equals →
      ColonPlace levels spells decls parameters front [name] (typeName :: equals :: back)
  | ofParameters {front ts back : List Token} {keyword : Option Token} {names : List Identifier}
      {typeName : Token} :
      Token.BeforeParameters front → (∀ t ∈ keyword, (Terminal.word "var").admits t) →
      Separated (.symbol ",") Identifier.Spelling names ts → Terminal.identifier.admits typeName →
      Parameter.ofNames keyword names typeName.toIdentifier ⊆ parameters →
      (∀ groups us, groups.flatten = Parameter.ofNames keyword names typeName.toIdentifier →
        Separated (.symbol ";") Parameter.Group groups us → spells (front ++ (us ++ back))) →
      ColonPlace levels spells decls parameters (front ++ keyword.toList) ts
        (typeName :: back)
  | ofFunction {front ts back : List Token} :
      (Token.last? front = some (.symbol ")") ∧ ts = []) ∨
        (Token.last? front = some (.word "function") ∧
          ∃ name, Terminal.identifier.admits name ∧ ts = [name]) →
      ColonPlace levels spells decls parameters front ts back

/-- A place in a part is one in the whole. -/
theorem ColonPlace.within {levels : Nat} {spells spells' : List Token → Prop}
    {decls decls' : List VarDecl} {parameters parameters' : List Parameter}
    {front ts back before after : List Token}
    (h : ColonPlace levels spells decls parameters front ts back)
    (hbefore : Token.Balanced before)
    (hspells : ∀ us, spells us → spells' (before ++ (us ++ after)))
    (hvariables : decls ⊆ decls') (hparameters : parameters ⊆ parameters') :
    ColonPlace levels spells' decls' parameters' (before ++ front) ts (back ++ after) := by
  cases h with
  | ofVariables hfront hs ht hsemi hdecls hother =>
    rw [List.cons_append, List.cons_append]
    refine .ofVariables (hfront.append hbefore) hs ht hsemi
      (List.Subset.trans hdecls hvariables) ?_
    intro groups us hgroups hus
    have := hspells _ (hother groups us hgroups hus)
    simpa only [List.append_assoc] using this
  | ofInitialized hfront hn he => exact .ofInitialized (hfront.append hbefore) hn he
  | ofParameters hfront hk hs ht hparams hother =>
    rw [← List.append_assoc, List.cons_append]
    refine .ofParameters (hfront.append hbefore) hk hs ht
      (List.Subset.trans hparams hparameters) ?_
    intro groups us hgroups hus
    have := hspells _ (hother groups us hgroups hus)
    simpa only [List.append_assoc] using this
  | ofFunction hkind =>
    refine .ofFunction ?_
    rcases hkind with ⟨hlast, hts⟩ | ⟨hlast, hts⟩
    · exact .inl ⟨Token.last?_append hlast _, hts⟩
    · exact .inr ⟨Token.last?_append hlast _, hts⟩

section Parts

variable {levels : Nat} {front back : List Token} {colon : Token}

theorem Identifier.separated_admits {names : List Identifier} {ts : List Token}
    (h : Separated (.symbol ",") Identifier.Spelling names ts) :
    ∀ t ∈ ts, ∃ a ∈ Identifier.alphabet, a.admits t := by
  induction h with
  | single hx =>
    cases hx with
    | mk ht => exact List.forall_mem_singleton.mpr ⟨_, by decide, ht⟩
  | cons hx ht _ ih =>
    cases hx with
    | mk ht' =>
      exact List.forall_mem_cons.mpr ⟨⟨_, by decide, ht'⟩,
        List.forall_mem_cons.mpr ⟨⟨_, by decide, ht⟩, ih⟩⟩

theorem Identifier.separated_noColon {names : List Identifier} {ts : List Token}
    (h : Separated (.symbol ",") Identifier.Spelling names ts) :
    ∀ t ∈ ts, (Terminal.symbol ":").admits t = false := by
  intro t ht
  obtain ⟨a, ha, hadmits⟩ := separated_admits h t ht
  have hcolon : .symbol ":" ∉ Identifier.alphabet := by decide
  exact Terminal.not_admits hadmits fun he => hcolon (he ▸ ha)

/-! ### Variables -/

theorem VarDecl.Group.last? {decls : List VarDecl} {ts : List Token}
    (h : VarDecl.Group levels decls ts) : Token.last? ts = some (.symbol ";") := by
  cases h with
  | @plain _ ts colon typeName _ _ _ _ hsemi =>
    exact Token.last?_append (Token.last?_concat hsemi [colon, typeName]) ts
  | @initialized name colon typeName equals _ _ ts _ _ _ _ _ hsemi =>
    exact Token.last?_append (Token.last?_concat hsemi ts) [name, colon, typeName, equals]

/-- Items that end with the same terminal, one after another. -/
theorem Sequence.last? {spells : α → List Token → Prop} {a : Terminal}
    (each : ∀ x us, spells x us → Token.last? us = some a) {as : List α} {ts : List Token}
    (h : Sequence spells as ts) : ts = [] ∨ Token.last? ts = some a := by
  induction h with
  | nil => exact .inl rfl
  | cons hx _ ih =>
    rcases ih with rfl | ih
    · exact .inr (by rw [List.append_nil]; exact each _ _ hx)
    · exact .inr (Token.last?_append ih _)

/-- Behind some groups of variables another one may stand. -/
theorem Token.beforeVariables {keyword : Token} {groups : List (List VarDecl)} {ts : List Token}
    (hk : (Terminal.word "var").admits keyword) (h : Sequence (VarDecl.Group levels) groups ts) :
    BeforeVariables (keyword :: ts) := by
  have hts : Bracketed VarDecl.alphabet ts := .sequence (fun _ _ hg => hg.bracketed) h
  have hbracketed : Bracketed VarDecl.alphabet (keyword :: ts) := .cons (by decide) hk hts
  refine ⟨hbracketed.balanced (by decide) (by decide), ?_⟩
  obtain rfl | hlast := h.last? fun _ _ hg => hg.last?
  · exact ⟨_, by decide, last?_concat hk []⟩
  · exact ⟨_, by decide, last?_append hlast [keyword]⟩

/-- The colon of a group of variables. -/
theorem VarDecl.Group.atColon {decls : List VarDecl} {inside inside' : List Token}
    (hc : (Terminal.symbol ":").admits colon)
    (h : VarDecl.Group levels decls (inside ++ colon :: inside')) :
    (∃ names typeName semicolon, inside' = [typeName, semicolon] ∧
      Separated (.symbol ",") Identifier.Spelling names inside ∧
      Terminal.identifier.admits typeName ∧ (Terminal.symbol ";").admits semicolon ∧
      decls = VarDecl.ofNames names typeName.toIdentifier) ∨
    ∃ name typeName equals rest, inside = [name] ∧ inside' = typeName :: equals :: rest ∧
      Terminal.identifier.admits name ∧ (Terminal.symbol "=").admits equals := by
  generalize hts : inside ++ colon :: inside' = ts at h
  cases h with
  | @plain names _ _ typeName semicolon hs _ ht hsemi =>
    have hback : ∀ t ∈ [typeName, semicolon], (Terminal.symbol ":").admits t = false :=
      List.forall_mem_cons.mpr ⟨Terminal.not_admits ht (by decide),
        List.forall_mem_singleton.mpr (Terminal.not_admits hsemi (by decide))⟩
    obtain ⟨rfl, -, rfl⟩ := cut_middle hc (Identifier.separated_noColon hs) hback hts.symm
    exact .inl ⟨names, typeName, semicolon, rfl, hs, ht, hsemi, rfl⟩
  | @initialized name colon' typeName equals semicolon _ us hn _ ht he hv hsemi =>
    have hvalue := hv.bracketed.not_admits (a := .symbol ":") (by decide)
    have hback : ∀ t ∈ typeName :: equals :: (us ++ [semicolon]),
        (Terminal.symbol ":").admits t = false :=
      List.forall_mem_cons.mpr ⟨Terminal.not_admits ht (by decide),
        List.forall_mem_cons.mpr ⟨Terminal.not_admits he (by decide),
          List.forall_mem_append.mpr ⟨hvalue,
            List.forall_mem_singleton.mpr (Terminal.not_admits hsemi (by decide))⟩⟩⟩
    have hfront : ∀ t ∈ [name], (Terminal.symbol ":").admits t = false :=
      List.forall_mem_singleton.mpr (Terminal.not_admits hn (by decide))
    obtain ⟨rfl, -, rfl⟩ := cut_middle hc hfront hback
      (show [name] ++ colon' :: (typeName :: equals :: (us ++ [semicolon])) = _ from hts.symm)
    exact .inr ⟨name, typeName, equals, us ++ [semicolon], rfl, rfl, hn, he⟩

theorem VarSection.Spelling.atColon {part : Option (DeclSection VarDecl)} {ts : List Token}
    (h : VarSection.Spelling levels part ts) (hc : (Terminal.symbol ":").admits colon)
    (hts : ts = front ++ colon :: back) :
    ∃ before names, front = before ++ names ∧
      ColonPlace levels (VarSection.Spelling levels part) ((part.map (·.decls)).getD []) []
        before names back := by
  cases h with
  | absent => cases front <;> cases hts
  | @present keyword groups ts hk _ hs =>
    obtain ⟨mid, rfl, rfl⟩ := cut_cons hc (Terminal.not_admits hk (by decide)) hts
    obtain ⟨gs₁, g, gs₂, before, inside, inside', after, rfl, rfl, rfl, hbefore, hg, hafter⟩ :=
      hs.cut rfl
    have hfront := Token.beforeVariables hk hbefore
    refine ⟨keyword :: before, inside, rfl, ?_⟩
    obtain ⟨names, typeName, semicolon, rfl, hns, ht, hsemi, rfl⟩ |
      ⟨name, typeName, equals, rest, rfl, rfl, hn, he⟩ := hg.atColon hc
    · refine .ofVariables hfront hns ht hsemi ?_ ?_
      · intro d hd
        exact List.mem_flatten.mpr ⟨_, List.mem_append_right _ List.mem_cons_self, hd⟩
      · intro groups us hgroups hus
        have hne : gs₁ ++ (groups ++ gs₂) ≠ [] := by
          rintro he
          obtain ⟨-, rfl, -⟩ : gs₁ = [] ∧ groups = [] ∧ gs₂ = [] := by simpa using he
          exact hns.ne_nil (List.map_eq_nil_iff.mp hgroups.symm)
        have hflatten : (gs₁ ++ VarDecl.ofNames names typeName.toIdentifier :: gs₂).flatten =
            (gs₁ ++ (groups ++ gs₂)).flatten := by
          simp [hgroups]
        rw [hflatten]
        exact .present hk hne (hbefore.append (hus.append hafter))
    · exact .ofInitialized hfront hn he

/-! ### Parameters -/

/-- The colon of a group of parameters. -/
theorem Parameter.Group.atColon {parameters : List Parameter} {inside inside' : List Token}
    (hc : (Terminal.symbol ":").admits colon)
    (h : Parameter.Group parameters (inside ++ colon :: inside')) :
    ∃ keyword names ts typeName, inside = Option.toList keyword ++ ts ∧ inside' = [typeName] ∧
      (∀ t ∈ keyword, (Terminal.word "var").admits t) ∧
      Separated (.symbol ",") Identifier.Spelling names ts ∧ Terminal.identifier.admits typeName ∧
      parameters = Parameter.ofNames keyword names typeName.toIdentifier := by
  generalize hts : inside ++ colon :: inside' = us at h
  cases h with
  | @byValue names _ _ typeName hs _ ht =>
    have hback : ∀ t ∈ [typeName], (Terminal.symbol ":").admits t = false :=
      List.forall_mem_singleton.mpr (Terminal.not_admits ht (by decide))
    obtain ⟨rfl, -, rfl⟩ := cut_middle hc (Identifier.separated_noColon hs) hback hts.symm
    exact ⟨none, names, inside, typeName, rfl, rfl, nofun, hs, ht, rfl⟩
  | @byReference keyword names ts _ typeName hk hs _ ht =>
    have hback : ∀ t ∈ [typeName], (Terminal.symbol ":").admits t = false :=
      List.forall_mem_singleton.mpr (Terminal.not_admits ht (by decide))
    have hfront : ∀ t ∈ keyword :: ts, (Terminal.symbol ":").admits t = false :=
      List.forall_mem_cons.mpr ⟨Terminal.not_admits hk (by decide),
        Identifier.separated_noColon hs⟩
    obtain ⟨rfl, -, rfl⟩ := cut_middle hc hfront hback hts.symm
    refine ⟨some keyword, names, ts, typeName, rfl, rfl, ?_, hs, ht, rfl⟩
    rintro _ ⟨⟩
    exact hk

/-- Behind some groups of parameters another one may stand. -/
theorem Token.beforeParameters {opening : Token} {groups : List (List Parameter)}
    {ts : List Token} (ho : (Terminal.symbol "(").admits opening)
    (h : Sequence (Terminated (.symbol ";") Parameter.Group) groups ts) :
    BeforeParameters (opening :: ts) := by
  have each : ∀ g us, Terminated (.symbol ";") Parameter.Group g us →
      Bracketed VarDecl.alphabet us ∧ last? us = some (.symbol ";") := by
    rintro g _ ⟨us, t, rfl, hg, ht⟩
    exact ⟨.append hg.bracketed (.token (by decide) ht), last?_concat ht us⟩
  have hts : Bracketed VarDecl.alphabet ts := .sequence (fun g us hg => (each g us hg).1) h
  refine ⟨not_balanced_opening ho (hts.balanced (by decide) (by decide)), ?_⟩
  obtain rfl | hlast := h.last? fun g us hg => (each g us hg).2
  · exact ⟨_, by decide, last?_concat ho []⟩
  · exact ⟨_, by decide, last?_append hlast [opening]⟩

theorem Routine.Formals.atColon {parameters : List Parameter} {ts : List Token}
    (h : Routine.Formals parameters ts) (levels : Nat) (hc : (Terminal.symbol ":").admits colon)
    (hts : ts = front ++ colon :: back) :
    ∃ before names, front = before ++ names ∧
      ColonPlace levels (Routine.Formals parameters) [] parameters before names back := by
  cases h with
  | absent => cases front <;> cases hts
  | empty ho hclose =>
    obtain ⟨mid, -, hrest⟩ := cut_cons hc (Terminal.not_admits ho (by decide)) hts
    obtain ⟨mid', -, hrest'⟩ := cut_cons hc (Terminal.not_admits hclose (by decide)) hrest
    cases mid' <;> cases hrest'
  | @given opening closing groups ts ho hs hclose =>
    obtain ⟨mid, rfl, hrest⟩ := cut_cons hc (Terminal.not_admits ho (by decide)) hts
    obtain ⟨mid', rfl, rfl⟩ := cut_before hc
      (List.forall_mem_singleton.mpr (Terminal.not_admits hclose (by decide))) hrest
    obtain ⟨gs₁, g, gs₂, before, inside, inside', after, rfl, rfl, rfl, hbefore, hg, hafter⟩ :=
      hs.cut (by decide) hc rfl
    obtain ⟨keyword, names, ts, typeName, rfl, rfl, hk, hns, ht, rfl⟩ := hg.atColon hc
    refine ⟨opening :: before ++ keyword.toList, ts, by simp, ?_⟩
    refine .ofParameters (Token.beforeParameters ho hbefore) hk hns ht ?_ ?_
    · intro d hd
      exact List.mem_flatten.mpr ⟨_, List.mem_append_right _ List.mem_cons_self, hd⟩
    · intro groups us hgroups hus
      have hflatten :
          (gs₁ ++ Parameter.ofNames keyword names typeName.toIdentifier :: gs₂).flatten =
            (gs₁ ++ (groups ++ gs₂)).flatten := by
        simp [hgroups]
      have hgiven := Routine.Formals.given ho (hbefore.separated_append (hafter _ _ hus)) hclose
      rw [hflatten]
      simpa using hgiven

/-! ### Routines and programs -/

theorem Routine.Formals.last? {parameters : List Parameter} {ts : List Token}
    (h : Routine.Formals parameters ts) : ts = [] ∨ Token.last? ts = some (.symbol ")") := by
  cases h with
  | absent => exact .inl rfl
  | @empty opening _ _ hclose => exact .inr (Token.last?_concat hclose [opening])
  | @given opening _ _ ts _ _ hclose => exact .inr (Token.last?_concat hclose (opening :: ts))

/-- The colon before the type that a function gives back. -/
theorem Routine.Kind.Spelling.atColon {isFunction : Bool} {kind : Routine.Kind} {ts : List Token}
    (h : Routine.Kind.Spelling isFunction kind ts) (hc : (Terminal.symbol ":").admits colon)
    (hts : ts = front ++ colon :: back) : isFunction = true ∧ front = [] := by
  cases h with
  | @function _ typeName _ ht =>
    have hback : ∀ t ∈ [typeName], (Terminal.symbol ":").admits t = false :=
      List.forall_mem_singleton.mpr (Terminal.not_admits ht (by decide))
    obtain ⟨rfl, -, -⟩ := cut_middle hc (List.forall_mem_nil _) hback
      ((List.nil_append _).trans hts)
    exact ⟨rfl, rfl⟩
  | procedure => cases front <;> cases hts

theorem Routine.Spelling.atColon {r : Routine} {ts : List Token}
    (h : Routine.Spelling levels r ts) (hc : (Terminal.symbol ":").admits colon)
    (hts : ts = front ++ colon :: back) :
    ∃ before names, front = before ++ names ∧
      ColonPlace levels (Routine.Spelling levels r) r.locals r.parameters before names back := by
  cases h with
  | @mk isFunction keyword name semicolon last parameters kind locals body ts us vs ws hk hn
      hformals hkind hsemi hlocals hbody hlast =>
    have hword : Routine.keyword isFunction ≠ .symbol ":" := by
      cases isFunction <;> decide
    have hheading : Token.Balanced [keyword, name] :=
      (Token.Bracketed.token (Routine.keyword_mem_alphabet isFunction) hk).balanced (by decide)
        (by decide) |>.append (Token.balanced_singleton hn (by decide) (by decide))
    obtain ⟨_, rfl, hname⟩ := cut_cons hc (Terminal.not_admits hk hword) hts
    obtain ⟨mid, rfl, hafterName⟩ := cut_cons hc (Terminal.not_admits hn (by decide)) hname
    obtain ⟨rest, hin, rfl⟩ | ⟨mid, rfl, hafterFormals⟩ := cut_append hafterName
    · -- among the parameters
      obtain ⟨before, names, rfl, hplace⟩ := hformals.atColon levels hc hin
      refine ⟨[keyword, name] ++ before, names, rfl, ?_⟩
      refine hplace.within hheading ?_ (List.nil_subset _) (List.Subset.refl _)
      intro us h
      exact .mk hk hn h hkind hsemi hlocals hbody hlast
    obtain ⟨rest, hin, rfl⟩ | ⟨mid, rfl, hafterKind⟩ := cut_append hafterFormals
    · -- before the type of a function
      obtain ⟨rfl, rfl⟩ := hkind.atColon hc hin
      obtain rfl | hclosed := hformals.last?
      · exact ⟨[keyword], [name], rfl, .ofFunction (.inr ⟨Token.last?_concat hk [], name, hn, rfl⟩)⟩
      · refine ⟨keyword :: name :: ts, [], by simp, .ofFunction (.inl ⟨?_, rfl⟩)⟩
        exact Token.last?_append hclosed [keyword, name]
    · -- among the variables
      obtain ⟨mid, rfl, hlocal⟩ := cut_cons hc (Terminal.not_admits hsemi (by decide)) hafterKind
      have hfree : ∀ t ∈ ws ++ [last], (Terminal.symbol ":").admits t = false :=
        List.forall_mem_append.mpr ⟨hbody.bracketed.not_admits (by decide),
          List.forall_mem_singleton.mpr (Terminal.not_admits hlast (by decide))⟩
      obtain ⟨rest, hin, rfl⟩ := cut_before hc hfree hlocal
      obtain ⟨before, names, rfl, hplace⟩ := hlocals.atColon hc hin
      have hsignature : Token.Balanced (ts ++ (us ++ [semicolon])) :=
        (hformals.bracketed.balanced (by decide) (by decide)).append
          ((hkind.bracketed.balanced (by decide) (by decide)).append
            (Token.balanced_singleton hsemi (by decide) (by decide)))
      refine ⟨[keyword, name] ++ (ts ++ (us ++ [semicolon])) ++ before, names, by simp, ?_⟩
      refine hplace.within (hheading.append hsignature) ?_ (List.Subset.refl _) (List.nil_subset _)
      intro vs h
      simpa using Routine.Spelling.mk hk hn hformals hkind hsemi h hbody hlast

end Parts

/-- All variables of a program, those of its routines included. -/
def Program.variables (p : Program) : List VarDecl :=
  (p.vars.map (·.decls)).getD [] ++ p.routines.flatMap (·.locals)

/-- The parameters of all routines of a program. -/
def Program.parameters (p : Program) : List Parameter :=
  p.routines.flatMap (·.parameters)

theorem Program.locals_subset {p : Program} {r : Routine} (hr : r ∈ p.routines) :
    r.locals ⊆ p.variables := by
  intro d hd
  exact List.mem_append_right _ (List.mem_flatMap.mpr ⟨r, hr, hd⟩)

theorem Program.parameters_subset {p : Program} {r : Routine} (hr : r ∈ p.routines) :
    r.parameters ⊆ p.parameters := by
  intro q hq
  exact List.mem_flatMap.mpr ⟨r, hr, hq⟩

/-- Every colon of a program has its place. -/
theorem Program.Spelling.atColon {levels : Nat} {front back : List Token} {colon : Token}
    {p : Program} (h : Program.Spelling levels p (front ++ colon :: back))
    (hc : (Terminal.symbol ":").admits colon) :
    ∃ before names, front = before ++ names ∧
      ColonPlace levels (Program.Spelling levels p) p.variables p.parameters before names back := by
  generalize hts : front ++ colon :: back = ts at h
  cases h with
  | @mk keyword name semicolon point vars consts routines body ts us vs ws hk hn hsemi hvars
      hconsts hroutines hbody hpoint =>
    have hheading : Token.Balanced [keyword, name, semicolon] :=
      (Token.balanced_singleton hk (by decide) (by decide)).append
        ((Token.balanced_singleton hn (by decide) (by decide)).append
          (Token.balanced_singleton hsemi (by decide) (by decide)))
    obtain ⟨_, rfl, hname⟩ := cut_cons hc (Terminal.not_admits hk (by decide)) hts.symm
    obtain ⟨_, rfl, hsemicolon⟩ := cut_cons hc (Terminal.not_admits hn (by decide)) hname
    obtain ⟨mid, rfl, hparts⟩ := cut_cons hc (Terminal.not_admits hsemi (by decide)) hsemicolon
    obtain ⟨rest, hin, rfl⟩ | ⟨mid, rfl, hafterVars⟩ := cut_append hparts
    · -- among the variables of the program
      obtain ⟨before, names, rfl, hplace⟩ := hvars.atColon hc hin
      refine ⟨[keyword, name, semicolon] ++ before, names, rfl, ?_⟩
      refine hplace.within hheading ?_ (List.subset_append_left _ _) (List.nil_subset _)
      intro us h
      exact .mk hk hn hsemi h hconsts hroutines hbody hpoint
    · -- in a routine
      obtain ⟨mid, rfl, hafterConsts⟩ :=
        cut_after hc (hconsts.bracketed.not_admits (by decide)) hafterVars
      have hfree : ∀ t ∈ ws ++ [point], (Terminal.symbol ":").admits t = false :=
        List.forall_mem_append.mpr ⟨hbody.bracketed.not_admits (by decide),
          List.forall_mem_singleton.mpr (Terminal.not_admits hpoint (by decide))⟩
      obtain ⟨rest, rfl, rfl⟩ := cut_before hc hfree hafterConsts
      obtain ⟨rs₁, r, rs₂, outside, inside, inside', after, rfl, rfl, rfl, hbefore, hr, hafter⟩ :=
        hroutines.cut rfl
      obtain ⟨before, names, rfl, hplace⟩ := hr.atColon hc rfl
      have hroutinesBefore : Token.Bracketed Routine.alphabet outside :=
        .sequence (fun _ _ hr => hr.bracketed) hbefore
      have houtside : Token.Balanced (ts ++ (us ++ outside)) :=
        (hvars.bracketed.balanced (by decide) (by decide)).append
          ((hconsts.bracketed.balanced (by decide) (by decide)).append
            (hroutinesBefore.balanced (by decide) (by decide)))
      have hmem : r ∈ rs₁ ++ r :: rs₂ := List.mem_append_right _ List.mem_cons_self
      -- the other routines stay as they are
      refine ⟨[keyword, name, semicolon] ++ (ts ++ (us ++ outside)) ++ before, names, by simp, ?_⟩
      rw [List.append_assoc inside']
      refine hplace.within (hheading.append houtside) ?_ (Program.locals_subset hmem)
        (Program.parameters_subset hmem)
      intro vs h
      have hrs := hbefore.append (.cons h hafter)
      simpa using Program.Spelling.mk hk hn hsemi hvars hconsts hrs hbody hpoint

end PascalSyntax
