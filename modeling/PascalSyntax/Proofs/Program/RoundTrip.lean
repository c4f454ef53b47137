import PascalSyntax.Program.FrontEnd
import PascalSyntax.Proofs.Program.Reading
import PascalSyntax.Proofs.Tree.Rereading

/-!
# Writing a program and reading it again

A well-formed program that is written as a source is read from it again, the
same in all but its origins (`Program.ofSource_source`).  The lexer gives the
words back as tokens, these spell the program, and each spelling is read.
-/

namespace PascalSyntax

/-! ## Declarations -/

theorem VarDecl.WellFormed.group_of_words {d : VarDecl} (h : d.WellFormed) {levels : Nat}
    {ts : List Token} (hts : ts.map Token.lexeme = d.words) (hl : ts.length ≤ levels) :
    ∃ d', VarDecl.erase d' = d.erase ∧ VarDecl.Group levels [d'] ts := by
  unfold words at hts
  obtain ⟨name, rest, rfl, hname, hrest⟩ := List.map_eq_cons_iff.mp hts
  obtain ⟨colon, rest, rfl, hcolon, hrest⟩ := List.map_eq_cons_iff.mp hrest
  obtain ⟨typeName, rest, rfl, htype, hrest⟩ := List.map_eq_cons_iff.mp hrest
  obtain ⟨us, last, rfl, hus, hlast⟩ := List.map_eq_append_iff.mp hrest
  obtain ⟨semicolon, rfl, hsemicolon⟩ := List.map_eq_singleton_iff.mp hlast
  have hn := Identifier.admits_of_word hname
  have hc := Terminal.symbol_admits_iff.mpr hcolon
  have ht := Identifier.admits_of_word htype
  have hs := Terminal.symbol_admits_iff.mpr hsemicolon
  obtain ⟨x, y, init, origin⟩ := d
  cases init with
  | none =>
    obtain rfl : us = [] := List.map_eq_nil_iff.mp hus
    refine ⟨_, ?_, @Group.plain _ [_] _ _ _ _ (.single (.mk hn)) hc ht hs⟩
    simp only [erase, mapOrigin, Identifier.erase_of_word hname, Identifier.erase_of_word htype,
      Option.map_none]
  | some e =>
    obtain ⟨equals, vs, rfl, heq, hvs⟩ := List.map_eq_cons_iff.mp hus
    simp only [List.length_cons, List.length_append] at hl
    obtain ⟨e', he, hspells⟩ := (h.init e rfl).within hvs (show vs.length ≤ levels by omega)
    refine ⟨_, ?_, .initialized hn hc ht (Terminal.symbol_admits_iff.mpr heq) hspells hs⟩
    simp only [Expr.erase] at he
    simp only [erase, mapOrigin, Identifier.erase_of_word hname, Identifier.erase_of_word htype,
      Option.map_some, he]

theorem ConstDecl.WellFormed.of_words {d : ConstDecl} (h : d.WellFormed) {levels : Nat}
    {ts : List Token} (hts : ts.map Token.lexeme = d.words) (hl : ts.length ≤ levels) :
    ∃ d', ConstDecl.erase d' = d.erase ∧ ConstDecl.Spelling levels d' ts := by
  unfold words at hts
  obtain ⟨name, rest, rfl, hname, hrest⟩ := List.map_eq_cons_iff.mp hts
  obtain ⟨equals, us, semicolon, rfl, heq, hus, hsemicolon⟩ := Token.map_lexeme_enclosed hrest
  simp only [List.length_cons, List.length_append] at hl
  obtain ⟨e', he, hspells⟩ := h.value.within hus (show us.length ≤ levels by omega)
  refine ⟨_, ?_, .mk (Identifier.admits_of_word hname) (Terminal.symbol_admits_iff.mpr heq) hspells
    (Terminal.symbol_admits_iff.mpr hsemicolon)⟩
  simp only [Expr.erase] at he
  simp only [erase, mapOrigin, Identifier.erase_of_word hname, he]

/-- Tokens that write a section spell what its declarations are spelled by, after
the keyword. -/
theorem DeclSection.of_words {keyword : String} {words : α → List Word} {s : DeclSection α}
    {spells : β → List Token → Prop} {f : α → γ} {g : β → γ} {levels : Nat} {ts : List Token}
    (hne : s.decls ≠ [])
    (h : ∀ d ∈ s.decls, ∀ us, us.map Token.lexeme = words d → us.length ≤ levels →
      ∃ b, g b = f d ∧ spells b us)
    (hts : ts.map Token.lexeme = DeclSection.words keyword words (some s))
    (hl : ts.length ≤ levels) :
    ∃ t us bs, ts = t :: us ∧ (Terminal.word keyword).admits t ∧ bs ≠ [] ∧
      bs.map g = s.decls.map f ∧ Sequence spells bs us := by
  obtain ⟨t, us, rfl, ht, hus⟩ := List.map_eq_cons_iff.mp hts
  rw [List.length_cons] at hl
  have hdecl : ∀ d ∈ s.decls, ∀ vs, vs.map Token.lexeme = words d → vs.length ≤ us.length →
      ∃ b, g b = f d ∧ spells b vs :=
    fun d hd vs hvs hshort => h d hd vs hvs (by omega)
  obtain ⟨bs, hbs, hseq⟩ := (Sequence.of_words hus hdecl).replace fun _ _ hd => hd
  refine ⟨t, us, bs, rfl, Terminal.word_admits_iff.mpr ht, ?_, hbs, hseq⟩
  intro h
  subst h
  exact hne (List.map_eq_nil_iff.mp hbs.symm)

/-- Groups that are all of one item are no more than these items. -/
theorem map_flatten_of_singletons {groups : List (List α)} {bs : List β} {f : α → γ} {g : β → γ}
    (h : groups.map (List.map f) = bs.map fun b => [g b]) : groups.flatten.map f = bs.map g := by
  rw [List.map_flatten, h, ← List.flatMap_def, ← List.map_eq_flatMap]

theorem VarSection.of_words {part : Option (DeclSection VarDecl)}
    (h : ∀ s ∈ part, s.WellFormed VarDecl.WellFormed) {levels : Nat} {ts : List Token}
    (hts : ts.map Token.lexeme = DeclSection.words "var" VarDecl.words part)
    (hl : ts.length ≤ levels) :
    ∃ part', part'.map (·.decls.map VarDecl.erase) = part.map (·.decls.map VarDecl.erase) ∧
      VarSection.Spelling levels part' ts := by
  cases part with
  | none =>
    obtain rfl : ts = [] := List.map_eq_nil_iff.mp hts
    exact ⟨none, rfl, .absent⟩
  | some s =>
    have hs := h s rfl
    have hgroup : ∀ d ∈ s.decls, ∀ us, us.map Token.lexeme = d.words → us.length ≤ levels →
        ∃ group, group.map VarDecl.erase = [d.erase] ∧ VarDecl.Group levels group us := by
      intro d hd us hus hshort
      obtain ⟨d', he, hd'⟩ := (hs.decls d hd).group_of_words hus hshort
      exact ⟨[d'], congrArg ([·]) he, hd'⟩
    obtain ⟨keyword, us, groups, rfl, hk, hne, hgroups, hseq⟩ :=
      DeclSection.of_words hs.nonempty hgroup hts hl
    exact ⟨some ⟨groups.flatten, keyword.origin⟩,
      congrArg some (map_flatten_of_singletons hgroups), .present hk hne hseq⟩

theorem ConstSection.of_words {part : Option (DeclSection ConstDecl)}
    (h : ∀ s ∈ part, s.WellFormed ConstDecl.WellFormed) {levels : Nat} {ts : List Token}
    (hts : ts.map Token.lexeme = DeclSection.words "const" ConstDecl.words part)
    (hl : ts.length ≤ levels) :
    ∃ part', part'.map (·.decls.map ConstDecl.erase) = part.map (·.decls.map ConstDecl.erase) ∧
      ConstSection.Spelling levels part' ts := by
  cases part with
  | none =>
    obtain rfl : ts = [] := List.map_eq_nil_iff.mp hts
    exact ⟨none, rfl, .absent⟩
  | some s =>
    have hs := h s rfl
    obtain ⟨keyword, us, decls, rfl, hk, hne, hdecls, hseq⟩ :=
      DeclSection.of_words hs.nonempty
        (fun d hd us hus hshort => (hs.decls d hd).of_words hus hshort) hts hl
    exact ⟨some ⟨decls, keyword.origin⟩, congrArg some hdecls, .present hk hne hseq⟩

/-! ## Routines -/

theorem Parameter.group_of_words {p : Parameter} {ts : List Token}
    (hts : ts.map Token.lexeme = p.words) :
    ∃ p', Parameter.erase p' = p.erase ∧ Parameter.Group [p'] ts := by
  obtain ⟨x, y, byReference, origin⟩ := p
  cases byReference with
  | false =>
    obtain ⟨name, rest, rfl, hname, hrest⟩ := List.map_eq_cons_iff.mp hts
    obtain ⟨colon, rest, rfl, hcolon, hrest⟩ := List.map_eq_cons_iff.mp hrest
    obtain ⟨typeName, rfl, htype⟩ := List.map_eq_singleton_iff.mp hrest
    refine ⟨_, ?_, @Group.byValue [_] _ _ _ (.single (.mk (Identifier.admits_of_word hname)))
      (Terminal.symbol_admits_iff.mpr hcolon) (Identifier.admits_of_word htype)⟩
    simp only [erase, mapOrigin, Identifier.erase_of_word hname, Identifier.erase_of_word htype]
  | true =>
    obtain ⟨keyword, rest, rfl, hk, hrest⟩ := List.map_eq_cons_iff.mp hts
    obtain ⟨name, rest, rfl, hname, hrest⟩ := List.map_eq_cons_iff.mp hrest
    obtain ⟨colon, rest, rfl, hcolon, hrest⟩ := List.map_eq_cons_iff.mp hrest
    obtain ⟨typeName, rfl, htype⟩ := List.map_eq_singleton_iff.mp hrest
    refine ⟨_, ?_, @Group.byReference _ [_] _ _ _ (Terminal.word_admits_iff.mpr hk)
      (.single (.mk (Identifier.admits_of_word hname)))
      (Terminal.symbol_admits_iff.mpr hcolon) (Identifier.admits_of_word htype)⟩
    simp only [erase, mapOrigin, Identifier.erase_of_word hname, Identifier.erase_of_word htype]

namespace Routine

theorem formals_of_words {parameters : List Parameter} {ts : List Token}
    (hts : ts.map Token.lexeme = formalWords parameters) :
    ∃ parameters', parameters'.map Parameter.erase = parameters.map Parameter.erase ∧
      Formals parameters' ts := by
  by_cases hne : parameters = []
  · subst hne
    obtain rfl : ts = [] := List.map_eq_nil_iff.mp hts
    exact ⟨[], rfl, .absent⟩
  · rw [formalWords] at hts
    · obtain ⟨opening, us, closing, rfl, ho, hus, hc⟩ := Token.map_lexeme_enclosed hts
      have hgroup : ∀ p ∈ parameters, ∀ vs, vs.map Token.lexeme = p.words →
          vs.length ≤ us.length →
          ∃ group, group.map Parameter.erase = [p.erase] ∧ Parameter.Group group vs := by
        intro p _ vs hvs _
        obtain ⟨p', he, hp'⟩ := Parameter.group_of_words hvs
        exact ⟨[p'], congrArg ([·]) he, hp'⟩
      obtain ⟨groups, hgroups, hs⟩ := (Separated.of_words
        (fun t ht => Terminal.symbol_admits_iff.mpr ht) hne hus hgroup).replace fun _ _ hp => hp
      exact ⟨groups.flatten, map_flatten_of_singletons hgroups,
        .given (Terminal.symbol_admits_iff.mpr ho) hs (Terminal.symbol_admits_iff.mpr hc)⟩
    · exact hne

theorem Kind.of_words {k : Kind} {ts : List Token} (hts : ts.map Token.lexeme = k.words) :
    ∃ k', k'.mapOrigin (fun _ => .erased) = k.mapOrigin (fun _ => .erased) ∧
      Kind.Spelling k.isFunction k' ts := by
  cases k with
  | procedure =>
    obtain rfl : ts = [] := List.map_eq_nil_iff.mp hts
    exact ⟨.procedure, rfl, .procedure⟩
  | function returnType =>
    obtain ⟨colon, rest, rfl, hcolon, hrest⟩ := List.map_eq_cons_iff.mp hts
    obtain ⟨typeName, rfl, htype⟩ := List.map_eq_singleton_iff.mp hrest
    exact ⟨.function typeName.toIdentifier, congrArg Kind.function (Identifier.erase_of_word htype),
      .function (Terminal.symbol_admits_iff.mpr hcolon) (Identifier.admits_of_word htype)⟩

/-- The variables of a routine are those of its section. -/
theorem decls_localSection (r : Routine) :
    (r.localSection.map (·.decls)).getD [] = r.locals := by
  unfold localSection
  cases r.locals <;> rfl

theorem WellFormed.of_words {r : Routine} (h : r.WellFormed) {levels : Nat} {ts : List Token}
    (hts : ts.map Token.lexeme = r.words) (hl : ts.length ≤ levels) :
    ∃ r', Routine.erase r' = r.erase ∧ Routine.Spelling levels r' ts := by
  unfold words at hts
  obtain ⟨keyword, rest, rfl, hk, hrest⟩ := List.map_eq_cons_iff.mp hts
  obtain ⟨name, rest, rfl, hname, hrest⟩ := List.map_eq_cons_iff.mp hrest
  obtain ⟨us, rest, rfl, hus, hrest⟩ := List.map_eq_append_iff.mp hrest
  obtain ⟨vs, rest, rfl, hvs, hrest⟩ := List.map_eq_append_iff.mp hrest
  obtain ⟨semicolon, rest, rfl, hsemicolon, hrest⟩ := List.map_eq_cons_iff.mp hrest
  obtain ⟨ws, rest, rfl, hws, hrest⟩ := List.map_eq_append_iff.mp hrest
  obtain ⟨xs, last, rfl, hxs, hlast⟩ := List.map_eq_append_iff.mp hrest
  obtain ⟨point, rfl, hpoint⟩ := List.map_eq_singleton_iff.mp hlast
  simp only [List.length_cons, List.length_append] at hl
  obtain ⟨parameters, hpe, hp⟩ := formals_of_words hus
  obtain ⟨kind, hke, hkind⟩ := Kind.of_words hvs
  obtain ⟨locals, hle, hlocals⟩ :=
    VarSection.of_words h.localSection hws (show ws.length ≤ levels by omega)
  obtain ⟨body, hbe, hbody⟩ :=
    Block.of_words (fun s hs => (h.body s hs).legible) hxs (show xs.length ≤ levels + 1 by omega)
  refine ⟨_, ?_, .mk (Terminal.word_admits_iff.mpr hk) (Identifier.admits_of_word hname) hp hkind
    (Terminal.symbol_admits_iff.mpr hsemicolon) hlocals hbody
    (Terminal.symbol_admits_iff.mpr hpoint)⟩
  exact erase_congr hke (Identifier.erase_of_word hname) hpe
    (by rw [DeclSection.map_getD, hle, ← DeclSection.map_getD, decls_localSection]) hbe

end Routine

/-! ## Programs -/

namespace Program

/-- Tokens that write a well-formed program spell it, apart from its origins. -/
theorem WellFormed.of_words {p : Program} (h : p.WellFormed) {levels : Nat} {ts : List Token}
    (hts : ts.map Token.lexeme = p.words) (hl : ts.length ≤ levels) :
    ∃ q, Program.erase q = p.erase ∧ Program.Spelling levels q ts := by
  unfold words at hts
  obtain ⟨keyword, rest, rfl, hk, hrest⟩ := List.map_eq_cons_iff.mp hts
  obtain ⟨name, rest, rfl, hname, hrest⟩ := List.map_eq_cons_iff.mp hrest
  obtain ⟨semicolon, rest, rfl, hsemicolon, hrest⟩ := List.map_eq_cons_iff.mp hrest
  obtain ⟨us, rest, rfl, hus, hrest⟩ := List.map_eq_append_iff.mp hrest
  obtain ⟨vs, rest, rfl, hvs, hrest⟩ := List.map_eq_append_iff.mp hrest
  obtain ⟨ws, rest, rfl, hws, hrest⟩ := List.map_eq_append_iff.mp hrest
  obtain ⟨xs, last, rfl, hxs, hlast⟩ := List.map_eq_append_iff.mp hrest
  obtain ⟨point, rfl, hpoint⟩ := List.map_eq_singleton_iff.mp hlast
  simp only [List.length_cons, List.length_append] at hl
  obtain ⟨vars, hve, hvars⟩ := VarSection.of_words h.vars hus (show us.length ≤ levels by omega)
  obtain ⟨consts, hce, hconsts⟩ :=
    ConstSection.of_words h.consts hvs (show vs.length ≤ levels by omega)
  have hroutine : ∀ r ∈ p.routines, ∀ ys, ys.map Token.lexeme = r.words → ys.length ≤ ws.length →
      ∃ r', Routine.erase r' = r.erase ∧ Routine.Spelling levels r' ys :=
    fun r hr ys hys hshort => (h.routines r hr).of_words hys (by omega)
  obtain ⟨routines, hre, hroutines⟩ := (Sequence.of_words hws hroutine).replace fun _ _ hr => hr
  obtain ⟨body, hbe, hbody⟩ :=
    Block.of_words (fun s hs => (h.body s hs).legible) hxs (show xs.length ≤ levels + 1 by omega)
  refine ⟨_, ?_, .mk (Terminal.word_admits_iff.mpr hk) (Identifier.admits_of_word hname)
    (Terminal.symbol_admits_iff.mpr hsemicolon) hvars hconsts hroutines hbody
    (Terminal.symbol_admits_iff.mpr hpoint)⟩
  exact erase_congr (Identifier.erase_of_word hname) hve hce hre hbe

/-- A well-formed program that is written as a source is read from it again, the
same in all but its origins.  The limits are large enough if they are not less
than the number of words. -/
theorem ofSource_source {p : Program} (h : p.WellFormed) {limits : Limits}
    (tokens : p.words.length ≤ limits.maxTokens) (depth : p.words.length ≤ limits.maxDepth) :
    ∃ q, ofSource limits p.source = .ok q ∧ q.erase = p.erase := by
  obtain ⟨ts, hts, hlexemes, hsignificant⟩ := tokenize_source h.proper tokens
  have hlength : ts.length ≤ limits.maxDepth := by
    rw [← List.length_map Token.lexeme, hlexemes]
    exact depth
  obtain ⟨q, he, hs⟩ := h.of_words hlexemes hlength
  refine ⟨q, ?_, he⟩
  have hparse : parse limits.maxDepth ts = .ok q := by
    rw [parse_iff, hsignificant]
    exact hs
  unfold ofSource source
  rw [hts]
  simp only [hparse]
  rfl

/-- A program with an operation inside an operation, a parameter by reference, an
`else if` and a loop that counts down. -/
def sample : Program where
  name := ⟨"p", .erased⟩
  vars := some ⟨[⟨⟨"n", .erased⟩, ⟨"integer", .erased⟩, some (.integer ⟨0, .erased⟩), .erased⟩],
    .erased⟩
  consts := some ⟨[⟨⟨"c", .erased⟩, .string ⟨"; .", .erased⟩, .erased⟩], .erased⟩
  routines := [
    { kind := .function ⟨"integer", .erased⟩
      name := ⟨"f", .erased⟩
      parameters := [⟨⟨"x", .erased⟩, ⟨"integer", .erased⟩, true, .erased⟩,
        ⟨⟨"y", .erased⟩, ⟨"integer", .erased⟩, false, .erased⟩]
      locals := []
      body := ⟨[.assignment ⟨"f", .erased⟩
        (.binary .quotient (.unary .negate (.identifier ⟨"x", .erased⟩) .erased)
          (.identifier ⟨"y", .erased⟩) .erased) .erased], .erased⟩
      origin := .erased }]
  body := ⟨[
    .conditional [⟨.identifier ⟨"n", .erased⟩, ⟨[], .erased⟩, .erased⟩,
      ⟨.identifier ⟨"c", .erased⟩, ⟨[], .erased⟩, .erased⟩] (some ⟨[], .erased⟩) .erased,
    .forLoop ⟨"n", .erased⟩ (.integer ⟨2 ^ 63 - 1, .erased⟩) (.integer ⟨1, .erased⟩) .downward
      ⟨[.call ⟨⟨"f", .erased⟩,
        [.ofValue (.identifier ⟨"n", .erased⟩), .ofValue (.integer ⟨2, .erased⟩)], .erased⟩],
        .erased⟩ .erased], .erased⟩
  origin := .erased

theorem sample_wellFormed : sample.WellFormed where
  name := by decide
  vars := by
    intro s h
    cases h
    refine ⟨by simp, List.forall_mem_singleton.mpr ⟨by decide, by decide, ?_⟩⟩
    intro e h
    cases h
    exact .integer (by decide) (by decide)
  consts := by
    intro s h
    cases h
    exact ⟨by simp, List.forall_mem_singleton.mpr ⟨by decide, .string (by simp)⟩⟩
  routines := by
    have hvalue : Expr.WellFormed (.binary .quotient
        (.unary .negate (.identifier ⟨"x", .erased⟩) .erased) (.identifier ⟨"y", .erased⟩)
        .erased) :=
      .binary (.unary (.identifier (by decide))) (.identifier (by decide))
    refine List.forall_mem_singleton.mpr ⟨?_, by decide, ?_, by simp, ?_⟩
    · exact (by decide : Identifier.WellFormed ⟨"integer", .erased⟩)
    · simp only [List.forall_mem_cons]
      exact ⟨⟨by decide, by decide⟩, ⟨by decide, by decide⟩, by simp⟩
    · exact List.forall_mem_singleton.mpr (.assignment (by decide) hvalue)
  body := by
    have hcall : Expr.WellFormed (.call ⟨⟨"f", .erased⟩,
        [.ofValue (.identifier ⟨"n", .erased⟩), .ofValue (.integer ⟨2, .erased⟩)], .erased⟩) := by
      refine .call (by decide) ?_ ?_
      · simp [Argument.Unbound, Argument.ofValue]
      · simp only [List.forall_mem_cons]
        exact ⟨.identifier (by decide), .integer (by decide) (by decide), by simp⟩
    simp only [Block.WellFormed, sample, List.forall_mem_cons]
    refine ⟨.conditional (by simp) ?_ (by simp) (by simp), ?_, by simp⟩
    · simp only [List.forall_mem_cons]
      exact ⟨.identifier (by decide), .identifier (by decide), by simp⟩
    · exact .forLoop (by decide) (.integer (by decide) (by decide))
        (.integer (by decide) (by decide)) (List.forall_mem_singleton.mpr (.call hcall))

theorem sample_reread :
    sample.source = "program p ; var n : integer = 0 ; const c = '; .' ; " ++
        "function f ( var x : integer ; y : integer ) : integer ; " ++
        "begin f := ( ( - x ) div y ) end ; begin if n then begin end " ++
        "else if c then begin end else begin end ; " ++
        "for n := 9223372036854775807 downto 1 do begin f ( n , 2 ) end end ." ∧
      ∃ q, ofSource ⟨90, 90⟩ sample.source = .ok q ∧ q.erase = sample.erase :=
  ⟨by decide +kernel, ofSource_source sample_wellFormed (by decide +kernel) (by decide +kernel)⟩

end Program
end PascalSyntax
