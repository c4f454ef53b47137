import Mathlib.Data.List.Chain
import PascalSyntax.Proofs.Token.Reading
import PascalSyntax.Token.Lexer

/-!
# Layouts of a source

A layout takes a source apart into lexemes with blanks around them.  Blanks may
stand anywhere between two lexemes, and have to where the two would glue.  A
source has tokens just if it has a layout, and then they are the lexemes of that
layout (`tokenize_iff_layout`), so that no source has two layouts with different
lexemes.
-/

namespace PascalSyntax

/-- A lexeme without its place: its kind and its text. -/
abbrev Word := Token.Kind × String

/-- A lexeme and the blanks after it. -/
structure Piece where
  kind : Token.Kind
  text : List Char
  gap : List Char

/-- Blanks, and then pieces. -/
structure Layout where
  lead : List Char
  pieces : List Piece

namespace Piece

def source (p : Piece) : List Char :=
  p.text ++ p.gap

def lexeme (p : Piece) : Word :=
  (p.kind, String.ofList p.text)

/-- The piece is a lexeme of its kind, and nothing but blanks after it. -/
structure WellFormed (p : Piece) : Prop where
  isLexeme : IsLexeme p.kind p.text
  isBlank : ∀ c ∈ p.gap, Lexeme.isBlank c = true

instance (p : Piece) : Decidable p.WellFormed :=
  decidable_of_iff (IsLexeme p.kind p.text ∧ p.gap.all Lexeme.isBlank = true)
    ⟨fun h => ⟨h.1, List.all_eq_true.mp h.2⟩,
      fun h => ⟨h.isLexeme, List.all_eq_true.mpr h.isBlank⟩⟩

/-- The next piece may stand after this one. -/
def Apart (p q : Piece) : Prop :=
  Glues p.kind p.text q.text → p.gap ≠ []

instance : DecidableRel Apart :=
  fun p q => inferInstanceAs (Decidable (Glues p.kind p.text q.text → p.gap ≠ []))

end Piece

namespace Layout

def source (l : Layout) : List Char :=
  l.lead ++ l.pieces.flatMap Piece.source

def lexemes (l : Layout) : List Word :=
  l.pieces.map Piece.lexeme

/-- Blanks are blanks, lexemes are lexemes, and no two of them glue. -/
structure WellFormed (l : Layout) : Prop where
  isBlank : ∀ c ∈ l.lead, Lexeme.isBlank c = true
  wellFormed : ∀ p ∈ l.pieces, p.WellFormed
  apart : l.pieces.IsChain Piece.Apart

instance (l : Layout) : Decidable l.WellFormed :=
  decidable_of_iff (l.lead.all Lexeme.isBlank = true ∧ (∀ p ∈ l.pieces, p.WellFormed) ∧
      l.pieces.IsChain Piece.Apart)
    ⟨fun h => ⟨List.all_eq_true.mp h.1, h.2.1, h.2.2⟩,
      fun h => ⟨List.all_eq_true.mpr h.isBlank, h.wellFormed, h.apart⟩⟩

end Layout

def Token.lexeme (t : Token) : Word :=
  (t.kind, t.text)

/-! ## Blanks -/

namespace Lexeme

theorem mem_of_isBlank {c : Char} (h : isBlank c = true) :
    c ∈ [' ', '\t', '\n', '\x0c', '\r'] := by
  simpa [isBlank, or_assoc] using h

theorem not_isAlphanum_of_isBlank {c : Char} (h : isBlank c = true) : c.isAlphanum = false := by
  have hall : [' ', '\t', '\n', '\x0c', '\r'].all (!Char.isAlphanum ·) = true := by
    decide
  simpa using List.all_eq_true.mp hall c (mem_of_isBlank h)

theorem not_isBlank_of_mem_symbol {text : List Char} (h : String.ofList text ∈ Vocabulary.symbols) :
    ∀ c ∈ text, isBlank c = false := by
  have hall : ∀ s ∈ Vocabulary.symbols, s.toList.all (!isBlank ·) = true := by
    decide
  have htext := hall _ h
  rw [String.toList_ofList] at htext
  intro c hc
  simpa using List.all_eq_true.mp htext c hc

/-- A blank ends every lexeme. -/
theorem not_gluesTo_of_isBlank {kind : Token.Kind} {text : List Char} {c : Char}
    (h : isBlank c = true) : ¬ GluesTo kind text c := by
  have halnum := not_isAlphanum_of_isBlank h
  intro hglue
  cases kind with
  | reservedWord => exact absurd hglue (by simp [GluesTo, halnum])
  | identifier => exact absurd hglue (by simp [GluesTo, halnum])
  | number =>
    have hdigit : c.isDigit = true := hglue
    simp [Char.isAlphanum, hdigit] at halnum
  | symbol =>
    have := not_isBlank_of_mem_symbol hglue.2 c (by simp)
    rw [h] at this
    cases this
  | string => exact hglue
  | comment => exact hglue

end Lexeme

/-- A lexeme starts with a character that is no blank. -/
theorem IsLexeme.head {kind : Token.Kind} {text : List Char} (h : IsLexeme kind text) :
    ∃ c cs, text = c :: cs ∧ Lexeme.isBlank c = false := by
  have halnum {c : Char} (hc : c.isAlphanum = true) : Lexeme.isBlank c = false := by
    by_contra hblank
    rw [Bool.not_eq_false] at hblank
    rw [Lexeme.not_isAlphanum_of_isBlank hblank] at hc
    cases hc
  cases h with
  | comment => exact ⟨_, _, rfl, rfl⟩
  | reservedWord hc => exact ⟨_, _, rfl, halnum (by simp [Char.isAlphanum, hc])⟩
  | identifier hc => exact ⟨_, _, rfl, halnum (by simp [Char.isAlphanum, hc])⟩
  | number hc => exact ⟨_, _, rfl, halnum (by simp [Char.isAlphanum, hc])⟩
  | symbol hmem =>
    obtain ⟨c, cs, rfl, -⟩ := Lexeme.symbol_cases hmem
    exact ⟨c, cs, rfl, Lexeme.not_isBlank_of_mem_symbol hmem c List.mem_cons_self⟩
  | string => exact ⟨_, _, rfl, rfl⟩

/-- A lexeme has at least one character. -/
theorem Lexeme.length_lt_of_read {c : Char} {cs : List Char} {kind : Token.Kind}
    {text rest : List Char} (h : read c cs = .whole kind text rest) :
    rest.length < (c :: cs).length := by
  obtain ⟨hcs, hlexeme, -⟩ := read_sound h
  obtain ⟨d, ds, rfl, -⟩ := hlexeme.head
  rw [hcs, List.length_append, List.length_cons]
  omega

namespace Lexer

/-- Blanks before a text that starts with none are skipped. -/
theorem skipBlanks_rest {lead text : List Char} {position : Position}
    (hlead : ∀ c ∈ lead, Lexeme.isBlank c = true)
    (htext : ∀ c ∈ text.head?, Lexeme.isBlank c = false) :
    (skipBlanks ⟨lead ++ text, position⟩).rest = text :=
  (Lexeme.takeWhile_eq_of_append hlead htext).2

theorem rest_eq (l : Lexer) :
    l.rest = l.rest.takeWhile Lexeme.isBlank ++ l.skipBlanks.rest :=
  List.takeWhile_append_dropWhile.symm

theorem length_skipBlanks_le (l : Lexer) : l.skipBlanks.rest.length ≤ l.rest.length :=
  (List.dropWhile_suffix _).length_le

/-- The texts of some pieces do not glue to a piece that they may stand after. -/
theorem not_glues_of_isChain {p : Piece} {ps : List Piece} (hp : p.WellFormed)
    (hps : ∀ q ∈ ps, q.WellFormed) (h : (p :: ps).IsChain Piece.Apart) :
    ¬ Glues p.kind p.text (p.gap ++ ps.flatMap Piece.source) := by
  intro hglues
  rcases hglues with ⟨c, hc, hglue⟩
  -- a blank comes next if there is one, and else the lexeme of the next piece
  cases hgap : p.gap with
  | cons d ds =>
    rw [hgap, List.cons_append, List.head?_cons] at hc
    obtain rfl := Option.some.inj hc
    exact Lexeme.not_gluesTo_of_isBlank (hp.isBlank d (by simp [hgap])) hglue
  | nil =>
    cases ps with
    | nil => simp [hgap] at hc
    | cons q qs =>
      obtain ⟨d, ds, htext, -⟩ := (hps q List.mem_cons_self).isLexeme.head
      have happart : p.Apart q := (List.isChain_cons_cons.mp h).1
      refine happart ⟨c, ?_, hglue⟩ hgap
      simpa [hgap, Piece.source, htext] using hc

/-! ## One lexeme after another -/

theorem run_nil {limit budget : Nat} {l : Lexer} (h : l.skipBlanks.rest = []) :
    (run limit budget l).1 = .ok [] := by
  unfold run
  simp only [h]

theorem run_whole {limit budget : Nat} {l : Lexer} {c : Char} {cs : List Char}
    {kind : Token.Kind} {text rest : List Char} (h : l.skipBlanks.rest = c :: cs)
    (hread : Lexeme.read c cs = .whole kind text rest) :
    (run limit (budget + 1) l).1 =
      (run limit budget ⟨rest, l.skipBlanks.position.after text⟩).1.map
        (⟨kind, String.ofList text, l.skipBlanks.position⟩ :: ·) := by
  rw [run]
  simp only [h, hread]

/-- What is left after the blanks of a run with tokens: nothing, or a lexeme and
a run with one token less. -/
theorem run_eq_ok_cases {limit budget : Nat} {l : Lexer} {tokens : List Token}
    (h : (run limit budget l).1 = .ok tokens) :
    (l.skipBlanks.rest = [] ∧ tokens = []) ∨
      ∃ n c cs kind text rest others, budget = n + 1 ∧ l.skipBlanks.rest = c :: cs ∧
        Lexeme.read c cs = .whole kind text rest ∧
        (run limit n ⟨rest, l.skipBlanks.position.after text⟩).1 = .ok others ∧
        tokens = ⟨kind, String.ofList text, l.skipBlanks.position⟩ :: others := by
  cases hrest : l.skipBlanks.rest with
  | nil =>
    rw [run_nil hrest] at h
    cases h
    exact .inl ⟨rfl, rfl⟩
  | cons c cs =>
    cases budget with
    | zero =>
      unfold run at h
      simp [hrest] at h
    | succ n =>
      cases hread : Lexeme.read c cs with
      | whole kind text rest =>
        rw [run_whole hrest hread] at h
        cases hothers : (run limit n ⟨rest, l.skipBlanks.position.after text⟩).1 with
        | error e =>
          rw [hothers] at h
          cases h
        | ok others =>
          rw [hothers] at h
          cases h
          exact .inr ⟨n, c, cs, kind, text, rest, others, rfl, rfl, hread, hothers, rfl⟩
      | openComment =>
        rw [run] at h
        simp [hrest, hread] at h
      | openString text rest =>
        rw [run] at h
        simp [hrest, hread] at h
      | unknown d =>
        rw [run] at h
        simp [hrest, hread] at h

theorem run_of_layout {limit : Nat} {pieces : List Piece} (hpieces : ∀ p ∈ pieces, p.WellFormed)
    (hapart : pieces.IsChain Piece.Apart) :
    ∀ {budget : Nat} {lead : List Char} (position : Position),
      (∀ c ∈ lead, Lexeme.isBlank c = true) → pieces.length ≤ budget →
      ∃ tokens, (run limit budget ⟨lead ++ pieces.flatMap Piece.source, position⟩).1 = .ok tokens ∧
        tokens.map Token.lexeme = pieces.map Piece.lexeme := by
  -- the blanks after a piece stand before the next ones, so they change with each step
  induction pieces with
  | nil =>
    intro budget lead position hlead _
    exact ⟨[], run_nil (skipBlanks_rest hlead (by simp)), rfl⟩
  | cons p ps ih =>
    intro budget lead position hlead hl
    rw [List.length_cons] at hl
    obtain ⟨n, rfl⟩ : ∃ n, budget = n + 1 := ⟨budget - 1, by omega⟩
    have hp := hpieces p List.mem_cons_self
    have hps : ∀ q ∈ ps, q.WellFormed := fun q hq => hpieces q (List.mem_cons_of_mem _ hq)
    have hglue := not_glues_of_isChain hp hps hapart
    obtain ⟨c, cs, he, hread⟩ := Lexeme.read_complete hp.isLexeme hglue
    obtain ⟨d, ds, htext, hblank⟩ := hp.isLexeme.head
    have hsource : (p :: ps).flatMap Piece.source = c :: cs := by
      rw [List.flatMap_cons, Piece.source, List.append_assoc, he]
    have hrest :
        (skipBlanks ⟨lead ++ (p :: ps).flatMap Piece.source, position⟩).rest = c :: cs := by
      rw [hsource]
      refine skipBlanks_rest hlead ?_
      intro e h
      cases h
      rw [htext] at he
      cases he
      exact hblank
    generalize (⟨lead ++ (p :: ps).flatMap Piece.source, position⟩ : Lexer) = l at hrest ⊢
    obtain ⟨tokens, htokens, hlexemes⟩ := ih hps hapart.tail (l.skipBlanks.position.after p.text)
      hp.isBlank (show ps.length ≤ n by omega)
    refine ⟨⟨p.kind, String.ofList p.text, l.skipBlanks.position⟩ :: tokens, ?_, ?_⟩
    · rw [run_whole hrest hread, htokens]
      rfl
    · rw [List.map_cons, List.map_cons, hlexemes]
      rfl

theorem layout_of_run {limit budget : Nat} {l : Lexer} {tokens : List Token}
    (h : (run limit budget l).1 = .ok tokens) :
    ∃ layout : Layout, layout.WellFormed ∧ layout.lexemes = tokens.map Token.lexeme ∧
      l.rest = layout.source := by
  induction tokens generalizing budget l with
  | nil =>
    obtain ⟨hrest, -⟩ | ⟨_, _, _, _, _, _, _, _, _, _, _, he⟩ := run_eq_ok_cases h
    · refine ⟨⟨l.rest.takeWhile Lexeme.isBlank, []⟩, ⟨Lexeme.of_mem_takeWhile, by simp, .nil⟩, rfl,
        ?_⟩
      have hsplit := l.rest_eq
      rwa [hrest] at hsplit
    · cases he
  | cons t tokens ih =>
    obtain ⟨-, he⟩ | ⟨n, c, cs, kind, text, rest, others, rfl, hrest, hread, hothers, he⟩ :=
      run_eq_ok_cases h
    · cases he
    · cases he
      obtain ⟨layout, hlayout, hlexemes, hsource⟩ := ih hothers
      have hsource : rest = layout.source := hsource
      obtain ⟨hcs, hlexeme, hglue⟩ := Lexeme.read_sound hread
      have hapart : ∀ q ∈ layout.pieces.head?, Piece.Apart ⟨kind, text, layout.lead⟩ q := by
        intro q hq hglues hnil
        have hnil : layout.lead = [] := hnil
        obtain ⟨ps, hps⟩ := List.head?_eq_some_iff.mp hq
        obtain ⟨d, hd, hglues⟩ := hglues
        refine hglue ⟨d, ?_, hglues⟩
        obtain ⟨ds, htext⟩ := List.head?_eq_some_iff.mp hd
        rw [hsource, Layout.source, hnil, hps]
        simp [Piece.source, htext]
      refine ⟨⟨l.rest.takeWhile Lexeme.isBlank, ⟨kind, text, layout.lead⟩ :: layout.pieces⟩,
        ⟨Lexeme.of_mem_takeWhile, ?_, List.isChain_cons.mpr ⟨hapart, hlayout.apart⟩⟩, ?_, ?_⟩
      · intro p hp
        rcases List.mem_cons.mp hp with rfl | hp
        · exact ⟨hlexeme, hlayout.isBlank⟩
        · exact hlayout.wellFormed p hp
      · rw [List.map_cons, ← hlexemes]
        rfl
      · have hsplit := l.rest_eq
        rw [hrest, hcs, hsource] at hsplit
        exact hsplit.trans (by simp [Layout.source, Piece.source])

end Lexer

/-- All layouts of one source have the same lexemes. -/
theorem Layout.lexemes_unique {l l' : Layout} (h : l.WellFormed) (h' : l'.WellFormed)
    (hsource : l.source = l'.source) : l.lexemes = l'.lexemes := by
  have hread (k : Layout) (hk : k.WellFormed) {n : Nat} (hn : k.pieces.length ≤ n) :
      ∃ tokens, (Lexer.run n n ⟨k.source, .start⟩).1 = .ok tokens ∧
        tokens.map Token.lexeme = k.lexemes :=
    Lexer.run_of_layout hk.wellFormed hk.apart .start hk.isBlank hn
  obtain ⟨ts, hts, hl⟩ := hread l h (Nat.le_max_left _ l'.pieces.length)
  obtain ⟨us, hus, hl'⟩ := hread l' h' (Nat.le_max_right l.pieces.length _)
  rw [hsource, hus] at hts
  cases hts
  rw [← hl, ← hl']

/-- Each token of a source is a piece of its layout. -/
theorem exists_pieces_of_tokenize {maxTokens : Nat} {source : String} {tokens : List Token}
    (h : tokenize maxTokens source = .ok tokens) :
    ∃ layout : Layout, layout.WellFormed ∧ source.toList = layout.source ∧
      ∀ t ∈ tokens, ∃ piece ∈ layout.pieces, t.kind = piece.kind ∧ t.text.toList = piece.text := by
  obtain ⟨layout, hlayout, hlexemes, hsource⟩ := Lexer.layout_of_run h
  refine ⟨layout, hlayout, hsource, fun t ht => ?_⟩
  have hmem : t.lexeme ∈ layout.lexemes := by
    rw [hlexemes]
    exact List.mem_map_of_mem ht
  obtain ⟨piece, hpiece, he⟩ := List.mem_map.mp hmem
  have hkind : t.kind = piece.kind := (congrArg Prod.fst he).symm
  have htext : t.text = String.ofList piece.text := (congrArg Prod.snd he).symm
  exact ⟨piece, hpiece, hkind, by rw [htext, String.toList_ofList]⟩

/-- What stands in a token stands in the source. -/
theorem Token.text_subset_of_tokenize {maxTokens : Nat} {source : String} {tokens : List Token}
    (h : tokenize maxTokens source = .ok tokens) {t : Token} (ht : t ∈ tokens) :
    t.text.toList ⊆ source.toList := by
  obtain ⟨layout, -, hsource, hpieces⟩ := exists_pieces_of_tokenize h
  obtain ⟨piece, hpiece, -, htext⟩ := hpieces t ht
  intro c hc
  rw [hsource, Layout.source, List.mem_append, List.mem_flatMap]
  exact .inr ⟨piece, hpiece, List.mem_append_left _ (htext ▸ hc)⟩

/-- A source has certain tokens just if it has a layout with their kinds and
texts, whatever the bound on their number that they keep. -/
theorem tokenize_iff_layout {maxTokens : Nat} {source : String}
    {lexemes : List Word} (bound : lexemes.length ≤ maxTokens) :
    (∃ tokens, tokenize maxTokens source = .ok tokens ∧ tokens.map Token.lexeme = lexemes) ↔
      ∃ layout : Layout, layout.WellFormed ∧ layout.lexemes = lexemes ∧
        source.toList = layout.source := by
  constructor
  · intro h
    rcases h with ⟨tokens, htokens, rfl⟩
    exact Lexer.layout_of_run htokens
  · intro h
    rcases h with ⟨⟨lead, pieces⟩, ⟨hlead, hpieces, hapart⟩, rfl, hsource⟩
    rw [Layout.lexemes, List.length_map] at bound
    have hstart : Lexer.ofSource source = ⟨lead ++ pieces.flatMap Piece.source, .start⟩ :=
      congrArg (Lexer.mk · .start) hsource
    rw [tokenize, Lexer.tokenize, hstart]
    exact Lexer.run_of_layout hpieces hapart .start hlead bound

/-- Neither `:=` nor `..` needs blanks around it, and `<` needs one before `>=`. -/
theorem tokenize_adjacent :
    ∃ tokens, tokenize 9 "n:=1..x< >=\x7bc\x7d's'" = .ok tokens ∧ tokens.map Token.lexeme =
      [(.identifier, "n"), (.symbol, ":="), (.number, "1"), (.symbol, ".."), (.identifier, "x"),
        (.symbol, "<"), (.symbol, ">="), (.comment, "\x7bc\x7d"), (.string, "'s'")] := by
  let layout : Layout :=
    ⟨[], [⟨.identifier, ['n'], []⟩, ⟨.symbol, [':', '='], []⟩, ⟨.number, ['1'], []⟩,
      ⟨.symbol, ['.', '.'], []⟩, ⟨.identifier, ['x'], []⟩, ⟨.symbol, ['<'], [' ']⟩,
      ⟨.symbol, ['>', '='], []⟩, ⟨.comment, ['\x7b', 'c', '\x7d'], []⟩,
      ⟨.string, ['\'', 's', '\''], []⟩]⟩
  exact (tokenize_iff_layout (by decide)).mpr ⟨layout, by decide, by decide, by decide⟩

end PascalSyntax
