import PascalSyntax.Expr.Basic
import PascalSyntax.Proofs.Parser.Loops
import PascalSyntax.Proofs.Text.Numeral
import PascalSyntax.Proofs.Token.Layout

/-!
# Words

A word is all of a token but its position.  Words can be written as a source with
one blank between each two, and the tokens of that source are the words again
(`tokenize_source`), since a blank ends every lexeme.

Tokens are compared with the words that they write by `Token.lexeme`.  Where
words stand one after another, or with a word between each two, so do the tokens
that write them.
-/

namespace PascalSyntax

theorem isLexeme_number_iff {text : List Char} : IsLexeme .number text ↔ Numeral.Digits text := by
  constructor
  · intro h
    cases h with
    | number hc hcs => exact ⟨List.cons_ne_nil _ _, List.forall_mem_cons.mpr ⟨hc, hcs⟩⟩
  · intro h
    cases text with
    | nil => exact absurd rfl h.nonempty
    | cons c cs =>
      obtain ⟨hc, hcs⟩ := List.forall_mem_cons.mp h.isDigit
      exact .number hc hcs

namespace Word

def symbol (text : String) : Word :=
  (.symbol, text)

def keyword (text : String) : Word :=
  (.reservedWord, text)

def name (text : String) : Word :=
  (.identifier, text)

def number (n : Nat) : Word :=
  (.number, n.repr)

def string (value : String) : Word :=
  (.string, "'" ++ value ++ "'")

/-- The words with one blank between each two. -/
def source (words : List Word) : String :=
  " ".intercalate (words.map (·.2))

/-- The word is a lexeme of its kind, and no comment. -/
structure Proper (w : Word) : Prop where
  isLexeme : IsLexeme w.1 w.2.toList
  significant : w.1 ≠ .comment

def AllProper (ws : List Word) : Prop :=
  ∀ w ∈ ws, w.Proper

/-! ## Proper words -/

theorem symbol_proper {text : String} (h : text ∈ Vocabulary.symbols) : (symbol text).Proper where
  isLexeme := .symbol (by rwa [String.ofList_toList])
  significant := by simp [symbol]

theorem keyword_proper {text : String} (h : text ∈ Vocabulary.reservedWords) :
    (keyword text).Proper where
  isLexeme := by
    have hall : ∀ s ∈ Vocabulary.reservedWords, IsLexeme .reservedWord s.toList := by
      decide
    exact hall text h
  significant := by simp [keyword]

theorem name_proper {text : String} (h : IsLexeme .identifier text.toList) :
    (name text).Proper where
  isLexeme := h
  significant := by simp [name]

/-- The decimal digits of a number are digits, and there is one at least. -/
theorem digits_repr (n : Nat) : Numeral.Digits n.repr.toList where
  nonempty := by
    rw [Nat.toList_repr]
    exact Nat.toDigits_ne_nil
  isDigit := by
    intro c hc
    rw [Nat.toList_repr] at hc
    exact Nat.isDigit_of_mem_toDigits (by decide) (Nat.le_refl 10) hc

theorem value_repr (n : Nat) : Numeral.value n.repr.toList = n := by
  rw [Nat.toList_repr, Numeral.value_eq_ofDigitChars]
  exact Nat.ofDigitChars_ten_toDigits

theorem number_proper (n : Nat) : (number n).Proper where
  isLexeme := isLexeme_number_iff.mpr (digits_repr n)
  significant := by simp [number]

theorem toList_string (value : String) :
    (string value).2.toList = '\'' :: (value.toList ++ ['\'']) := by
  simp [string]

theorem string_proper {value : String}
    (h : ∀ c ∈ value.toList, c ≠ '\'' ∧ c ≠ '\n' ∧ c ≠ '\r') : (string value).Proper where
  isLexeme := by
    rw [toList_string]
    exact .string h
  significant := by simp [string]

@[simp] theorem allProper_nil : AllProper [] := List.forall_mem_nil _

@[simp] theorem allProper_cons_iff {w : Word} {ws : List Word} :
    AllProper (w :: ws) ↔ w.Proper ∧ AllProper ws :=
  List.forall_mem_cons

@[simp] theorem allProper_append_iff {ws vs : List Word} :
    AllProper (ws ++ vs) ↔ AllProper ws ∧ AllProper vs :=
  List.forall_mem_append

theorem allProper_singleton_iff {w : Word} : AllProper [w] ↔ w.Proper :=
  List.forall_mem_singleton

theorem allProper_flatMap {as : List α} {words : α → List Word}
    (h : ∀ a ∈ as, AllProper (words a)) : AllProper (as.flatMap words) :=
  List.forall_mem_flatMap.mpr h

/-- A word may stand between each two of some lists of words. -/
theorem allProper_intercalate {w : Word} (hw : w.Proper) {wss : List (List Word)}
    (h : ∀ ws ∈ wss, AllProper ws) : AllProper ([w].intercalate wss) := by
  induction wss with
  | nil => exact allProper_nil
  | cons ws wss ih =>
    obtain ⟨hws, hwss⟩ := List.forall_mem_cons.mp h
    cases wss with
    | nil =>
      rw [List.intercalate_singleton]
      exact hws
    | cons vs wss =>
      rw [List.intercalate_cons_cons, allProper_append_iff, allProper_append_iff,
        allProper_singleton_iff]
      exact ⟨⟨hws, hw⟩, ih hwss⟩

/-! ## Their layout -/

/-- The pieces of the layout with one blank between each two words. -/
def pieces : List Word → List Piece
  | [] => []
  | [w] => [⟨w.1, w.2.toList, []⟩]
  | w :: next :: ws => ⟨w.1, w.2.toList, [' ']⟩ :: pieces (next :: ws)

theorem flatMap_pieces (ws : List Word) :
    (pieces ws).flatMap Piece.source = (source ws).toList := by
  rw [source, String.toList_intercalate, List.map_map]
  induction ws with
  | nil => rfl
  | cons w ws ih =>
    cases ws with
    | nil => simp [pieces, Piece.source]
    | cons next ws =>
      rw [pieces, List.flatMap_cons, ih]
      exact List.intercalate_cons_cons.symm

theorem map_pieces (ws : List Word) : (pieces ws).map Piece.lexeme = ws := by
  induction ws with
  | nil => rfl
  | cons w ws ih =>
    cases ws with
    | nil => simp [pieces, Piece.lexeme]
    | cons next ws =>
      rw [pieces, List.map_cons, ih, Piece.lexeme, String.ofList_toList]

theorem pieces_wellFormed {ws : List Word} (h : AllProper ws) :
    ∀ p ∈ pieces ws, p.WellFormed := by
  induction ws with
  | nil => simp [pieces]
  | cons w ws ih =>
    obtain ⟨hw, hws⟩ := List.forall_mem_cons.mp h
    cases ws with
    | nil =>
      rw [pieces, List.forall_mem_singleton]
      exact ⟨hw.isLexeme, by simp⟩
    | cons next ws =>
      rw [pieces, List.forall_mem_cons]
      exact ⟨⟨hw.isLexeme, by simp [Lexeme.isBlank]⟩, ih hws⟩

/-- Only after the last piece there is no blank. -/
theorem pieces_apart (ws : List Word) : (pieces ws).IsChain Piece.Apart := by
  induction ws with
  | nil => exact .nil
  | cons w ws ih =>
    cases ws with
    | nil => exact .singleton _
    | cons next ws =>
      rw [pieces, List.isChain_cons]
      refine ⟨?_, ih⟩
      intro q _ _ hgap
      cases hgap

end Word

/-- The tokens of proper words with one blank between each two are these words,
and all of them are seen by the grammar. -/
theorem tokenize_source {ws : List Word} (h : Word.AllProper ws) {maxTokens : Nat}
    (bound : ws.length ≤ maxTokens) :
    ∃ tokens, tokenize maxTokens (Word.source ws) = .ok tokens ∧
      tokens.map Token.lexeme = ws ∧ Token.significant tokens = tokens := by
  have hlength : (Word.pieces ws).length ≤ maxTokens := by
    rw [← List.length_map Piece.lexeme, Word.map_pieces]
    exact bound
  have hlead : ∀ c ∈ ([] : List Char), Lexeme.isBlank c = true := by simp
  obtain ⟨tokens, htokens, hlexemes⟩ :=
    Lexer.run_of_layout (Word.pieces_wellFormed h) (Word.pieces_apart ws) .start hlead hlength
  rw [List.nil_append, Word.flatMap_pieces] at htokens
  rw [Word.map_pieces] at hlexemes
  refine ⟨tokens, htokens, hlexemes, List.filter_eq_self.mpr ?_⟩
  intro t ht
  have hproper : t.lexeme.Proper := h _ (hlexemes ▸ List.mem_map_of_mem ht)
  exact decide_eq_true hproper.significant

/-! ## Tokens that write words -/

namespace Terminal

theorem symbol_admits_iff {text : String} {t : Token} :
    (symbol text).admits t = true ↔ t.lexeme = .symbol text := by
  simp [admits, Token.lexeme, Word.symbol]

theorem word_admits_iff {text : String} {t : Token} :
    (word text).admits t = true ↔ t.lexeme = .keyword text := by
  simp [admits, Token.lexeme, Word.keyword]

theorem identifier_admits_of_lexeme {text : String} {t : Token} (h : t.lexeme = .name text) :
    identifier.admits t = true := by
  have hkind : t.kind = .identifier := congrArg Prod.fst h
  exact decide_eq_true hkind

theorem number_admits_of_lexeme {n : Nat} {t : Token} (h : t.lexeme = .number n) :
    number.admits t = true := by
  have hkind : t.kind = .number := congrArg Prod.fst h
  exact decide_eq_true hkind

theorem string_admits_of_lexeme {value : String} {t : Token} (h : t.lexeme = .string value) :
    string.admits t = true := by
  have hkind : t.kind = .string := congrArg Prod.fst h
  exact decide_eq_true hkind

end Terminal

/-- A string token without its quotes is the value that was put into quotes. -/
theorem Token.unquoted_of_lexeme {value : String} {t : Token} (h : t.lexeme = .string value) :
    t.unquoted = value := by
  have htext : t.text.toList = '\'' :: (value.toList ++ ['\'']) := by
    rw [show t.text = (Word.string value).2 from congrArg Prod.snd h]
    exact Word.toList_string value
  rw [Token.unquoted, htext]
  simp

/-- A number token has the value that was written in digits, if that fits. -/
theorem Token.signed?_of_lexeme {n : Nat} {t : Token} (h : t.lexeme = .number n)
    (bound : n ≤ Numeral.maxSigned) : Numeral.signed? t.text.toList = some (n : Int) := by
  rw [show t.text = n.repr from congrArg Prod.snd h,
    Numeral.signed?_of_digits (Word.digits_repr n), Word.value_repr, if_pos bound]

/-- Tokens that write the words of some items are spellings of the items, one
after another, if those that write the words of each item are. -/
theorem Sequence.of_words {words : α → List Word} {spells : α → List Token → Prop} {as : List α}
    {ts : List Token} (hts : ts.map Token.lexeme = as.flatMap words)
    (h : ∀ a ∈ as, ∀ us, us.map Token.lexeme = words a → us.length ≤ ts.length → spells a us) :
    Sequence spells as ts := by
  induction as generalizing ts with
  | nil =>
    obtain rfl := List.map_eq_nil_iff.mp hts
    exact .nil
  | cons a as ih =>
    obtain ⟨us, vs, rfl, hus, hvs⟩ := List.map_eq_append_iff.mp hts
    rw [List.length_append] at h
    refine .cons (h a List.mem_cons_self us hus (by omega)) (ih hvs ?_)
    intro b hb ws hws hl
    exact h b (List.mem_cons_of_mem _ hb) ws hws (by omega)

/-- The same with a word between each two items. -/
theorem Separated.of_words {separator : Terminal} {w : Word}
    (hw : ∀ t : Token, t.lexeme = w → separator.admits t = true) {words : α → List Word}
    {spells : α → List Token → Prop} {as : List α} (hne : as ≠ []) {ts : List Token}
    (hts : ts.map Token.lexeme = [w].intercalate (as.map words))
    (h : ∀ a ∈ as, ∀ us, us.map Token.lexeme = words a → us.length ≤ ts.length → spells a us) :
    Separated separator spells as ts := by
  induction as generalizing ts with
  | nil => exact absurd rfl hne
  | cons a as ih =>
    cases as with
    | nil =>
      rw [List.map_singleton, List.intercalate_singleton] at hts
      exact .single (h a List.mem_cons_self ts hts (Nat.le_refl _))
    | cons b bs =>
      rw [List.map_cons, List.map_cons, List.intercalate_cons_cons, List.append_assoc] at hts
      obtain ⟨us, rest, rfl, hus, hrest⟩ := List.map_eq_append_iff.mp hts
      obtain ⟨t, vs, rfl, ht, hvs⟩ := List.map_eq_cons_iff.mp hrest
      rw [List.length_append, List.length_cons] at h
      refine .cons (h a List.mem_cons_self us hus (by omega)) (hw t ht)
        (ih (List.cons_ne_nil b bs) hvs ?_)
      intro c hc ws hws hl
      exact h c (List.mem_cons_of_mem _ hc) ws hws (by omega)

end PascalSyntax
