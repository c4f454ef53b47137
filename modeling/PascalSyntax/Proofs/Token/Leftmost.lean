import Mathlib.Data.List.TakeWhile
import PascalSyntax.Proofs.Token.Resuming

/-!
# The leftmost fault

A source has no tokens just if it has a fault: a comment that no brace closes, a
string that no quote ends on its line, or a character that starts nothing.  What
is reported is the fault before which all is tokens (`tokenize_leftmost`), and
there is at most one such place.

A fault is found wherever it stands after tokens, since none of the characters
that a fault starts with goes on a lexeme before it.
-/

namespace PascalSyntax

/-- What may be wrong with a source at some place. -/
inductive Fault where
  | openComment
  | openString
  | unknown (c : Char)

namespace Fault

/-- The error that the fault is reported as. -/
def error : Fault → Position → LexError
  | openComment => .unterminatedComment
  | openString => .unterminatedString
  | unknown c => .unrecognizedToken c

/-- The text starts with the fault. -/
def Starts : Fault → List Char → Prop
  | openComment, text => text.head? = some '\x7b' ∧ '\x7d' ∉ text
  | openString, text => text.head? = some '\'' ∧
      '\'' ∉ text.tail.takeWhile fun c => c ≠ '\n' && c ≠ '\r'
  | unknown c, text => text.head? = some c ∧ Lexeme.IsUnknown c

/-- The fault stands at the offset, and all before it is tokens. -/
structure StandsAt (maxTokens : Nat) (source : String) (offset : Nat) (fault : Fault) : Prop where
  front : ∃ tokens, tokenize maxTokens (String.ofList (source.toList.take offset)) = .ok tokens
  starts : fault.Starts (source.toList.drop offset)

/-! ## The first character of a fault -/

/-- The character goes on no lexeme, and starts none but a comment or a string. -/
structure Divides (c : Char) : Prop where
  notBlank : Lexeme.isBlank c = false
  notAlpha : c.isAlpha = false
  notDigit : c.isDigit = false
  notSymbol : String.ofList [c] ∉ Vocabulary.symbols

theorem Starts.head {fault : Fault} {text : List Char} (h : fault.Starts text) :
    ∃ c cs, text = c :: cs ∧ Divides c := by
  have hcons {c : Char} (hhead : text.head? = some c) (hc : Divides c) :
      ∃ c cs, text = c :: cs ∧ Divides c := by
    obtain ⟨cs, rfl⟩ := List.head?_eq_some_iff.mp hhead
    exact ⟨c, cs, rfl, hc⟩
  cases fault with
  | openComment => exact hcons h.1 ⟨by decide, by decide, by decide, by decide⟩
  | openString => exact hcons h.1 ⟨by decide, by decide, by decide, by decide⟩
  | unknown c => exact hcons h.1 ⟨h.2.notBlank, h.2.notAlpha, h.2.notDigit, h.2.notSymbol⟩

/-- The second character of a symbol is a symbol of its own. -/
theorem not_gluesTo_of_divides {c : Char} (hc : Divides c) (kind : Token.Kind)
    (text : List Char) : ¬ GluesTo kind text c := by
  have halnum : c.isAlphanum = false := by
    rw [Char.isAlphanum, hc.notAlpha, hc.notDigit]
    rfl
  intro hglue
  cases kind with
  | reservedWord => exact absurd hglue (by simp [GluesTo, halnum])
  | identifier => exact absurd hglue (by simp [GluesTo, halnum])
  | number => exact absurd hglue (by simp [GluesTo, hc.notDigit])
  | symbol =>
    have hall : ∀ s ∈ Vocabulary.symbols,
        ∀ c ∈ s.toList.tail, String.ofList [c] ∈ Vocabulary.symbols := by
      simp [Vocabulary.symbols]
    obtain ⟨hlength, hmem⟩ := hglue
    obtain ⟨d, rfl⟩ := List.length_eq_one_iff.mp hlength
    exact hc.notSymbol (hall _ hmem c (by simp))
  | string => exact hglue
  | comment => exact hglue

theorem Starts.not_glues {fault : Fault} {text : List Char} (h : fault.Starts text)
    (kind : Token.Kind) (lexeme : List Char) : ¬ Glues kind lexeme text := by
  obtain ⟨c, cs, rfl, hc⟩ := h.head
  rw [glues_cons_iff]
  exact not_gluesTo_of_divides hc kind lexeme

/-- Where a fault starts there is no lexeme. -/
theorem Starts.not_isLexeme {fault : Fault} {text rest : List Char} {kind : Token.Kind}
    (h : fault.Starts (text ++ rest)) : ¬ IsLexeme kind text := by
  intro hlexeme
  obtain ⟨c, cs, htext, hc⟩ := h.head
  cases hlexeme with
  | @comment body hbody =>
    cases fault with
    | openComment => exact h.2 (by simp)
    | openString => cases h.1
    | unknown d => exact h.2.notBrace (Option.some.inj h.1).symm
  | @reservedWord d ds hd =>
    cases htext
    rw [hc.notAlpha] at hd
    cases hd
  | @identifier d ds hd =>
    cases htext
    rw [hc.notAlpha] at hd
    cases hd
  | @number d ds hd =>
    cases htext
    rw [hc.notDigit] at hd
    cases hd
  | symbol hmem =>
    obtain ⟨d, ds, rfl, hd, -⟩ := Lexeme.symbol_cases hmem
    cases htext
    exact hc.notSymbol (Lexeme.isSymbol_iff.mp hd)
  | @string body hbody =>
    cases fault with
    | openComment => cases h.1
    | openString =>
      refine h.2 ?_
      have hline : ∀ d ∈ body ++ ['\''], (d ≠ '\n' && d ≠ '\r') = true := by
        intro d hd
        rcases List.mem_append.mp hd with hd | hd
        · simpa using (hbody d hd).2
        · rw [List.mem_singleton.mp hd]
          rfl
      rw [List.cons_append, List.tail_cons, List.takeWhile_append_of_pos hline]
      simp
    | unknown d => exact h.2.notQuote (Option.some.inj h.1).symm

end Fault

namespace Lexer

/-- A run that comes to a fault reports it. -/
theorem run_of_starts {limit budget : Nat} {position : Position} {fault : Fault}
    {text : List Char} (h : fault.Starts text) :
    (run limit (budget + 1) ⟨text, position⟩).1 = .error (fault.error position) := by
  obtain ⟨c, cs, rfl, hc⟩ := h.head
  have hskip : skipBlanks ⟨c :: cs, position⟩ = ⟨c :: cs, position⟩ := skipBlanks_cons hc.notBlank
  rw [run_succ (by rw [hskip]), hskip]
  rcases Lexeme.read_cases c cs with ⟨kind, text, rest, hread⟩ | ⟨rfl, hread, -⟩ |
      ⟨rfl, -, hread⟩ | ⟨hbrace, -, -, -, hquote, hread⟩
  · obtain ⟨hsplit, hlexeme, -⟩ := Lexeme.read_sound hread
    rw [hsplit] at h
    exact absurd hlexeme h.not_isLexeme
  · rw [hread]
    cases fault with
    | openComment => rfl
    | openString => cases h.1
    | unknown d => exact absurd (Option.some.inj h.1).symm h.2.notBrace
  · rw [hread]
    cases fault with
    | openComment => cases h.1
    | openString => rfl
    | unknown d => exact absurd (Option.some.inj h.1).symm h.2.notQuote
  · rw [hread]
    cases fault with
    | openComment => exact absurd (Option.some.inj h.1) hbrace
    | openString => exact absurd (Option.some.inj h.1) hquote
    | unknown d => rw [← Option.some.inj h.1]; rfl

/-! ## One text after another -/

/-- If no lexeme goes on into the second text, a run reads the first text as it
stands alone, and then the second one. -/
theorem run_append {limit budget : Nat} {position : Position} {front back : List Char}
    {tokens : List Token} (h : (run limit budget ⟨front, position⟩).1 = .ok tokens)
    (hback : ∀ kind text, ¬ Glues kind text back) :
    run limit budget ⟨front ++ back, position⟩ =
      let others := run limit (budget - tokens.length) ⟨back, position.after front⟩
      (others.1.map (tokens ++ ·), others.2) := by
  induction tokens generalizing budget front position with
  | nil =>
    obtain ⟨hrest, -⟩ | ⟨_, _, _, _, _, _, _, _, _, _, _, he⟩ := run_eq_ok_cases h
    · have hblanks : ∀ c ∈ front, Lexeme.isBlank c = true := List.dropWhile_eq_nil_iff.mp hrest
      rw [run_skipBlanks (skipBlanks_append hblanks), List.length_nil, Nat.sub_zero]
      exact Prod.ext (congrFun Except.map_id _).symm rfl
    · cases he
  | cons t tokens ih =>
    obtain ⟨-, he⟩ | ⟨n, c, cs, kind, text, rest, others, rfl, hrest, hread, hothers, he⟩ :=
      run_eq_ok_cases h
    · cases he
    · cases he
      obtain ⟨hcs, hlexeme, hglue⟩ := Lexeme.read_sound hread
      obtain ⟨blanks, hblanks, rfl, hplace⟩ : ∃ blanks, (∀ c ∈ blanks, Lexeme.isBlank c = true) ∧
          front = blanks ++ (text ++ rest) ∧
          (skipBlanks ⟨front, position⟩).position = position.after blanks := by
        have hsplit := rest_eq ⟨front, position⟩
        rw [hrest, hcs] at hsplit
        exact ⟨_, Lexeme.of_mem_takeWhile, hsplit, rfl⟩
      have hglue' : ¬ Glues kind text (rest ++ back) := by
        cases rest with
        | nil => exact hback kind text
        | cons d ds => exact fun hglues => hglue hglues
      rw [hplace, ← Position.after_append] at hothers
      rw [List.append_assoc, List.append_assoc, run_lexeme hblanks hlexeme hglue', ih hothers,
        hplace, ← Position.after_append, List.append_assoc, List.length_cons, Nat.add_sub_add_right]
      generalize run limit (n - tokens.length) ⟨back, _⟩ = others
      obtain ⟨result, next⟩ := others
      cases result <;> rfl

/-- There are no more tokens than characters. -/
theorem length_le_of_run {limit budget : Nat} {l : Lexer} {tokens : List Token}
    (h : (run limit budget l).1 = .ok tokens) : tokens.length ≤ l.rest.length := by
  induction tokens generalizing budget l with
  | nil => exact Nat.zero_le _
  | cons t tokens ih =>
    obtain ⟨-, he⟩ | ⟨n, c, cs, kind, text, rest, others, rfl, hrest, hread, hothers, he⟩ :=
      run_eq_ok_cases h
    · cases he
    · cases he
      have hle : tokens.length ≤ rest.length := ih hothers
      have hlt := Lexeme.length_lt_of_read hread
      have hskip := l.length_skipBlanks_le
      rw [hrest] at hskip
      rw [List.length_cons]
      omega

end Lexer

/-! ## What is reported -/

namespace Fault

variable {maxTokens : Nat} {source : String} {offset : Nat} {fault : Fault}

/-- A fault that stands after tokens is reported. -/
theorem StandsAt.reported (bound : source.length < maxTokens)
    (h : fault.StandsAt maxTokens source offset) :
    tokenize maxTokens source = .error (fault.error (.ofOffset source.toList offset)) := by
  obtain ⟨tokens, htokens⟩ := h.front
  have hsplit : source.toList.take offset ++ source.toList.drop offset = source.toList :=
    List.take_append_drop _ _
  rw [tokenize, Lexer.tokenize, Lexer.ofSource, String.toList_ofList] at htokens
  have hcount : tokens.length < maxTokens := by
    have hle : tokens.length ≤ (source.toList.take offset).length := Lexer.length_le_of_run htokens
    rw [List.length_take, String.length_toList] at hle
    omega
  have hplace : Position.start.after (source.toList.take offset) =
      .ofOffset source.toList offset := by
    rw [Position.start_after hsplit.symm, List.length_take, Position.ofOffset_min]
  have hrun := Lexer.run_append htokens h.starts.not_glues
  obtain ⟨n, hn⟩ : ∃ n, maxTokens - tokens.length = n + 1 :=
    ⟨maxTokens - tokens.length - 1, by omega⟩
  rw [hsplit, hn] at hrun
  rw [tokenize, Lexer.tokenize, Lexer.ofSource, hrun]
  show ((Lexer.run maxTokens (n + 1) _).1).map _ = _
  rw [Lexer.run_of_starts h.starts, hplace]
  rfl

theorem StandsAt.of_append {front back : List Char} {tokens : List Token}
    (hsource : source.toList = front ++ back)
    (hok : (Lexer.run maxTokens maxTokens ⟨front, .start⟩).1 = .ok tokens)
    (hback : fault.Starts back) : fault.StandsAt maxTokens source front.length where
  front := by
    rw [hsource, List.take_left, tokenize, Lexer.ofSource, String.toList_ofList]
    exact ⟨tokens, hok⟩
  starts := by rwa [hsource, List.drop_left]

theorem StandsAt.lt_length (h : fault.StandsAt maxTokens source offset) :
    offset < source.toList.length := by
  obtain ⟨c, cs, hdrop, -⟩ := h.starts.head
  have hlength := congrArg List.length hdrop
  rw [List.length_drop, List.length_cons] at hlength
  omega

/-- What is reported is a fault that stands after tokens, if there cannot be too
many tokens. -/
theorem exists_standsAt {e : LexError} (bound : source.length < maxTokens)
    (h : tokenize maxTokens source = .error e) :
    ∃ (fault : Fault) (offset : Nat), fault.StandsAt maxTokens source offset ∧
      e = fault.error (.ofOffset source.toList offset) := by
  obtain ⟨text, hrest, -, hstops⟩ := Lexer.run_stops maxTokens maxTokens (.ofSource source)
  have herror : (Lexer.run maxTokens maxTokens (.ofSource source)).1 = .error e := h
  rw [herror] at hstops
  generalize (Lexer.run maxTokens maxTokens (.ofSource source)).2.rest = rest at hrest hstops
  have hrest : source.toList = text ++ rest := hrest
  cases hstops with
  | @openComment front body tokens hok hopen =>
    rw [List.append_nil] at hrest
    refine ⟨openComment, _, .of_append hrest hok ⟨rfl, ?_⟩, ?_⟩
    · simpa using hopen
    · exact congrArg _ (Position.start_after hrest)
  | @openString front body rest tokens hok hbody hend =>
    rw [List.append_assoc] at hrest
    refine ⟨openString, _, .of_append hrest hok ⟨rfl, ?_⟩, ?_⟩
    · have hline : ∀ d ∈ body, (d ≠ '\n' && d ≠ '\r') = true :=
        fun d hd => by simpa using (hbody d hd).2
      have hcut : ∀ d ∈ rest.head?, (d ≠ '\n' && d ≠ '\r') = false :=
        fun d hd => by
          rcases hend d hd with rfl | rfl
          · rfl
          · rfl
      rw [List.cons_append, List.tail_cons, (Lexeme.takeWhile_eq_of_append hline hcut).1]
      exact fun hmem => (hbody _ hmem).1 rfl
    · exact congrArg _ (Position.start_after hrest)
  | unknown hok hc =>
    exact ⟨unknown _, _, .of_append hrest hok ⟨rfl, hc⟩,
      congrArg _ (Position.start_after hrest)⟩
  | full hok hcount _ =>
    have hle : maxTokens ≤ text.length := hcount ▸ Lexer.length_le_of_run hok
    have hlength := congrArg List.length hrest
    rw [String.length_toList, List.length_append] at hlength
    omega

theorem error_inj {fault' : Fault} {p p' : Position} (h : fault.error p = fault'.error p') :
    fault = fault' ∧ p = p' := by
  cases fault <;> cases fault' <;> cases h <;> exact ⟨rfl, rfl⟩

end Fault

/-- A lexical error is reported just where a fault stands after tokens, and a
source without such a place has tokens: this holds of every offset, as long as
there cannot be too many tokens. -/
theorem tokenize_leftmost {maxTokens : Nat} {source : String} (bound : source.length < maxTokens) :
    (∀ (fault : Fault) (offset : Nat),
      tokenize maxTokens source = .error (fault.error (.ofOffset source.toList offset)) ↔
        fault.StandsAt maxTokens source offset) ∧
    ((∀ (fault : Fault) (offset : Nat), ¬ fault.StandsAt maxTokens source offset) →
      ∃ tokens, tokenize maxTokens source = .ok tokens) := by
  refine ⟨?_, ?_⟩
  · intro fault offset
    constructor
    · intro h
      obtain ⟨fault', offset', hstands, he⟩ := Fault.exists_standsAt bound h
      obtain ⟨rfl, hplace⟩ := Fault.error_inj he
      rwa [← Position.ofOffset_inj hstands.lt_length hplace.symm]
    · exact Fault.StandsAt.reported bound
  · intro hnone
    cases h : tokenize maxTokens source with
    | ok tokens => exact ⟨tokens, rfl⟩
    | error e =>
      obtain ⟨fault, offset, hstands, -⟩ := Fault.exists_standsAt bound h
      exact absurd hstands (hnone fault offset)

/-- The quote after the word is found, though a second quote stands on the next
line. -/
theorem cutString_leftmost :
    "a 'b\n'".length < 9 ∧ Fault.openString.StandsAt 9 "a 'b\n'" 2 ∧
      tokenize 9 "a 'b\n'" = .error (.unterminatedString ⟨1, 3⟩) := by
  have bound : "a 'b\n'".length < 9 := by decide
  have hstands : Fault.openString.StandsAt 9 "a 'b\n'" 2 :=
    ⟨⟨[⟨.identifier, "a", ⟨1, 1⟩⟩], by decide +kernel⟩, by decide, by decide⟩
  exact ⟨bound, hstands, ((tokenize_leftmost bound).1 .openString 2).mpr hstands⟩

end PascalSyntax
