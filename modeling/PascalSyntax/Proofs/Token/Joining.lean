import PascalSyntax.Proofs.Token.Leftmost
import PascalSyntax.Proofs.Token.Unbounded

/-!
# Sources joined at a blank

A source with tokens, a blank and a second source have the tokens of the first source
and then those of the second one, or the error of the second one, moved to where it
starts (`tokenize_push_append`).

No lexeme goes on over a blank, so the first source is read as it stands alone
(`Lexer.run_append_blank`).  The second one has less room for its tokens than it would
have alone, but as much as it has characters, which is enough (`Lexer.run_eq_outcome`).
Which blank it is only matters to the position that comes after it: a line feed starts
a line, and the others are a column of the line they are on.
-/

namespace PascalSyntax
namespace Lexer

/-- A run that may take a token for every character is not cut. -/
theorem run_eq_outcome {limit budget : Nat} {l : Lexer} (h : l.rest.length ≤ budget) :
    (run limit budget l).1 = l.unbounded.outcome := by
  rw [run_eq_cut, Reading.cut_eq_outcome (Nat.le_trans (length_places_unbounded l) h)]

theorem carries_movedTo (base : Position) : Carries base.movedTo .start := by
  have hstart : base.movedTo .start = base := Position.movedTo_start_after base []
  intro text
  rw [hstart]
  exact Position.movedTo_start_after base text

/-- A text that starts elsewhere is read as at the start, with its positions moved. -/
theorem run_movedTo (limit budget : Nat) (text : List Char) (base : Position) :
    (run limit budget ⟨text, base⟩).1 =
      mapResult base.movedTo (run limit budget ⟨text, .start⟩).1 := by
  have hrun := run_mapPosition (l := ⟨text, .start⟩) limit budget (carries_movedTo base)
  have hbase : mapPosition base.movedTo ⟨text, .start⟩ = ⟨text, base⟩ :=
    congrArg (Lexer.mk text) (Position.movedTo_start_after base [])
  rw [← hbase, hrun]

/-- A text with tokens is read as it stands alone if a blank comes after it, and so is
the text after the blank. -/
theorem run_append_blank {limit budget : Nat} {position : Position} {front : List Char}
    {tokens : List Token} {w : Char} (back : List Char)
    (h : (run limit budget ⟨front, position⟩).1 = .ok tokens) (hw : Lexeme.isBlank w = true) :
    (run limit budget ⟨front ++ w :: back, position⟩).1 =
      (run limit (budget - tokens.length) ⟨back, position.after (front ++ [w])⟩).1.map
        (tokens ++ ·) := by
  have hglue (kind : Token.Kind) (text : List Char) : ¬ Glues kind text (w :: back) := by
    rw [glues_cons_iff]
    exact Lexeme.not_gluesTo_of_isBlank hw
  have hskip : skipBlanks ⟨[w] ++ back, position.after front⟩ =
      skipBlanks ⟨back, position.after (front ++ [w])⟩ := by
    rw [Position.after_append]
    exact skipBlanks_append (by simpa using hw)
  rw [run_append h hglue, ← run_skipBlanks hskip]
  rfl

end Lexer

open Lexer

/-- Reading goes along with joining two sources at a blank, whichever blank it is, if
there cannot be too many tokens: the tokens of the first source come before those of
the second one, and an error of the second one is an error of both.  The positions of
the second source are moved to where it starts. -/
theorem tokenize_push_append {maxTokens : Nat} {s : String} {tokens : List Token} {w : Char}
    (t : String) (hs : tokenize maxTokens s = .ok tokens) (hw : Lexeme.isBlank w = true)
    (bound : (s.push w ++ t).length < maxTokens) :
    let base := Position.ofOffset (s.push w ++ t).toList (s.length + 1)
    (∀ others, tokenize maxTokens t = .ok others →
      tokenize maxTokens (s.push w ++ t) =
        .ok (tokens ++ others.map (Token.mapPosition base.movedTo))) ∧
    ∀ e, tokenize maxTokens t = .error e →
      tokenize maxTokens (s.push w ++ t) = .error (e.mapPosition base.movedTo) := by
  intro base
  have hlength : (s.push w ++ t).length = s.length + 1 + t.length := by
    rw [String.length_append, String.length_push]
  have hsource : (s.push w ++ t).toList = (s.toList ++ [w]) ++ t.toList := by
    rw [String.toList_append, String.toList_push]
  have hbase : Position.start.after (s.toList ++ [w]) = base := by
    rw [Position.start_after hsource, List.length_append, String.length_toList]
    rfl
  have hroom : t.length ≤ maxTokens - tokens.length := by
    have hle : tokens.length ≤ s.toList.length := length_le_of_run hs
    rw [String.length_toList] at hle
    omega
  have halone : (run maxTokens (maxTokens - tokens.length) ⟨t.toList, .start⟩).1 =
      tokenize maxTokens t := by
    rw [run_eq_outcome (String.length_toList.trans_le hroom)]
    exact (run_eq_outcome (String.length_toList.trans_le (by omega))).symm
  have hjoined : tokenize maxTokens (s.push w ++ t) =
      (mapResult base.movedTo (tokenize maxTokens t)).map (tokens ++ ·) := by
    rw [tokenize, Lexer.tokenize, ofSource, hsource, List.append_assoc]
    rw [show [w] ++ t.toList = w :: t.toList from rfl, run_append_blank t.toList hs hw, hbase,
      run_movedTo, halone]
  constructor
  · intro others hothers
    rw [hjoined, hothers]
    rfl
  · intro e he
    rw [hjoined, he]
    rfl

/-- A line feed starts a line for the second source, a form feed does not. -/
theorem word_push_append :
    tokenize 8 "a" = .ok [⟨.identifier, "a", ⟨1, 1⟩⟩] ∧
      tokenize 8 ("a".push '\n' ++ "b\nc") = .ok [⟨.identifier, "a", ⟨1, 1⟩⟩,
        ⟨.identifier, "b", ⟨2, 1⟩⟩, ⟨.identifier, "c", ⟨3, 1⟩⟩] ∧
      tokenize 8 ("a".push '\x0c' ++ "b #") = .error (.unrecognizedToken '#' ⟨1, 5⟩) := by
  have hword : tokenize 8 "a" = .ok [⟨.identifier, "a", ⟨1, 1⟩⟩] := by decide +kernel
  obtain ⟨hlines, -⟩ := tokenize_push_append "b\nc" hword (w := '\n') rfl (by decide)
  obtain ⟨-, herror⟩ := tokenize_push_append "b #" hword (w := '\x0c') rfl (by decide)
  refine ⟨hword, ?_, ?_⟩
  · exact hlines [⟨.identifier, "b", ⟨1, 1⟩⟩, ⟨.identifier, "c", ⟨2, 1⟩⟩] (by decide +kernel)
  · exact herror (.unrecognizedToken '#' ⟨1, 3⟩) (by decide +kernel)

end PascalSyntax
