import PascalSyntax.Proofs.Token.Resuming

/-!
# The bound on the number of tokens

Without a bound a lexer reads tokens up to the end of the text or up to the first
malformed lexeme (`Lexer.unbounded`).  With a bound it reads the same, unless a
further lexeme stands where the bound is reached: it is then reported as one too
many, and whether it is well-formed does not matter (`tokenize_truncates`).

The two recursions go in step (`Lexer.run_eq_cut`).  Blanks are no lexeme, so a
text may end in blanks after as many tokens as are allowed.
-/

namespace PascalSyntax
namespace Lexer

/-- What is read without a bound: the tokens, and the error after them, if there
is one. -/
structure Reading where
  tokens : List Token
  error : Option LexError
deriving DecidableEq, Repr

namespace Reading

def cons (t : Token) (r : Reading) : Reading :=
  { r with tokens := t :: r.tokens }

/-- The reading as a call would return it. -/
def outcome (r : Reading) : Except LexError (List Token) :=
  match r.error with
  | none => .ok r.tokens
  | some e => .error e

/-- Where the tokens are, and where the error is. -/
def places (r : Reading) : List Position :=
  r.tokens.map Token.position ++ r.error.toList.map LexError.position

/-- The reading as a call would return it that may take `budget` tokens. -/
def cut (limit budget : Nat) (r : Reading) : Except LexError (List Token) :=
  match r.places[budget]? with
  | some p => .error (.tooManyTokens limit p)
  | none => r.outcome

end Reading

/-- Reads without a bound on the number of tokens. -/
def unbounded (l : Lexer) : Reading :=
  let l' := l.skipBlanks
  match _hrest : l'.rest with
  | [] => ⟨[], none⟩
  | c :: cs =>
    match _hread : Lexeme.read c cs with
    | .whole kind text rest =>
      (unbounded ⟨rest, l'.position.after text⟩).cons ⟨kind, String.ofList text, l'.position⟩
    | .openComment => ⟨[], some (.unterminatedComment l'.position)⟩
    | .openString _ _ => ⟨[], some (.unterminatedString l'.position)⟩
    | .unknown c => ⟨[], some (.unrecognizedToken c l'.position)⟩
termination_by l.rest.length
decreasing_by
  have hlt := Lexeme.length_lt_of_read _hread
  have hskip := l.length_skipBlanks_le
  rw [_hrest] at hskip
  exact Nat.lt_of_lt_of_le hlt hskip

/-! ## One lexeme -/

section Steps

variable {l : Lexer} {c : Char} {cs : List Char}

theorem unbounded_of_blank (h : l.skipBlanks.rest = []) : l.unbounded = ⟨[], none⟩ := by
  rw [unbounded]
  split
  · rfl
  · rename_i hrest
    rw [h] at hrest
    cases hrest

theorem unbounded_of_cons (h : l.skipBlanks.rest = c :: cs) :
    l.unbounded =
      match Lexeme.read c cs with
      | .whole kind text rest =>
        (unbounded ⟨rest, l.skipBlanks.position.after text⟩).cons
          ⟨kind, String.ofList text, l.skipBlanks.position⟩
      | .openComment => ⟨[], some (.unterminatedComment l.skipBlanks.position)⟩
      | .openString _ _ => ⟨[], some (.unterminatedString l.skipBlanks.position)⟩
      | .unknown c => ⟨[], some (.unrecognizedToken c l.skipBlanks.position)⟩ := by
  rw [unbounded]
  split
  · rename_i hrest
    rw [h] at hrest
    cases hrest
  · rename_i hrest
    rw [h] at hrest
    cases hrest
    split <;> rename_i hread <;> rw [hread]

end Steps

/-! ## The cut -/

namespace Reading

variable {limit budget : Nat}

@[simp] theorem cut_cons (t : Token) (r : Reading) :
    (r.cons t).cut limit (budget + 1) = (r.cut limit budget).map (t :: ·) := by
  unfold cut
  rw [show (r.cons t).places[budget + 1]? = r.places[budget]? from rfl]
  cases r.places[budget]? with
  | some p => rfl
  | none =>
    obtain ⟨tokens, error⟩ := r
    cases error <;> rfl

theorem cut_eq_outcome {r : Reading} (h : r.places.length ≤ budget) :
    r.cut limit budget = r.outcome := by
  rw [cut, List.getElem?_eq_none h]

theorem cut_eq_tooMany {r : Reading} {p : Position} (h : r.places[budget]? = some p) :
    r.cut limit budget = .error (.tooManyTokens limit p) := by
  rw [cut, h]

theorem length_places (r : Reading) :
    r.places.length = r.tokens.length + r.error.toList.length := by
  rw [places, List.length_append, List.length_map, List.length_map]

theorem places_token {r : Reading} {t : Token} (h : r.tokens[budget]? = some t) :
    r.places[budget]? = some t.position := by
  obtain ⟨hlt, rfl⟩ := List.getElem?_eq_some_iff.mp h
  rw [places, List.getElem?_append_left (by rwa [List.length_map]), List.getElem?_map, h]
  rfl

theorem places_error {r : Reading} {e : LexError} (h : r.error = some e)
    (hlength : r.tokens.length = budget) : r.places[budget]? = some e.position := by
  subst hlength
  rw [places, List.getElem?_append_right (by rw [List.length_map]), List.length_map,
    Nat.sub_self, h]
  rfl

/-- There are no more tokens than the call may take. -/
theorem length_le_of_cut {r : Reading} {tokens : List Token}
    (h : r.cut limit budget = .ok tokens) : tokens.length ≤ budget := by
  unfold cut at h
  cases hplace : r.places[budget]? with
  | some p =>
    rw [hplace] at h
    cases h
  | none =>
    rw [hplace] at h
    have hlength := List.getElem?_eq_none_iff.mp hplace
    rw [length_places] at hlength
    obtain ⟨ts, error⟩ := r
    cases error with
    | none =>
      cases h
      exact hlength
    | some e => cases h

end Reading

/-- The first thing that is read stands after the blanks, a token or not. -/
theorem places_unbounded_zero {l : Lexer} {c : Char} {cs : List Char}
    (h : l.skipBlanks.rest = c :: cs) :
    l.unbounded.places[0]? = some l.skipBlanks.position := by
  rw [unbounded_of_cons h]
  cases Lexeme.read c cs <;> rfl

/-- A run with a bound gives the reading without a bound, cut at the bound. -/
theorem run_eq_cut (limit budget : Nat) (l : Lexer) :
    (run limit budget l).1 = l.unbounded.cut limit budget := by
  induction budget generalizing l with
  | zero =>
    cases hrest : l.skipBlanks.rest with
    | nil =>
      rw [run_of_blank hrest, unbounded_of_blank hrest]
      rfl
    | cons c cs => rw [run_zero hrest, Reading.cut_eq_tooMany (places_unbounded_zero hrest)]
  | succ budget ih =>
    cases hrest : l.skipBlanks.rest with
    | nil =>
      rw [run_of_blank hrest, unbounded_of_blank hrest]
      rfl
    | cons c cs =>
      rw [run_succ hrest, unbounded_of_cons hrest]
      cases Lexeme.read c cs with
      | whole kind text rest => simp only [Reading.cut_cons, ih]
      | openComment => rfl
      | openString text rest => rfl
      | unknown d => rfl

theorem length_pos_of_skipBlanks {l : Lexer} {c : Char} {cs : List Char}
    (h : l.skipBlanks.rest = c :: cs) : 0 < l.rest.length := by
  have hskip := l.length_skipBlanks_le
  rw [h] at hskip
  exact Nat.lt_of_lt_of_le (Nat.succ_pos _) hskip

/-- Each token takes a character at least, and so does what an error is about. -/
theorem length_places_unbounded (l : Lexer) : l.unbounded.places.length ≤ l.rest.length := by
  fun_induction unbounded l with
  | case1 l l' hrest => exact Nat.zero_le _
  | case2 l l' c cs hrest kind text rest hread ih =>
    have hlt := Lexeme.length_lt_of_read hread
    have hskip : (c :: cs).length ≤ l.rest.length := hrest ▸ l.length_skipBlanks_le
    rw [Reading.length_places] at ih ⊢
    simp only [Reading.cons, List.length_cons] at ih hlt hskip ⊢
    omega
  | case3 l l' c cs hrest _ => exact length_pos_of_skipBlanks hrest
  | case4 l l' c cs hrest _ _ _ => exact length_pos_of_skipBlanks hrest
  | case5 l l' c cs hrest _ _ => exact length_pos_of_skipBlanks hrest

end Lexer

open Lexer

/-- A call that may take `maxTokens` tokens, against the reading of the same source
without a bound.  Where the bound is above the length of the source, the two are the
same.  A bound that the tokens keep changes nothing, and an error is only reported if
there is room for one token more.  Otherwise the first lexeme that is too many is
reported, which may be a token or what the error is about.  So there are never more
tokens than the call may take. -/
theorem tokenize_truncates (maxTokens : Nat) (source : String) :
    let whole := (ofSource source).unbounded
    (∀ bound, source.length ≤ bound → tokenize bound source = whole.outcome) ∧
    (whole.error = none → whole.tokens.length ≤ maxTokens →
      tokenize maxTokens source = .ok whole.tokens) ∧
    (∀ e, whole.error = some e → whole.tokens.length < maxTokens →
      tokenize maxTokens source = .error e) ∧
    (∀ t, whole.tokens[maxTokens]? = some t →
      tokenize maxTokens source = .error (.tooManyTokens maxTokens t.position)) ∧
    (∀ e, whole.error = some e → whole.tokens.length = maxTokens →
      tokenize maxTokens source = .error (.tooManyTokens maxTokens e.position)) ∧
    (∀ tokens, tokenize maxTokens source = .ok tokens → tokens.length ≤ maxTokens) := by
  intro whole
  have hcut (bound : Nat) : tokenize bound source = whole.cut bound bound :=
    run_eq_cut bound bound (ofSource source)
  have hlength := whole.length_places
  refine ⟨?_, ?_, ?_, ?_, ?_, ?_⟩
  · intro bound hbound
    have hplaces : whole.places.length ≤ source.toList.length := length_places_unbounded _
    rw [String.length_toList] at hplaces
    rw [hcut, Reading.cut_eq_outcome (Nat.le_trans hplaces hbound)]
  · intro hnone hle
    rw [hnone] at hlength
    rw [hcut, Reading.cut_eq_outcome (hlength ▸ hle), Reading.outcome, hnone]
  · intro e hsome hlt
    rw [hsome] at hlength
    rw [hcut, Reading.cut_eq_outcome (hlength ▸ hlt), Reading.outcome, hsome]
  · intro t ht
    rw [hcut, Reading.cut_eq_tooMany (Reading.places_token ht)]
  · intro e hsome heq
    rw [hcut, Reading.cut_eq_tooMany (Reading.places_error hsome heq)]
  · intro tokens htokens
    rw [hcut] at htokens
    exact Reading.length_le_of_cut htokens

/-- Blanks may follow the last token that is allowed, but a malformed lexeme there
is one too many. -/
example : (tokenize 1 "a ").isOk = true ∧
    tokenize 1 "a #" = .error (.tooManyTokens 1 ⟨1, 3⟩) ∧
    tokenize 2 "a #" = .error (.unrecognizedToken '#' ⟨1, 3⟩) := by
  decide +kernel

end PascalSyntax
