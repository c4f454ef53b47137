import PascalSyntax.Proofs.Token.Leftmost
import PascalSyntax.Proofs.Token.Unbounded

/-!
# Calling a lexer again and again

What a call of one lexer returns after a number of other calls (`Lexer.call`).

If the source has tokens, the calls go through them in chunks of as many as a call
may take (`call_chunks`): a call leaves of the reading without a bound all but the
first `limit` tokens.

Whatever the source is, the calls settle after as many of them as it has characters
(`call_settles`).  Every call either reads a character or comes to rest, at the end of
the text or at a character that starts nothing, and a lexer at rest is left as it is
by every further call.
-/

namespace PascalSyntax

theorem Lexeme.IsUnknown.read {c : Char} (h : IsUnknown c) (cs : List Char) :
    read c cs = .unknown c := by
  rw [Lexeme.read, if_neg h.notBrace, if_neg (by simp [h.notAlpha]), if_neg (by simp [h.notDigit]),
    if_neg (by simpa [isSymbol] using h.notSymbol), if_neg h.notQuote]

namespace Lexer

/-- What the call returns that comes after `n` others, whatever they return. -/
def call (limit n : Nat) (l : Lexer) : Except LexError (List Token) :=
  ((afterCalls limit n l).tokenize limit).1

theorem afterCalls_succ (limit n : Nat) (l : Lexer) :
    afterCalls limit (n + 1) l = ((afterCalls limit n l).tokenize limit).2 := by
  induction n generalizing l with
  | zero => rfl
  | succ n ih => exact ih (l.tokenize limit).2

theorem afterCalls_add (limit k n : Nat) (l : Lexer) :
    afterCalls limit (k + n) l = afterCalls limit n (afterCalls limit k l) := by
  induction n with
  | zero => rfl
  | succ n ih => rw [← Nat.add_assoc, afterCalls_succ, afterCalls_succ, ih]

/-! ## Chunks of tokens -/

section Chunks

variable {limit budget : Nat}

theorem Reading.eq_of_cons {t : Token} {r : Reading} {tokens : List Token}
    (h : r.cons t = ⟨tokens, none⟩) : ∃ others, tokens = t :: others ∧ r = ⟨others, none⟩ := by
  obtain ⟨others, error⟩ := r
  cases h
  exact ⟨others, rfl, rfl⟩

/-- A call that returns tokens has come to the end of what there is to be read. -/
theorem Reading.eq_of_cut {r : Reading} {tokens : List Token}
    (h : r.cut limit budget = .ok tokens) : r = ⟨tokens, none⟩ := by
  obtain ⟨others, error⟩ := r
  rw [cut] at h
  split at h
  · cases h
  · cases error with
    | none =>
      cases h
      rfl
    | some e => cases h

theorem unbounded_skipBlanks (l : Lexer) : l.skipBlanks.unbounded = l.unbounded := by
  have hskip : l.skipBlanks.skipBlanks = l.skipBlanks :=
    skipBlanks_of_head? Lexeme.head?_dropWhile
  cases hrest : l.skipBlanks.rest with
  | nil => rw [unbounded_of_blank hrest, unbounded_of_blank (by rw [hskip]; exact hrest)]
  | cons c cs =>
    rw [unbounded_of_cons hrest, unbounded_of_cons (by rw [hskip]; exact hrest), hskip]

/-- A run of a source that has tokens leaves those to be read that it does not take. -/
theorem unbounded_run {l : Lexer} {tokens : List Token} (h : l.unbounded = ⟨tokens, none⟩) :
    (run limit budget l).2.unbounded = ⟨tokens.drop budget, none⟩ := by
  induction budget generalizing l tokens with
  | zero =>
    cases hrest : l.skipBlanks.rest with
    | nil => rw [run_of_blank hrest, unbounded_skipBlanks, h, List.drop_zero]
    | cons c cs => rw [run_zero hrest, unbounded_skipBlanks, h, List.drop_zero]
  | succ budget ih =>
    cases hrest : l.skipBlanks.rest with
    | nil =>
      rw [unbounded_of_blank hrest] at h
      cases h
      rw [run_of_blank hrest, unbounded_skipBlanks, unbounded_of_blank hrest, List.drop_nil]
    | cons c cs =>
      rw [unbounded_of_cons hrest] at h
      rw [run_succ hrest]
      cases hread : Lexeme.read c cs with
      | whole kind text rest =>
        rw [hread] at h
        obtain ⟨others, rfl, hothers⟩ := Reading.eq_of_cons h
        rw [List.drop_succ_cons]
        exact ih hothers
      | openComment =>
        rw [hread] at h
        cases h
      | openString text rest =>
        rw [hread] at h
        cases h
      | unknown d =>
        rw [hread] at h
        cases h

theorem unbounded_afterCalls {l : Lexer} {tokens : List Token} (h : l.unbounded = ⟨tokens, none⟩)
    (n : Nat) : (afterCalls limit n l).unbounded = ⟨tokens.drop (n * limit), none⟩ := by
  induction n with
  | zero => rw [Nat.zero_mul, List.drop_zero]; exact h
  | succ n ih =>
    rw [afterCalls_succ, Nat.succ_mul, ← List.drop_drop]
    exact unbounded_run ih

end Chunks

/-- The calls of one lexer go through the tokens of a source in chunks of as many as a
call may take.  As long as there are tokens after its chunk, a call reports the first of
these as one too many; the first call without any returns what is left for it, and the
calls after that nothing more.  `n` is the number of calls made before. -/
theorem call_chunks {maxTokens : Nat} {source : String} {tokens : List Token}
    (h : PascalSyntax.tokenize maxTokens source = .ok tokens) (limit n : Nat) :
    let result := call limit n (ofSource source)
    (∀ t, tokens[(n + 1) * limit]? = some t →
      result = .error (.tooManyTokens limit t.position)) ∧
    (tokens.length ≤ (n + 1) * limit → result = .ok (tokens.drop (n * limit))) ∧
    (tokens.length ≤ n * limit → result = .ok []) := by
  intro result
  have hwhole : (ofSource source).unbounded = ⟨tokens, none⟩ :=
    Reading.eq_of_cut ((run_eq_cut maxTokens maxTokens (ofSource source)).symm.trans h)
  have hresult : result = Reading.cut limit limit ⟨tokens.drop (n * limit), none⟩ := by
    rw [← unbounded_afterCalls hwhole]
    exact run_eq_cut limit limit _
  have hrest : tokens.length ≤ (n + 1) * limit → result = .ok (tokens.drop (n * limit)) := by
    intro hle
    rw [hresult, Reading.cut_eq_outcome]
    · rfl
    · rw [Reading.length_places, List.length_drop]
      rw [Nat.succ_mul] at hle
      exact Nat.sub_le_iff_le_add'.mpr hle
  refine ⟨?_, hrest, ?_⟩
  · intro t ht
    refine hresult.trans (Reading.cut_eq_tooMany (Reading.places_token ?_))
    rw [List.getElem?_drop, ← Nat.succ_mul]
    exact ht
  · intro hle
    rw [hrest (Nat.le_trans hle (Nat.mul_le_mul_right _ (Nat.le_succ n))), List.drop_eq_nil_of_le hle]

/-- Four words on two lines. -/
def fourWords : List Token :=
  [⟨.identifier, "a", ⟨1, 1⟩⟩, ⟨.identifier, "b", ⟨1, 3⟩⟩, ⟨.identifier, "c", ⟨2, 1⟩⟩,
    ⟨.identifier, "d", ⟨2, 3⟩⟩]

/-- Two calls are enough for twice two tokens, and the third one has nothing to read. -/
theorem fourWords_chunks :
    PascalSyntax.tokenize 4 "a b\nc d" = .ok fourWords ∧
      call 2 0 (ofSource "a b\nc d") = .error (.tooManyTokens 2 ⟨2, 1⟩) ∧
      call 2 1 (ofSource "a b\nc d") = .ok (fourWords.drop 2) ∧
      call 2 2 (ofSource "a b\nc d") = .ok [] := by
  have htokens : PascalSyntax.tokenize 4 "a b\nc d" = .ok fourWords := by decide +kernel
  obtain ⟨hmore, -, -⟩ := call_chunks htokens 2 0
  obtain ⟨-, hlast, -⟩ := call_chunks htokens 2 1
  obtain ⟨-, -, hnone⟩ := call_chunks htokens 2 2
  exact ⟨htokens, hmore ⟨.identifier, "c", ⟨2, 1⟩⟩ rfl, hlast (by decide), hnone (by decide)⟩

/-! ## Lexers at rest -/

/-- What a call returns of a lexer that it leaves as it is. -/
inductive Rests : Lexer → Except LexError (List Token) → Prop
  | finished (position : Position) : Rests ⟨[], position⟩ (.ok [])
  | unknown {c : Char} (rest : List Char) (position : Position) : Lexeme.IsUnknown c →
      Rests ⟨c :: rest, position⟩ (.error (.unrecognizedToken c position))

theorem Rests.tokenize {limit : Nat} {l : Lexer} {result : Except LexError (List Token)}
    (h : Rests l result) (hlimit : 0 < limit) : l.tokenize limit = (result, l) := by
  obtain ⟨budget, rfl⟩ := Nat.exists_eq_succ_of_ne_zero (Nat.ne_of_gt hlimit)
  cases h with
  | finished position => exact run_of_blank rfl
  | @unknown c rest position hc =>
    have hskip : skipBlanks ⟨c :: rest, position⟩ = ⟨c :: rest, position⟩ :=
      skipBlanks_cons hc.notBlank
    rw [Lexer.tokenize, run_succ (congrArg Lexer.rest hskip), hc.read, hskip]

theorem Rests.afterCalls {limit n : Nat} {l : Lexer} {result : Except LexError (List Token)}
    (h : Rests l result) (hlimit : 0 < limit) : afterCalls limit n l = l := by
  induction n with
  | zero => rfl
  | succ n ih => rw [afterCalls_succ, ih, h.tokenize hlimit]

/-- A call whose error is not about an unknown character has read something: its tokens,
at least one of them if there are too many, or the text that the error is about. -/
theorem Stops.ne_nil {limit budget : Nat} {start : Position} {text rest : List Char}
    {e : LexError} (h : Stops limit budget start text rest (.error e)) (hbudget : 0 < budget)
    (he : ∀ c p, e ≠ .unrecognizedToken c p) : text ≠ [] := by
  cases h with
  | openComment _ _ => exact List.append_ne_nil_of_right_ne_nil _ (List.cons_ne_nil _ _)
  | openString _ _ _ => exact List.append_ne_nil_of_right_ne_nil _ (List.cons_ne_nil _ _)
  | unknown _ _ => exact absurd rfl (he _ _)
  | full hok hcount _ =>
    have hle : budget ≤ text.length := hcount ▸ length_le_of_run hok
    exact List.ne_nil_of_length_pos (Nat.lt_of_lt_of_le hbudget hle)

/-- After any other call the lexer is at rest. -/
theorem Stops.rests {limit budget : Nat} {start : Position} {text rest : List Char}
    {result : Except LexError (List Token)} (h : Stops limit budget start text rest result)
    (he : ∀ e, result = .error e → ∃ c p, e = .unrecognizedToken c p) :
    ∃ final, Rests ⟨rest, start.after text⟩ final := by
  cases h with
  | finished _ _ => exact ⟨_, .finished _⟩
  | openComment _ _ => obtain ⟨_, _, ⟨⟩⟩ := he _ rfl
  | openString _ _ _ => obtain ⟨_, _, ⟨⟩⟩ := he _ rfl
  | unknown _ hc => exact ⟨_, .unknown _ _ hc⟩
  | full _ _ _ => obtain ⟨_, _, ⟨⟩⟩ := he _ rfl

/-- One call reads a character or comes to rest. -/
theorem reads_or_rests {limit : Nat} (hlimit : 0 < limit) (l : Lexer) :
    (l.tokenize limit).2.rest.length < l.rest.length ∨
      ∃ final, Rests (l.tokenize limit).2 final := by
  obtain ⟨text, hrest, hposition, hstops⟩ := run_stops limit limit l
  by_cases he : ∀ e, (run limit limit l).1 = .error e → ∃ c p, e = .unrecognizedToken c p
  · right
    obtain ⟨final, hfinal⟩ := hstops.rests he
    rw [← hposition] at hfinal
    exact ⟨final, hfinal⟩
  · left
    push Not at he
    obtain ⟨e, hresult, hpassed⟩ := he
    rw [hresult] at hstops
    have hpos := List.length_pos_of_ne_nil (hstops.ne_nil hlimit hpassed)
    have hlength := congrArg List.length hrest
    rw [List.length_append] at hlength
    rw [Lexer.tokenize]
    omega

/-- After as many calls as there are characters the lexer is at rest. -/
theorem exists_rests {limit n : Nat} (hlimit : 0 < limit) {l : Lexer} (hn : l.rest.length ≤ n) :
    ∃ final, Rests (Lexer.afterCalls limit n l) final := by
  induction n generalizing l with
  | zero =>
    obtain ⟨rest, position⟩ := l
    obtain rfl := List.eq_nil_of_length_eq_zero (Nat.le_zero.mp hn)
    exact ⟨_, .finished position⟩
  | succ n ih =>
    rcases reads_or_rests hlimit l with hlt | ⟨final, hfinal⟩
    · exact ih (by omega)
    · refine ⟨final, ?_⟩
      rw [Lexer.afterCalls, hfinal.afterCalls hlimit]
      exact hfinal

theorem Rests.eq_nil_or_unknown {l : Lexer} {result : Except LexError (List Token)}
    (h : Rests l result) : result = .ok [] ∨ ∃ c p, result = .error (.unrecognizedToken c p) := by
  cases h with
  | finished _ => exact .inl rfl
  | unknown _ _ _ => exact .inr ⟨_, _, rfl⟩

/-- However malformed a source is, calling its lexer again and again settles: from the
call on that comes after as many others as the source has characters, all calls return
the same, which is no tokens or one unknown character that stays where it is.  On the way
every call reads at least a character that ends at an open comment, an open string or
one token too many. -/
theorem call_settles {limit : Nat} (hlimit : 1 ≤ limit) (source : String) :
    (∃ final : Except LexError (List Token),
      (final = .ok [] ∨ ∃ c p, final = .error (.unrecognizedToken c p)) ∧
      ∀ n, source.length ≤ n → call limit n (ofSource source) = final) ∧
    ∀ n e, call limit n (ofSource source) = .error e → (∀ c p, e ≠ .unrecognizedToken c p) →
      ∃ text, text ≠ [] ∧ (afterCalls limit n (ofSource source)).rest =
        text ++ (afterCalls limit (n + 1) (ofSource source)).rest := by
  constructor
  · have hlength : (ofSource source).rest.length ≤ source.length :=
      Nat.le_of_eq String.length_toList
    obtain ⟨final, hfinal⟩ := exists_rests hlimit hlength
    refine ⟨final, hfinal.eq_nil_or_unknown, ?_⟩
    intro n hn
    obtain ⟨later, rfl⟩ := Nat.exists_eq_add_of_le hn
    rw [call, afterCalls_add, hfinal.afterCalls hlimit, hfinal.tokenize hlimit]
  · intro n e he hpassed
    obtain ⟨text, hrest, -, hstops⟩ := run_stops limit limit (afterCalls limit n (ofSource source))
    rw [afterCalls_succ]
    refine ⟨text, ?_, hrest⟩
    rw [show (run limit limit _).1 = .error e from he] at hstops
    exact hstops.ne_nil hlimit hpassed

/-- A string that its line cuts off, and two words before a character that starts nothing. -/
def cutLine : String :=
  "'a\nb c #"

/-- Taken one token at a time, the lexer passes the open string and both words, and is
then stuck at the character for good. -/
theorem cutLine_settles :
    (∀ n, 8 ≤ n → call 1 n (ofSource cutLine) = .error (.unrecognizedToken '#' ⟨2, 5⟩)) ∧
      call 1 0 (ofSource cutLine) = .error (.unterminatedString ⟨1, 1⟩) ∧
      ∃ text, text ≠ [] ∧ (afterCalls 1 0 (ofSource cutLine)).rest =
        text ++ (afterCalls 1 1 (ofSource cutLine)).rest := by
  obtain ⟨⟨final, -, hfinal⟩, hreads⟩ := call_settles (Nat.le_refl 1) cutLine
  have hstuck : call 1 8 (ofSource cutLine) = .error (.unrecognizedToken '#' ⟨2, 5⟩) := by
    decide +kernel
  have hcut : call 1 0 (ofSource cutLine) = .error (.unterminatedString ⟨1, 1⟩) := by
    decide +kernel
  have hlength : cutLine.length = 8 := by decide
  obtain rfl : final = _ := (hfinal 8 (Nat.le_of_eq hlength)).symm.trans hstuck
  refine ⟨fun n hn => hfinal n (hlength ▸ hn), hcut, ?_⟩
  exact hreads 0 _ hcut (by rintro _ _ ⟨⟩)

end Lexer
end PascalSyntax
