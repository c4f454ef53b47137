import Mathlib.Data.List.Forall2
import PascalSyntax.Expr.Parser
import PascalSyntax.Parser.Error
import PascalSyntax.Proofs.Parser.Places

/-!
# Walks among tokens

A walk goes about among tokens step by step: it goes on by a token, reads an instance of a terminal
if one is next, reads one that has to be there, reads a name, keeps a copy of the spot where it is,
or goes back to one of its copies.  A tour is a walk with the rows that it shows: what each step
answers, and what is seen from the spot after it.

The same steps can be taken on cursors, on places among all tokens, and on bare numbers, where `k`
is the spot behind `k` significant tokens.  The three tours show the same rows, and at every moment
the cursor and the place, and each copy of them, stand at the number (`Ground.tours_counted`).

On each of these grounds what is read follows from what is seen (`Sight.ground`).  So two walks stay
together if the same is seen from related spots and the spots after these are related again
(`Sight.Follows`).
-/

namespace PascalSyntax

/-- What is seen from a spot among tokens, and the spot after the token there. -/
structure Sight (σ : Type) where
  peek? : σ → Option Token
  atEnd : σ → Bool
  location : σ → Position
  advance : σ → σ

/-- A sight, and what can be read from a spot. -/
@[ext] structure Ground (σ : Type) extends Sight σ where
  /-- Reads an instance of a terminal if one is next. -/
  take? : Terminal → σ → Option (Token × σ)
  /-- Reads an instance of a terminal, which has to be there. -/
  take : Terminal → Option String → σ → Except ParseError (Token × σ)
  /-- Reads a name, which has to be there. -/
  identifier : σ → Except ParseError (Identifier × σ)

/-! ## Walks -/

/-- A step of a walk. -/
inductive Walk.Step where
  | advance
  | take? (terminal : Terminal)
  | take (terminal : Terminal) (place : Option String)
  | identifier
  /-- Keeps a copy of the spot where the walk is. -/
  | save
  /-- Goes back to the copy that was kept before the last `n`.  All copies stay. -/
  | restore (n : Nat)

/-- What a step answers. -/
inductive Walk.Answer where
  | silent
  | taken (t : Option Token)
  | required (read : Except ParseError Token)
  | named (read : Except ParseError Identifier)

/-- What a step answers, and what is seen after it. -/
structure Walk.Row where
  answer : Walk.Answer
  next : Option Token
  atEnd : Bool
  location : Position

/-- The spot where a walk is, and the copies of spots that it has kept, the last one first. -/
structure Walk (σ : Type) where
  here : σ
  kept : List σ := []

namespace Ground

open Walk (Step Answer Row)

/-- One step.  A walk that does not find what it is to read stays where it is, and so does one that
has no copy to go back to. -/
def step (g : Ground σ) (w : Walk σ) : Step → Answer × Walk σ
  | .advance => (.silent, { w with here := g.advance w.here })
  | .take? a =>
    match g.take? a w.here with
    | some (t, next) => (.taken (some t), { w with here := next })
    | none => (.taken none, w)
  | .take a place =>
    match g.take a place w.here with
    | .ok (t, next) => (.required (.ok t), { w with here := next })
    | .error e => (.required (.error e), w)
  | .identifier =>
    match g.identifier w.here with
    | .ok (x, next) => (.named (.ok x), { w with here := next })
    | .error e => (.named (.error e), w)
  | .save => (.silent, { w with kept := w.here :: w.kept })
  | .restore n => (.silent, { w with here := w.kept[n]?.getD w.here })

def row (g : Ground σ) (answer : Answer) (s : σ) : Row :=
  ⟨answer, g.peek? s, g.atEnd s, g.location s⟩

/-- All steps of a walk, with a row for each. -/
def walk (g : Ground σ) (w : Walk σ) : List Step → List Row × Walk σ
  | [] => ([], w)
  | step :: steps =>
    let (answer, next) := g.step w step
    let (rows, last) := g.walk next steps
    (g.row answer next.here :: rows, last)

theorem walk_cons (g : Ground σ) (w : Walk σ) (step : Step) (steps : List Step) :
    g.walk w (step :: steps) =
      (g.row (g.step w step).1 (g.step w step).2.here :: (g.walk (g.step w step).2 steps).1,
        (g.walk (g.step w step).2 steps).2) := rfl

/-- A walk from a spot, with a row for that spot too. -/
def tour (g : Ground σ) (start : σ) (steps : List Step) : List Row × Walk σ :=
  let (rows, last) := g.walk { here := start } steps
  (g.row .silent start :: rows, last)

end Ground

/-! ## Grounds -/

namespace Sight

/-- The token at a spot, if it is an instance of a terminal. -/
def seen? (v : Sight σ) (a : Terminal) (s : σ) : Option Token :=
  (v.peek? s).filter (a.admits ·)

/-- The error for want of something at a spot. -/
def missing (v : Sight σ) (what : Expectation) (s : σ) : ParseError :=
  match v.peek? s with
  | some t => .unexpectedToken what t
  | none => .missingTerminal what (v.location s)

/-- Reading by sight: the token that is seen is read if it is an instance of the terminal. -/
def ground (v : Sight σ) : Ground σ where
  toSight := v
  take? a s := (v.seen? a s).map (·, v.advance s)
  take a place s :=
    match v.seen? a s with
    | some t => .ok (t, v.advance s)
    | none => .error (v.missing (.oneOf [a] place) s)
  identifier s :=
    match v.seen? .identifier s with
    | some t => .ok (t.toIdentifier, v.advance s)
    | none => .error (v.missing (.oneOf [.identifier] none) s)

end Sight

namespace Ground

/-- The spots at which readers run.  Errors are reported for tokens that end at `finish`, which may
be told by the spot, and under a bound on the nesting. -/
def ofSpots [Spot σ] (finish : σ → Position) (maxDepth : Nat) : Ground σ where
  peek? := Spot.peek?
  atEnd := Spot.atEnd
  location s := Spot.location s (finish s)
  advance := Spot.advance
  take? a s := Spot.take? s a
  take a place s := (Spot.take s a place).mapError (·.report (finish s) maxDepth)
  identifier s := (Parser.identifier s).mapError (·.report (finish s) maxDepth)

/-- The cursors of some tokens. -/
def cursors (tokens : List Token) (maxDepth : Nat) : Ground Cursor :=
  ofSpots (fun _ => Token.endOf tokens) maxDepth

/-- The places among tokens, each with the end of its own tokens. -/
def places (maxDepth : Nat) : Ground (Place maxDepth) :=
  ofSpots (fun place => Token.endOf place.tokens.toList) maxDepth

/-- The location of the spot behind `k` significant tokens.  At the end it is the position just past
the last token that was written, a comment counted, or the start if no token was. -/
def locationAt (tokens : List Token) (k : Nat) : Position :=
  match (Token.significant tokens)[k]? with
  | some t => t.position
  | none =>
    match tokens.getLast? with
    | some last => last.endPosition
    | none => ⟨1, 1⟩

/-- The numbers of significant tokens that a spot can be behind.  The token at a spot is the
significant one with that number, counted from 0. -/
def counting (tokens : List Token) : Ground Nat where
  peek? k := (Token.significant tokens)[k]?
  atEnd k := k = (Token.significant tokens).length
  location := locationAt tokens
  advance k := min (k + 1) (Token.significant tokens).length
  take? a k :=
    match (Token.significant tokens)[k]? with
    | some t => if a.admits t then some (t, k + 1) else none
    | none => none
  take a place k :=
    match (Token.significant tokens)[k]? with
    | some t =>
      if a.admits t then .ok (t, k + 1) else .error (.unexpectedToken (.oneOf [a] place) t)
    | none => .error (.missingTerminal (.oneOf [a] place) (locationAt tokens k))
  identifier k :=
    match (Token.significant tokens)[k]? with
    | some t =>
      if t.kind = .identifier then
        .ok (⟨t.text, t.origin⟩, k + 1)
      else
        .error (.unexpectedToken (.oneOf [.identifier] none) t)
    | none => .error (.missingTerminal (.oneOf [.identifier] none) (locationAt tokens k))

/-! ## Reading by sight -/

section Spots

variable [Spot σ] (finish : σ → Position) (maxDepth : Nat)

/-- The failure for want of something is reported as the error for want of it at the same spot. -/
theorem report_missing (what : Expectation) (s : σ) :
    (Spot.missing s what).report (finish s) maxDepth =
      (ofSpots finish maxDepth).missing what s := by
  simp only [FailureAt.report, Spot.missing, Sight.missing, ofSpots, Spot.location]
  cases Spot.peek? s <;> rfl

theorem take?_eq (a : Terminal) (s : σ) :
    Spot.take? s a = ((ofSpots finish maxDepth).seen? a s).map (·, Spot.advance s) := by
  simp only [Spot.take?, Sight.seen?, ofSpots]
  cases Spot.peek? s with
  | none => rfl
  | some t => by_cases h : a.admits t <;> simp [h, Option.filter_some]

theorem take_eq (a : Terminal) (place : Option String) (s : σ) :
    (Spot.take s a place).mapError (·.report (finish s) maxDepth) =
      (ofSpots finish maxDepth).toSight.ground.take a place s := by
  simp only [Sight.ground]
  rw [Spot.take, take?_eq finish maxDepth]
  cases (ofSpots finish maxDepth).seen? a s with
  | none => exact congrArg Except.error (report_missing finish maxDepth _ s)
  | some t => rfl

theorem identifier_eq (s : σ) :
    (Parser.identifier s).mapError (·.report (finish s) maxDepth) =
      (ofSpots finish maxDepth).toSight.ground.identifier s := by
  simp only [Sight.ground]
  rw [Parser.identifier, Parser.bind_apply, Parser.andThen, Parser.take, Spot.take,
    take?_eq finish maxDepth]
  cases (ofSpots finish maxDepth).seen? .identifier s with
  | none => exact congrArg Except.error (report_missing finish maxDepth _ s)
  | some t => rfl

/-- Spots are read by sight. -/
theorem ofSpots_eq : ofSpots finish maxDepth = (ofSpots finish maxDepth).toSight.ground :=
  Ground.ext rfl rfl rfl rfl (funext₂ (take?_eq finish maxDepth))
    (funext₃ (take_eq finish maxDepth)) (funext (identifier_eq finish maxDepth))

end Spots

/-- Numbers are read by sight: where there is a token to be read, the number after it is no greater
than that of all significant tokens. -/
theorem counting_eq (tokens : List Token) :
    counting tokens = (counting tokens).toSight.ground := by
  have hnext {k : Nat} {t : Token} (h : (Token.significant tokens)[k]? = some t) :
      min (k + 1) (Token.significant tokens).length = k + 1 :=
    Nat.min_eq_left (List.getElem?_eq_some_iff.mp h).1
  refine Ground.ext rfl rfl rfl rfl ?_ ?_ ?_
  · funext a k
    simp only [counting, Sight.ground, Sight.seen?]
    cases h : (Token.significant tokens)[k]? with
    | none => rfl
    | some t => by_cases ha : a.admits t <;> simp [ha, hnext h, Option.filter_some]
  · funext a place k
    simp only [counting, Sight.ground, Sight.seen?, Sight.missing]
    cases h : (Token.significant tokens)[k]? with
    | none => rfl
    | some t => by_cases ha : a.admits t <;> simp [ha, hnext h, Option.filter_some]
  · funext k
    simp only [counting, Sight.ground, Sight.seen?, Sight.missing]
    cases h : (Token.significant tokens)[k]? with
    | none => rfl
    | some t =>
      by_cases ht : t.kind = .identifier <;>
        simp [ht, hnext h, Option.filter_some, Terminal.admits, Token.toIdentifier]

end Ground

/-! ## Walks that stay together -/

/-- The same is seen from related spots, and the spots after them are related again. -/
structure Sight.Follows (v : Sight σ) (R : σ → τ → Prop) (v' : Sight τ) : Prop where
  peek?_eq : ∀ {s s'}, R s s' → v.peek? s = v'.peek? s'
  atEnd_eq : ∀ {s s'}, R s s' → v.atEnd s = v'.atEnd s'
  location_eq : ∀ {s s'}, R s s' → v.location s = v'.location s'
  advance : ∀ {s s'}, R s s' → R (v.advance s) (v'.advance s')

/-- Two walks are at related spots, and their copies are related one by one. -/
structure Walk.Beside (R : σ → τ → Prop) (w : Walk σ) (w' : Walk τ) : Prop where
  here : R w.here w'.here
  kept : List.Forall₂ R w.kept w'.kept

section Together

variable {R : σ → τ → Prop} {v : Sight σ} {v' : Sight τ} {s : σ} {s' : τ} {w : Walk σ} {w' : Walk τ}

theorem Walk.Beside.restored (hw : w.Beside R w') (n : Nat) :
    R (w.kept[n]?.getD w.here) (w'.kept[n]?.getD w'.here) := by
  have hlen := hw.kept.length_eq
  by_cases hn : n < w.kept.length
  · have hn' : n < w'.kept.length := hlen ▸ hn
    rw [List.getElem?_eq_getElem hn, List.getElem?_eq_getElem hn']
    exact hw.kept.get hn hn'
  · have hn' : ¬ n < w'.kept.length := hlen ▸ hn
    rw [List.getElem?_eq_none (Nat.not_lt.mp hn), List.getElem?_eq_none (Nat.not_lt.mp hn')]
    exact hw.here

namespace Sight.Follows

theorem seen?_eq (h : v.Follows R v') (hs : R s s') (a : Terminal) :
    v.seen? a s = v'.seen? a s' := by
  rw [seen?, seen?, h.peek?_eq hs]

theorem missing_eq (h : v.Follows R v') (hs : R s s') (what : Expectation) :
    v.missing what s = v'.missing what s' := by
  rw [missing, missing, h.peek?_eq hs, h.location_eq hs]

theorem row_eq (h : v.Follows R v') (hs : R s s') (answer : Walk.Answer) :
    v.ground.row answer s = v'.ground.row answer s' := by
  show Walk.Row.mk answer (v.peek? s) (v.atEnd s) (v.location s) =
    ⟨answer, v'.peek? s', v'.atEnd s', v'.location s'⟩
  rw [h.peek?_eq hs, h.atEnd_eq hs, h.location_eq hs]

/-- One step keeps walks together, and it answers the same. -/
theorem step (h : v.Follows R v') (hw : w.Beside R w') (step : Walk.Step) :
    (v.ground.step w step).1 = (v'.ground.step w' step).1 ∧
      (v.ground.step w step).2.Beside R (v'.ground.step w' step).2 := by
  have hnext : ({ w with here := v.advance w.here } : Walk σ).Beside R
      { w' with here := v'.advance w'.here } := ⟨h.advance hw.here, hw.kept⟩
  -- What is seen decides what is read: both walks find the token and go on, or both stay.
  cases step with
  | advance => exact ⟨rfl, hnext⟩
  | take? a =>
    simp only [Ground.step, ground, h.seen?_eq hw.here]
    cases v'.seen? a w'.here with
    | none => exact ⟨rfl, hw⟩
    | some t => exact ⟨rfl, hnext⟩
  | take a place =>
    simp only [Ground.step, ground, h.seen?_eq hw.here, h.missing_eq hw.here]
    cases v'.seen? a w'.here with
    | none => exact ⟨rfl, hw⟩
    | some t => exact ⟨rfl, hnext⟩
  | identifier =>
    simp only [Ground.step, ground, h.seen?_eq hw.here, h.missing_eq hw.here]
    cases v'.seen? .identifier w'.here with
    | none => exact ⟨rfl, hw⟩
    | some t => exact ⟨rfl, hnext⟩
  | save => exact ⟨rfl, hw.here, .cons hw.here hw.kept⟩
  | restore n => exact ⟨rfl, hw.restored n, hw.kept⟩

/-- All steps keep walks together, and they show the same rows. -/
theorem walk (h : v.Follows R v') (hw : w.Beside R w') (steps : List Walk.Step) :
    (v.ground.walk w steps).1 = (v'.ground.walk w' steps).1 ∧
      (v.ground.walk w steps).2.Beside R (v'.ground.walk w' steps).2 := by
  induction steps generalizing w w' with
  | nil => exact ⟨rfl, hw⟩
  | cons step steps ih =>
    obtain ⟨hanswer, hstep⟩ := h.step hw step
    obtain ⟨hrows, hlast⟩ := ih hstep
    refine ⟨?_, hlast⟩
    rw [Ground.walk_cons, Ground.walk_cons, hanswer, h.row_eq hstep.here, hrows]

theorem tour (h : v.Follows R v') (hs : R s s') (steps : List Walk.Step) :
    (v.ground.tour s steps).1 = (v'.ground.tour s' steps).1 ∧
      (v.ground.tour s steps).2.Beside R (v'.ground.tour s' steps).2 := by
  have hstart : ({ here := s } : Walk σ).Beside R { here := s' } := ⟨hs, .nil⟩
  obtain ⟨hrows, hlast⟩ := h.walk hstart steps
  exact ⟨congrArg₂ List.cons (h.row_eq hs .silent) hrows, hlast⟩

end Sight.Follows

end Together

/-! ## Cursors and places at numbers -/

/-- The cursor is at the spot behind `k` significant tokens. -/
structure Cursor.StandsAt (tokens : List Token) (c : Cursor) (k : Nat) : Prop where
  rest_eq : c.rest = (Token.significant tokens).drop k
  le_length : k ≤ (Token.significant tokens).length

/-- The place is among the tokens, not on a comment, and behind `k` significant ones. -/
structure Place.StandsAt (tokens : List Token) (place : Place maxDepth) (k : Nat) : Prop where
  tokens_eq : place.tokens.toList = tokens
  offComments : place.OffComments
  behind : (Token.significant (tokens.take place.index)).length = k

namespace Cursor.StandsAt

variable {tokens : List Token} {c : Cursor} {k : Nat}

theorem peek?_eq (h : c.StandsAt tokens k) : Spot.peek? c = (Token.significant tokens)[k]? := by
  show c.rest.head? = _
  rw [h.rest_eq, List.head?_drop]

theorem atEnd_eq (h : c.StandsAt tokens k) :
    Spot.atEnd c = decide (k = (Token.significant tokens).length) := by
  have hle := h.le_length
  show c.rest.isEmpty = _
  rw [h.rest_eq, Bool.eq_iff_iff, List.isEmpty_iff, List.drop_eq_nil_iff, decide_eq_true_iff]
  omega

theorem location_eq (h : c.StandsAt tokens k) :
    Spot.location c (Token.endOf tokens) = Ground.locationAt tokens k := by
  rw [Spot.location, h.peek?_eq]
  rfl

theorem advance (h : c.StandsAt tokens k) :
    (Spot.advance c).StandsAt tokens (min (k + 1) (Token.significant tokens).length) where
  rest_eq := by
    have hle := h.le_length
    show c.rest.tail = _
    rw [h.rest_eq, List.tail_drop]
    by_cases hlt : k < (Token.significant tokens).length
    · rw [Nat.min_eq_left hlt]
    -- at the end there is nothing more to be dropped
    · rw [Nat.min_eq_right (by omega), List.drop_length, List.drop_eq_nil_of_le (by omega)]
  le_length := Nat.min_le_right _ _

end Cursor.StandsAt

namespace Place

variable {maxDepth : Nat} {place : Place maxDepth}

/-- The significant tokens are those behind a place and those that its cursor has still to see. -/
theorem significant_eq (place : Place maxDepth) :
    Token.significant place.tokens.toList =
      Token.significant (place.tokens.toList.take place.index) ++ place.cursor.rest := by
  rw [cursor, Cursor.ofTokens_rest, ahead, Token.significant, Token.significant, Token.significant,
    ← List.filter_append, List.take_append_drop]

theorem location_cursor (off : place.OffComments) (finish : Position) :
    Spot.location place.cursor finish = Spot.location place finish := by
  rw [Spot.location, Spot.location, peek?_cursor off]

namespace StandsAt

variable {tokens : List Token} {k : Nat}

theorem cursor (h : place.StandsAt tokens k) : place.cursor.StandsAt tokens k := by
  obtain ⟨rfl, -, hk⟩ := h
  have hsplit := significant_eq place
  constructor
  · rw [hsplit, ← hk, List.drop_left]
  · rw [hsplit, List.length_append, hk]
    exact Nat.le_add_right _ _

/-- A place off the comments is behind as many significant tokens as its cursor is. -/
theorem of_cursor (htokens : place.tokens.toList = tokens) (off : place.OffComments)
    (h : place.cursor.StandsAt tokens k) : place.StandsAt tokens k := by
  subst htokens
  refine ⟨rfl, off, ?_⟩
  -- The tokens behind are counted by those ahead, since the two together are all.
  have hlen := congrArg List.length (significant_eq place)
  rw [List.length_append, h.rest_eq, List.length_drop] at hlen
  have hle := h.le_length
  omega

theorem advance (h : place.StandsAt tokens k) :
    (Spot.advance place).StandsAt tokens (min (k + 1) (Token.significant tokens).length) := by
  have onward := onward_advance h.offComments
  refine of_cursor ((congrArg Array.toList onward.tokens_eq).trans h.tokens_eq)
    onward.offComments ?_
  show place.advance.cursor.StandsAt _ _
  rw [cursor_advance h.offComments]
  exact h.cursor.advance

end StandsAt
end Place

namespace Ground

theorem cursors_follows (tokens : List Token) (maxDepth : Nat) :
    (cursors tokens maxDepth).Follows (Cursor.StandsAt tokens) (counting tokens).toSight where
  peek?_eq := Cursor.StandsAt.peek?_eq
  atEnd_eq := Cursor.StandsAt.atEnd_eq
  location_eq := Cursor.StandsAt.location_eq
  advance := Cursor.StandsAt.advance

theorem places_follows (tokens : List Token) (maxDepth : Nat) :
    (places maxDepth).Follows (Place.StandsAt tokens) (counting tokens).toSight where
  peek?_eq h := (Place.peek?_cursor h.offComments).symm.trans h.cursor.peek?_eq
  atEnd_eq h := (Place.atEnd_cursor h.offComments).symm.trans h.cursor.atEnd_eq
  location_eq := by
    intro place k h
    obtain rfl := h.tokens_eq
    exact (Place.location_cursor h.offComments _).symm.trans h.cursor.location_eq
  advance := Place.StandsAt.advance

/-- A cursor is a number of significant tokens, and so is a place among all tokens.  Whatever the
steps of a tour are, on cursors and on places it shows the rows that it shows on numbers, and in the
end, which is any moment of a longer tour, the cursor, the place and all their copies stand at the
numbers.  None of these is greater than the number of the significant tokens, and no place is on a
comment. -/
theorem tours_counted (tokens : List Token) (maxDepth : Nat) (steps : List Walk.Step) :
    let count := (counting tokens).tour 0 steps
    let read := (cursors tokens maxDepth).tour (.ofTokens tokens) steps
    let passed := (places maxDepth).tour (.start maxDepth tokens) steps
    (read.1 = count.1 ∧ read.2.Beside (Cursor.StandsAt tokens) count.2) ∧
      passed.1 = count.1 ∧ passed.2.Beside (Place.StandsAt tokens) count.2 := by
  have hcursor : (Cursor.ofTokens tokens).StandsAt tokens 0 := ⟨rfl, Nat.zero_le _⟩
  have hplace : (Place.start maxDepth tokens).StandsAt tokens 0 := by
    have onward := Place.onward_start maxDepth tokens
    refine .of_cursor (congrArg Array.toList onward.tokens_eq) onward.offComments ?_
    rw [Place.cursor_start]
    exact hcursor
  have hcursors : cursors tokens maxDepth = (cursors tokens maxDepth).toSight.ground :=
    ofSpots_eq _ _
  have hplaces : places maxDepth = (places maxDepth).toSight.ground := ofSpots_eq _ _
  rw [hcursors, hplaces, counting_eq]
  exact ⟨(cursors_follows tokens maxDepth).tour hcursor steps,
    (places_follows tokens maxDepth).tour hplace steps⟩

/-- In `{} x {}` a walk that has read the name is at the end, past the last comment, and can go back
to the copy from before. -/
example :
    let tokens : List Token := [⟨.comment, "\x7b\x7d", ⟨1, 1⟩⟩, ⟨.identifier, "x", ⟨1, 4⟩⟩,
      ⟨.comment, "\x7b\x7d", ⟨1, 6⟩⟩]
    ((cursors tokens 64).tour (.ofTokens tokens) [.save, .identifier, .restore 0]).1.map
        (fun row => (row.atEnd, row.location)) =
      [(false, ⟨1, 4⟩), (false, ⟨1, 4⟩), (true, ⟨1, 8⟩), (false, ⟨1, 4⟩)] := by
  cbv

end Ground
end PascalSyntax
