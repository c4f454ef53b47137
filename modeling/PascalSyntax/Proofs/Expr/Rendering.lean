import PascalSyntax.Proofs.Expr.Reading
import PascalSyntax.Proofs.Program.Mirroring
import PascalSyntax.Proofs.Tree.Erasure

/-!
# Renderings of expressions

A rendering writes an expression as tokens, whatever the origins of its nodes
are.  It puts parentheses around an operand at least where the operand binds
less than its place requires, and anywhere else as it likes.  The main statement
is that reading a rendering gives back the expression, apart from the origins:
the levels of the operators, their grouping to the left, the two meanings of
`-`, and the parentheses are all read as they are meant.
-/

namespace PascalSyntax

namespace Argument

/-- No formal parameter is known for the argument. -/
def Unbound (a : Argument) : Prop :=
  a.parameter = none ∧ a.typeName = none ∧ a.byReference = false

end Argument

/-- The tokens write the expression at a place of strength `k`: a binary operator
of a level below `k` has to stand in parentheses there.  The left operand of an
operator is at a place of the strength of its level, the right operand at one of
the next, and the operand of a unary operator admits no binary operator. -/
inductive Expr.Rendering : Nat → Expr → List Token → Prop
  | identifier {k : Nat} {x : Identifier} {t : Token} :
      Terminal.identifier.admits t → t.text = x.name → Rendering k (.identifier x) [t]
  | integer {k : Nat} {literal : IntegerLiteral} {t : Token} :
      Terminal.number.admits t → Numeral.signed? t.text.toList = some literal.value →
      Rendering k (.integer literal) [t]
  | string {k : Nat} {literal : StringLiteral} {t : Token} :
      Terminal.string.admits t → t.unquoted = literal.value → Rendering k (.string literal) [t]
  | emptyCall {k : Nat} {routine : Identifier} {origin : Origin} {name opening closing : Token} :
      Terminal.identifier.admits name → name.text = routine.name →
      (Terminal.symbol "(").admits opening → (Terminal.symbol ")").admits closing →
      Rendering k (.call ⟨routine, [], origin⟩) [name, opening, closing]
  | call {k : Nat} {routine : Identifier} {origin : Origin} {name opening closing : Token}
      {pieces : List (Argument × List Token)} {ts : List Token} :
      Terminal.identifier.admits name → name.text = routine.name →
      (Terminal.symbol "(").admits opening →
      (∀ piece ∈ pieces, piece.1.Unbound) →
      (∀ piece ∈ pieces, Rendering 0 piece.1.value piece.2) →
      Separated (.symbol ",") Eq (pieces.map (·.2)) ts →
      (Terminal.symbol ")").admits closing →
      Rendering k (.call ⟨routine, pieces.map (·.1), origin⟩)
        (name :: opening :: (ts ++ [closing]))
  | parenthesized {k : Nat} {e : Expr} {opening closing : Token} {ts : List Token} :
      (Terminal.symbol "(").admits opening → Rendering 0 e ts →
      (Terminal.symbol ")").admits closing → Rendering k e (opening :: (ts ++ [closing]))
  | unary {k : Nat} {op : UnaryOperator} {e : Expr} {origin : Origin} {t : Token}
      {ts : List Token} :
      op.terminal.admits t → Rendering 3 e ts → Rendering k (.unary op e origin) (t :: ts)
  | binary {k : Nat} {op : BinaryOperator} {left right : Expr} {origin : Origin} {t : Token}
      {us vs : List Token} :
      k ≤ op.level → Rendering op.level left us → op.terminal.admits t →
      Rendering (op.level + 1) right vs →
      Rendering k (.binary op left right origin) (us ++ t :: vs)

namespace Expr

theorem Rendering.ne_nil {k : Nat} {e : Expr} {ts : List Token} (h : Rendering k e ts) :
    ts ≠ [] := by
  cases h <;> simp

theorem toIdentifier_mapOrigin {f : Origin → Origin} {x : Identifier} {t : Token}
    (h : t.text = x.name) (hf : f t.origin = f x.origin) :
    t.toIdentifier.mapOrigin f = x.mapOrigin f := by
  simp [Token.toIdentifier, Identifier.mapOrigin, h, hf]

/-- An unbound argument is determined by its value, apart from its origins. -/
theorem ofValue_mapOrigin {a : Argument} (h : a.Unbound) {e : Expr} (he : e.erase = a.value.erase) :
    (Argument.ofValue e).mapOrigin (fun _ => .erased) = a.mapOrigin (fun _ => .erased) := by
  obtain ⟨value, parameter, typeName, byReference, origin⟩ := a
  obtain ⟨rfl, rfl, rfl⟩ := h
  simp only [Argument.ofValue, Argument.mapOrigin, Option.map_none]
  rw [show e.mapOrigin _ = value.mapOrigin _ from he]

/-- A rendering spells the expression, once the origins are those of the tokens. -/
theorem Rendering.spelling {k : Nat} {e : Expr} {ts : List Token} (h : Rendering k e ts) :
    ∀ levels : Nat, ts.length ≤ levels + 1 →
      ∃ e', e'.erase = e.erase ∧ Spelling levels k e' ts := by
  induction h with
  | @identifier k x t ht hx =>
    intro levels _
    refine ⟨.identifier t.toIdentifier, ?_, .identifier ht⟩
    simp only [erase, mapOrigin, toIdentifier_mapOrigin hx]
  | @integer k literal t ht hv =>
    exact fun _ _ => ⟨.integer ⟨literal.value, t.origin⟩, rfl, .integer ht hv⟩
  | @string k literal t ht hv =>
    refine fun _ _ => ⟨.string ⟨t.unquoted, t.origin⟩, ?_, .string ht⟩
    simp only [erase, mapOrigin, hv]
  | @emptyCall k routine origin name opening closing hn hx ho hc =>
    refine fun _ _ => ⟨.call ⟨name.toIdentifier, [], name.origin⟩, ?_, .emptyCall hn ho hc⟩
    simp only [erase, mapOrigin, Call.mapOrigin, toIdentifier_mapOrigin hx]
  | @call k routine origin name opening closing pieces ts hn hx ho hu _ hs hc ih =>
    intro levels hl
    simp only [List.length_cons, List.length_append, List.length_nil] at hl
    obtain ⟨inner, rfl⟩ : ∃ inner, levels = inner + 1 := ⟨levels - 1, by omega⟩
    have hpieces : Separated (.symbol ",")
        (fun a us => a.Unbound ∧ ∃ e, e.erase = a.value.erase ∧ Spelling inner 0 e us)
        (pieces.map (·.1)) ts := by
      refine separated_iff_pieces.mpr ⟨pieces, rfl, fun piece hp => ⟨hu piece hp, ?_⟩, hs⟩
      have := hs.length_le piece hp
      exact ih piece hp inner (by omega)
    have hvalue : ∀ (a : Argument) us,
        (a.Unbound ∧ ∃ e, e.erase = a.value.erase ∧ Spelling inner 0 e us) →
        ∃ e, (Argument.ofValue e).mapOrigin (fun _ => .erased) = a.mapOrigin (fun _ => .erased) ∧
          Spelling inner 0 e us := by
      intro a us h
      obtain ⟨ha, e, he, hspells⟩ := h
      exact ⟨e, ofValue_mapOrigin ha he, hspells⟩
    obtain ⟨values, hvalues, hs⟩ := hpieces.replace hvalue
    refine ⟨_, ?_, .ofArguments hn ho hs hc⟩
    simp only [erase, mapOrigin, Call.mapOrigin, toIdentifier_mapOrigin hx,
      Argument.mapOrigins_eq_map, List.map_map, ← hvalues]
    rfl
  | parenthesized ho _ hc ih =>
    intro levels hl
    simp only [List.length_cons, List.length_append, List.length_nil] at hl
    obtain ⟨inner, rfl⟩ : ∃ inner, levels = inner + 1 := ⟨levels - 1, by omega⟩
    obtain ⟨e', he, hs⟩ := ih inner (by omega)
    exact ⟨e', he, .parenthesized ho hs hc⟩
  | @unary k op e origin t ts ht h ih =>
    intro levels hl
    have := List.length_pos_iff.mpr h.ne_nil
    rw [List.length_cons] at hl
    obtain ⟨inner, rfl⟩ : ∃ inner, levels = inner + 1 := ⟨levels - 1, by omega⟩
    obtain ⟨e', he, hs⟩ := ih inner (by omega)
    refine ⟨.unary op e' t.origin, ?_, .unary ht hs⟩
    simp only [erase, mapOrigin] at he ⊢
    rw [he]
  | @binary k op left right origin t us vs hk _ ht _ ihl ihr =>
    intro levels hl
    rw [List.length_append, List.length_cons] at hl
    obtain ⟨l, hl', hsl⟩ := ihl levels (by omega)
    obtain ⟨r, hr', hsr⟩ := ihr levels (by omega)
    refine ⟨.binary op l r t.origin, ?_, .binary hk hsl ht hsr⟩
    simp only [erase, mapOrigin] at hl' hr' ⊢
    rw [hl', hr']

end Expr

namespace Parser

theorem reads_rendering {e : Expr} {ts rest : List Token} {levels : Nat} (h : e.Rendering 0 ts)
    (stop : ∀ t ∈ rest.head?, (∀ op : BinaryOperator, op.terminal.admits t = false) ∧
      (Terminal.symbol "(").admits t = false)
    (deep : ts.length ≤ levels) :
    ∃ e', (expression levels).Reads (ts ++ rest) e' rest ∧ e'.erase = e.erase := by
  have hne := List.length_pos_iff.mpr h.ne_nil
  obtain ⟨inner, rfl⟩ : ∃ inner, levels = inner + 1 := ⟨levels - 1, by omega⟩
  obtain ⟨e', he, hs⟩ := h.spelling inner deep
  refine ⟨e', expression_readsAll (inner + 1) _ _ _ hs ?_, he⟩
  cases rest with
  | nil => exact ⟨by simp, by simp⟩
  | cons t rest =>
    obtain ⟨hop, hopen⟩ := stop t rfl
    rw [Token.front?_cons]
    refine ⟨fun ht => ?_, fun op _ ht => ?_⟩
    · rw [Terminal.admits_iff.mpr ht] at hopen
      cases hopen
    · have := hop op
      rw [Terminal.admits_iff.mpr ht] at this
      cases this

/-- Reading a rendering of an expression gives the expression back, apart from
its origins, and stops just after it: whatever parentheses are added, wherever
the expression stands and whatever follows it, if that goes on neither with an
operator nor with an opening parenthesis.  Comments among the tokens are skipped,
and the levels that the expression takes are given back. -/
theorem expression_rendering {e : Expr} {ts rest : List Token} {levels : Nat}
    (h : e.Rendering 0 ts)
    (stop : ∀ t ∈ rest.head?, (∀ op : BinaryOperator, op.terminal.admits t = false) ∧
      (Terminal.symbol "(").admits t = false)
    (deep : ts.length ≤ levels) :
    (∃ e', expression levels (Cursor.before (ts ++ rest)) = .ok (e', .before rest) ∧
      e'.erase = e.erase) ∧
    ∀ (maxDepth : Nat) (place : Place maxDepth), place.OffComments →
      place.cursor = .before (ts ++ rest) → ts.length ≤ maxDepth - place.depth →
      ∃ e' next, expression levels place = .ok (e', next) ∧ e'.erase = e.erase ∧
        place.Onward next ∧ next.cursor = .before rest := by
  refine ⟨reads_rendering h stop deep, ?_⟩
  intro maxDepth place off hplace hdepth
  obtain ⟨e', hread, he⟩ := reads_rendering h stop (Nat.le_min.mpr ⟨deep, hdepth⟩)
  have hagree := expression_mirrors levels (maxDepth - place.depth) place off rfl
  rw [hplace, hread] at hagree
  obtain ⟨next, hnext, onward, hcursor⟩ := hagree.of_ok
  exact ⟨e', next, hnext, he, onward, hcursor⟩

/-- The tokens of `a - (b - c) * - ((d))`, each from its kind and its text. -/
def grouped : List Token :=
  [(.identifier, "a"), (.symbol, "-"), (.symbol, "("), (.identifier, "b"), (.symbol, "-"),
    (.identifier, "c"), (.symbol, ")"), (.symbol, "*"), (.symbol, "-"), (.symbol, "("),
    (.symbol, "("), (.identifier, "d"), (.symbol, ")"), (.symbol, ")")].map
  fun (kind, text) => ⟨kind, text, .start⟩

/-- The first parentheses are needed, the others are not, and the two signs `-`
without parentheses before them mean different things.  With a comment in front and
two of 16 levels that are taken, the expression is still read up to the semicolon. -/
theorem expression_grouped :
    let semicolon : Token := ⟨.symbol, ";", .start⟩
    let comment : Token := ⟨.comment, "\x7b\x7d", .start⟩
    let e : Expr := .binary .subtract (.identifier ⟨"a", .erased⟩)
      (.binary .multiply
        (.binary .subtract (.identifier ⟨"b", .erased⟩) (.identifier ⟨"c", .erased⟩) .erased)
        (.unary .negate (.identifier ⟨"d", .erased⟩) .erased) .erased) .erased
    (∃ e', expression 14 (Cursor.before (grouped ++ [semicolon])) =
        .ok (e', .before [semicolon]) ∧ e'.erase = e) ∧
      ∃ (place next : Place 16) (e' : Expr),
        place.tokens.toList = comment :: grouped ++ [semicolon] ∧ place.depth = 2 ∧
        expression 14 place = .ok (e', next) ∧ e'.erase = e ∧ next.peek? = some semicolon ∧
        next.depth = 2 := by
  intro semicolon comment e
  have hname {k : Nat} {x : String} :
      Expr.Rendering k (.identifier ⟨x, .erased⟩) [⟨.identifier, x, .start⟩] :=
    .identifier rfl rfl
  have hdifference : Expr.Rendering 2 (.binary .subtract (.identifier ⟨"b", .erased⟩)
      (.identifier ⟨"c", .erased⟩) .erased) ((grouped.drop 2).take 5) :=
    @Expr.Rendering.parenthesized _ _ _ _ ((grouped.drop 3).take 3) rfl
      (@Expr.Rendering.binary _ .subtract _ _ _ _ [_] [_] (by decide) hname rfl hname) rfl
  have hnegated : Expr.Rendering 3 (.unary .negate (.identifier ⟨"d", .erased⟩) .erased)
      (grouped.drop 8) :=
    .unary rfl (@Expr.Rendering.parenthesized _ _ _ _ ((grouped.drop 10).take 3) rfl
      (@Expr.Rendering.parenthesized _ _ _ _ [_] rfl hname rfl) rfl)
  have hproduct : Expr.Rendering 2 _ (grouped.drop 2) :=
    @Expr.Rendering.binary _ .multiply _ _ .erased _ ((grouped.drop 2).take 5) (grouped.drop 8)
      (by decide) hdifference rfl hnegated
  have hwhole : Expr.Rendering 0 e grouped :=
    @Expr.Rendering.binary _ .subtract _ _ .erased _ [_] (grouped.drop 2) (by decide) hname rfl
      hproduct
  have hstop : ∀ t ∈ [semicolon].head?, (∀ op : BinaryOperator, op.terminal.admits t = false) ∧
      (Terminal.symbol "(").admits t = false := by
    intro t ht
    obtain rfl := Option.some.inj ht
    refine ⟨fun op => ?_, rfl⟩
    cases op <;> rfl
  obtain ⟨hcursor, hplaces⟩ := expression_rendering hwhole hstop (Nat.le_refl 14)
  let place : Place 16 := ⟨(comment :: grouped ++ [semicolon]).toArray, 1, 2, by decide⟩
  have off : place.OffComments := by
    intro t ht
    obtain rfl := Option.some.inj ht
    decide
  obtain ⟨e', next, hread, he, onward, hnext⟩ := hplaces 16 place off rfl (Nat.le_refl 14)
  have hpeek := Place.peek?_cursor onward.offComments
  rw [hnext] at hpeek
  exact ⟨hcursor, place, next, e', rfl, rfl, hread, he, hpeek.symm, onward.depth_eq⟩

end Parser
end PascalSyntax
