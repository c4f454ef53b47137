import PascalSyntax.Parser.Basic
import PascalSyntax.Parser.Cursor
import PascalSyntax.Parser.Place

/-!
# Places and cursors

A place counts how many of all tokens are behind it and how many levels of nesting it is inside.
The cursor of a place has the significant tokens from the place on, and a reader on cursors is told
how many levels are left to it.

To go on from a place is to go on from its cursor, as long as no comment stands at the place, and no
comment ever does (`Place.Onward`).  A reader on places mirrors one on cursors if it gives the same
value, at a place onward with the same cursor, or fails for the same reason at a place with the same
cursor (`Parser.Mirrors`).  Readers mirror each other if they are made alike of readers that do.
-/

namespace PascalSyntax
namespace Place

variable {maxDepth : Nat} {place next last : Place maxDepth}

/-- No comment stands at the place. -/
def OffComments (place : Place maxDepth) : Prop :=
  ∀ t, place.peek? = some t → t.kind ≠ .comment

def ahead (place : Place maxDepth) : List Token :=
  place.tokens.toList.drop place.index

/-- The cursor that stands at a place. -/
def cursor (place : Place maxDepth) : Cursor :=
  .ofTokens place.ahead

/-- The place `next` is among the same tokens as `place` and inside as many levels, no earlier, and
not on a comment. -/
structure Onward (place next : Place maxDepth) : Prop where
  tokens_eq : next.tokens = place.tokens
  depth_eq : next.depth = place.depth
  le_index : place.index ≤ next.index
  index_le : next.index ≤ place.tokens.size := tokens_eq ▸ next.index_le
  offComments : next.OffComments

theorem Onward.refl (off : place.OffComments) : place.Onward place where
  tokens_eq := rfl
  depth_eq := rfl
  le_index := Nat.le_refl _
  offComments := off

theorem Onward.levels {levels : Nat} (h : place.Onward next)
    (hlevels : maxDepth - place.depth = levels) : maxDepth - next.depth = levels := by
  rw [h.depth_eq, hlevels]

theorem Onward.trans (h : place.Onward next) (h' : next.Onward last) : place.Onward last where
  tokens_eq := h'.tokens_eq.trans h.tokens_eq
  depth_eq := h'.depth_eq.trans h.depth_eq
  le_index := Nat.le_trans h.le_index h'.le_index
  offComments := h'.offComments

/-- What is onward one level further in is so once that level is left. -/
theorem Onward.leave (h : Onward { place with depth := place.depth + 1 } next) :
    place.Onward { next with depth := place.depth } :=
  ⟨h.tokens_eq, rfl, h.le_index, h.index_le, h.offComments⟩

/-! ## What stands at a place -/

theorem ahead_eq_cons (h : place.index < place.tokens.size) :
    place.ahead = place.tokens[place.index] :: place.tokens.toList.drop (place.index + 1) :=
  List.drop_eq_getElem_cons h

theorem ahead_eq_nil (h : ¬ place.index < place.tokens.size) : place.ahead = [] :=
  List.drop_eq_nil_of_le (Nat.not_lt.mp h)

theorem peek?_eq_some (h : place.index < place.tokens.size) :
    place.peek? = some place.tokens[place.index] :=
  Array.getElem?_eq_getElem h

theorem peek?_eq_none (h : ¬ place.index < place.tokens.size) : place.peek? = none :=
  Array.getElem?_eq_none (Nat.not_lt.mp h)

theorem offComments_of_end (h : ¬ place.index < place.tokens.size) : place.OffComments := by
  intro t ht
  rw [peek?_eq_none h] at ht
  cases ht

/-- Off the comments, the token at a place is the first that its cursor has. -/
theorem cursor_rest_cons (off : place.OffComments) (h : place.index < place.tokens.size) :
    place.cursor.rest = place.tokens[place.index] ::
      Token.significant (place.tokens.toList.drop (place.index + 1)) := by
  have hkind : place.tokens[place.index].kind ≠ .comment := off _ (peek?_eq_some h)
  rw [cursor, Cursor.ofTokens_rest, ahead_eq_cons h, Token.significant,
    List.filter_cons_of_pos (by simpa using hkind), Token.significant]

theorem cursor_rest_nil (h : ¬ place.index < place.tokens.size) : place.cursor.rest = [] := by
  rw [cursor, Cursor.ofTokens_rest, ahead_eq_nil h]
  rfl

theorem peek?_cursor (off : place.OffComments) : Spot.peek? place.cursor = Spot.peek? place := by
  show place.cursor.rest.head? = place.peek?
  by_cases h : place.index < place.tokens.size
  · rw [cursor_rest_cons off h, peek?_eq_some h, List.head?_cons]
  · rw [cursor_rest_nil h, peek?_eq_none h, List.head?_nil]

theorem atEnd_cursor (off : place.OffComments) : Spot.atEnd place.cursor = Spot.atEnd place := by
  show place.cursor.rest.isEmpty = place.atEnd
  by_cases h : place.index < place.tokens.size
  · rw [cursor_rest_cons off h, atEnd, decide_eq_false (Nat.not_le.mpr h), List.isEmpty_cons]
  · rw [cursor_rest_nil h, atEnd, decide_eq_true (Nat.not_lt.mp h), List.isEmpty_nil]

/-! ## Going on -/

theorem onward_skipComments (place : Place maxDepth) : place.Onward place.skipComments := by
  fun_induction skipComments place with
  | case1 place h hcomment ih =>
    exact ⟨ih.tokens_eq, ih.depth_eq, Nat.le_of_succ_le ih.le_index, ih.index_le, ih.offComments⟩
  | case2 place h hkind =>
    refine .refl fun t ht => ?_
    rw [peek?_eq_some h] at ht
    exact Option.some.inj ht ▸ hkind
  | case3 place h => exact .refl (offComments_of_end h)

theorem cursor_skipComments (place : Place maxDepth) :
    place.skipComments.cursor = place.cursor := by
  fun_induction skipComments place with
  | case1 place h hcomment ih =>
    apply ih.trans
    apply Cursor.ext
    rw [cursor, cursor, Cursor.ofTokens_rest, Cursor.ofTokens_rest, ahead_eq_cons h,
      Token.significant, Token.significant, List.filter_cons_of_neg (by simpa using hcomment)]
    rfl
  | case2 place h hkind => rfl
  | case3 place h => rfl

theorem lt_advance (h : place.index < place.tokens.size) : place.index < place.advance.index := by
  rw [advance, dif_pos h]
  exact (onward_skipComments
    ({ place with index := place.index + 1, index_le := h } : Place maxDepth)).le_index

theorem onward_advance (off : place.OffComments) : place.Onward place.advance := by
  by_cases h : place.index < place.tokens.size
  · have hle := Nat.le_of_lt (lt_advance h)
    rw [advance, dif_pos h] at hle ⊢
    have hnext := onward_skipComments
      ({ place with index := place.index + 1, index_le := h } : Place maxDepth)
    exact ⟨hnext.tokens_eq, hnext.depth_eq, hle, hnext.index_le, hnext.offComments⟩
  · rw [advance, dif_neg h]
    exact .refl off

theorem cursor_advance (off : place.OffComments) :
    place.advance.cursor = Spot.advance place.cursor := by
  apply Cursor.ext
  show _ = place.cursor.rest.tail
  by_cases h : place.index < place.tokens.size
  · rw [advance, dif_pos h, cursor_skipComments, cursor_rest_cons off h]
    rfl
  · rw [advance, dif_neg h, cursor_rest_nil h]
    rfl

theorem onward_start (maxDepth : Nat) (tokens : List Token) :
    Onward ⟨tokens.toArray, 0, 0, Nat.zero_le _⟩ (start maxDepth tokens) :=
  onward_skipComments _

theorem levels_start (maxDepth : Nat) (tokens : List Token) :
    maxDepth - (start maxDepth tokens).depth = maxDepth :=
  (onward_start maxDepth tokens).levels rfl

theorem cursor_start (maxDepth : Nat) (tokens : List Token) :
    (start maxDepth tokens).cursor = .ofTokens tokens :=
  cursor_skipComments _

theorem Onward.eq_of_index (h : place.Onward next) (hindex : next.index = place.index) :
    next = place :=
  Place.ext h.tokens_eq hindex h.depth_eq

/-- A place is later just if fewer significant tokens are left at its cursor. -/
theorem Onward.left_cursor_lt_iff (off : place.OffComments) (h : place.Onward next) :
    Spot.left next.cursor < Spot.left place.cursor ↔ place.index < next.index := by
  constructor
  · intro hleft
    refine Nat.lt_of_le_of_ne h.le_index fun hindex => ?_
    rw [h.eq_of_index hindex.symm] at hleft
    exact Nat.lt_irrefl _ hleft
  · intro hlt
    have hsize : place.index < place.tokens.size := Nat.lt_of_lt_of_le hlt h.index_le
    have hdrop : next.ahead.Sublist (place.tokens.toList.drop (place.index + 1)) := by
      rw [ahead, h.tokens_eq]
      exact List.drop_sublist_drop_left _ hlt
    show next.cursor.left < place.cursor.left
    rw [next.cursor.left_eq, place.cursor.left_eq, cursor_rest_cons off hsize, List.length_cons]
    exact Nat.lt_succ_of_le (hdrop.filter _).length_le

theorem Onward.left_lt_iff (h : place.Onward next) :
    Spot.left next < Spot.left place ↔ place.index < next.index := by
  have hle := h.index_le
  show next.tokens.size - next.index < place.tokens.size - place.index ↔ _
  rw [h.tokens_eq]
  omega

/-- So the rounds of a loop go on at places just if they do at cursors. -/
theorem Onward.left_lt_cursor_iff (off : place.OffComments) (h : place.Onward next) :
    Spot.left next.cursor < Spot.left place.cursor ↔ Spot.left next < Spot.left place :=
  (h.left_cursor_lt_iff off).trans h.left_lt_iff.symm

/-! ## What is read at a place -/

theorem check_cursor (off : place.OffComments) (a : Terminal) :
    Spot.check place.cursor a = Spot.check place a := by
  rw [Spot.check, Spot.check, peek?_cursor off]

theorem take?_cursor (off : place.OffComments) (a : Terminal) :
    Spot.take? place.cursor a = (Spot.take? place a).map fun (t, next) => (t, next.cursor) := by
  rw [Spot.take?, Spot.take?, peek?_cursor off]
  cases Spot.peek? place with
  | none => rfl
  | some t =>
    by_cases ht : a.admits t
    · simp only [if_pos ht, Option.map_some, ← cursor_advance off]
      rfl
    · simp only [if_neg ht, Option.map_none]

theorem onward_of_take? (off : place.OffComments) {a : Terminal} {t : Token}
    (h : Spot.take? place a = some (t, next)) : place.Onward next := by
  rw [Spot.take?] at h
  split at h
  · split at h
    · cases h
      exact onward_advance off
    · cases h
  · cases h

/-- What a reader gives at a place, and what one gives at its cursor: the same value, or the same
failure. -/
inductive Agree (place : Place maxDepth) :
    Except (FailureAt (Place maxDepth)) (α × Place maxDepth) → Except Failure (α × Cursor) → Prop
  | ok {a : α} {next : Place maxDepth} : place.Onward next →
      Agree place (.ok (a, next)) (.ok (a, next.cursor))
  | error {reason : Reason} {stop : Place maxDepth} : stop.tokens = place.tokens →
      stop.OffComments → Agree place (.error ⟨reason, stop⟩) (.error ⟨reason, stop.cursor⟩)

section Agree

variable {read : Except (FailureAt (Place maxDepth)) (α × Place maxDepth)}
  {read' : Except Failure (α × Cursor)}

theorem Agree.of_onward (onward : place.Onward next) (h : next.Agree read read') :
    place.Agree read read' := by
  cases h with
  | ok hlast => exact .ok (onward.trans hlast)
  | error htokens hstop => exact .error (htokens.trans onward.tokens_eq) hstop

theorem Agree.eq_ok {a : α} (h : place.Agree (.ok (a, next)) read') :
    read' = .ok (a, next.cursor) ∧ place.Onward next := by
  cases h with
  | ok onward => exact ⟨rfl, onward⟩

/-- What is read at the cursor of a place is read at the place. -/
theorem Agree.of_ok {a : α} {cursor : Cursor} (h : place.Agree read (.ok (a, cursor))) :
    ∃ next, read = .ok (a, next) ∧ place.Onward next ∧ next.cursor = cursor := by
  cases h with
  | @ok _ next onward => exact ⟨next, rfl, onward, rfl⟩

theorem Agree.eq_error {failure : FailureAt (Place maxDepth)}
    (h : place.Agree (.error failure) read') :
    read' = .error ⟨failure.reason, failure.stop.cursor⟩ ∧
      failure.stop.tokens = place.tokens ∧ failure.stop.OffComments := by
  cases h with
  | error htokens hstop => exact ⟨rfl, htokens, hstop⟩

theorem Agree.of_error {reason : Reason} {stop' : Cursor}
    (h : place.Agree read (.error ⟨reason, stop'⟩)) :
    ∃ stop, read = .error ⟨reason, stop⟩ ∧ stop.OffComments ∧ stop.cursor = stop' := by
  cases h with
  | @error _ stop _ hstop => exact ⟨stop, rfl, hstop, rfl⟩

end Agree
end Place

/-! ## Readers that mirror each other -/

namespace Parser

variable {maxDepth levels : Nat}

/-- The readers agree wherever `levels` levels of nesting are left. -/
def Mirrors (levels : Nat) (p : Parser (Place maxDepth) α) (q : Parser Cursor α) : Prop :=
  ∀ place : Place maxDepth, place.OffComments → maxDepth - place.depth = levels →
    place.Agree (p place) (q place.cursor)

namespace Mirrors

/-- The readers agree further on too. -/
theorem after {place next : Place maxDepth} {p : Parser (Place maxDepth) α} {q : Parser Cursor α}
    (h : Mirrors levels p q) (onward : place.Onward next)
    (hlevels : maxDepth - place.depth = levels) : next.Agree (p next) (q next.cursor) :=
  h next onward.offComments (onward.levels hlevels)

theorem pure (a : α) :
    Mirrors levels (Pure.pure a : Parser (Place maxDepth) α) (Pure.pure a) :=
  fun _ off _ => .ok (.refl off)

theorem bind {p : Parser (Place maxDepth) α} {q : Parser Cursor α}
    {f : α → Parser (Place maxDepth) β} {g : α → Parser Cursor β} (hp : Mirrors levels p q)
    (hf : ∀ a, Mirrors levels (f a) (g a)) : Mirrors levels (p >>= f) (q >>= g) := by
  intro place off hlevels
  have hread := hp place off hlevels
  rw [bind_apply, bind_apply, andThen, andThen]
  generalize p place = read, q place.cursor = read' at hread
  cases hread with
  | error htokens hstop => exact .error htokens hstop
  | @ok a next onward => exact ((hf a).after onward hlevels).of_onward onward

theorem fail (what : Expectation) :
    Mirrors levels (Parser.fail what : Parser (Place maxDepth) α) (Parser.fail what) :=
  fun _ off _ => .error rfl off

theorem tooDeep :
    Mirrors levels (Parser.tooDeep : Parser (Place maxDepth) α) Parser.tooDeep :=
  fun _ off _ => .error rfl off

theorem peek? :
    Mirrors levels (Parser.peek? : Parser (Place maxDepth) (Option Token)) Parser.peek? := by
  intro place off _
  rw [Parser.peek?, Parser.peek?, Place.peek?_cursor off]
  exact .ok (.refl off)

theorem sees (a : Terminal) :
    Mirrors levels (Parser.sees a : Parser (Place maxDepth) Bool) (Parser.sees a) := by
  intro place off _
  rw [Parser.sees, Parser.sees, Place.check_cursor off]
  exact .ok (.refl off)

theorem take? (a : Terminal) :
    Mirrors levels (Parser.take? a : Parser (Place maxDepth) (Option Token)) (Parser.take? a) := by
  intro place off _
  rw [Parser.take?, Parser.take?, Place.take?_cursor off]
  cases h : Spot.take? place a with
  | none => exact .ok (.refl off)
  | some read => exact .ok (Place.onward_of_take? off h)

theorem takeBoth? (a b : Terminal) :
    Mirrors levels (Parser.takeBoth? a b : Parser (Place maxDepth) (Option Token))
      (Parser.takeBoth? a b) := by
  intro place off _
  rw [Parser.takeBoth?, Parser.takeBoth?, Place.take?_cursor off]
  cases h : Spot.take? place a with
  | none => exact .ok (.refl off)
  | some read =>
    obtain ⟨t, next⟩ := read
    have hnext := Place.onward_of_take? off h
    simp only [Option.map_some, Place.take?_cursor hnext.offComments]
    cases h' : Spot.take? next b with
    | none => exact .ok (.refl off)
    | some read => exact .ok (hnext.trans (Place.onward_of_take? hnext.offComments h'))

theorem take (a : Terminal) (context : Option String) :
    Mirrors levels (Parser.take a context : Parser (Place maxDepth) Token)
      (Parser.take a context) := by
  intro place off _
  rw [Parser.take, Parser.take, Spot.take, Spot.take, Place.take?_cursor off]
  cases h : Spot.take? place a with
  | none => exact .error rfl off
  | some read => exact .ok (Place.onward_of_take? off h)

theorem takeFirst? (choices : List γ) (terminal : γ → Terminal) :
    Mirrors levels (Parser.takeFirst? choices terminal : Parser (Place maxDepth) _)
      (Parser.takeFirst? choices terminal) := by
  intro place off _
  rw [Parser.takeFirst?, Parser.takeFirst?, Place.peek?_cursor off, ← Place.cursor_advance off]
  simp only [Place.check_cursor off]
  cases choices.find? (Spot.check place <| terminal ·) with
  | none => exact .ok (.refl off)
  | some choice =>
    cases Spot.peek? place with
    | none => exact .ok (.refl off)
    | some t => exact .ok (Place.onward_advance off)

/-- Where no level is left, none is taken. -/
theorem nested_zero (p : Parser (Place maxDepth) α) :
    Mirrors 0 (Spot.nested p) Parser.tooDeep := by
  intro place off hlevels
  show place.Agree (Place.nested p place) _
  rw [Place.nested, if_pos (by omega)]
  exact .error rfl off

/-- A reader one level further in has one level less left, and at the end the level is as before. -/
theorem nested_succ {p : Parser (Place maxDepth) α} {q : Parser Cursor α}
    (h : Mirrors levels p q) : Mirrors (levels + 1) (Spot.nested p) q := by
  intro place off hlevels
  have hlevels' : maxDepth - (place.depth + 1) = levels := by omega
  have hread := h { place with depth := place.depth + 1 } off hlevels'
  show place.Agree (Place.nested p place) (q place.cursor)
  rw [Place.nested, if_neg (by omega)]
  have hcursor : ({ place with depth := place.depth + 1 } : Place maxDepth).cursor = place.cursor :=
    rfl
  rw [hcursor] at hread
  generalize p { place with depth := place.depth + 1 } = read, q place.cursor = read' at hread
  cases hread with
  | error htokens hstop => exact .error htokens hstop
  | @ok a next onward => exact .ok onward.leave

/-! ## Loops -/

theorem many {round : Parser (Place maxDepth) (Option α)} {round' : Parser Cursor (Option α)}
    (h : Mirrors levels round round') :
    Mirrors levels (Parser.many round) (Parser.many round') := by
  intro place off hlevels
  have hread := h place off hlevels
  fun_induction Parser.many round place with
  | case1 place failure hround =>
    rw [hround] at hread
    obtain ⟨hround', htokens, hstop⟩ := hread.eq_error
    rw [Parser.many, hround']
    exact .error htokens hstop
  | case2 place next hround =>
    rw [hround] at hread
    obtain ⟨hround', onward⟩ := hread.eq_ok
    rw [Parser.many, hround']
    exact .ok onward
  | case3 place a next hround hlt failure hmany ih =>
    rw [hround] at hread
    obtain ⟨hround', onward⟩ := hread.eq_ok
    have hlast := ih onward.offComments (onward.levels hlevels) (h.after onward hlevels)
    rw [hmany] at hlast
    obtain ⟨hmany', htokens, hstop⟩ := hlast.eq_error
    have hlt' := (onward.left_lt_cursor_iff off).mpr hlt
    rw [Parser.many, hround']
    simp only [if_pos hlt', hmany']
    exact .error (htokens.trans onward.tokens_eq) hstop
  | case4 place a next hround hlt as last hmany ih =>
    rw [hround] at hread
    obtain ⟨hround', onward⟩ := hread.eq_ok
    have hlast := ih onward.offComments (onward.levels hlevels) (h.after onward hlevels)
    rw [hmany] at hlast
    obtain ⟨hmany', onward'⟩ := hlast.eq_ok
    have hlt' := (onward.left_lt_cursor_iff off).mpr hlt
    rw [Parser.many, hround']
    simp only [if_pos hlt', hmany']
    exact .ok (onward.trans onward')
  | case5 place a next hround hlt =>
    rw [hround] at hread
    obtain ⟨hround', onward⟩ := hread.eq_ok
    have hlt' := (not_congr (onward.left_lt_cursor_iff off)).mpr hlt
    rw [Parser.many, hround']
    simp only [if_neg hlt']
    exact .ok onward

section Items

variable {item : Parser (Place maxDepth) α} {item' : Parser Cursor α}

theorem another (separator : Terminal) (h : Mirrors levels item item') :
    Mirrors levels (Parser.another separator item) (Parser.another separator item') := by
  refine (take? separator).bind fun o => ?_
  cases o with
  | none => exact pure none
  | some _ => exact h.bind fun a => pure (some a)

theorem separated (separator : Terminal) (h : Mirrors levels item item') :
    Mirrors levels (Parser.separated separator item) (Parser.separated separator item') :=
  h.bind fun _ => (h.another separator).many.bind fun _ => pure _

theorem oneMore (start : Terminal) (h : Mirrors levels item item') :
    Mirrors levels (Parser.oneMore start item) (Parser.oneMore start item') := by
  refine (sees start).bind fun seen => ?_
  cases seen with
  | false => exact pure none
  | true => exact h.bind fun a => pure (some a)

theorem repeated (start : Terminal) (h : Mirrors levels item item') :
    Mirrors levels (Parser.repeated start item) (Parser.repeated start item') :=
  h.bind fun _ => (h.oneMore start).many.bind fun _ => pure _

end Items
end Mirrors
end Parser
end PascalSyntax
