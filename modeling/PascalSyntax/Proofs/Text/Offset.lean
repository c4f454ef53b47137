import PascalSyntax.Text.Position

/-!
# Offsets and positions

An offset counts the characters of a text before a place.  The line and the
column of that place are counted from these characters as a whole, and
`Position.after`, which goes on from one character to the next, comes to the
same (`Position.after_ofOffset`).  Two offsets of one text have different
positions.  Where a text starts only moves its positions
(`Position.movedTo_start_after`).
-/

namespace PascalSyntax
namespace Position

/-- The position of an offset: the line counts the line feeds before it, and the
column the characters after the last of them. -/
def ofOffset (source : List Char) (offset : Nat) : Position :=
  let front := source.take offset
  ⟨1 + front.count '\n', 1 + (front.reverse.takeWhile (· ≠ '\n')).length⟩

/-- The count over a whole text goes on by one character as `next` does. -/
theorem next_ofOffset {source : List Char} {offset : Nat} {c : Char}
    (h : source[offset]? = some c) :
    (ofOffset source offset).next c = ofOffset source (offset + 1) := by
  have htake : source.take (offset + 1) = source.take offset ++ [c] := by
    rw [List.take_add_one, h, Option.toList_some]
  unfold ofOffset next
  rw [htake]
  by_cases hc : c = '\n'
  · subst hc
    simp [Nat.add_assoc]
  · simp [hc, Nat.add_comm]

/-- The position after a part of a text is the one of the offset where that part
ends. -/
theorem after_ofOffset {source text rest : List Char} {offset : Nat}
    (h : source.drop offset = text ++ rest) :
    (ofOffset source offset).after text = ofOffset source (offset + text.length) := by
  induction text generalizing offset with
  | nil => rfl
  | cons c cs ih =>
    have hc : source[offset]? = some c := by
      rw [← List.head?_drop, h]
      rfl
    have hcs : source.drop (offset + 1) = cs ++ rest := by
      rw [← List.tail_drop, h]
      rfl
    rw [after_cons, next_ofOffset hc, ih hcs, List.length_cons, Nat.add_right_comm, Nat.add_assoc]

theorem start_after {source front rest : List Char} (h : source = front ++ rest) :
    start.after front = ofOffset source front.length := by
  have hafter : (ofOffset source 0).after front = ofOffset source (0 + front.length) :=
    after_ofOffset h
  rwa [Nat.zero_add] at hafter

/-- Past its end a text has no more positions. -/
theorem ofOffset_min (source : List Char) (offset : Nat) :
    ofOffset source (min offset source.length) = ofOffset source offset := by
  rw [ofOffset, ofOffset, ← List.take_eq_take_min]

/-! ## One place after another -/

/-- One position is before another in reading order. -/
def Before (p q : Position) : Prop :=
  p.line < q.line ∨ p.line = q.line ∧ p.column < q.column

theorem Before.trans {p q r : Position} (hpq : p.Before q) (hqr : q.Before r) : p.Before r := by
  unfold Before at *
  omega

theorem not_before_self (p : Position) : ¬ p.Before p := by
  unfold Before
  omega

theorem before_next (p : Position) (c : Char) : p.Before (p.next c) := by
  unfold Before next
  by_cases hc : c = '\n'
  · rw [if_pos hc]
    exact .inl (Nat.lt_succ_self _)
  · rw [if_neg hc]
    exact .inr ⟨rfl, Nat.lt_succ_self _⟩

/-- A later offset of a text has a later position. -/
theorem ofOffset_before {source : List Char} {offset offset' : Nat} (hlt : offset < offset')
    (hl : offset' ≤ source.length) : (ofOffset source offset).Before (ofOffset source offset') := by
  induction hlt with
  | refl =>
    have hc : source[offset]? = some source[offset] := List.getElem?_eq_getElem (by omega)
    rw [← next_ofOffset hc]
    exact before_next _ _
  | @step n hn ih =>
    have hn : offset < n := hn
    have hc : source[n]? = some source[n] := List.getElem?_eq_getElem (by omega)
    rw [← next_ofOffset hc]
    exact (ih (by omega)).trans (before_next _ _)

/-- The position of an offset within a text is that of no other offset. -/
theorem ofOffset_inj {source : List Char} {offset offset' : Nat} (hl : offset < source.length)
    (h : ofOffset source offset = ofOffset source offset') : offset = offset' := by
  rw [← ofOffset_min source offset'] at h
  rcases Nat.lt_trichotomy offset (min offset' source.length) with hlt | heq | hgt
  · have hbefore := ofOffset_before hlt (Nat.min_le_right _ _)
    rw [h] at hbefore
    exact absurd hbefore (not_before_self _)
  · omega
  · have hbefore := ofOffset_before hgt (Nat.le_of_lt hl)
    rw [h] at hbefore
    exact absurd hbefore (not_before_self _)

/-! ## Another start -/

/-- The position `p` of a text, if the text starts at `base` and not at the start:
the lines go on from the line of `base`, and on the first of them the columns go
on from its column. -/
def movedTo (base p : Position) : Position :=
  ⟨base.line + (p.line - 1), if p.line = 1 then base.column + (p.column - 1) else p.column⟩

theorem next_movedTo {base p : Position} (hline : 1 ≤ p.line) (hcolumn : 1 ≤ p.column) (c : Char) :
    (base.movedTo p).next c = base.movedTo (p.next c) := by
  unfold next movedTo
  by_cases hc : c = '\n'
  · rw [if_pos hc, if_pos hc, if_neg (show p.line + 1 ≠ 1 by omega)]
    exact congrArg (mk · 1) (show base.line + (p.line - 1) + 1 = base.line + p.line by omega)
  · rw [if_neg hc, if_neg hc]
    refine congrArg (mk _) ?_
    by_cases hfirst : p.line = 1
    · simp only [if_pos hfirst]
      omega
    · simp only [if_neg hfirst]

theorem after_movedTo {base p : Position} (hline : 1 ≤ p.line) (hcolumn : 1 ≤ p.column)
    (text : List Char) : (base.movedTo p).after text = base.movedTo (p.after text) := by
  induction text generalizing p with
  | nil => rfl
  | cons c cs ih =>
    have hnext : 1 ≤ (p.next c).line ∧ 1 ≤ (p.next c).column := by
      unfold next
      split
      · exact ⟨Nat.le_add_left _ _, Nat.le_refl _⟩
      · exact ⟨hline, Nat.le_add_left _ _⟩
    rw [after_cons, after_cons, next_movedTo hline hcolumn, ih hnext.1 hnext.2]

/-- What stands after some text stands after it as well when the text starts
elsewhere. -/
theorem movedTo_start_after (base : Position) (text : List Char) :
    base.movedTo (start.after text) = base.after text :=
  (after_movedTo (Nat.le_refl 1) (Nat.le_refl 1) text).symm

end Position
end PascalSyntax
