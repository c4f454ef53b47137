import PascalSyntax.Proofs.Parser.Reading

/-!
# Semicolons beside `begin` and `end`

Semicolons may be added to a list of tokens right behind a `begin` and right before
an `end` (`Token.Padded`).  Two lists that come from one list in this way are alike
(`Token.Repadded`).  What is said of alike lists holds in both directions at once: of
adding semicolons and of taking them out again.

Repadded lists are followed token by token.  A token that is no semicolon is found in
both, and a semicolon has its counterpart, unless an `end` comes after it or a `begin`
before it with nothing but semicolons between.
-/

namespace PascalSyntax

/-- Tokens that start with an instance of a terminal do so without their comments too. -/
theorem Token.front?_significant {a : Terminal} {ts : List Token}
    (h : front? ts = some a) : front? (significant ts) = some a := by
  cases ts with
  | nil => cases h
  | cons t ts =>
    have ht := Terminal.ne_comment_of_admits (Terminal.admits_iff.mpr h)
    simpa [significant, ht] using h

namespace Token

/-- The second list is the first with semicolons added right behind instances of
`begin` and right before instances of `end`.  `opened` tells that the lists come behind a
`begin`, and nothing but semicolons that were added there. -/
inductive Padded : Bool → List Token → List Token → Prop
  | nil {opened : Bool} : Padded opened [] []
  | token {opened : Bool} {t : Token} {ts us : List Token} :
      Padded ((Terminal.word "begin").admits t) ts us → Padded opened (t :: ts) (t :: us)
  | semicolon {opened : Bool} {t : Token} {ts us : List Token} :
      (Terminal.symbol ";").admits t → opened = true ∨ front? ts = some (.word "end") →
      Padded opened ts us → Padded opened ts (t :: us)

namespace Padded

variable {opened : Bool} {t : Token} {ts us : List Token}

theorem refl (opened : Bool) (ts : List Token) : Padded opened ts ts := by
  induction ts generalizing opened with
  | nil => exact .nil
  | cons t ts ih => exact .token (ih _)

/-- Behind a `begin` a list may only be padded in more ways. -/
theorem mono (h : Padded false ts us) : Padded opened ts us := by
  generalize hclosed : false = closed at h
  induction h with
  | nil => exact .nil
  | token h _ => exact .token h
  | semicolon ht hplace _ ih =>
    subst hclosed
    rcases hplace with hfalse | hend
    · cases hfalse
    · exact .semicolon ht (.inr hend) (ih rfl)

/-- What is padded with its comments is padded without them. -/
theorem significant (h : Padded opened ts us) :
    Padded opened (significant ts) (significant us) := by
  induction h with
  | nil => exact .nil
  | @token _ t _ _ _ ih =>
    by_cases ht : t.kind = .comment
    · have hbegin : (Terminal.word "begin").admits t = false := by
        simp [Terminal.admits, ht]
      rw [hbegin] at ih
      simpa [Token.significant, ht] using ih.mono
    · simpa [Token.significant, ht] using ih.token
  | @semicolon _ t ts us ht hplace _ ih =>
    have hkept : Token.significant (t :: us) = t :: Token.significant us := by
      simp [Token.significant, Terminal.ne_comment_of_admits ht]
    rw [hkept]
    exact .semicolon ht (hplace.imp_right front?_significant) ih

/-- A token that is padded keeps its place behind the semicolons that are added before
it. -/
theorem cons_inv (h : Padded opened (t :: ts) us) :
    ∃ added vs, us = added ++ t :: vs ∧ (∀ u ∈ added, (Terminal.symbol ";").admits u) ∧
      (opened = true ∨ (Terminal.word "end").admits t ∨ added = []) ∧
      Padded ((Terminal.word "begin").admits t) ts vs := by
  generalize hts : t :: ts = list at h
  induction h with
  | nil => cases hts
  | token h _ =>
    cases hts
    exact ⟨[], _, rfl, List.forall_mem_nil _, .inr (.inr rfl), h⟩
  | @semicolon _ u _ _ hu hplace _ ih =>
    subst hts
    obtain ⟨added, vs, rfl, hadded, -, h⟩ := ih rfl
    refine ⟨u :: added, vs, rfl, List.forall_mem_cons.mpr ⟨hu, hadded⟩, ?_, h⟩
    rcases hplace with hopened | hend
    · exact .inl hopened
    · exact .inr (.inl (Terminal.admits_iff.mpr hend))

end Padded

/-- The two lists are one list that is padded in two ways. -/
def Repadded (opened : Bool) (us vs : List Token) : Prop :=
  ∃ ts, Padded opened ts us ∧ Padded opened ts vs

/-- There is an `end` with nothing but semicolons before it. -/
inductive BeforeEnd : List Token → Prop
  | closing {t : Token} {ts : List Token} : (Terminal.word "end").admits t → BeforeEnd (t :: ts)
  | semicolon {t : Token} {ts : List Token} :
      (Terminal.symbol ";").admits t → BeforeEnd ts → BeforeEnd (t :: ts)

namespace BeforeEnd

variable {a : Terminal} {t : Token} {ts us : List Token}

theorem front (h : BeforeEnd ts) :
    front? ts = some (.symbol ";") ∨ front? ts = some (.word "end") := by
  cases h with
  | closing ht => exact .inr (Terminal.admits_iff.mp ht)
  | semicolon ht _ => exact .inl (Terminal.admits_iff.mp ht)

theorem not_of_front (hfront : front? ts = some a)
    (ha : a ∉ [Terminal.symbol ";", .word "end"]) : ¬ BeforeEnd ts := by
  intro h
  have := h.front
  rw [hfront, Option.some.injEq, Option.some.injEq] at this
  exact ha (by simpa using this)

/-- Tokens without an `end` are not the way to one. -/
theorem of_append (hend : ∀ t ∈ ts, (Terminal.word "end").admits t = false)
    (h : BeforeEnd (ts ++ us)) : BeforeEnd us := by
  induction ts with
  | nil => exact h
  | cons t ts ih =>
    obtain ⟨ht, hts⟩ := List.forall_mem_cons.mp hend
    cases h with
    | closing hclosing =>
      rw [ht] at hclosing
      cases hclosing
    | semicolon _ h => exact ih hts h

theorem of_semicolons (hts : ∀ t ∈ ts, (Terminal.symbol ";").admits t)
    (ht : (Terminal.word "end").admits t) : BeforeEnd (ts ++ t :: us) := by
  induction ts with
  | nil => exact .closing ht
  | cons u ts ih =>
    obtain ⟨hu, hts⟩ := List.forall_mem_cons.mp hts
    exact .semicolon hu (ih hts)

end BeforeEnd

/-- Before an `end` a list is padded with nothing but semicolons. -/
theorem Padded.beforeEnd {opened : Bool} {ts us : List Token} (h : Padded opened ts us)
    (hend : front? ts = some (.word "end")) : BeforeEnd us := by
  induction h with
  | nil => cases hend
  | token _ _ => exact .closing (Terminal.admits_iff.mpr hend)
  | semicolon ht _ _ ih => exact .semicolon ht (ih hend)

namespace Repadded

variable {opened : Bool} {a : Terminal} {t : Token} {ts us vs : List Token}

theorem symm (h : Repadded opened us vs) : Repadded opened vs us := by
  obtain ⟨ts, hu, hv⟩ := h
  exact ⟨ts, hv, hu⟩

theorem ofPadded (h : Padded opened us vs) : Repadded opened us vs :=
  ⟨us, .refl _ _, h⟩

theorem cons (h : Repadded ((Terminal.word "begin").admits t) us vs) :
    Repadded opened (t :: us) (t :: vs) := by
  obtain ⟨ts, hu, hv⟩ := h
  exact ⟨t :: ts, hu.token, hv.token⟩

/-- Nothing is added where all tokens are read. -/
theorem nil_inv (h : Repadded false [] vs) : vs = [] := by
  obtain ⟨ts, hu, hv⟩ := h
  cases hu with
  | nil =>
    cases hv with
    | nil => rfl
    | semicolon _ hplace _ => simp at hplace

/-- A token that is no semicolon is found in the other list too, behind the semicolons
that are added there. -/
theorem cons_inv (h : Repadded opened (t :: us) vs) (ht : (Terminal.symbol ";").admits t = false) :
    ∃ added ws, vs = added ++ t :: ws ∧ (∀ u ∈ added, (Terminal.symbol ";").admits u) ∧
      (opened = true ∨ (Terminal.word "end").admits t ∨ added = []) ∧
      Repadded ((Terminal.word "begin").admits t) us ws := by
  obtain ⟨ts, hu, hv⟩ := h
  cases hu with
  | token hu =>
    obtain ⟨added, ws, rfl, hadded, hplace, hw⟩ := hv.cons_inv
    exact ⟨added, ws, rfl, hadded, hplace, _, hu, hw⟩
  | semicolon hs _ _ =>
    rw [ht] at hs
    cases hs

/-- A semicolon either was added, or is found in the other list too. -/
theorem semicolon_inv (h : Repadded opened (t :: us) vs) (ht : (Terminal.symbol ";").admits t) :
    (Repadded opened us vs ∧ (opened = true ∨ (BeforeEnd us ∧ BeforeEnd vs))) ∨
      ∃ added ws, vs = added ++ t :: ws ∧ (∀ u ∈ added, (Terminal.symbol ";").admits u) ∧
        (opened = true ∨ added = []) ∧ Repadded false us ws := by
  obtain ⟨ts, hu, hv⟩ := h
  cases hu with
  | token hu =>
    obtain ⟨added, ws, rfl, hadded, hplace, hw⟩ := hv.cons_inv
    rw [Terminal.not_admits ht (by decide)] at hu hw hplace
    exact .inr ⟨added, ws, rfl, hadded, by simpa using hplace, _, hu, hw⟩
  | semicolon _ hplace hu =>
    refine .inl ⟨⟨ts, hu, hv⟩, hplace.imp_right fun hend => ?_⟩
    exact ⟨hu.beforeEnd hend, hv.beforeEnd hend⟩

/-- Where nothing is added the token that is next is next in both lists. -/
theorem next (h : Repadded false (t :: us) vs) (hsemicolon : (Terminal.symbol ";").admits t = false)
    (hend : (Terminal.word "end").admits t = false) :
    ∃ ws, vs = t :: ws ∧ Repadded ((Terminal.word "begin").admits t) us ws := by
  obtain ⟨added, ws, rfl, -, hplace, hrest⟩ := h.cons_inv hsemicolon
  rw [hend] at hplace
  obtain rfl : added = [] := by simpa using hplace
  exact ⟨ws, rfl, hrest⟩

theorem token (h : Repadded false (t :: us) vs) (ht : a.admits t)
    (ha : a ∉ [Terminal.symbol ";", .word "begin", .word "end"]) :
    ∃ ws, vs = t :: ws ∧ Repadded false us ws := by
  obtain ⟨hsemicolon, hbegin, hend⟩ :
      a ≠ .symbol ";" ∧ a ≠ .word "begin" ∧ a ≠ .word "end" := by
    simpa using ha
  obtain ⟨ws, rfl, hrest⟩ :=
    h.next (Terminal.not_admits ht hsemicolon) (Terminal.not_admits ht hend)
  rw [Terminal.not_admits ht hbegin] at hrest
  exact ⟨ws, rfl, hrest⟩

theorem opening (h : Repadded false (t :: us) vs) (ht : (Terminal.word "begin").admits t) :
    ∃ ws, vs = t :: ws ∧ Repadded true us ws := by
  obtain ⟨ws, rfl, hrest⟩ :=
    h.next (Terminal.not_admits ht (by decide)) (Terminal.not_admits ht (by decide))
  rw [ht] at hrest
  exact ⟨ws, rfl, hrest⟩

/-- What starts with neither a semicolon nor an `end` starts in the same way in both
lists. -/
theorem front (h : Repadded false us vs) (hfront : front? us = some a)
    (ha : a ∉ [Terminal.symbol ";", .word "end"]) : front? vs = some a := by
  cases us with
  | nil => cases hfront
  | cons t us =>
    have ht := Terminal.admits_iff.mpr hfront
    obtain ⟨hsemicolon, hend⟩ : a ≠ .symbol ";" ∧ a ≠ .word "end" := by simpa using ha
    obtain ⟨ws, rfl, -⟩ := h.next (Terminal.not_admits ht hsemicolon) (Terminal.not_admits ht hend)
    exact hfront

/-- Nothing but semicolons is added before what starts with none. -/
theorem leading (h : Repadded opened us vs) (hfront : front? us = some a)
    (ha : a ≠ .symbol ";") :
    ∃ added ws, vs = added ++ ws ∧ (∀ u ∈ added, (Terminal.symbol ";").admits u) ∧
      Repadded false us ws := by
  cases us with
  | nil => cases hfront
  | cons t us =>
    have ht := Terminal.not_admits (Terminal.admits_iff.mpr hfront) ha
    obtain ⟨added, ws, rfl, hadded, -, hrest⟩ := h.cons_inv ht
    exact ⟨added, t :: ws, rfl, hadded, hrest.cons⟩

/-- Tokens without `begin`, `end` and semicolons are the same in both lists. -/
theorem plain (h : Repadded false (ts ++ us) vs)
    (hts : ∀ t ∈ ts, ∀ a ∈ [Terminal.symbol ";", .word "begin", .word "end"],
      a.admits t = false) :
    ∃ ws, vs = ts ++ ws ∧ Repadded false us ws := by
  induction ts generalizing vs with
  | nil => exact ⟨vs, rfl, h⟩
  | cons t ts ih =>
    obtain ⟨ht, hts⟩ := List.forall_mem_cons.mp hts
    obtain ⟨ws, rfl, hrest⟩ := h.next (ht _ (by decide)) (ht _ (by decide))
    rw [ht _ (by decide)] at hrest
    obtain ⟨ws, rfl, hus⟩ := ih hrest hts
    exact ⟨ws, rfl, hus⟩

/-- So are tokens without `begin` and `end`, semicolons included, if the way goes on to
something other than an `end`. -/
theorem apart (h : Repadded false (ts ++ us) vs)
    (hts : ∀ t ∈ ts, ∀ a ∈ [Terminal.word "begin", .word "end"], a.admits t = false)
    (hus : ¬ BeforeEnd us) :
    ∃ ws, vs = ts ++ ws ∧ Repadded false us ws := by
  induction ts generalizing vs with
  | nil => exact ⟨vs, rfl, h⟩
  | cons t ts ih =>
    obtain ⟨ht, hts⟩ := List.forall_mem_cons.mp hts
    have hsame : ∃ ws, vs = t :: ws ∧ Repadded false (ts ++ us) ws := by
      by_cases hsemicolon : (Terminal.symbol ";").admits t = true
      · rcases h.semicolon_inv hsemicolon with ⟨-, hplace⟩ | ⟨added, ws, rfl, -, hplace, hrest⟩
        · obtain ⟨hend, -⟩ := hplace.resolve_left Bool.false_ne_true
          exact absurd (hend.of_append fun u hu => hts u hu _ (by decide)) hus
        · obtain rfl : added = [] := by simpa using hplace
          exact ⟨ws, rfl, hrest⟩
      · obtain ⟨ws, rfl, hrest⟩ := h.next (by simpa using hsemicolon) (ht _ (by decide))
        rw [ht _ (by decide)] at hrest
        exact ⟨ws, rfl, hrest⟩
    obtain ⟨ws, rfl, hrest⟩ := hsame
    obtain ⟨ws, rfl, hus'⟩ := ih hrest hts
    exact ⟨ws, rfl, hus'⟩

end Repadded
end Token
end PascalSyntax
