import PascalSyntax.Proofs.Parser.Reading

/-!
# What loops read

A loop reads one item after another.  Its items are spelled one after another
(`Sequence`), or with separators between them (`Separated`), and the readers
`many`, `separated` and `repeated` read just these spellings.

What a reader reads is compared with a relation between values and the tokens
that spell them.  `ReadsOnly` says that whatever is read is spelled by the
tokens that were consumed, `ReadsAll` that every spelling is read in full if the
terminal after it allows it.
-/

namespace PascalSyntax

/-- The tokens are spellings of the items, one after another. -/
inductive Sequence (spells : α → List Token → Prop) : List α → List Token → Prop
  | nil : Sequence spells [] []
  | cons {a : α} {as : List α} {ts us : List Token} :
      spells a ts → Sequence spells as us → Sequence spells (a :: as) (ts ++ us)

/-- The tokens are spellings of one or more items, with an instance of the
separator between each two. -/
inductive Separated (separator : Terminal) (spells : α → List Token → Prop) :
    List α → List Token → Prop
  | single {a : α} {ts : List Token} : spells a ts → Separated separator spells [a] ts
  | cons {a : α} {as : List α} {t : Token} {ts us : List Token} :
      spells a ts → separator.admits t → Separated separator spells as us →
        Separated separator spells (a :: as) (ts ++ t :: us)

theorem Sequence.singleton {spells : α → List Token → Prop} {a : α} {ts : List Token}
    (h : spells a ts) : Sequence spells [a] ts := by
  rw [← List.append_nil ts]
  exact .cons h .nil

theorem Sequence.append {spells : α → List Token → Prop} {as bs : List α} {ts us : List Token}
    (h : Sequence spells as ts) (h' : Sequence spells bs us) :
    Sequence spells (as ++ bs) (ts ++ us) := by
  induction h with
  | nil => exact h'
  | cons ha _ ih =>
    rw [List.cons_append, List.append_assoc]
    exact .cons ha ih

/-- Items are spelled with separators just if each of them is spelled by a piece
and the pieces stand between separators. -/
theorem separated_iff_pieces {separator : Terminal} {spells : α → List Token → Prop}
    {as : List α} {ts : List Token} :
    Separated separator spells as ts ↔
      ∃ pieces : List (α × List Token), as = pieces.map (·.1) ∧
        (∀ piece ∈ pieces, spells piece.1 piece.2) ∧
        Separated separator Eq (pieces.map (·.2)) ts := by
  constructor
  · intro h
    induction h with
    | @single a ts ha => exact ⟨[(a, ts)], rfl, by simpa using ha, .single rfl⟩
    | @cons a as t ts us ha ht _ ih =>
      obtain ⟨pieces, rfl, hp, hs⟩ := ih
      refine ⟨(a, ts) :: pieces, rfl, ?_, .cons rfl ht hs⟩
      intro piece hpiece
      rcases List.mem_cons.mp hpiece with rfl | hpiece
      · exact ha
      · exact hp piece hpiece
  · intro h
    rcases h with ⟨pieces, rfl, hp, hs⟩
    generalize hts : pieces.map (·.2) = tss at hs
    induction hs generalizing pieces with
    | single he =>
      obtain ⟨piece, rfl, rfl⟩ := List.map_eq_singleton_iff.mp hts
      subst he
      exact .single (hp _ (List.mem_singleton_self _))
    | cons he ht _ ih =>
      obtain ⟨piece, pieces, rfl, rfl, rfl⟩ := List.map_eq_cons_iff.mp hts
      subst he
      exact .cons (hp _ List.mem_cons_self) ht
        (ih pieces (fun q hq => hp q (List.mem_cons_of_mem _ hq)) rfl)

/-- No item is longer than the whole. -/
theorem Separated.length_le {separator : Terminal} {pieces : List (α × List Token)}
    {ts : List Token} (h : Separated separator Eq (pieces.map (·.2)) ts) :
    ∀ piece ∈ pieces, piece.2.length ≤ ts.length := by
  generalize hts : pieces.map (·.2) = tss at h
  induction h generalizing pieces with
  | single he =>
    obtain ⟨piece, rfl, rfl⟩ := List.map_eq_singleton_iff.mp hts
    subst he
    intro q hq
    exact Nat.le_of_eq (by rw [List.mem_singleton.mp hq])
  | cons he _ _ ih =>
    obtain ⟨piece, pieces, rfl, rfl, rfl⟩ := List.map_eq_cons_iff.mp hts
    subst he
    intro q hq
    rw [List.length_append, List.length_cons]
    rcases List.mem_cons.mp hq with rfl | hq
    · omega
    · have := ih rfl q hq
      omega

/-- Each item may be replaced by one that is spelled in its place. -/
theorem Sequence.replace {spells : α → List Token → Prop} {spells' : β → List Token → Prop}
    {f : α → γ} {g : β → γ} (h : ∀ a ts, spells a ts → ∃ b, g b = f a ∧ spells' b ts)
    {as : List α} {ts : List Token} (hs : Sequence spells as ts) :
    ∃ bs, bs.map g = as.map f ∧ Sequence spells' bs ts := by
  induction hs with
  | nil => exact ⟨[], rfl, .nil⟩
  | cons ha _ ih =>
    obtain ⟨b, hb, hspells⟩ := h _ _ ha
    obtain ⟨bs, hbs, hs⟩ := ih
    exact ⟨b :: bs, by rw [List.map_cons, List.map_cons, hb, hbs], .cons hspells hs⟩

/-- The same with separators. -/
theorem Separated.replace {separator : Terminal} {spells : α → List Token → Prop}
    {spells' : β → List Token → Prop} {f : α → γ} {g : β → γ}
    (h : ∀ a ts, spells a ts → ∃ b, g b = f a ∧ spells' b ts) {as : List α} {ts : List Token}
    (hs : Separated separator spells as ts) :
    ∃ bs, bs.map g = as.map f ∧ Separated separator spells' bs ts := by
  induction hs with
  | single ha =>
    obtain ⟨b, hb, hspells⟩ := h _ _ ha
    exact ⟨[b], by rw [List.map_singleton, List.map_singleton, hb], .single hspells⟩
  | cons ha ht _ ih =>
    obtain ⟨b, hb, hspells⟩ := h _ _ ha
    obtain ⟨bs, hbs, hs⟩ := ih
    exact ⟨b :: bs, by rw [List.map_cons, List.map_cons, hb, hbs], .cons hspells ht hs⟩

/-- If each place has an item, the items can be collected. -/
theorem Separated.choose {separator : Terminal} {spells : β → List Token → Prop} {as : List α}
    {ts : List Token} (h : Separated separator (fun _ us => ∃ b, spells b us) as ts) :
    ∃ bs, Separated separator spells bs ts := by
  have hpoint : ∀ (a : α) us, (∃ b, spells b us) → ∃ b, () = () ∧ spells b us :=
    fun _ _ ⟨b, hb⟩ => ⟨b, rfl, hb⟩
  obtain ⟨bs, -, hs⟩ := h.replace hpoint
  exact ⟨bs, hs⟩

/-- What holds of every item that is spelled holds of all items. -/
theorem Sequence.forall_mem {spells : α → List Token → Prop} {P : α → Prop}
    (each : ∀ a ts, spells a ts → P a) {as : List α} {ts : List Token}
    (h : Sequence spells as ts) : ∀ a ∈ as, P a := by
  induction h with
  | nil => exact List.forall_mem_nil _
  | cons ha _ ih => exact List.forall_mem_cons.mpr ⟨each _ _ ha, ih⟩

theorem Separated.forall_mem {separator : Terminal} {spells : α → List Token → Prop}
    {P : α → Prop} (each : ∀ a ts, spells a ts → P a) {as : List α} {ts : List Token}
    (h : Separated separator spells as ts) : ∀ a ∈ as, P a := by
  induction h with
  | single ha => exact List.forall_mem_singleton.mpr (each _ _ ha)
  | cons ha _ _ ih => exact List.forall_mem_cons.mpr ⟨each _ _ ha, ih⟩

/-- The same for items that are lists themselves. -/
theorem Sequence.forall_mem_flatten {spells : List α → List Token → Prop} {P : α → Prop}
    (each : ∀ as ts, spells as ts → ∀ a ∈ as, P a) {groups : List (List α)} {ts : List Token}
    (h : Sequence spells groups ts) : ∀ a ∈ groups.flatten, P a := by
  intro a ha
  obtain ⟨as, has, ha⟩ := List.mem_flatten.mp ha
  exact h.forall_mem each as has a ha

theorem Separated.forall_mem_flatten {separator : Terminal} {spells : List α → List Token → Prop}
    {P : α → Prop} (each : ∀ as ts, spells as ts → ∀ a ∈ as, P a) {groups : List (List α)}
    {ts : List Token} (h : Separated separator spells groups ts) : ∀ a ∈ groups.flatten, P a := by
  intro a ha
  obtain ⟨as, has, ha⟩ := List.mem_flatten.mp ha
  exact h.forall_mem each as has a ha

theorem Separated.ne_nil {separator : Terminal} {spells : α → List Token → Prop} {as : List α}
    {ts : List Token} (h : Separated separator spells as ts) : as ≠ [] := by
  cases h <;> exact List.cons_ne_nil _ _

/-- What holds of some tokens and goes over to their parts holds of the tokens of
each item. -/
theorem Sequence.inherit {spells : α → List Token → Prop} {P : List Token → Prop}
    (split : ∀ {ts us}, P (ts ++ us) → P ts ∧ P us) {as : List α} {ts : List Token}
    (h : Sequence spells as ts) (hp : P ts) :
    Sequence (fun a us => P us ∧ spells a us) as ts := by
  induction h with
  | nil => exact .nil
  | cons ha _ ih =>
    obtain ⟨hts, hus⟩ := split hp
    exact .cons ⟨hts, ha⟩ (ih hus)

theorem Separated.inherit {separator : Terminal} {spells : α → List Token → Prop}
    {P : List Token → Prop} (left : ∀ {ts us}, P (ts ++ us) → P ts)
    (right : ∀ {ts t us}, separator.admits t → P (ts ++ t :: us) → P us) {as : List α}
    {ts : List Token} (h : Separated separator spells as ts) (hp : P ts) :
    Separated separator (fun a us => P us ∧ spells a us) as ts := by
  induction h with
  | single ha => exact .single ⟨hp, ha⟩
  | cons ha ht _ ih => exact .cons ⟨left hp, ha⟩ ht (ih (right ht hp))

/-- Each item is spelled by some of the tokens. -/
theorem Sequence.within {spells : α → List Token → Prop} {as : List α} {ts : List Token}
    (h : Sequence spells as ts) : Sequence (fun a us => us ⊆ ts ∧ spells a us) as ts :=
  h.inherit (P := (· ⊆ ts)) List.append_subset.mp (List.Subset.refl ts)

theorem Separated.within {separator : Terminal} {spells : α → List Token → Prop} {as : List α}
    {ts : List Token} (h : Separated separator spells as ts) :
    Separated separator (fun a us => us ⊆ ts ∧ spells a us) as ts :=
  h.inherit (P := (· ⊆ ts)) (fun hsub => (List.append_subset.mp hsub).1)
    (fun _ hsub => (List.cons_subset.mp (List.append_subset.mp hsub).2).2) (List.Subset.refl ts)

theorem Separated.subset {separator : Terminal} {tss : List (List Token)} {ts : List Token}
    (h : Separated separator Eq tss ts) : ∀ us ∈ tss, us ⊆ ts :=
  h.within.forall_mem fun _ _ hus => hus.2 ▸ hus.1

/-- Items may be spelled as others if each token is replaced by another. -/
theorem Sequence.map {spells : α → List Token → Prop} {spells' : β → List Token → Prop}
    {f : Token → Token} {g : α → β} {as : List α} {ts : List Token} (h : Sequence spells as ts)
    (each : ∀ a ∈ as, ∀ us, spells a us → spells' (g a) (us.map f)) :
    Sequence spells' (as.map g) (ts.map f) := by
  induction h with
  | nil => exact .nil
  | cons ha _ ih =>
    obtain ⟨hfirst, hrest⟩ := List.forall_mem_cons.mp each
    rw [List.map_append]
    exact .cons (hfirst _ ha) (ih hrest)

theorem Separated.map {separator : Terminal} {spells : α → List Token → Prop}
    {spells' : β → List Token → Prop} {f : Token → Token} {g : α → β} {as : List α}
    {ts : List Token} (h : Separated separator spells as ts)
    (keeps : ∀ t, separator.admits t → separator.admits (f t))
    (each : ∀ a ∈ as, ∀ us, spells a us → spells' (g a) (us.map f)) :
    Separated separator spells' (as.map g) (ts.map f) := by
  induction h with
  | single ha => exact .single (each _ List.mem_cons_self _ ha)
  | cons ha ht _ ih =>
    obtain ⟨hfirst, hrest⟩ := List.forall_mem_cons.mp each
    rw [List.map_append, List.map_cons]
    exact .cons (hfirst _ ha) (keeps _ ht) (ih hrest)

/-- Items may be spelled as others by the same tokens. -/
theorem Sequence.map_items {spells : α → List Token → Prop} {spells' : β → List Token → Prop}
    {g : α → β} {as : List α} {ts : List Token} (h : Sequence spells as ts)
    (each : ∀ a ∈ as, ∀ us, spells a us → spells' (g a) us) :
    Sequence spells' (as.map g) ts := by
  have hsame : ∀ a ∈ as, ∀ us, spells a us → spells' (g a) (us.map id) := by
    intro a ha us hus
    rw [List.map_id]
    exact each a ha us hus
  have hitems := h.map hsame
  rwa [List.map_id] at hitems

theorem Separated.map_items {separator : Terminal} {spells : α → List Token → Prop}
    {spells' : β → List Token → Prop} {g : α → β} {as : List α} {ts : List Token}
    (h : Separated separator spells as ts)
    (each : ∀ a ∈ as, ∀ us, spells a us → spells' (g a) us) :
    Separated separator spells' (as.map g) ts := by
  have hsame : ∀ a ∈ as, ∀ us, spells a us → spells' (g a) (us.map id) := by
    intro a ha us hus
    rw [List.map_id]
    exact each a ha us hus
  have keeps : ∀ t, separator.admits t → separator.admits (id t) := fun _ ht => ht
  have hitems := h.map keeps hsame
  rwa [List.map_id] at hitems

/-- The items may be spelled in another sense by the same tokens. -/
theorem Sequence.imp {spells spells' : α → List Token → Prop} {as : List α} {ts : List Token}
    (h : Sequence spells as ts) (each : ∀ a ∈ as, ∀ us, spells a us → spells' a us) :
    Sequence spells' as ts := by
  have hitems := h.map_items (g := id) each
  rwa [List.map_id] at hitems

theorem Separated.imp {separator : Terminal} {spells spells' : α → List Token → Prop}
    {as : List α} {ts : List Token} (h : Separated separator spells as ts)
    (each : ∀ a ∈ as, ∀ us, spells a us → spells' a us) : Separated separator spells' as ts := by
  have hitems := h.map_items (g := id) each
  rwa [List.map_id] at hitems

/-- An item with the separator behind it. -/
def Terminated (separator : Terminal) (spells : α → List Token → Prop) (x : α)
    (ts : List Token) : Prop :=
  ∃ us t, ts = us ++ [t] ∧ spells x us ∧ separator.admits t

theorem Separated.append {separator : Terminal} {spells : α → List Token → Prop} {as bs : List α}
    {ts us : List Token} {t : Token} (h : Separated separator spells as ts)
    (ht : separator.admits t) (h' : Separated separator spells bs us) :
    Separated separator spells (as ++ bs) (ts ++ t :: us) := by
  induction h with
  | single hx => exact .cons hx ht h'
  | cons hx ht' _ ih =>
    rw [List.append_assoc, List.cons_append, List.cons_append]
    exact .cons hx ht' ih

/-- With a last separator the items stand one after another. -/
theorem Separated.terminated {separator : Terminal} {spells : α → List Token → Prop}
    {as : List α} {ts : List Token} {t : Token} (h : Separated separator spells as ts)
    (ht : separator.admits t) : Sequence (Terminated separator spells) as (ts ++ [t]) := by
  induction h with
  | @single x ts hx => exact .singleton ⟨ts, t, rfl, hx, ht⟩
  | @cons x as t' ts us hx ht' _ ih =>
    have hfirst : Terminated separator spells x (ts ++ [t']) := ⟨ts, t', rfl, hx, ht'⟩
    simpa using Sequence.cons hfirst ih

theorem Sequence.separated_append {separator : Terminal} {spells : α → List Token → Prop}
    {as bs : List α} {ts us : List Token} (h : Sequence (Terminated separator spells) as ts)
    (h' : Separated separator spells bs us) :
    Separated separator spells (as ++ bs) (ts ++ us) := by
  induction h with
  | nil => exact h'
  | cons hx _ ih =>
    obtain ⟨vs, t, rfl, hx, ht⟩ := hx
    rw [List.append_assoc, List.append_assoc]
    exact .cons hx ht ih

/-- Items with separators start as one of the items does. -/
theorem Separated.front {separator : Terminal} {spells : α → List Token → Prop}
    {starters : List Terminal}
    (front : ∀ a ts, spells a ts → ∃ x ∈ starters, Token.front? ts = some x) {as : List α}
    {ts : List Token} (h : Separated separator spells as ts) :
    ∃ x ∈ starters, Token.front? ts = some x := by
  cases h with
  | single ha => exact front _ _ ha
  | cons ha _ _ =>
    obtain ⟨x, hx, hfront⟩ := front _ _ ha
    exact ⟨x, hx, Token.front?_append hfront⟩

namespace Parser

/-- Whatever is read is spelled by the tokens that were consumed. -/
def ReadsOnly (p : Parser Cursor α) (spells : α → List Token → Prop) : Prop :=
  ∀ us a rest, p.Reads us a rest → ∃ ts, us = ts ++ rest ∧ spells a ts

/-- Every spelling is read in full where what follows it allows it. -/
def ReadsAll (p : Parser Cursor α) (spells : α → List Token → Prop)
    (follow : Option Terminal → Prop) :
    Prop :=
  ∀ a ts rest, spells a ts → follow (Token.front? rest) → p.Reads (ts ++ rest) a rest

/-! ## Rounds -/

/-- Rounds of a loop that each give a value and consume something. -/
inductive Rounds (round : Parser Cursor (Option α)) : List Token → List α → List Token → Prop
  | nil (us : List Token) : Rounds round us [] us
  | cons {us mid rest : List Token} {a : α} {as : List α} :
      round.Reads us (some a) mid → mid.length < us.length → Rounds round mid as rest →
        Rounds round us (a :: as) rest

/-- A round that gives a value consumes something. -/
def Advances (round : Parser Cursor (Option α)) : Prop :=
  ∀ us a rest, round.Reads us (some a) rest → rest.length < us.length

theorem reads_many_nil {round : Parser Cursor (Option α)} {us rest : List Token}
    (last : round.Reads us none rest) : (many round).Reads us [] rest := by
  rw [Reads, Parser.many, show round (.before us) = .ok (none, .before rest) from last]

theorem reads_many_cons {round : Parser Cursor (Option α)} {us mid rest : List Token} {a : α}
    {as : List α} (first : round.Reads us (some a) mid) (shorter : mid.length < us.length)
    (others : (many round).Reads mid as rest) : (many round).Reads us (a :: as) rest := by
  have hl : Spot.left (Cursor.before mid) < Spot.left (Cursor.before us) := shorter
  rw [Reads, Parser.many, show round (.before us) = .ok (some a, .before mid) from first]
  simp only [if_pos hl]
  rw [show Parser.many round (.before mid) = .ok (as, .before rest) from others]

theorem reads_many_idle {round : Parser Cursor (Option α)} {us rest : List Token} {a : α}
    (only : round.Reads us (some a) rest) (idle : ¬ rest.length < us.length) :
    (many round).Reads us [a] rest := by
  have hl : ¬ Spot.left (Cursor.before rest) < Spot.left (Cursor.before us) := idle
  rw [Reads, Parser.many, show round (.before us) = .ok (some a, .before rest) from only]
  exact if_neg hl

theorem Rounds.many {round : Parser Cursor (Option α)} {us mid rest : List Token} {as : List α}
    (h : Rounds round us as mid) (last : round.Reads mid none rest) :
    (many round).Reads us as rest := by
  induction h with
  | nil us => exact reads_many_nil last
  | cons hr hl _ ih => exact reads_many_cons hr hl (ih last)

theorem rounds_of_many {round : Parser Cursor (Option α)} (advances : Advances round) {c d : Cursor}
    {as : List α} (h : many round c = .ok (as, d)) :
    ∃ mid, Rounds round c.rest as mid ∧ round.Reads mid none d.rest := by
  fun_induction many round c generalizing as d with
  | case1 c failure hr => cases h
  | case2 c next hr =>
    cases h
    exact ⟨c.rest, .nil _, reads_iff_ok.mp hr⟩
  | case3 c a next hr hl failure hm ih => cases h
  | case4 c a next hr hl as' last hm ih =>
    cases h
    obtain ⟨mid, rounds, hlast⟩ := ih hm
    have hl' : next.rest.length < c.rest.length := by
      rw [← next.left_eq_length, ← c.left_eq_length]
      exact hl
    exact ⟨mid, .cons (reads_iff_ok.mp hr) hl' rounds, hlast⟩
  | case5 c a next hr hl =>
    refine absurd ?_ hl
    rw [next.left_eq_length, c.left_eq_length]
    exact advances _ _ _ (reads_iff_ok.mp hr)

/-- A loop gives the values of its rounds, up to the first that gives none. -/
theorem reads_many_iff {round : Parser Cursor (Option α)} (advances : Advances round)
    {us rest : List Token} {as : List α} :
    (many round).Reads us as rest ↔
      ∃ mid, Rounds round us as mid ∧ round.Reads mid none rest := by
  constructor
  · intro h
    exact rounds_of_many advances h
  · intro h
    rcases h with ⟨mid, rounds, last⟩
    exact rounds.many last

/-- Rounds read a sequence if each of them reads one item. -/
theorem Rounds.sequence {round : Parser Cursor (Option α)} {spells : α → List Token → Prop}
    (only : ∀ us a rest, round.Reads us (some a) rest → ∃ ts, us = ts ++ rest ∧ spells a ts)
    {us mid : List Token} {as : List α} (h : Rounds round us as mid) :
    ∃ ts, us = ts ++ mid ∧ Sequence spells as ts := by
  induction h with
  | nil us => exact ⟨[], rfl, .nil⟩
  | cons hr _ _ ih =>
    obtain ⟨ts, rfl, ha⟩ := only _ _ _ hr
    obtain ⟨us, rfl, hs⟩ := ih
    exact ⟨ts ++ us, (List.append_assoc _ _ _).symm, .cons ha hs⟩

/-- A loop reads a sequence in full if a round reads an item wherever what
follows is `good`, as are the start of each item and what follows the last. -/
theorem reads_many_of_sequence {round : Parser Cursor (Option α)}
    {spells : α → List Token → Prop} {good : Option Terminal → Prop}
    (all : ∀ a ts rest, spells a ts → good (Token.front? rest) →
      round.Reads (ts ++ rest) (some a) rest)
    (front : ∀ a ts rest, spells a ts → good (Token.front? (ts ++ rest)))
    (hne : ∀ a ts, spells a ts → ts ≠ []) {as : List α} {ts rest stop : List Token}
    (h : Sequence spells as ts) (hrest : good (Token.front? rest))
    (last : round.Reads rest none stop) : (many round).Reads (ts ++ rest) as stop := by
  induction h with
  | nil => exact reads_many_nil last
  | @cons a as ts us ha hs ih =>
    have hnext : good (Token.front? (us ++ rest)) := by
      cases hs with
      | nil => exact hrest
      | cons hb _ =>
        rw [List.append_assoc]
        exact front _ _ _ hb
    have hl : (us ++ rest).length < (ts ++ (us ++ rest)).length := by
      have := List.length_pos_iff.mpr (hne _ _ ha)
      rw [@List.length_append _ ts]
      omega
    rw [List.append_assoc]
    exact reads_many_cons (all _ _ _ ha hnext) hl ih

/-! ## Items with separators -/

theorem reads_another_some_iff {separator : Terminal} {item : Parser Cursor α}
    {us rest : List Token} {a : α} :
    (another separator item).Reads us (some a) rest ↔
      ∃ t mid, us = t :: mid ∧ separator.admits t = true ∧ item.Reads mid a rest := by
  rw [another, reads_bind_iff]
  constructor
  · intro h
    rcases h with ⟨o, mid, ho, h⟩
    cases o with
    | none => simp at h
    | some t =>
      rw [reads_take?_some_iff] at ho
      rw [reads_bind_iff] at h
      obtain ⟨b, end_, hb, h⟩ := h
      rw [reads_pure_iff] at h
      obtain ⟨h, rfl⟩ := h
      cases h
      exact ⟨t, mid, ho.1, ho.2, hb⟩
  · intro h
    rcases h with ⟨t, mid, rfl, ht, h⟩
    refine ⟨some t, mid, reads_take?_some_iff.mpr ⟨rfl, ht⟩, ?_⟩
    exact reads_bind_iff.mpr ⟨a, rest, h, reads_pure_iff.mpr ⟨rfl, rfl⟩⟩

theorem reads_another_none_iff {separator : Terminal} {item : Parser Cursor α}
    {us rest : List Token} :
    (another separator item).Reads us none rest ↔
      Token.front? us ≠ some separator ∧ rest = us := by
  rw [another, reads_bind_iff]
  constructor
  · intro h
    rcases h with ⟨o, mid, ho, h⟩
    cases o with
    | none =>
      rw [reads_take?_none_iff] at ho
      rw [reads_pure_iff] at h
      exact ⟨ho.1, h.2.trans ho.2⟩
    | some t =>
      rw [reads_bind_iff] at h
      obtain ⟨b, last, hb, h⟩ := h
      simp at h
  · intro h
    rcases h with ⟨h, rfl⟩
    exact ⟨none, rest, reads_take?_none_iff.mpr ⟨h, rfl⟩, reads_pure_iff.mpr ⟨rfl, rfl⟩⟩

theorem ReadsOnly.shorter {p : Parser Cursor α} {spells : α → List Token → Prop}
    (only : p.ReadsOnly spells) {us rest : List Token} {a : α} (h : p.Reads us a rest) :
    rest.length ≤ us.length := by
  obtain ⟨ts, rfl, -⟩ := only _ _ _ h
  rw [List.length_append]
  omega

theorem advances_another {separator : Terminal} {item : Parser Cursor α}
    {spells : α → List Token → Prop}
    (only : item.ReadsOnly spells) : Advances (another separator item) := by
  intro us a rest h
  obtain ⟨t, mid, rfl, -, h⟩ := reads_another_some_iff.mp h
  have := only.shorter h
  rw [List.length_cons]
  omega

/-- The items of a loop, with the one before them. -/
theorem Rounds.separated {separator : Terminal} {item : Parser Cursor α}
    {spells : α → List Token → Prop} (only : item.ReadsOnly spells) {us mid : List Token}
    {as : List α} (h : Rounds (another separator item) us as mid) :
    ∀ {a : α} {ts : List Token}, spells a ts →
      ∃ vs, us = vs ++ mid ∧ Separated separator spells (a :: as) (ts ++ vs) := by
  induction h with
  | nil us =>
    intro a ts ha
    refine ⟨[], rfl, ?_⟩
    rw [List.append_nil]
    exact .single ha
  | cons hr _ _ ih =>
    intro a ts ha
    obtain ⟨t, front, rfl, ht, hr⟩ := reads_another_some_iff.mp hr
    obtain ⟨us, rfl, hb⟩ := only _ _ _ hr
    obtain ⟨vs, rfl, h⟩ := ih hb
    refine ⟨t :: (us ++ vs), ?_, .cons ha ht h⟩
    rw [List.cons_append, List.append_assoc]

theorem ReadsOnly.separated {item : Parser Cursor α} {spells : α → List Token → Prop}
    (only : item.ReadsOnly spells) (separator : Terminal) :
    (separated separator item).ReadsOnly (Separated separator spells) := by
  intro us as rest h
  rw [Parser.separated, reads_bind_iff] at h
  obtain ⟨a, mid, ha, h⟩ := h
  rw [reads_bind_iff] at h
  obtain ⟨others, last, hm, h⟩ := h
  obtain ⟨rfl, rfl⟩ := reads_pure_iff.mp h
  obtain ⟨ts, rfl, hts⟩ := only _ _ _ ha
  obtain ⟨stop, rounds, hstop⟩ := (reads_many_iff (advances_another only)).mp hm
  obtain ⟨-, rfl⟩ := reads_another_none_iff.mp hstop
  obtain ⟨vs, rfl, h⟩ := rounds.separated only hts
  exact ⟨ts ++ vs, (List.append_assoc _ _ _).symm, h⟩

theorem reads_separated_cons {separator : Terminal} {item : Parser Cursor α}
    {spells : α → List Token → Prop} (only : item.ReadsOnly spells) {us vs rest : List Token}
    {a : α} {as : List α} {t : Token} (first : item.Reads us a (t :: vs))
    (ht : separator.admits t) (others : (separated separator item).Reads vs as rest) :
    (separated separator item).Reads us (a :: as) rest := by
  rw [Parser.separated, reads_bind_iff] at others
  obtain ⟨b, mid, hb, h⟩ := others
  rw [reads_bind_iff] at h
  obtain ⟨bs, last, hm, h⟩ := h
  obtain ⟨rfl, rfl⟩ := reads_pure_iff.mp h
  have hl : mid.length < (t :: vs).length := by
    have := only.shorter hb
    rw [List.length_cons]
    omega
  have hround : (another separator item).Reads (t :: vs) (some b) mid :=
    reads_another_some_iff.mpr ⟨t, vs, rfl, ht, hb⟩
  rw [Parser.separated, reads_bind_iff]
  refine ⟨a, t :: vs, first, reads_bind_iff.mpr ⟨b :: bs, rest, ?_, reads_pure_iff.mpr ⟨rfl, rfl⟩⟩⟩
  exact reads_many_cons hround hl hm

theorem ReadsAll.separated {item : Parser Cursor α} {spells : α → List Token → Prop}
    {follow : Option Terminal → Prop} (only : item.ReadsOnly spells)
    (all : item.ReadsAll spells follow) {separator : Terminal} (hs : follow (some separator)) :
    (separated separator item).ReadsAll (Separated separator spells)
      (fun o => follow o ∧ o ≠ some separator) := by
  intro as ts rest h hf
  induction h with
  | @single a ts ha =>
    have hstop : (another separator item).Reads rest none rest :=
      reads_another_none_iff.mpr ⟨hf.2, rfl⟩
    rw [Parser.separated, reads_bind_iff]
    exact ⟨a, rest, all _ _ _ ha hf.1,
      reads_bind_iff.mpr ⟨[], rest, reads_many_nil hstop, reads_pure_iff.mpr ⟨rfl, rfl⟩⟩⟩
  | @cons a as t ts us ha ht _ ih =>
    have hnext : follow (Token.front? (t :: (us ++ rest))) := by
      rw [Terminal.front?_of_admits ht]
      exact hs
    rw [List.append_assoc, List.cons_append]
    exact reads_separated_cons only (all _ _ _ ha hnext) ht ih

/-! ## Items without separators -/

theorem reads_oneMore_some_iff {start : Terminal} {item : Parser Cursor α} {us rest : List Token}
    {a : α} :
    (oneMore start item).Reads us (some a) rest ↔
      Token.front? us = some start ∧ item.Reads us a rest := by
  rw [oneMore, reads_bind_iff]
  by_cases h : Token.front? us = some start <;> simp [h]

theorem reads_oneMore_none_iff {start : Terminal} {item : Parser Cursor α} {us rest : List Token} :
    (oneMore start item).Reads us none rest ↔
      Token.front? us ≠ some start ∧ rest = us := by
  rw [oneMore, reads_bind_iff]
  by_cases h : Token.front? us = some start <;> simp [h]

theorem advances_oneMore {start : Terminal} {item : Parser Cursor α}
    {spells : α → List Token → Prop}
    (only : item.ReadsOnly spells) (hne : ∀ a ts, spells a ts → ts ≠ []) :
    Advances (oneMore start item) := by
  intro us a rest h
  obtain ⟨ts, rfl, ha⟩ := only _ _ _ (reads_oneMore_some_iff.mp h).2
  have := List.length_pos_iff.mpr (hne _ _ ha)
  rw [List.length_append]
  omega

theorem ReadsOnly.repeated {item : Parser Cursor α} {spells : α → List Token → Prop}
    (only : item.ReadsOnly spells) (hne : ∀ a ts, spells a ts → ts ≠ []) (start : Terminal) :
    (repeated start item).ReadsOnly (fun as ts => as ≠ [] ∧ Sequence spells as ts) := by
  intro us as rest h
  rw [Parser.repeated, reads_bind_iff] at h
  obtain ⟨a, mid, ha, h⟩ := h
  rw [reads_bind_iff] at h
  obtain ⟨others, last, hm, h⟩ := h
  obtain ⟨rfl, rfl⟩ := reads_pure_iff.mp h
  obtain ⟨ts, rfl, hts⟩ := only _ _ _ ha
  obtain ⟨stop, rounds, hstop⟩ := (reads_many_iff (advances_oneMore only hne)).mp hm
  obtain ⟨-, rfl⟩ := reads_oneMore_none_iff.mp hstop
  have hround : ∀ us a rest, (oneMore start item).Reads us (some a) rest →
      ∃ ts, us = ts ++ rest ∧ spells a ts :=
    fun us a rest h => only _ _ _ (reads_oneMore_some_iff.mp h).2
  obtain ⟨vs, rfl, hs⟩ := rounds.sequence hround
  exact ⟨ts ++ vs, (List.append_assoc _ _ _).symm, List.cons_ne_nil _ _, .cons hts hs⟩

theorem ReadsAll.repeated {item : Parser Cursor α} {spells : α → List Token → Prop}
    {follow : Option Terminal → Prop} (all : item.ReadsAll spells follow) {start : Terminal}
    (hstart : ∀ a ts, spells a ts → Token.front? ts = some start) (hf : follow (some start)) :
    (repeated start item).ReadsAll (fun as ts => as ≠ [] ∧ Sequence spells as ts)
      (fun o => follow o ∧ o ≠ some start) := by
  intro as ts rest h hrest
  obtain ⟨hne, h⟩ := h
  cases h with
  | nil => exact absurd rfl hne
  | @cons a as ts us ha hs =>
    have hfront : ∀ a ts rest, spells a ts → Token.front? (ts ++ rest) = some start :=
      fun a ts rest ha => Token.front?_append (hstart _ _ ha)
    have hnext : follow (Token.front? (us ++ rest)) := by
      cases hs with
      | nil => exact hrest.1
      | cons hb _ =>
        rw [List.append_assoc, hfront _ _ _ hb]
        exact hf
    have hmany : (many (oneMore start item)).Reads (us ++ rest) as rest := by
      refine reads_many_of_sequence ?_ ?_ ?_ hs hrest.1
        (reads_oneMore_none_iff.mpr ⟨hrest.2, rfl⟩)
      · intro a ts rest ha hf
        exact reads_oneMore_some_iff.mpr ⟨hfront _ _ _ ha, all _ _ _ ha hf⟩
      · intro a ts rest ha
        rw [hfront _ _ _ ha]
        exact hf
      · intro a ts ha he
        rw [he] at ha
        cases hstart _ _ ha
    rw [Parser.repeated, reads_bind_iff, List.append_assoc]
    exact ⟨a, us ++ rest, all _ _ _ ha hnext,
      reads_bind_iff.mpr ⟨as, rest, hmany, reads_pure_iff.mpr ⟨rfl, rfl⟩⟩⟩

end Parser
end PascalSyntax
