import PascalSyntax.Listing.Outline
import PascalSyntax.Proofs.Token.Words

/-!
# Reading the lines of an outline back

In plain text a line of an outline can be read back.  The spaces in front are its
depth, its label goes up to the next space, its place starts at the last `@`, and
what stands between the two is its detail.  No detail goes over a line end, so
that the text of an outline falls into its lines again.
-/

namespace PascalSyntax

/-- A list is cut in one way where a class of characters ends. -/
theorem cut_unique {p : Char → Bool} {xs ys rest rest' : List Char}
    (hxs : ∀ c ∈ xs, p c = true) (hrest : ∀ c ∈ rest.head?, p c = false)
    (hys : ∀ c ∈ ys, p c = true) (hrest' : ∀ c ∈ rest'.head?, p c = false)
    (h : xs ++ rest = ys ++ rest') : xs = ys ∧ rest = rest' := by
  obtain ⟨htake, hdrop⟩ := Lexeme.takeWhile_eq_of_append hxs hrest
  obtain ⟨htake', hdrop'⟩ := Lexeme.takeWhile_eq_of_append hys hrest'
  rw [h] at htake hdrop
  exact ⟨htake.symm.trans htake', hdrop.symm.trans hdrop'⟩

/-- The same cut before a given character. -/
theorem cut_at {x : Char} {xs ys rest rest' : List Char} (hxs : x ∉ xs) (hys : x ∉ ys)
    (h : xs ++ x :: rest = ys ++ x :: rest') : xs = ys ∧ rest = rest' := by
  have hne {zs : List Char} (hzs : x ∉ zs) : ∀ c ∈ zs, decide (c ≠ x) = true :=
    fun c hc => decide_eq_true fun he => hzs (he ▸ hc)
  have hhead (zs : List Char) : ∀ c ∈ (x :: zs).head?, decide (c ≠ x) = false := by
    rintro _ ⟨⟩
    simp
  obtain ⟨hfront, hback⟩ := cut_unique (hne hxs) (hhead rest) (hne hys) (hhead rest') h
  exact ⟨hfront, (List.cons.inj hback).2⟩

/-- The cut at the last of such characters. -/
theorem cut_at_last {x : Char} {xs ys rest rest' : List Char} (hrest : x ∉ rest)
    (hrest' : x ∉ rest') (h : xs ++ x :: rest = ys ++ x :: rest') : xs = ys ∧ rest = rest' := by
  have hreverse := congrArg List.reverse h
  simp only [List.reverse_append, List.reverse_cons, List.append_assoc, List.singleton_append]
    at hreverse
  obtain ⟨hback, hfront⟩ := cut_at (by simpa using hrest) (by simpa using hrest') hreverse
  exact ⟨List.reverse_injective hfront, List.reverse_injective hback⟩

/-- A number is known by its digits. -/
theorem repr_injective {m n : Nat} (h : m.repr.toList = n.repr.toList) : m = n := by
  rw [← Word.value_repr m, h, Word.value_repr]

namespace Outline

/-- The labels of all nodes. -/
def labels : List String :=
  ["Program", "Var", "VarDecl", "Const", "ConstDecl", "Function", "Procedure", "Parameter",
    "Block", "Assignment", "Call", "If", "Branch", "Else", "While", "For", "Identifier",
    "Integer", "String", "Operator"]

theorem labels_solid : ∀ label ∈ labels,
    label.toList ≠ [] ∧ ' ' ∉ label.toList ∧ '\n' ∉ label.toList := by
  decide

end Outline

namespace OutlineLine

/-- The label is one of the labels, and the detail stays on its line. -/
structure Legible (line : OutlineLine) : Prop where
  label : line.label ∈ Outline.labels
  detail : '\n' ∉ line.detail.toList

/-- The characters of a line between its label and its place. -/
def remark (line : OutlineLine) : List Char :=
  if line.detail = "" then [] else line.detail.toList ++ [' ']

/-- The characters of a line after its last `@`. -/
def place (line : OutlineLine) : List Char :=
  line.position.line.repr.toList ++ ':' :: line.position.column.repr.toList

/-- The characters of a line, up to the line end. -/
def body (line : OutlineLine) : List Char :=
  List.replicate (2 * line.depth) ' ' ++
    (line.label.toList ++ ' ' :: (line.remark ++ '@' :: line.place))

theorem toList_indentation (depth : Nat) :
    (String.join (List.replicate depth "  ")).toList = List.replicate (2 * depth) ' ' := by
  induction depth with
  | zero => rfl
  | succ depth ih =>
    rw [List.replicate_succ, String.join_cons, String.toList_append, ih]
    rfl

theorem toList_render (line : OutlineLine) :
    (line.render .plain).toList = line.body ++ ['\n'] := by
  have hplace : s!"@{line.position.line}:{line.position.column}".toList = '@' :: line.place := by
    simp [place, toString]
  rw [render]
  simp only [String.toList_append, toList_indentation, Palette.paint, Palette.plain,
    Bool.false_eq_true, if_false, hplace, body, remark]
  split <;> simp

theorem not_mem_digits {c : Char} (hc : c.isDigit = false) (n : Nat) : c ∉ n.repr.toList := by
  intro hmem
  have hdigit := (Word.digits_repr n).isDigit c hmem
  rw [hc] at hdigit
  cases hdigit

/-- The place of a line has none of the characters by which lines are cut. -/
theorem not_mem_place {c : Char} (hc : c.isDigit = false) (hcolon : c ≠ ':')
    (line : OutlineLine) : c ∉ line.place := by
  rw [place, List.mem_append, List.mem_cons]
  rintro (h | h | h)
  · exact not_mem_digits hc _ h
  · exact hcolon h
  · exact not_mem_digits hc _ h

theorem place_injective {line line' : OutlineLine} (h : line.place = line'.place) :
    line.position = line'.position := by
  obtain ⟨hline, hcolumn⟩ := cut_at (not_mem_digits rfl _) (not_mem_digits rfl _) h
  exact congrArg₂ Position.mk (repr_injective hline) (repr_injective hcolumn)

theorem remark_injective {line line' : OutlineLine} (h : line.remark = line'.remark) :
    line.detail = line'.detail := by
  unfold remark at h
  split at h <;> split at h
  · rename_i hempty hempty'
    rw [hempty, hempty']
  · simp at h
  · simp at h
  · exact String.toList_injective (List.append_cancel_right h)

/-- A line is known by its characters. -/
theorem body_injective {line line' : OutlineLine} (hl : line.Legible) (hl' : line'.Legible)
    (h : line.body = line'.body) : line = line' := by
  obtain ⟨hne, hspace, -⟩ := Outline.labels_solid _ hl.label
  obtain ⟨hne', hspace', -⟩ := Outline.labels_solid _ hl'.label
  have hblank (n : Nat) : ∀ c ∈ List.replicate n ' ', decide (c = ' ') = true :=
    fun c hc => decide_eq_true (List.eq_of_mem_replicate hc)
  have hsolid {label : List Char} (hne : label ≠ []) (hspace : ' ' ∉ label) (rest : List Char) :
      ∀ c ∈ (label ++ rest).head?, decide (c = ' ') = false := by
    intro c hc
    obtain ⟨d, ds, rfl⟩ := List.exists_cons_of_ne_nil hne
    cases hc
    exact decide_eq_false fun he => hspace (he ▸ List.mem_cons_self)
  obtain ⟨hindent, h⟩ :=
    cut_unique (hblank _) (hsolid hne hspace _) (hblank _) (hsolid hne' hspace' _) h
  obtain ⟨hlabel, h⟩ := cut_at hspace hspace' h
  obtain ⟨hremark, hplace⟩ := cut_at_last (not_mem_place rfl (by decide) line)
    (not_mem_place rfl (by decide) line') h
  have hdepth : line.depth = line'.depth := by
    have := congrArg List.length hindent
    simp only [List.length_replicate] at this
    omega
  have hlabel := String.toList_injective hlabel
  have hdetail := remark_injective hremark
  have hposition := place_injective hplace
  cases line
  cases line'
  rw [OutlineLine.mk.injEq]
  exact ⟨hdepth, hlabel, hdetail, hposition⟩

theorem not_mem_body {line : OutlineLine} (hl : line.Legible) : '\n' ∉ line.body := by
  obtain ⟨-, -, hlabel⟩ := Outline.labels_solid _ hl.label
  have hdetail := hl.detail
  have hplace := not_mem_place (c := '\n') rfl (by decide) line
  have hremark : '\n' ∉ line.remark := by
    unfold remark
    split <;> simp [hdetail]
  simp [body, hlabel, hremark, hplace]

end OutlineLine

/-- Lines are known by their text, if each of them is known by its characters and
has no line end among them. -/
theorem lines_injective {body : α → List Char} {p : α → Prop} (hend : ∀ a, p a → '\n' ∉ body a)
    (hbody : ∀ a b, p a → p b → body a = body b → a = b) {as bs : List α} (has : ∀ a ∈ as, p a)
    (hbs : ∀ b ∈ bs, p b)
    (h : as.flatMap (fun a => body a ++ ['\n']) = bs.flatMap fun b => body b ++ ['\n']) :
    as = bs := by
  induction as generalizing bs with
  | nil =>
    cases bs with
    | nil => rfl
    | cons b bs => simp at h
  | cons a as ih =>
    cases bs with
    | nil => simp at h
    | cons b bs =>
      obtain ⟨ha, has⟩ := List.forall_mem_cons.mp has
      obtain ⟨hb, hbs⟩ := List.forall_mem_cons.mp hbs
      simp only [List.flatMap_cons, List.append_assoc, List.singleton_append] at h
      obtain ⟨hfirst, hrest⟩ := cut_at (hend a ha) (hend b hb) h
      rw [hbody a b ha hb hfirst, ih has hbs hrest]

/-- An outline is known by its text. -/
theorem Outline.text_injective {lines lines' : List OutlineLine} (hl : ∀ l ∈ lines, l.Legible)
    (hl' : ∀ l ∈ lines', l.Legible)
    (h : String.join (lines.map (OutlineLine.render .plain)) =
      String.join (lines'.map (OutlineLine.render .plain))) : lines = lines' := by
  have hchars := congrArg String.toList h
  simp only [String.toList_join, List.flatMap_map, OutlineLine.toList_render] at hchars
  exact lines_injective (fun _ => OutlineLine.not_mem_body)
    (fun _ _ => OutlineLine.body_injective) hl hl' hchars

end PascalSyntax
