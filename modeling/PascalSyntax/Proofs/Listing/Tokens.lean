import PascalSyntax.Proofs.Listing.Lines
import PascalSyntax.Proofs.Listing.Printing
import PascalSyntax.Proofs.Program.Faithful

/-!
# Reading the listing of tokens back

In plain text the listing has one line for each token, and the line can be read
back.  The kind goes up to the first colon, the place starts at the last opening
parenthesis, and the text stands between the two, whatever is in it.

The line feeds of a comment are written as a backslash and the letter n.  Where
no comment has these two characters itself, the text can be told from what is
written.
-/

namespace PascalSyntax

/-- Only a comment goes over a line end. -/
theorem IsLexeme.oneLine {kind : Token.Kind} {text : List Char} (h : IsLexeme kind text)
    (hkind : kind ≠ .comment) : '\n' ∉ text := by
  have hsymbols : ∀ s ∈ Vocabulary.symbols, '\n' ∉ s.toList := by decide
  have hrun {p q : Char → Bool} {c : Char} {cs : List Char} (hp : p '\n' = false)
      (hq : q '\n' = false) (hc : p c = true) (hcs : ∀ d ∈ cs, q d = true) : '\n' ∉ c :: cs := by
    intro hmem
    rcases List.mem_cons.mp hmem with rfl | hmem
    · exact Bool.false_ne_true (hp.symm.trans hc)
    · exact Bool.false_ne_true (hq.symm.trans (hcs _ hmem))
  cases h with
  | comment _ => exact absurd rfl hkind
  | reservedWord hc hcs _ => exact hrun rfl rfl hc hcs
  | identifier hc hcs _ => exact hrun rfl rfl hc hcs
  | number hc hcs => exact hrun rfl rfl hc hcs
  | symbol htext =>
    have hnone := hsymbols _ htext
    rwa [String.toList_ofList] at hnone
  | string hbody =>
    rw [List.mem_cons, List.mem_append, List.mem_singleton]
    rintro (hquote | hmem | hquote)
    · exact absurd hquote (by decide)
    · exact (hbody _ hmem).2.1 rfl
    · exact absurd hquote (by decide)

namespace Token

/-! ## Texts on one line -/

/-- What stands for a character. -/
def escape (c : Char) : List Char :=
  if c = '\n' then ['\\', 'n'] else [c]

theorem toList_onOneLine (text : String) :
    (onOneLine text).toList = text.toList.flatMap escape :=
  String.toList_ofList

theorem escape_of_ne {c : Char} (hc : c ≠ '\n') : escape c = [c] :=
  if_neg hc

theorem flatMap_escape_of_not_mem {cs : List Char} (h : '\n' ∉ cs) : cs.flatMap escape = cs := by
  induction cs with
  | nil => rfl
  | cons c cs ih =>
    rw [List.mem_cons, not_or] at h
    obtain ⟨hc, hcs⟩ := h
    rw [List.flatMap_cons, escape_of_ne (Ne.symm hc), ih hcs, List.singleton_append]

theorem not_mem_flatMap_escape (cs : List Char) : '\n' ∉ cs.flatMap escape := by
  intro hmem
  obtain ⟨c, -, hc⟩ := List.mem_flatMap.mp hmem
  unfold escape at hc
  split at hc
  · revert hc
    decide
  · rename_i hne
    exact hne (List.mem_singleton.mp hc).symm

/-- A text with its line feeds restored. -/
def unescape : List Char → List Char
  | '\\' :: 'n' :: cs => '\n' :: unescape cs
  | c :: cs => c :: unescape cs
  | [] => []

theorem unescape_cons {c : Char} {cs : List Char} (h : c = '\\' → cs.head? ≠ some 'n') :
    unescape (c :: cs) = c :: unescape cs := by
  rw [unescape]
  intro ds hc hcs
  exact h hc (hcs ▸ rfl)

/-- Only an n is written as an n at the start. -/
theorem head?_flatMap_escape {cs : List Char} (h : (cs.flatMap escape).head? = some 'n') :
    cs.head? = some 'n' := by
  cases cs with
  | nil => cases h
  | cons c cs =>
    rw [List.flatMap_cons] at h
    by_cases hc : c = '\n'
    · rw [hc, escape, if_pos rfl] at h
      have hsame : '\\' = 'n' := Option.some.inj h
      exact absurd hsame (by decide)
    · rw [escape_of_ne hc] at h
      exact h

/-- A backslash before an n is that of a line feed. -/
theorem unescape_flatMap_escape {cs : List Char} (h : ¬ ['\\', 'n'] <:+: cs) :
    unescape (cs.flatMap escape) = cs := by
  induction cs with
  | nil => rfl
  | cons c cs ih =>
    have hcs := ih fun hinfix => h (List.infix_cons hinfix)
    by_cases hc : c = '\n'
    · subst hc
      rw [List.flatMap_cons, escape, if_pos rfl]
      exact congrArg ('\n' :: ·) hcs
    · have hnext : c = '\\' → (cs.flatMap escape).head? ≠ some 'n' := by
        rintro rfl hn
        obtain ⟨ds, rfl⟩ := List.head?_eq_some_iff.mp (head?_flatMap_escape hn)
        exact h ⟨[], ds, rfl⟩
      rw [List.flatMap_cons, escape_of_ne hc, List.singleton_append, unescape_cons hnext, hcs]

/-! ## Lines -/

/-- The characters of a line after its last opening parenthesis. -/
def place (t : Token) : List Char :=
  t.position.line.repr.toList ++ ',' :: (' ' :: t.position.column.repr.toList ++ [')'])

/-- The characters of the line of a token, up to the line end. -/
def body (t : Token) : List Char :=
  t.kind.name.toList ++ ':' :: ' ' :: ((t.text.toList.flatMap escape ++ [' ']) ++ '(' :: t.place)

theorem toList_listingLine (t : Token) :
    (t.listingLine .plain).toList = t.body ++ ['\n'] := by
  simp [listingLine, body, place, Palette.paint, Palette.plain, toList_onOneLine, toString]

theorem Kind.name_solid (kind : Kind) : ':' ∉ kind.name.toList ∧ '\n' ∉ kind.name.toList := by
  cases kind <;> decide

theorem Kind.name_injective {kind kind' : Kind} (h : kind.name = kind'.name) : kind = kind' := by
  cases kind <;> cases kind' <;> first | rfl | exact absurd h (by decide)

theorem not_mem_place {c : Char} (hc : c.isDigit = false) (hother : c ∉ [',', ' ', ')'])
    (t : Token) : c ∉ t.place := by
  have hline := OutlineLine.not_mem_digits hc t.position.line
  have hcolumn := OutlineLine.not_mem_digits hc t.position.column
  simp only [List.mem_cons, List.not_mem_nil, or_false, not_or] at hother
  simp only [place, List.mem_append, List.mem_cons, List.not_mem_nil, hline, hcolumn, hother,
    or_false, not_false_eq_true]

theorem not_mem_body (t : Token) : '\n' ∉ t.body := by
  have hname := t.kind.name_solid.2
  have htext := not_mem_flatMap_escape t.text.toList
  have hplace := not_mem_place (c := '\n') rfl (by decide) t
  simp [body, hname, htext, hplace]

theorem place_injective {t u : Token} (h : t.place = u.place) : t.position = u.position := by
  obtain ⟨hline, hrest⟩ := cut_at (OutlineLine.not_mem_digits rfl _)
    (OutlineLine.not_mem_digits rfl _) h
  have hcolumn := (List.cons.inj (List.append_cancel_right hrest)).2
  exact congrArg₂ Position.mk (repr_injective hline) (repr_injective hcolumn)

/-- The token can be told from its line. -/
structure Readable (t : Token) : Prop where
  isLexeme : IsLexeme t.kind t.text.toList
  comment : t.kind = .comment → ¬ ['\\', 'n'] <:+: t.text.toList

theorem Readable.text_injective {t u : Token} (ht : t.Readable) (hu : u.Readable)
    (hkind : t.kind = u.kind)
    (h : t.text.toList.flatMap escape = u.text.toList.flatMap escape) : t.text = u.text := by
  refine String.toList_injective ?_
  by_cases hcomment : t.kind = .comment
  · have hunescape := congrArg unescape h
    rwa [unescape_flatMap_escape (ht.comment hcomment),
      unescape_flatMap_escape (hu.comment (hkind ▸ hcomment))] at hunescape
  · rwa [flatMap_escape_of_not_mem (ht.isLexeme.oneLine hcomment),
      flatMap_escape_of_not_mem (hu.isLexeme.oneLine (hkind ▸ hcomment))] at h

/-- A token is known by its line. -/
theorem body_injective {t u : Token} (ht : t.Readable) (hu : u.Readable) (h : t.body = u.body) :
    t = u := by
  obtain ⟨hname, hrest⟩ := cut_at t.kind.name_solid.1 u.kind.name_solid.1 h
  obtain ⟨htext, hplace⟩ := cut_at_last (not_mem_place rfl (by decide) t)
    (not_mem_place rfl (by decide) u) (List.cons.inj hrest).2
  have hkind := Kind.name_injective (String.toList_injective hname)
  have htext := ht.text_injective hu hkind (List.append_cancel_right htext)
  have hposition := place_injective hplace
  cases t
  cases u
  rw [Token.mk.injEq]
  exact ⟨hkind, htext, hposition⟩

/-- In the listing there is one line end for each token. -/
theorem count_listing (tokens : List Token) :
    (String.join (listing .plain tokens)).toList.count '\n' = tokens.length := by
  rw [listing, String.toList_join, List.flatMap_map]
  induction tokens with
  | nil => rfl
  | cons t tokens ih =>
    have hbody := List.count_eq_zero.mpr t.not_mem_body
    rw [List.flatMap_cons, List.count_append, ih, toList_listingLine, List.count_append, hbody,
      List.length_cons]
    exact Nat.add_comm _ _

/-- The listing of readable tokens tells them. -/
theorem listing_injective {tokens tokens' : List Token} (h : ∀ t ∈ tokens, t.Readable)
    (h' : ∀ t ∈ tokens', t.Readable)
    (he : String.join (listing .plain tokens) = String.join (listing .plain tokens')) :
    tokens = tokens' := by
  have hchars := congrArg String.toList he
  simp only [listing, String.toList_join, List.flatMap_map, toList_listingLine] at hchars
  exact lines_injective (fun t _ => t.not_mem_body) (fun _ _ => body_injective) h h' hchars

end Token

/-- The plain listing of the tokens of a source has one line end for each of them.
And it tells them: if the listings of two sources are the same, the tokens are,
with their kinds, texts and positions, where in no comment of either a backslash
stands before an n. -/
theorem tokenize_listing_faithful {maxTokens : Nat} {source : String} {tokens : List Token}
    (h : tokenize maxTokens source = .ok tokens) :
    (∃ text, (Token.print .plain tokens).text? = some text ∧
      text.toList.count '\n' = tokens.length) ∧
    ∀ (maxTokens' : Nat) (source' : String) (tokens' : List Token),
      tokenize maxTokens' source' = .ok tokens' →
      (∀ t ∈ tokens, t.kind = .comment → ¬ ['\\', 'n'] <:+: t.text.toList) →
      (∀ t ∈ tokens', t.kind = .comment → ¬ ['\\', 'n'] <:+: t.text.toList) →
      (Token.print .plain tokens).bytes = (Token.print .plain tokens').bytes →
      tokens = tokens' := by
  constructor
  · rw [Token.print_eq, Printer.text?_write]
    exact ⟨_, rfl, Token.count_listing tokens⟩
  · intro maxTokens' source' tokens' h' hcomments hcomments' hbytes
    have hlexed := Token.lexed_of_tokenize h
    have hlexed' := Token.lexed_of_tokenize h'
    rw [Token.print_eq, Token.print_eq, Printer.bytes_write, Printer.bytes_write] at hbytes
    exact Token.listing_injective (fun t ht => ⟨hlexed t ht, hcomments t ht⟩)
      (fun t ht => ⟨hlexed' t ht, hcomments' t ht⟩) (String.toByteArray_inj.mp hbytes)

/-- With a backslash before an n a comment is listed as one over two lines. -/
example : Token.listing .plain [⟨.comment, "\x7ba\\nb\x7d", .start⟩] =
    Token.listing .plain [⟨.comment, "\x7ba\nb\x7d", .start⟩] := by
  decide

/-- A string that looks like a place, and a comment over two lines with backslashes
of its own. -/
def backslashes : String :=
  "s := ': (1, 2)' \x7ba\\\n\\m\x7d ."

/-- The same with tabulators between the tokens. -/
def tabulated : String :=
  "s\t:=\t': (1, 2)'\t\x7ba\\\n\\m\x7d\t."

/-- The tokens of both. -/
def backslashTokens : List Token :=
  [⟨.identifier, "s", ⟨1, 1⟩⟩, ⟨.symbol, ":=", ⟨1, 3⟩⟩, ⟨.string, "': (1, 2)'", ⟨1, 6⟩⟩,
    ⟨.comment, "\x7ba\\\n\\m\x7d", ⟨1, 17⟩⟩, ⟨.symbol, ".", ⟨2, 5⟩⟩]

theorem tabulated_listing_faithful :
    ∃ tokens tokens', tokenize 9 backslashes = .ok tokens ∧ tokenize 9 tabulated = .ok tokens' ∧
      (∀ t ∈ tokens, t.kind = .comment → ¬ ['\\', 'n'] <:+: t.text.toList) ∧
      (∀ t ∈ tokens', t.kind = .comment → ¬ ['\\', 'n'] <:+: t.text.toList) ∧
      (Token.print .plain tokens).bytes = (Token.print .plain tokens').bytes ∧
      tokens = tokens' ∧
      ∃ text, (Token.print .plain tokens).text? = some text ∧ text.toList.count '\n' = 5 := by
  have htokens : tokenize 9 backslashes = .ok backslashTokens := by decide +kernel
  have htokens' : tokenize 9 tabulated = .ok backslashTokens := by decide +kernel
  have hcomments : ∀ t ∈ backslashTokens, t.kind = .comment → ¬ ['\\', 'n'] <:+: t.text.toList := by
    decide +kernel
  have hbytes : (Token.print .plain backslashTokens).bytes =
      (Token.print .plain backslashTokens).bytes := rfl
  have hlength : backslashTokens.length = 5 := rfl
  obtain ⟨⟨text, htext, hcount⟩, htold⟩ := tokenize_listing_faithful htokens
  have hsame := htold 9 tabulated backslashTokens htokens' hcomments hcomments hbytes
  exact ⟨backslashTokens, backslashTokens, htokens, htokens', hcomments, hcomments, hbytes, hsame,
    text, htext, hcount.trans hlength⟩

end PascalSyntax
