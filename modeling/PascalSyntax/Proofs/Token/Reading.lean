import PascalSyntax.Token.Lexeme

/-!
# What is read as a lexeme

The lexemes of each kind, described by what is written, and the longest match:
a lexeme is read just where it stands and the text after it does not glue to it
(`Lexeme.read_eq_whole_iff`).  Two lexemes glue if without a blank between them
the first would go on into the second.
-/

namespace PascalSyntax

/-- The text is a lexeme of the kind. -/
inductive IsLexeme : Token.Kind → List Char → Prop
  | comment {body : List Char} : (∀ c ∈ body, c ≠ '\x7d') →
      IsLexeme .comment ('\x7b' :: (body ++ ['\x7d']))
  | reservedWord {c : Char} {cs : List Char} : c.isAlpha = true →
      (∀ d ∈ cs, d.isAlphanum = true) → String.ofList (c :: cs) ∈ Vocabulary.reservedWords →
      IsLexeme .reservedWord (c :: cs)
  | identifier {c : Char} {cs : List Char} : c.isAlpha = true →
      (∀ d ∈ cs, d.isAlphanum = true) → String.ofList (c :: cs) ∉ Vocabulary.reservedWords →
      IsLexeme .identifier (c :: cs)
  | number {c : Char} {cs : List Char} : c.isDigit = true → (∀ d ∈ cs, d.isDigit = true) →
      IsLexeme .number (c :: cs)
  | symbol {text : List Char} : String.ofList text ∈ Vocabulary.symbols → IsLexeme .symbol text
  | string {body : List Char} : (∀ c ∈ body, c ≠ '\'' ∧ c ≠ '\n' ∧ c ≠ '\r') →
      IsLexeme .string ('\'' :: (body ++ ['\'']))

/-- A lexeme of the kind goes on if this character follows it at once. -/
def GluesTo (kind : Token.Kind) (text : List Char) (c : Char) : Prop :=
  match kind with
  | .reservedWord => c.isAlphanum = true
  | .identifier => c.isAlphanum = true
  | .number => c.isDigit = true
  | .symbol => text.length = 1 ∧ String.ofList (text ++ [c]) ∈ Vocabulary.symbols
  | .string => False
  | .comment => False

instance (kind : Token.Kind) (text : List Char) (c : Char) : Decidable (GluesTo kind text c) :=
  match kind with
  | .reservedWord => inferInstanceAs (Decidable (_ = true))
  | .identifier => inferInstanceAs (Decidable (_ = true))
  | .number => inferInstanceAs (Decidable (_ = true))
  | .symbol => inferInstanceAs (Decidable (_ ∧ _))
  | .string => inferInstanceAs (Decidable False)
  | .comment => inferInstanceAs (Decidable False)

/-- A lexeme of the kind goes on if this text follows it at once. -/
def Glues (kind : Token.Kind) (text next : List Char) : Prop :=
  ∃ c ∈ next.head?, GluesTo kind text c

theorem not_glues_nil {kind : Token.Kind} {text : List Char} : ¬ Glues kind text [] := by
  intro h
  rcases h with ⟨c, hc, -⟩
  cases hc

theorem glues_cons_iff {kind : Token.Kind} {text next : List Char} {c : Char} :
    Glues kind text (c :: next) ↔ GluesTo kind text c := by
  simp [Glues]

instance (kind : Token.Kind) (text : List Char) : (next : List Char) →
    Decidable (Glues kind text next)
  | [] => isFalse not_glues_nil
  | _ :: _ => decidable_of_iff _ glues_cons_iff.symm

namespace Lexeme

theorem isSymbol_iff {text : List Char} :
    isSymbol text = true ↔ String.ofList text ∈ Vocabulary.symbols :=
  decide_eq_true_iff

/-- A symbol has one or two characters, and its first one is a symbol that starts
nothing else. -/
theorem symbol_cases {text : List Char} (h : String.ofList text ∈ Vocabulary.symbols) :
    ∃ c cs, text = c :: cs ∧ isSymbol [c] = true ∧ c ≠ '\x7b' ∧ c.isAlpha = false ∧
      c.isDigit = false ∧ cs.length ≤ 1 := by
  have hall : ∀ s ∈ Vocabulary.symbols,
      (match s.toList with
      | [] => false
      | c :: cs => isSymbol [c] && c ≠ '\x7b' && !c.isAlpha && !c.isDigit &&
          decide (cs.length ≤ 1)) = true := by
    decide
  have htext := hall _ h
  rw [String.toList_ofList] at htext
  cases text with
  | nil => cases htext
  | cons c cs =>
    simp only [Bool.and_eq_true, Bool.not_eq_true', decide_eq_true_eq, ne_eq] at htext
    obtain ⟨⟨⟨⟨hsymbol, hbrace⟩, halpha⟩, hdigit⟩, hlength⟩ := htext
    exact ⟨c, cs, rfl, hsymbol, hbrace, halpha, hdigit, hlength⟩

/-- The longest part that a class of characters takes ends where the class does. -/
theorem takeWhile_eq_of_append {p : Char → Bool} {xs ys : List Char} (hxs : ∀ c ∈ xs, p c = true)
    (hys : ∀ c ∈ ys.head?, p c = false) :
    (xs ++ ys).takeWhile p = xs ∧ (xs ++ ys).dropWhile p = ys := by
  rw [List.takeWhile_append_of_pos hxs, List.dropWhile_append_of_pos hxs]
  cases ys with
  | nil => simp
  | cons y ys => simp [hys y rfl]

theorem head?_dropWhile {p : Char → Bool} {cs : List Char} :
    ∀ c ∈ (cs.dropWhile p).head?, p c = false := by
  intro c hc
  have := List.head?_dropWhile_not p cs
  rw [show (cs.dropWhile p).head? = some c from hc] at this
  exact this

theorem of_mem_takeWhile {p : Char → Bool} {cs : List Char} :
    ∀ c ∈ cs.takeWhile p, p c = true :=
  List.all_eq_true.mp List.all_takeWhile

/-! ## Each kind -/

theorem comment_eq_whole_iff {c : Char} {cs : List Char} {kind : Token.Kind}
    {text rest : List Char} :
    comment c cs = .whole kind text rest ↔
      ∃ body, cs = body ++ '\x7d' :: rest ∧ (∀ d ∈ body, d ≠ '\x7d') ∧ kind = .comment ∧
        text = c :: (body ++ ['\x7d']) := by
  constructor
  · intro h
    rw [comment] at h
    split at h
    · rename_i close rest' hdrop
      cases h
      have hclose : inComment close = false := head?_dropWhile close (by rw [hdrop]; rfl)
      obtain rfl : close = '\x7d' := by simpa [inComment] using hclose
      refine ⟨cs.takeWhile inComment, ?_, ?_, rfl, rfl⟩
      · rw [← hdrop, List.takeWhile_append_dropWhile]
      · intro d hd
        simpa [inComment] using of_mem_takeWhile d hd
    · cases h
  · intro h
    rcases h with ⟨body, rfl, hbody, rfl, rfl⟩
    have hin : ∀ d ∈ body, inComment d = true := fun d hd => by
      simpa [inComment] using hbody d hd
    obtain ⟨htake, hdrop⟩ := takeWhile_eq_of_append hin
      (show ∀ d ∈ ('\x7d' :: rest).head?, inComment d = false by simp [inComment])
    rw [comment, hdrop, htake]
    rfl

theorem string_eq_whole_iff {c : Char} {cs : List Char} {kind : Token.Kind}
    {text rest : List Char} :
    string c cs = .whole kind text rest ↔
      ∃ body, cs = body ++ '\'' :: rest ∧ (∀ d ∈ body, d ≠ '\'' ∧ d ≠ '\n' ∧ d ≠ '\r') ∧
        kind = .string ∧ text = c :: (body ++ ['\'']) := by
  constructor
  · intro h
    rw [string] at h
    split at h
    · rename_i rest' hdrop
      cases h
      refine ⟨cs.takeWhile inString, ?_, ?_, rfl, rfl⟩
      · rw [← hdrop, List.takeWhile_append_dropWhile]
      · intro d hd
        simpa [inString, and_assoc] using of_mem_takeWhile d hd
    · cases h
  · intro h
    rcases h with ⟨body, rfl, hbody, rfl, rfl⟩
    have hin : ∀ d ∈ body, inString d = true := fun d hd => by
      simpa [inString, and_assoc] using hbody d hd
    obtain ⟨htake, hdrop⟩ := takeWhile_eq_of_append hin
      (show ∀ d ∈ ('\'' :: rest).head?, inString d = false by simp [inString])
    rw [string, hdrop, htake]
    rfl

/-- A word is taken as long as letters and digits follow. -/
theorem word_sound {c : Char} {cs : List Char} {kind : Token.Kind} {text rest : List Char}
    (hc : c.isAlpha = true) (h : word c cs = .whole kind text rest) :
    c :: cs = text ++ rest ∧ IsLexeme kind text ∧ ¬ Glues kind text rest := by
  have hall : ∀ d ∈ cs.takeWhile Char.isAlphanum, d.isAlphanum = true := of_mem_takeWhile
  have hstop : ¬ ∃ d ∈ (cs.dropWhile Char.isAlphanum).head?, d.isAlphanum = true := by
    intro h
    rcases h with ⟨d, hd, halnum⟩
    rw [head?_dropWhile d hd] at halnum
    cases halnum
  by_cases hmem : String.ofList (c :: cs.takeWhile Char.isAlphanum) ∈ Vocabulary.reservedWords
  · simp only [word, if_pos hmem] at h
    cases h
    refine ⟨?_, .reservedWord hc hall hmem, hstop⟩
    rw [List.cons_append, List.takeWhile_append_dropWhile]
  · simp only [word, if_neg hmem] at h
    cases h
    refine ⟨?_, .identifier hc hall hmem, hstop⟩
    rw [List.cons_append, List.takeWhile_append_dropWhile]

theorem word_complete {c : Char} {cs rest : List Char} (hcs : ∀ d ∈ cs, d.isAlphanum = true)
    (hrest : ∀ d ∈ rest.head?, d.isAlphanum = false) :
    word c (cs ++ rest) = .whole
      (if String.ofList (c :: cs) ∈ Vocabulary.reservedWords then .reservedWord else .identifier)
      (c :: cs) rest := by
  obtain ⟨htake, hdrop⟩ := takeWhile_eq_of_append hcs hrest
  unfold word
  rw [htake, hdrop]

theorem number_sound {c : Char} {cs : List Char} {kind : Token.Kind} {text rest : List Char}
    (hc : c.isDigit = true) (h : number c cs = .whole kind text rest) :
    c :: cs = text ++ rest ∧ IsLexeme kind text ∧ ¬ Glues kind text rest := by
  unfold number at h
  cases h
  refine ⟨?_, .number hc of_mem_takeWhile, ?_⟩
  · rw [List.cons_append, List.takeWhile_append_dropWhile]
  · intro h
    rcases h with ⟨d, hd, hdigit⟩
    have hdigit : d.isDigit = true := hdigit
    rw [head?_dropWhile d hd] at hdigit
    cases hdigit

theorem symbol_sound {c : Char} {cs : List Char} {kind : Token.Kind} {text rest : List Char}
    (hc : isSymbol [c] = true) (h : symbol c cs = .whole kind text rest) :
    c :: cs = text ++ rest ∧ IsLexeme kind text ∧ ¬ Glues kind text rest := by
  cases cs with
  | nil =>
    cases h
    refine ⟨rfl, .symbol (isSymbol_iff.mp hc), ?_⟩
    intro h
    rcases h with ⟨d, hd, -⟩
    cases hd
  | cons d cs =>
    by_cases hd : isSymbol [c, d] = true
    · simp only [symbol, if_pos hd] at h
      cases h
      refine ⟨rfl, .symbol (isSymbol_iff.mp hd), ?_⟩
      intro h
      rcases h with ⟨e, -, hlength, -⟩
      cases hlength
    · simp only [symbol, if_neg hd] at h
      cases h
      refine ⟨rfl, .symbol (isSymbol_iff.mp hc), ?_⟩
      intro h
      rcases h with ⟨e, he, -, hmem⟩
      obtain rfl := Option.some.inj he
      exact hd (isSymbol_iff.mpr hmem)

/-! ## The longest match -/

theorem read_sound {c : Char} {cs : List Char} {kind : Token.Kind} {text rest : List Char}
    (h : read c cs = .whole kind text rest) :
    c :: cs = text ++ rest ∧ IsLexeme kind text ∧ ¬ Glues kind text rest := by
  unfold read at h
  by_cases hbrace : c = '\x7b'
  · rw [if_pos hbrace] at h
    obtain ⟨body, rfl, hbody, rfl, rfl⟩ := comment_eq_whole_iff.mp h
    subst hbrace
    refine ⟨by simp, .comment hbody, ?_⟩
    intro h
    rcases h with ⟨d, -, hd⟩
    exact hd
  rw [if_neg hbrace] at h
  by_cases halpha : c.isAlpha = true
  · rw [if_pos halpha] at h
    exact word_sound halpha h
  rw [if_neg halpha] at h
  by_cases hdigit : c.isDigit = true
  · rw [if_pos hdigit] at h
    exact number_sound hdigit h
  rw [if_neg hdigit] at h
  by_cases hsymbol : isSymbol [c] = true
  · rw [if_pos hsymbol] at h
    exact symbol_sound hsymbol h
  rw [if_neg hsymbol] at h
  by_cases hquote : c = '\''
  · rw [if_pos hquote] at h
    obtain ⟨body, rfl, hbody, rfl, rfl⟩ := string_eq_whole_iff.mp h
    subst hquote
    refine ⟨by simp, .string hbody, ?_⟩
    intro h
    rcases h with ⟨d, -, hd⟩
    exact hd
  · rw [if_neg hquote] at h
    cases h

theorem read_of_alpha {c : Char} (hc : c.isAlpha = true) (cs : List Char) :
    read c cs = word c cs := by
  have hbrace : c ≠ '\x7b' := by
    intro h
    subst h
    cases hc
  rw [read, if_neg hbrace, if_pos hc]

theorem isAlpha_of_isDigit {c : Char} (h : c.isDigit = true) : ¬ c.isAlpha = true := by
  delta Char.isDigit at h
  delta Char.isAlpha Char.isUpper Char.isLower
  grind

theorem read_of_digit {c : Char} (hc : c.isDigit = true) (cs : List Char) :
    read c cs = number c cs := by
  have hbrace : c ≠ '\x7b' := by
    intro h
    subst h
    cases hc
  rw [read, if_neg hbrace, if_neg (isAlpha_of_isDigit hc), if_pos hc]

theorem symbol_complete {text rest : List Char} (hmem : String.ofList text ∈ Vocabulary.symbols)
    (hglue : ¬ Glues .symbol text rest) :
    ∃ c cs, text ++ rest = c :: cs ∧ read c cs = .whole .symbol text rest := by
  obtain ⟨c, cs, rfl, hc, hbrace, halpha, hdigit, hlength⟩ := symbol_cases hmem
  have hread : ∀ ds, read c ds = symbol c ds := by
    intro ds
    rw [read, if_neg hbrace, if_neg (by simp [halpha]), if_neg (by simp [hdigit]), if_pos hc]
  refine ⟨c, cs ++ rest, rfl, ?_⟩
  rw [hread]
  match cs, rest with
  | [], [] => rfl
  | [], d :: rest =>
    have hd : ¬ isSymbol [c, d] = true := by
      intro hd
      exact hglue ⟨d, rfl, rfl, isSymbol_iff.mp hd⟩
    simp only [symbol, List.nil_append, if_neg hd]
  | [d], rest =>
    simp only [symbol, List.cons_append, List.nil_append, if_pos (isSymbol_iff.mpr hmem)]
  | _ :: _ :: _, _ =>
    simp only [List.length_cons] at hlength
    omega

theorem read_complete {kind : Token.Kind} {text rest : List Char} (h : IsLexeme kind text)
    (hglue : ¬ Glues kind text rest) :
    ∃ c cs, text ++ rest = c :: cs ∧ read c cs = .whole kind text rest := by
  have hword : (kind = .reservedWord ∨ kind = .identifier) →
      ∀ d ∈ rest.head?, d.isAlphanum = false := by
    intro hkind d hd
    cases halnum : d.isAlphanum with
    | false => rfl
    | true =>
      refine absurd ⟨d, hd, ?_⟩ hglue
      obtain rfl | rfl := hkind
      · exact halnum
      · exact halnum
  cases h with
  | @comment body hbody =>
    refine ⟨'\x7b', body ++ '\x7d' :: rest, by simp, ?_⟩
    exact comment_eq_whole_iff.mpr ⟨body, rfl, hbody, rfl, rfl⟩
  | @reservedWord c cs hc hcs hmem =>
    refine ⟨c, cs ++ rest, rfl, ?_⟩
    rw [read_of_alpha hc, word_complete hcs (hword (.inl rfl)), if_pos hmem]
  | @identifier c cs hc hcs hmem =>
    refine ⟨c, cs ++ rest, rfl, ?_⟩
    rw [read_of_alpha hc, word_complete hcs (hword (.inr rfl)), if_neg hmem]
  | @number c cs hc hcs =>
    have hrest : ∀ d ∈ rest.head?, d.isDigit = false := by
      intro d hd
      cases hdigit : d.isDigit with
      | false => rfl
      | true => exact absurd ⟨d, hd, hdigit⟩ hglue
    obtain ⟨htake, hdrop⟩ := takeWhile_eq_of_append hcs hrest
    refine ⟨c, cs ++ rest, rfl, ?_⟩
    rw [read_of_digit hc, number, htake, hdrop]
  | symbol hmem => exact symbol_complete hmem hglue
  | @string body hbody =>
    refine ⟨'\'', body ++ '\'' :: rest, by simp, ?_⟩
    exact string_eq_whole_iff.mpr ⟨body, rfl, hbody, rfl, rfl⟩

/-- A lexeme is read at the start of a text just if the text starts with it and
what follows does not glue to it. -/
theorem read_eq_whole_iff {c : Char} {cs : List Char} {kind : Token.Kind} {text rest : List Char} :
    read c cs = .whole kind text rest ↔
      c :: cs = text ++ rest ∧ IsLexeme kind text ∧ ¬ Glues kind text rest := by
  constructor
  · exact read_sound
  · intro h
    rcases h with ⟨he, h, hglue⟩
    obtain ⟨d, ds, he', hread⟩ := read_complete h hglue
    obtain ⟨rfl, rfl⟩ := List.cons.inj (he.trans he')
    exact hread

end Lexeme

/-- A text is a lexeme just if it is read as one on its own. -/
instance (kind : Token.Kind) : (text : List Char) → Decidable (IsLexeme kind text)
  | [] => isFalse fun h => by cases h with | symbol hmem => exact absurd hmem (by decide)
  | c :: cs => decidable_of_iff (Lexeme.read c cs = .whole kind (c :: cs) []) <| by
    rw [Lexeme.read_eq_whole_iff, List.append_nil]
    exact ⟨fun h => h.2.1, fun h => ⟨rfl, h, not_glues_nil⟩⟩

end PascalSyntax
