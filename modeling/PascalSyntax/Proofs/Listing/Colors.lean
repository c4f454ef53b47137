import PascalSyntax.Proofs.Listing.Faithful
import PascalSyntax.Proofs.Listing.Tokens
import PascalSyntax.Proofs.Program.Sound

/-!
# Colours change nothing but colours

A terminal reads a text from left to right: at a control sequence it switches the
colour on or off, and every other character it shows (`Signal.read`).  Without the
sequences, what is left of a coloured listing is the plain one, and in each of its
lines the colour is switched on and off in turn (`ofSource_colors`).

Both listings are made of lines, and a line of spans, which have a colour or have
none.  A span can be told from the sequences around it, since no text of a source
has the character that a sequence starts with, if the source has it nowhere.
-/

namespace PascalSyntax

/-! ## Reading a coloured text -/

/-- What a terminal does at some place of a text: it switches the colour on, switches
it off again, or shows a character. -/
inductive Signal where
  | on
  | off
  | shown (c : Char)
deriving DecidableEq, Repr

namespace Signal

def char? : Signal → Option Char
  | on => none
  | off => none
  | shown c => some c

def isSwitch : Signal → Bool
  | on => true
  | off => true
  | shown _ => false

/-- What is left of a text after a decimal number and the character that ends it. -/
def afterNumber? (stop : Char) (cs : List Char) : Option (List Char) :=
  match cs.takeWhile Char.isDigit, cs.dropWhile Char.isDigit with
  | _ :: _, c :: rest => if c = stop then some rest else none
  | _, _ => none

/-- A control sequence at the start of a text, and what is left after it.  A colour
is three numbers, its shares of red, green and blue. -/
def control? (cs : List Char) : Option (Signal × List Char) :=
  match "\x1b[39m".toList.isPrefixOf? cs with
  | some rest => some (off, rest)
  | none => do
    let red ← "\x1b[38;2;".toList.isPrefixOf? cs
    let green ← afterNumber? ';' red
    let blue ← afterNumber? ';' green
    let rest ← afterNumber? 'm' blue
    return (on, rest)

theorem isPrefixOf?_eq_some {front cs rest : List Char} :
    front.isPrefixOf? cs = some rest ↔ cs = front ++ rest := by
  induction front generalizing cs with
  | nil => simp [List.isPrefixOf?]
  | cons c front ih =>
    cases cs with
    | nil => simp [List.isPrefixOf?]
    | cons d cs =>
      by_cases h : c = d
      · subst h
        simp [List.isPrefixOf?, ih]
      · simp [List.isPrefixOf?, h, Ne.symm h]

theorem length_afterNumber? {stop : Char} {cs rest : List Char}
    (h : afterNumber? stop cs = some rest) : rest.length < cs.length := by
  unfold afterNumber? at h
  split at h
  · rename_i c rest' _ hdrop
    split at h
    · obtain rfl := Option.some.inj h
      have hle := (List.dropWhile_suffix (l := cs) Char.isDigit).length_le
      rw [hdrop, List.length_cons] at hle
      exact hle
    · cases h
  · cases h

theorem length_control? {cs rest : List Char} {signal : Signal}
    (h : control? cs = some (signal, rest)) : rest.length < cs.length := by
  have hfront {front : List Char} {rest : List Char} (h : front.isPrefixOf? cs = some rest) :
      cs.length = front.length + rest.length := by
    rw [isPrefixOf?_eq_some.mp h, List.length_append]
  unfold control? at h
  split at h
  · rename_i rest' hrest
    obtain ⟨-, rfl⟩ := Prod.mk.inj (Option.some.inj h)
    rw [hfront hrest]
    exact Nat.lt_add_of_pos_left (by decide)
  · simp only [Option.bind_eq_bind, Option.bind_eq_some_iff, pure, Option.some.injEq,
      Prod.mk.injEq] at h
    obtain ⟨red, hred, green, hgreen, blue, hblue, rest', hrest, -, rfl⟩ := h
    have hlength := hfront hred
    have := length_afterNumber? hgreen
    have := length_afterNumber? hblue
    have := length_afterNumber? hrest
    omega

/-- What a terminal does with a text. -/
def read : List Char → List Signal
  | [] => []
  | c :: cs =>
    match _h : control? (c :: cs) with
    | some (signal, rest) => signal :: read rest
    | none => shown c :: read cs
termination_by cs => cs.length
decreasing_by
  · exact length_control? _h
  · exact Nat.lt_succ_self _

theorem read_control {cs rest : List Char} {signal : Signal}
    (h : control? cs = some (signal, rest)) : read cs = signal :: read rest := by
  cases cs with
  | nil => cases h
  | cons c cs =>
    rw [read]
    split
    · rename_i signal' rest' h'
      obtain ⟨rfl, rfl⟩ := Prod.mk.inj (Option.some.inj (h'.symm.trans h))
      rfl
    · rename_i h'
      cases h'.symm.trans h

/-- Only one character starts a control sequence. -/
theorem control?_of_ne {c : Char} (hc : c ≠ '\x1b') (cs : List Char) :
    control? (c :: cs) = none := by
  have hfront (front : List Char) : ('\x1b' :: front).isPrefixOf? (c :: cs) = none := by
    simp [List.isPrefixOf?, Ne.symm hc]
  have hoff : "\x1b[39m".toList = '\x1b' :: "[39m".toList := by decide
  have hon : "\x1b[38;2;".toList = '\x1b' :: "[38;2;".toList := by decide
  rw [control?, hoff, hon, hfront, hfront]
  rfl

theorem read_of_ne {c : Char} (hc : c ≠ '\x1b') (cs : List Char) :
    read (c :: cs) = shown c :: read cs := by
  rw [read]
  split
  · rename_i h
    cases (control?_of_ne hc cs).symm.trans h
  · rfl

/-- A text without that character is shown as it is. -/
theorem read_append {text : List Char} (h : '\x1b' ∉ text) (rest : List Char) :
    read (text ++ rest) = text.map shown ++ read rest := by
  induction text with
  | nil => rfl
  | cons c cs ih =>
    rw [List.mem_cons, not_or] at h
    obtain ⟨hc, hcs⟩ := h
    rw [List.cons_append, read_of_ne (Ne.symm hc), ih hcs, List.map_cons, List.cons_append]

theorem control?_off (rest : List Char) :
    control? ("\x1b[39m".toList ++ rest) = some (off, rest) := by
  rw [control?, isPrefixOf?_eq_some.mpr rfl]

theorem afterNumber?_repr {stop : Char} (hstop : stop.isDigit = false) (n : Nat)
    (rest : List Char) : afterNumber? stop (n.repr.toList ++ stop :: rest) = some rest := by
  have hdigits := Word.digits_repr n
  have hhead : ∀ c ∈ (stop :: rest).head?, c.isDigit = false := by
    rintro _ ⟨⟩
    exact hstop
  obtain ⟨htake, hdrop⟩ := Lexeme.takeWhile_eq_of_append hdigits.isDigit hhead
  rw [afterNumber?, htake, hdrop]
  obtain ⟨d, ds, he⟩ := List.exists_cons_of_ne_nil hdigits.nonempty
  simp only [he, if_true]

theorem control?_on (color : Color) (rest : List Char) :
    control? (s!"\x1b[38;2;{color.red};{color.green};{color.blue}m".toList ++ rest) =
      some (on, rest) := by
  have hsequence : s!"\x1b[38;2;{color.red};{color.green};{color.blue}m".toList ++ rest =
      "\x1b[38;2;".toList ++ (color.red.repr.toList ++ ';' :: (color.green.repr.toList ++
        ';' :: (color.blue.repr.toList ++ 'm' :: rest))) := by
    simp [toString]
  have hoff (cs : List Char) :
      "\x1b[39m".toList.isPrefixOf? ("\x1b[38;2;".toList ++ cs) = none := by
    simp [List.isPrefixOf?]
  have hsemicolon (n : Nat) (rest : List Char) :=
    afterNumber?_repr (by decide : Char.isDigit ';' = false) n rest
  have hm (n : Nat) (rest : List Char) :=
    afterNumber?_repr (by decide : Char.isDigit 'm' = false) n rest
  simp only [hsequence, control?, hoff, isPrefixOf?_eq_some.mpr rfl, hsemicolon, hm,
    Option.bind_eq_bind, Option.bind_some, pure]

/-- What is shown of a text, its control sequences removed. -/
def strip (cs : List Char) : List Char :=
  (read cs).filterMap char?

/-- The control sequences of a text. -/
def switches (cs : List Char) : List Signal :=
  (read cs).filter isSwitch

/-- The colour is switched on, off, and so on, as often off as on. -/
def InTurn (signals : List Signal) : Prop :=
  ∃ n, signals = (List.replicate n [on, off]).flatten

theorem inTurn_nil : InTurn [] :=
  ⟨0, rfl⟩

theorem inTurn_pair : InTurn [on, off] :=
  ⟨1, rfl⟩

theorem InTurn.append {signals others : List Signal} (h : InTurn signals) (h' : InTurn others) :
    InTurn (signals ++ others) := by
  obtain ⟨n, rfl⟩ := h
  obtain ⟨n', rfl⟩ := h'
  exact ⟨n + n', by rw [List.replicate_add, List.flatten_append]⟩

theorem filterMap_shown (text : List Char) : (text.map shown).filterMap char? = text := by
  have hshown : char? ∘ shown = some := rfl
  rw [List.filterMap_map, hshown, List.filterMap_some]

theorem filter_shown (text : List Char) : (text.map shown).filter isSwitch = [] := by
  rw [List.filter_eq_nil_iff, List.forall_mem_map]
  exact fun _ _ => Bool.false_ne_true

end Signal

/-- The two texts are the same but for colours, which are switched on and off in turn
in each line.  No line goes without them, apart from what follows the last line end. -/
structure OnlyColors (colored plain : String) : Prop where
  strip : Signal.strip colored.toList = plain.toList
  inTurn : ∀ line ∈ colored.toList.splitOn '\n', Signal.InTurn (Signal.switches line)
  used : ∀ line ∈ colored.toList.splitOn '\n', line ≠ [] → .on ∈ Signal.switches line

/-! ## Lines of spans -/

/-- A part of a line, and the colour that it is painted in, if any. -/
structure Span where
  text : String
  color : Option Color

namespace Span

open Signal

/-- The characters of a span where colours are used. -/
def painted (theme : Theme) (s : Span) : List Char :=
  match s.color with
  | some color => (Palette.paint ⟨theme, true⟩ color s.text).toList
  | none => s.text.toList

/-- What a terminal does with a span. -/
def signals (s : Span) : List Signal :=
  match s.color with
  | some _ => on :: (s.text.toList.map shown ++ [off])
  | none => s.text.toList.map shown

/-- The text has no control sequence and no line end. -/
structure Clear (s : Span) : Prop where
  uncontrolled : '\x1b' ∉ s.text.toList
  onLine : '\n' ∉ s.text.toList

theorem not_mem_toDigits {c : Char} (hc : c.isDigit = false) (n : Nat) :
    c ∉ Nat.toDigits 10 n := by
  rw [← Nat.toList_repr]
  exact OutlineLine.not_mem_digits hc n

variable {s : Span} (theme : Theme)

theorem painted_some (text : String) (color : Color) :
    painted theme ⟨text, some color⟩ =
      s!"\x1b[38;2;{color.red};{color.green};{color.blue}m".toList ++
        (text.toList ++ "\x1b[39m".toList) := by
  simp only [painted, Palette.paint, if_true, String.toList_append, List.append_assoc]

/-- The sequences around a span are read for what they are. -/
theorem Clear.read_painted (h : s.Clear) (rest : List Char) :
    read (s.painted theme ++ rest) = s.signals ++ read rest := by
  obtain ⟨text, _ | color⟩ := s
  · exact read_append h.uncontrolled rest
  · rw [painted_some, List.append_assoc, List.append_assoc, read_control (control?_on color _),
      read_append h.uncontrolled, read_control (control?_off rest)]
    simp [signals]

theorem Clear.not_mem_painted (h : s.Clear) : '\n' ∉ s.painted theme := by
  have hline := h.onLine
  obtain ⟨text, _ | color⟩ := s
  · exact hline
  · have htext : '\n' ∉ text.toList := hline
    rw [painted_some]
    simp [toString, htext, not_mem_toDigits]

theorem filterMap_signals (s : Span) : s.signals.filterMap char? = s.text.toList := by
  obtain ⟨text, _ | color⟩ := s
  · exact filterMap_shown _
  · have hon : char? on = none := rfl
    rw [signals, List.filterMap_cons_none hon, List.filterMap_append, filterMap_shown]
    exact List.append_nil _

theorem inTurn_signals (s : Span) : InTurn (s.signals.filter isSwitch) := by
  obtain ⟨text, _ | color⟩ := s
  · rw [signals, filter_shown]
    exact inTurn_nil
  · have hon : isSwitch on = true := rfl
    rw [signals, List.filter_cons_of_pos hon, List.filter_append, filter_shown]
    exact inTurn_pair

/-! A line is read span by span. -/

variable {spans : List Span}

theorem read_line (h : ∀ s ∈ spans, s.Clear) (rest : List Char) :
    read (spans.flatMap (painted theme) ++ rest) = spans.flatMap signals ++ read rest := by
  induction spans with
  | nil => rfl
  | cons s spans ih =>
    obtain ⟨hs, hspans⟩ := List.forall_mem_cons.mp h
    rw [List.flatMap_cons, List.flatMap_cons, List.append_assoc, List.append_assoc,
      hs.read_painted, ih hspans]

theorem inTurn_spans (spans : List Span) : InTurn ((spans.flatMap signals).filter isSwitch) := by
  induction spans with
  | nil => exact inTurn_nil
  | cons s spans ih =>
    rw [List.flatMap_cons, List.filter_append]
    exact s.inTurn_signals.append ih

theorem switches_line (h : ∀ s ∈ spans, s.Clear) :
    switches (spans.flatMap (painted theme)) = (spans.flatMap signals).filter isSwitch := by
  have hread := read_line theme h []
  rw [List.append_nil, Signal.read, List.append_nil] at hread
  rw [switches, hread]

/-- A span with a colour switches it on. -/
theorem on_mem_spans (h : ∃ s ∈ spans, s.color.isSome) :
    on ∈ (spans.flatMap signals).filter isSwitch := by
  obtain ⟨⟨text, _ | color⟩, hs, hcolor⟩ := h
  · cases hcolor
  · rw [List.mem_filter]
    exact ⟨List.mem_flatMap.mpr ⟨_, hs, List.mem_cons_self⟩, rfl⟩

end Span

/-- Texts that have the same lines, up to colours, are the same up to colours. -/
theorem OnlyColors.of_lines {theme : Theme} {as : List α} {spans : α → List Span}
    {colored plain : α → String} (h : ∀ a ∈ as, ∀ s ∈ spans a, s.Clear)
    (hcolor : ∀ a, ∃ s ∈ spans a, s.color.isSome)
    (hcolored : ∀ a, (colored a).toList = (spans a).flatMap (Span.painted theme) ++ ['\n'])
    (hplain : ∀ a, (plain a).toList = (spans a).flatMap (·.text.toList) ++ ['\n']) :
    OnlyColors (String.join (as.map colored)) (String.join (as.map plain)) := by
  induction as with
  | nil =>
    refine ⟨by simp [Signal.strip, Signal.read], ?_, ?_⟩ <;> rw [List.map_nil, String.join_nil]
    · exact List.forall_mem_singleton.mpr ⟨0, by simp [Signal.switches, Signal.read]⟩
    · exact List.forall_mem_singleton.mpr fun hne => absurd rfl hne
  | cons a as ih =>
    obtain ⟨ha, has⟩ := List.forall_mem_cons.mp h
    obtain ⟨hstrip, hinTurn, hused⟩ := ih has
    have hline : '\n' ∉ (spans a).flatMap (Span.painted theme) := by
      rw [List.mem_flatMap]
      rintro ⟨s, hs, hmem⟩
      exact (ha s hs).not_mem_painted theme hmem
    have hlines : (String.join ((a :: as).map colored)).toList.splitOn '\n' =
        (spans a).flatMap (Span.painted theme) ::
          (String.join (as.map colored)).toList.splitOn '\n' := by
      rw [List.map_cons, String.join_cons, String.toList_append, hcolored, List.append_assoc,
        List.singleton_append, List.splitOn_append_cons_self_of_not_mem hline]
    have htext : ((spans a).flatMap Span.signals).filterMap Signal.char? =
        (spans a).flatMap (·.text.toList) := by
      simp only [List.filterMap_flatMap, Span.filterMap_signals]
    refine ⟨?_, ?_, ?_⟩
    · rw [Signal.strip] at hstrip ⊢
      rw [List.map_cons, List.map_cons, String.join_cons, String.join_cons, String.toList_append,
        String.toList_append, hcolored, hplain, List.append_assoc, Span.read_line theme ha,
        List.singleton_append, Signal.read_of_ne (by decide), List.filterMap_append, htext,
        List.append_assoc, List.singleton_append]
      exact congrArg _ (congrArg ('\n' :: ·) hstrip)
    · rw [hlines, List.forall_mem_cons, Span.switches_line theme ha]
      exact ⟨Span.inTurn_spans _, hinTurn⟩
    · rw [hlines, List.forall_mem_cons, Span.switches_line theme ha]
      exact ⟨fun _ => Span.on_mem_spans (hcolor a), hused⟩

/-! ## The listing of tokens -/

namespace Token

/-- The spans of the line of a token. -/
def spans (theme : Theme) (t : Token) : List Span :=
  let color := theme.ofKind t.kind
  [⟨t.kind.name, some color⟩, ⟨": ", none⟩, ⟨onOneLine t.text, some color⟩,
    ⟨s!" ({t.position.line}, {t.position.column})", none⟩]

theorem toList_listingLine_colored (theme : Theme) (t : Token) :
    (t.listingLine ⟨theme, true⟩).toList =
      (t.spans theme).flatMap (Span.painted theme) ++ ['\n'] := by
  simp [listingLine, spans, Span.painted, toString]

theorem toList_listingLine_plain (theme : Theme) (t : Token) :
    (t.listingLine .plain).toList = (t.spans theme).flatMap (·.text.toList) ++ ['\n'] := by
  simp [listingLine, spans, Palette.paint, Palette.plain, toString]

theorem clear_spans (theme : Theme) {t : Token} (h : '\x1b' ∉ t.text.toList) :
    ∀ s ∈ t.spans theme, s.Clear := by
  have hkind : '\x1b' ∉ t.kind.name.toList ∧ '\n' ∉ t.kind.name.toList := by
    cases t.kind <;> decide
  have htext : '\x1b' ∉ (onOneLine t.text).toList := by
    rw [toList_onOneLine, List.mem_flatMap]
    rintro ⟨c, hc, hmem⟩
    by_cases hn : c = '\n'
    · rw [escape, if_pos hn] at hmem
      revert hmem
      decide
    · rw [escape_of_ne hn, List.mem_singleton] at hmem
      exact h (hmem ▸ hc)
  have hline : '\n' ∉ (onOneLine t.text).toList := by
    rw [toList_onOneLine]
    exact not_mem_flatMap_escape _
  simp only [spans, List.forall_mem_cons]
  refine ⟨⟨hkind.1, hkind.2⟩, ⟨by decide, by decide⟩, ⟨htext, hline⟩, ⟨?_, ?_⟩,
    List.forall_mem_nil _⟩
  · simp [toString, Span.not_mem_toDigits]
  · simp [toString, Span.not_mem_toDigits]

/-- Whatever the tokens are, as long as no control sequence starts in them. -/
theorem listing_colors (theme : Theme) {tokens : List Token}
    (h : ∀ t ∈ tokens, '\x1b' ∉ t.text.toList) :
    OnlyColors (String.join (listing ⟨theme, true⟩ tokens)) (String.join (listing .plain tokens)) :=
  .of_lines (fun t ht => clear_spans theme (h t ht)) (fun _ => ⟨_, List.mem_cons_self, rfl⟩)
    (toList_listingLine_colored theme) (toList_listingLine_plain theme)

end Token

/-! ## The outline -/

namespace OutlineLine

/-- The spans of a line of an outline. -/
def spans (theme : Theme) (line : OutlineLine) : List Span :=
  [⟨String.join (List.replicate line.depth "  "), none⟩, ⟨line.label, some theme.node⟩,
    ⟨if line.detail = "" then "" else " " ++ line.detail, none⟩, ⟨" ", none⟩,
    ⟨s!"@{line.position.line}:{line.position.column}", some theme.position⟩]

theorem toList_render_colored (theme : Theme) (line : OutlineLine) :
    (line.render ⟨theme, true⟩).toList =
      (line.spans theme).flatMap (Span.painted theme) ++ ['\n'] := by
  simp [render, spans, Span.painted]

theorem toList_render_plain (theme : Theme) (line : OutlineLine) :
    (line.render .plain).toList = (line.spans theme).flatMap (·.text.toList) ++ ['\n'] := by
  simp [render, spans, Palette.paint, Palette.plain]

theorem clear_spans (theme : Theme) {line : OutlineLine} (h : line.Legible)
    (hdetail : '\x1b' ∉ line.detail.toList) : ∀ s ∈ line.spans theme, s.Clear := by
  have hlabels : ∀ label ∈ Outline.labels, '\x1b' ∉ label.toList ∧ '\n' ∉ label.toList := by
    decide
  have hblank (c : Char) (hc : c ≠ ' ') : c ∉ List.replicate (2 * line.depth) ' ' :=
    fun hmem => hc (List.eq_of_mem_replicate hmem)
  have hremark (c : Char) (hc : c ≠ ' ') (hdetail : c ∉ line.detail.toList) :
      c ∉ (if line.detail = "" then "" else " " ++ line.detail).toList := by
    split
    · exact List.not_mem_nil
    · simp [hc, hdetail]
  have hplace (c : Char) (hc : c.isDigit = false) (hother : c ∉ ['@', ':']) :
      c ∉ s!"@{line.position.line}:{line.position.column}".toList := by
    simp only [List.mem_cons, List.not_mem_nil, or_false, not_or] at hother
    simp [toString, hother, Span.not_mem_toDigits hc]
  simp only [spans, List.forall_mem_cons]
  refine ⟨⟨?_, ?_⟩, ⟨(hlabels _ h.label).1, (hlabels _ h.label).2⟩,
    ⟨hremark _ (by decide) hdetail, hremark _ (by decide) h.detail⟩, ⟨by decide, by decide⟩,
    ⟨hplace _ rfl (by decide), hplace _ rfl (by decide)⟩, List.forall_mem_nil _⟩
  · rw [toList_indentation]
    exact hblank _ (by decide)
  · rw [toList_indentation]
    exact hblank _ (by decide)

end OutlineLine

namespace Program

/-- What stands nowhere in a source stands in no detail of its outline, apart from
the marks of the outline itself. -/
theorem not_mem_detail {limits : Limits} {source : String} {p : Program}
    (h : ofSource limits source = .ok p) {c : Char} (hc : c.isAlphanum = false)
    (hmark : c ∉ Outline.marks) (hsource : c ∉ source.toList) :
    ∀ l ∈ p.outline, c ∉ l.detail.toList := by
  obtain ⟨tokens, htokens, hparse⟩ := ofSource_eq_ok_iff.mp h
  intro l hl
  obtain ⟨n, hbelow, hline⟩ := Outline.linesOf_program p l hl
  have hroot : (Node.program p).Faithful := ofSource_faithful h
  refine (hroot.below hbelow).not_mem_caption hc hmark ?_ _ hline.caption
  -- The text of a string is that of a token, and so it is part of the source.
  rintro literal rfl hmem
  obtain ⟨room, hread⟩ := (read_of_parse hparse).below hbelow
  obtain ⟨t, ht, horigin⟩ := List.mem_map.mp hread.origin_mem
  have htext : t.text = literal.origin.text := congrArg Origin.text horigin
  rw [← htext] at hmem
  exact hsource (Token.text_subset_of_tokenize htokens (List.mem_of_mem_filter ht) hmem)

theorem listing_colors (theme : Theme) {p : Program} (h : p.Faithful)
    (hdetail : ∀ l ∈ p.outline, '\x1b' ∉ l.detail.toList) :
    OnlyColors (String.join (p.listing ⟨theme, true⟩)) (String.join (p.listing .plain)) :=
  .of_lines
    (fun l hl => l.clear_spans theme (Outline.legible_program h l hl) (hdetail l hl))
    (fun _ => ⟨_, .tail _ List.mem_cons_self, rfl⟩)
    (OutlineLine.toList_render_colored theme) (OutlineLine.toList_render_plain theme)

end Program

/-! ## Colours on and off -/

/-- If a source does not have the character that control sequences start with, what
is printed of it in colour is the plain text, once these sequences are removed, and
in each line the colour is switched on and off in turn, at least once.  This holds of
its tokens and of its program, for every theme. -/
theorem ofSource_colors {source : String} (h : '\x1b' ∉ source.toList) (theme : Theme) :
    (∀ maxTokens tokens, tokenize maxTokens source = .ok tokens →
      ∃ colored plain, (Token.print ⟨theme, true⟩ tokens).text? = some colored ∧
        (Token.print .plain tokens).text? = some plain ∧ OnlyColors colored plain) ∧
    ∀ limits p, Program.ofSource limits source = .ok p →
      ∃ colored plain, (p.print ⟨theme, true⟩).text? = some colored ∧
        (p.print .plain).text? = some plain ∧ OnlyColors colored plain := by
  constructor
  · intro maxTokens tokens htokens
    simp only [Token.print_eq, Printer.text?_write]
    refine ⟨_, _, rfl, rfl, Token.listing_colors theme fun t ht hmem => ?_⟩
    exact h (Token.text_subset_of_tokenize htokens ht hmem)
  · intro limits p hp
    simp only [Program.print_eq, Printer.text?_write]
    refine ⟨_, _, rfl, rfl, Program.listing_colors theme (Program.ofSource_faithful hp) ?_⟩
    exact Program.not_mem_detail hp rfl (by decide) h

/-- A string and a comment over two lines that look like what is left of control
sequences. -/
def bracketed : String :=
  "program p; begin s := '[39m' end. \x7b[38;2;1;2;3m\n[39m\x7d"

theorem bracketed_colors :
    '\x1b' ∉ bracketed.toList ∧ ∃ tokens p, tokenize 99 bracketed = .ok tokens ∧
      Program.ofSource .standard bracketed = .ok p ∧
      (∃ colored plain, (Token.print ⟨{}, true⟩ tokens).text? = some colored ∧
        (Token.print .plain tokens).text? = some plain ∧ OnlyColors colored plain) ∧
      ∃ colored plain, (p.print ⟨{}, true⟩).text? = some colored ∧
        (p.print .plain).text? = some plain ∧ OnlyColors colored plain := by
  have hsource : '\x1b' ∉ bracketed.toList := by decide +kernel
  have htokens : (tokenize 99 bracketed).isOk = true := by decide +kernel
  have hp : (Program.ofSource .standard bracketed).isOk = true := by decide +kernel
  obtain ⟨hlisting, houtline⟩ := ofSource_colors hsource {}
  cases ht : tokenize 99 bracketed with
  | error e => simp [ht, Except.isOk, Except.toBool] at htokens
  | ok tokens =>
    cases hparse : Program.ofSource .standard bracketed with
    | error e => simp [hparse, Except.isOk, Except.toBool] at hp
    | ok p =>
      exact ⟨hsource, tokens, p, rfl, rfl, hlisting 99 tokens ht, houtline .standard p hparse⟩

end PascalSyntax
