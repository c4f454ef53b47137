import PascalSyntax.Command.Run
import PascalSyntax.Proofs.Listing.Printing

/-!
# The output of a run

A run prints what the lexer and the parser, called on their own, make of the
source.  It writes all of that, or the first part of it where the room ends, or
nothing at all if there is an error in the source.
-/

namespace PascalSyntax

/-! ## How much of a text is written -/

namespace Printer

/-- Into an empty sink goes the first part of a text, and all of it if it fits. -/
theorem write_cut (s : String) (room : Nat) :
    ((write s { room }).1.taken = (write s).bytes.extract 0 (min room (write s).bytes.size)) ∧
      (write s { room }).2 = decide ((write s).bytes.size ≤ room) := by
  have hcut : s.toUTF8.extract 0 room = s.toUTF8.extract 0 (min room s.toUTF8.size) := by
    rcases Nat.le_total room s.toUTF8.size with h | h
    · rw [Nat.min_eq_left h]
    · have hwhole : s.toUTF8.extract 0 (max room s.toUTF8.size) = s.toUTF8 :=
        ByteArray.extract_zero_max_size
      rw [Nat.max_eq_left h] at hwhole
      rw [hwhole, Nat.min_eq_right h, ByteArray.extract_zero_size]
  rw [bytes_write, write, Sink.write_some, ByteArray.empty_append, hcut]
  exact ⟨rfl, rfl⟩

end Printer

/-! ## What there is to print -/

namespace Run

/-- What prints the text that a source is asked for, by a call of the lexer, or of
the front end. -/
def printer (options : Options) (palette : Palette) (source : String) :
    Except FrontEndError Printer :=
  match options.emit with
  | .tokens =>
    ((tokenize options.limits.maxTokens source).mapError .lexical).map (Token.print palette)
  | .tree => (Program.ofSource options.limits source).map (Program.print palette)

/-- The complete text that a source is asked for. -/
def complete (options : Options) (palette : Palette) (source : String) :
    Except FrontEndError ByteArray :=
  (printer options palette source).map Printer.bytes

/-- A run finds the same errors as the lexer and the front end, and prints the
same. -/
theorem rendering_snd (options : Options) (palette : Palette) (source : String) :
    (rendering options palette source).2 = printer options palette source := by
  rw [rendering, printer, Program.ofSource]
  cases tokenize options.limits.maxTokens source with
  | error e => cases options.emit <;> rfl
  | ok tokens =>
    cases options.emit with
    | tokens => rfl
    | tree =>
      simp only [Program.parse]
      cases (Program.trace options.limits.maxDepth tokens).2 <;> rfl

/-- Whatever a run prints is one text, although it is written in pieces. -/
theorem printer_text {options : Options} {palette : Palette} {source : String} {print : Printer}
    (h : printer options palette source = .ok print) : ∃ s, print = .write s := by
  unfold printer at h
  split at h
  · cases htokens : tokenize options.limits.maxTokens source with
    | error e =>
      rw [htokens] at h
      cases h
    | ok tokens =>
      rw [htokens] at h
      cases h
      exact ⟨_, Token.print_eq palette tokens⟩
  · cases hprogram : Program.ofSource options.limits source with
    | error e =>
      rw [hprogram] at h
      cases h
    | ok p =>
      rw [hprogram] at h
      cases h
      exact ⟨_, p.print_eq palette⟩

/-! ## The run -/

theorem ofContents_toUTF8 (options : Options) (palette : Palette) (room : Option Nat)
    (source : String) :
    ofContents options palette room (.ok source.toUTF8) = ofSource options palette room source := by
  simp only [ofContents, Printer.fromUTF8?_toUTF8]

/-- A run on a source with an error fails with that error and writes nothing.  On
any other source it writes the first part of the complete text, as much as there
is room for, and it fails if that is not all. -/
theorem ofContents_exact (options : Options) (palette : Palette) (room : Nat) (source : String) :
    let run := ofContents options palette (some room) (.ok source.toUTF8)
    match complete options palette source with
    | .error e => run.error = some (.frontEnd e) ∧ run.output = .empty
    | .ok text =>
      run.output = text.extract 0 (min room text.size) ∧
        (room < text.size → run.error = some .write) ∧
        (text.size ≤ room → run.error = none) := by
  have hsnd := rendering_snd options palette source
  rw [ofContents_toUTF8, ofSource, complete]
  rcases hrendering : rendering options palette source with ⟨events, result⟩
  obtain rfl : result = printer options palette source := by rw [← hsnd, hrendering]
  cases hprinter : printer options palette source with
  | error e => exact ⟨rfl, rfl⟩
  | ok print =>
    obtain ⟨s, rfl⟩ := printer_text hprinter
    obtain ⟨houtput, hfits⟩ := Printer.write_cut s room
    simp only [Except.map]
    refine ⟨houtput, fun hshort => ?_, fun hlong => ?_⟩
    · rw [hfits, decide_eq_false (by omega)]
      rfl
    · rw [hfits, decide_eq_true hlong]
      rfl

end Run
end PascalSyntax
