import Mathlib.Algebra.GroupWithZero.Nat
import Mathlib.Data.List.Pairwise
import Mathlib.Data.List.Perm.Basic
import PascalSyntax.Command.Options
import PascalSyntax.Proofs.Text.Numeral

/-!
# Arrangements of arguments

What a command is asked for can be said in many ways: in any order, with the value of an option in
the same argument or in the next, with the flags for more log one by one or in clusters.  All of
them give the same options (`Options.ofArguments_arranged`).

The arguments fall into pieces, one for each thing that is asked for.  A piece is read as a whole if
nothing before it has asked for the same thing (`Options.Piece.Spelled.take`), and it does not matter
which of two pieces comes first (`Options.Gathered.give_comm`).
-/

namespace PascalSyntax

/-- The level that some number of flags ask for. -/
def LogLevel.ofCount : Nat → LogLevel
  | 0 => .warn
  | 1 => .info
  | 2 => .debug
  | _ => .trace

theorem Emit.ofName?_name (emit : Emit) : Emit.ofName? emit.name = some emit := by
  cases emit <;> rfl

namespace Options

/-! ## Pieces -/

/-- What a command can be asked for. -/
structure Choice where
  file : String
  emit : Option Emit
  noColor : Bool
  maxDepth : Option Nat
  maxTokens : Option Nat
  /-- The number of flags for more log. -/
  verbose : Nat

/-- A thing that is asked for by one argument, or by an option and its value. -/
inductive Piece where
  | file (name : String)
  | emit (emit : Emit)
  | noColor
  | maxDepth (n : Nat)
  | maxTokens (n : Nat)
  /-- Some flags for more log. -/
  | verbose (count : Nat)
deriving DecidableEq, Repr

/-- A name of a file that is not taken for options. -/
def IsFileName (name : String) : Prop :=
  name = "-" ∨ name ≠ "" ∧ name.toList.head? ≠ some '-'

/-- The long name of an option with a value. -/
def Valued.name : Valued → String
  | .emit => "emit"
  | .maxDepth => "max-depth"
  | .maxTokens => "max-tokens"

/-- The text, as the value of the option, asks for the piece.  A number is written in decimal digits,
and is one of 64 bits. -/
inductive Piece.HasValue : Piece → Valued → String → Prop
  | emit (emit : Emit) : HasValue (.emit emit) .emit emit.name
  | maxDepth {text : String} : Numeral.Digits text.toList → Numeral.value text.toList < 2 ^ 64 →
      HasValue (.maxDepth (Numeral.value text.toList)) .maxDepth text
  | maxTokens {text : String} : Numeral.Digits text.toList → Numeral.value text.toList < 2 ^ 64 →
      HasValue (.maxTokens (Numeral.value text.toList)) .maxTokens text

/-- The arguments that ask for a piece. -/
inductive Piece.Spelled : Piece → List String → Prop
  | file {name : String} : IsFileName name → Spelled (.file name) [name]
  | apart {piece : Piece} {option : Valued} {text : String} : piece.HasValue option text →
      Spelled piece ["--" ++ option.name, text]
  | joined {piece : Piece} {option : Valued} {text : String} : piece.HasValue option text →
      Spelled piece ["--" ++ option.name ++ "=" ++ text]
  | noColor : Spelled .noColor ["--no-color"]
  | verbose : Spelled (.verbose 1) ["--verbose"]
  | letters (others : Nat) :
      Spelled (.verbose (others + 1)) [.ofList ('-' :: List.replicate (others + 1) 'v')]

/-- The pieces of a choice, without the flags for more log. -/
def Choice.pieces (c : Choice) : List Piece :=
  .file c.file :: (c.emit.toList.map .emit ++ (if c.noColor then [.noColor] else []) ++
    c.maxDepth.toList.map .maxDepth ++ c.maxTokens.toList.map .maxTokens)

/-- The arguments ask for a choice: its pieces, and flags for more log in some groups, stand in some
order and are spelled in some way. -/
def Choice.Arranged (c : Choice) (arguments : List String) : Prop :=
  ∃ (counts : List Nat) (pieces : List Piece) (spelled : List (List String)),
    counts.sum = c.verbose ∧ pieces.Perm (c.pieces ++ counts.map .verbose) ∧
      List.Forall₂ Piece.Spelled pieces spelled ∧ arguments = spelled.flatten

/-! ## What a piece gives -/

namespace Gathered

/-- What has been gathered with a piece added. -/
def give (g : Gathered) : Piece → Gathered
  | .file name => { g with file := some name }
  | .emit emit => { g with emit := some emit }
  | .noColor => { g with noColor := true }
  | .maxDepth n => { g with maxDepth := some n }
  | .maxTokens n => { g with maxTokens := some n }
  | .verbose count => { g with verbose := min (g.verbose + count) maxVerbose }

/-- Nothing has been gathered in the place of a piece. -/
def Free (g : Gathered) : Piece → Prop
  | .file _ => g.file = none
  | .emit _ => g.emit = none
  | .noColor => g.noColor = false
  | .maxDepth _ => g.maxDepth = none
  | .maxTokens _ => g.maxTokens = none
  | .verbose _ => True

/-- Nothing is open, and options may come. -/
structure Ready (g : Gathered) : Prop where
  pending_eq : g.pending = .nothing
  optionsEnded_eq : g.optionsEnded = false
  verbose_le : g.verbose ≤ maxVerbose

/-- What has been gathered when the value of an option is open. -/
def awaiting (g : Gathered) (option : Valued) : Gathered :=
  { g with pending := .value option }

theorem awaiting_pending (g : Gathered) (option : Valued) :
    (g.awaiting option).pending = .value option := rfl

theorem Ready.give {g : Gathered} (h : g.Ready) (piece : Piece) : (g.give piece).Ready := by
  obtain ⟨hpending, hended, hverbose⟩ := h
  cases piece with
  | verbose count => exact ⟨hpending, hended, Nat.min_le_right _ _⟩
  | _ => exact ⟨hpending, hended, hverbose⟩

theorem Ready.settle {g : Gathered} (h : g.Ready) : g.settle = .ok g := by
  rw [Gathered.settle, h.pending_eq]

end Gathered

/-! ## Pieces are taken -/

section Taken

variable {g : Gathered} {piece : Piece} {option : Valued} {text : String}

open Gathered

theorem take_plain (hg : g.optionsEnded = false)
    (h : text = "-" ∨ text.toList.head? ≠ some '-') : g.take text = g.takePlain text := by
  rw [take, hg, if_neg Bool.false_ne_true]
  rcases h with rfl | h
  · rfl
  · cases htext : text.toList with
    | nil => rfl
    | cons first others =>
      have hfirst : first ≠ '-' := by
        intro hfirst
        subst hfirst
        exact h (by rw [htext]; rfl)
      split
      · rename_i heq; simp_all
      · rename_i heq; simp_all
      · rename_i heq; simp_all
      · rfl

theorem take_long (hg : g.optionsEnded = false) :
    g.take ("--" ++ option.name) = g.takeLong option.name none := by
  rw [take, hg, if_neg Bool.false_ne_true]
  cases option <;> rfl

theorem take_joined (hg : g.optionsEnded = false) :
    g.take ("--" ++ option.name ++ "=" ++ text) = g.takeLong option.name (some text) := by
  rw [take, hg, if_neg Bool.false_ne_true]
  cases option <;> simp [Valued.name]

theorem number_eq (hdigits : Numeral.Digits text.toList)
    (hlt : Numeral.value text.toList < 2 ^ 64) :
    number none text = .ok (Numeral.value text.toList) := by
  have hle : Numeral.value text.toList ≤ Numeral.maxUnsigned := Nat.le_sub_one_of_lt hlt
  unfold number
  rw [Numeral.unsigned?_of_digits hdigits, if_pos hle]

/-- An option gets its value if nothing has been gathered in its place. -/
theorem set_eq_give (h : piece.HasValue option text) (free : g.Free piece) :
    g.set option text = .ok (g.give piece) := by
  cases h with
  | emit emit =>
    have hnone : g.emit = none := free
    unfold Gathered.set
    simp only [hnone, Emit.ofName?_name]
    rfl
  | maxDepth hdigits hlt =>
    have hnone : g.maxDepth = none := free
    rw [Gathered.set, hnone, number_eq hdigits hlt]
    rfl
  | maxTokens hdigits hlt =>
    have hnone : g.maxTokens = none := free
    rw [Gathered.set, hnone, number_eq hdigits hlt]
    rfl

theorem takeLong_none (hg : g.Ready) :
    g.takeLong option.name none = .ok (g.awaiting option) := by
  have hlong : g.takeLong option.name none = g.settle >>= fun g => pure (g.awaiting option) := by
    cases option <;> rfl
  rw [hlong, hg.settle]
  rfl

theorem takeLong_some (hg : g.Ready) (h : piece.HasValue option text) (free : g.Free piece) :
    g.takeLong option.name (some text) = .ok (g.give piece) := by
  have hlong : g.takeLong option.name (some text) = g.settle >>= fun g => g.set option text := by
    cases option <;> rfl
  rw [hlong, hg.settle]
  exact set_eq_give h free

/-- The value of an option is not taken for another option. -/
theorem Piece.HasValue.head?_ne (h : piece.HasValue option text) :
    text.toList.head? ≠ some '-' := by
  have hdigits (hd : Numeral.Digits text.toList) : text.toList.head? ≠ some '-' := by
    intro hhead
    exact absurd (hd.isDigit '-' (List.mem_of_head? hhead)) (by decide)
  cases h with
  | emit emit => cases emit <;> decide
  | maxDepth hd _ => exact hdigits hd
  | maxTokens hd _ => exact hdigits hd

/-- The value of an option may be the next argument. -/
theorem take_value (hg : g.Ready) (h : piece.HasValue option text) (free : g.Free piece) :
    (g.awaiting option).take text = .ok (g.give piece) := by
  have hended : (g.awaiting option).optionsEnded = false := hg.optionsEnded_eq
  have hfree : (g.awaiting option).Free piece := by
    cases piece <;> exact free
  have hback : { (g.awaiting option).give piece with pending := .nothing } = g.give piece := by
    rw [← hg.pending_eq]
    cases piece <;> rfl
  rw [take_plain hended (.inr h.head?_ne)]
  simp only [takePlain, awaiting_pending, set_eq_give h hfree, hback]

theorem takeFile_eq_give {name : String} (hg : g.Ready) (free : g.file = none) (hne : name ≠ "") :
    g.takeFile name = .ok (g.give (.file name)) := by
  unfold takeFile
  rw [free, hg.settle]
  show Except.ok { g with file := some name, pending := if name = "" then _ else _ } = _
  rw [if_neg hne, ← hg.pending_eq]
  rfl

theorem give_verbose_add (m n : Nat) (g : Gathered) :
    (g.give (.verbose m)).give (.verbose n) = g.give (.verbose (m + n)) := by
  have hmin : min (min (g.verbose + m) maxVerbose + n) maxVerbose =
      min (g.verbose + (m + n)) maxVerbose := by
    omega
  simp only [Gathered.give, hmin]

theorem give_verbose_zero (hg : g.Ready) : g.give (.verbose 0) = g := by
  rw [Gathered.give, Nat.add_zero, Nat.min_eq_left hg.verbose_le]

theorem raise_verbose (hg : g.Ready) : g.raise .verbose = .ok (g.give (.verbose 1)) := by
  rw [raise, hg.settle]
  rfl

/-- Each letter of a cluster counts. -/
theorem takeLetters_verbose (count : Nat) :
    ∀ {g : Gathered}, g.Ready →
      g.takeLetters (List.replicate count 'v') = .ok (g.give (.verbose count)) := by
  induction count with
  | zero =>
    intro g hg
    rw [give_verbose_zero hg]
    rfl
  | succ count ih =>
    intro g hg
    have hcons : g.takeLetters (List.replicate (count + 1) 'v') =
        g.raise .verbose >>= fun g => g.takeLetters (List.replicate count 'v') := rfl
    rw [hcons, raise_verbose hg, Nat.add_comm, ← give_verbose_add]
    exact ih (hg.give _)

theorem foldlM_take_singleton (argument : String) :
    [argument].foldlM Gathered.take g = g.take argument := by
  rw [List.foldlM_cons]
  exact bind_pure _

/-- A piece is read as a whole, in whatever way it is spelled, if nothing has been gathered in its
place. -/
theorem Piece.Spelled.take {arguments : List String} (h : piece.Spelled arguments) (hg : g.Ready)
    (free : g.Free piece) : arguments.foldlM Gathered.take g = .ok (g.give piece) := by
  have hended := hg.optionsEnded_eq
  cases h with
  | @file name hname =>
    have hne : name ≠ "" := by
      rcases hname with rfl | ⟨hne, -⟩
      · decide
      · exact hne
    rw [foldlM_take_singleton, take_plain hended (hname.imp_right And.right), takePlain,
      hg.pending_eq]
    exact takeFile_eq_give hg free hne
  | @apart _ option text hvalue =>
    rw [List.foldlM_cons, take_long hended, takeLong_none hg]
    exact (foldlM_take_singleton text).trans (take_value hg hvalue free)
  | joined hvalue =>
    rw [foldlM_take_singleton, take_joined hended]
    exact takeLong_some hg hvalue free
  | noColor =>
    have hfalse : g.noColor = false := free
    rw [foldlM_take_singleton]
    have htake : g.take "--no-color" = g.raise .noColor := by
      rw [Gathered.take, hended, if_neg Bool.false_ne_true]
      rfl
    rw [htake, raise, hg.settle]
    show (if g.noColor then _ else _) = _
    rw [hfalse, if_neg Bool.false_ne_true]
    rfl
  | verbose =>
    rw [foldlM_take_singleton]
    have htake : g.take "--verbose" = g.raise .verbose := by
      rw [Gathered.take, hended, if_neg Bool.false_ne_true]
      rfl
    rw [htake, raise_verbose hg]
  | letters others =>
    rw [foldlM_take_singleton]
    have htake : g.take (.ofList ('-' :: List.replicate (others + 1) 'v')) =
        g.takeLetters (List.replicate (others + 1) 'v') := by
      rw [Gathered.take, hended, if_neg Bool.false_ne_true, String.toList_ofList,
        List.replicate_succ]
      rfl
    rw [htake, takeLetters_verbose _ hg]

end Taken

/-! ## Pieces in some order -/

/-- The pieces are asked for in different places, or both in the count of flags. -/
def Piece.Apart : Piece → Piece → Prop
  | .file _, .file _ => False
  | .emit _, .emit _ => False
  | .noColor, .noColor => False
  | .maxDepth _, .maxDepth _ => False
  | .maxTokens _, .maxTokens _ => False
  | _, _ => True

instance : Std.Symm Piece.Apart where
  symm p q h := by cases p <;> cases q <;> exact h

namespace Gathered

variable {g : Gathered} {p q : Piece}

/-- A piece leaves the place of another free. -/
theorem Free.give (h : g.Free q) (hpq : p.Apart q) : (g.give p).Free q := by
  cases p <;> cases q <;> first | exact h | exact hpq.elim

/-- It does not matter which of two pieces comes first. -/
theorem give_comm (g : Gathered) (h : p.Apart q) : (g.give p).give q = (g.give q).give p := by
  cases p <;> cases q <;> first
    | rfl
    | exact h.elim
    | rw [give_verbose_add, give_verbose_add, Nat.add_comm]

/-- Pieces in different places are all taken. -/
theorem foldlM_take {pieces : List Piece} {spelled : List (List String)}
    (h : List.Forall₂ Piece.Spelled pieces spelled) :
    ∀ {g : Gathered}, g.Ready → (∀ p ∈ pieces, g.Free p) → pieces.Pairwise Piece.Apart →
      spelled.flatten.foldlM Gathered.take g = .ok (pieces.foldl give g) := by
  induction h with
  | nil =>
    intro g _ _ _
    rfl
  | @cons piece arguments pieces spelled hp _ ih =>
    intro g hg hfree happart
    obtain ⟨hfirst, hothers⟩ := List.forall_mem_cons.mp hfree
    obtain ⟨happart, hrest⟩ := List.pairwise_cons.mp happart
    rw [List.flatten_cons, List.foldlM_append, hp.take hg hfirst]
    exact ih (hg.give piece) (fun q hq => (hothers q hq).give (happart q hq)) hrest

theorem foldl_give_of_perm {pieces others : List Piece} (h : pieces.Perm others)
    (happart : pieces.Pairwise Piece.Apart) (g : Gathered) :
    pieces.foldl give g = others.foldl give g := by
  apply h.foldl_eq'
  intro p hp q hq g
  by_cases heq : p = q
  · rw [heq]
  · exact give_comm g (happart.forall hp hq heq)

theorem foldl_give_verbose (counts : List Nat) :
    ∀ {g : Gathered}, g.Ready →
      (counts.map Piece.verbose).foldl give g = g.give (.verbose counts.sum) := by
  induction counts with
  | nil =>
    intro g hg
    exact (give_verbose_zero hg).symm
  | cons count counts ih =>
    intro g hg
    rw [List.map_cons, List.foldl_cons, ih (hg.give _), give_verbose_add, List.sum_cons]

end Gathered

/-! ## Arrangements -/

namespace Choice

variable (c : Choice)

/-- What is gathered from a choice. -/
def gathered : Gathered where
  file := some c.file
  emit := c.emit
  noColor := c.noColor
  maxDepth := c.maxDepth
  maxTokens := c.maxTokens

theorem gathered_ready : c.gathered.Ready := ⟨rfl, rfl, Nat.zero_le _⟩

theorem foldl_give_pieces : c.pieces.foldl Gathered.give {} = c.gathered := by
  obtain ⟨file, emit, noColor, maxDepth, maxTokens, verbose⟩ := c
  cases emit <;> cases noColor <;> cases maxDepth <;> cases maxTokens <;> rfl

theorem apart_verbose (piece : Piece) (count : Nat) : piece.Apart (.verbose count) := by
  cases piece <;> trivial

theorem pairwise_pieces (counts : List Nat) :
    (c.pieces ++ counts.map Piece.verbose).Pairwise Piece.Apart := by
  refine List.pairwise_append.mpr ⟨?_, ?_, ?_⟩
  · obtain ⟨file, emit, noColor, maxDepth, maxTokens, verbose⟩ := c
    cases emit <;> cases noColor <;> cases maxDepth <;> cases maxTokens <;>
      simp [pieces, Piece.Apart]
  · exact List.pairwise_map.mpr (List.pairwise_of_forall fun _ _ => trivial)
  · intro p _ q hq
    obtain ⟨count, -, rfl⟩ := List.mem_map.mp hq
    exact apart_verbose p count

/-- Whatever the arrangement, the arguments give all that has been chosen. -/
theorem Arranged.gathered {c : Choice} {arguments : List String} (h : c.Arranged arguments) :
    arguments.foldlM Gathered.take {} = .ok (c.gathered.give (.verbose c.verbose)) := by
  obtain ⟨counts, pieces, spelled, hsum, hperm, hspelled, rfl⟩ := h
  have happart : pieces.Pairwise Piece.Apart :=
    hperm.symm.pairwise (pairwise_pieces c counts) fun hpq => Std.Symm.symm _ _ hpq
  have hready : ({} : Gathered).Ready := ⟨rfl, rfl, Nat.zero_le _⟩
  have hfree (piece : Piece) : ({} : Gathered).Free piece := by
    cases piece <;> trivial
  rw [Gathered.foldlM_take hspelled hready (fun p _ => hfree p) happart,
    Gathered.foldl_give_of_perm hperm happart, List.foldl_append, foldl_give_pieces,
    Gathered.foldl_give_verbose counts c.gathered_ready, hsum]

end Choice

/-- More than three flags ask for no more than three do, so it does not matter where counting them
ends. -/
theorem logLevel_eq {o : Options} {n : Nat} (h : o.verbose = min n 255) :
    o.logLevel = .ofCount n := by
  unfold logLevel
  rw [h]
  match n with
  | 0 => rfl
  | 1 => rfl
  | 2 => rfl
  | n + 3 =>
    have hmin : min (n + 3) 255 = min n 252 + 3 := by omega
    rw [hmin]
    rfl

/-- The options that a command is asked for do not depend on how it is asked: any arrangement of the
name of a file, of the options with their values and of the flags gives the file, the values or what
stands in for them, and the number of flags for more log, of which 255 are counted. -/
theorem ofArguments_arranged {c : Choice} {arguments : List String} (h : c.Arranged arguments) :
    ∃ o : Options, ofArguments arguments = .ok o ∧ o.file = c.file ∧
      o.emit = c.emit.getD .tokens ∧ o.noColor = c.noColor ∧
      o.limits = ⟨c.maxDepth.getD 64, c.maxTokens.getD 1000000⟩ ∧
      o.verbose = min c.verbose 255 ∧ o.logLevel = .ofCount c.verbose := by
  refine ⟨⟨c.file, c.emit.getD .tokens, c.noColor,
    ⟨c.maxDepth.getD 64, c.maxTokens.getD 1000000⟩, min c.verbose 255⟩,
    ?_, rfl, rfl, rfl, rfl, rfl, ?_⟩
  · have hverbose : min (0 + c.verbose) maxVerbose = min c.verbose 255 := by
      rw [Nat.zero_add, maxVerbose]
    rw [ofArguments, h.gathered, ← hverbose]
    rfl
  · exact logLevel_eq rfl

theorem manyFlags_arranged :
    Choice.Arranged ⟨"-", some .tree, true, some 7, some 18446744073709551615, 301⟩
        [.ofList ('-' :: List.replicate 300 'v'), "--max-depth=007", "-", "--emit", "ast",
          "--verbose", "--no-color", "--max-tokens", "18446744073709551615"] ∧
      ofArguments [.ofList ('-' :: List.replicate 300 'v'), "--max-depth=007", "-", "--emit", "ast",
          "--verbose", "--no-color", "--max-tokens", "18446744073709551615"] =
        .ok ⟨"-", .tree, true, ⟨7, 18446744073709551615⟩, 255⟩ := by
  have hdigits : Numeral.Digits "007".toList ∧ Numeral.Digits "18446744073709551615".toList :=
    ⟨⟨by decide, List.all_eq_true.mp (by decide)⟩, ⟨by decide, List.all_eq_true.mp (by decide)⟩⟩
  have hlt {n : Nat} (h : n ≤ Numeral.maxUnsigned) : n < 2 ^ 64 := Nat.lt_succ_of_le h
  have hdepth : Piece.Spelled (.maxDepth 7) ["--max-depth=007"] :=
    .joined (.maxDepth hdigits.1 (hlt (by decide)))
  have htokens : Piece.Spelled (.maxTokens 18446744073709551615)
      ["--max-tokens", "18446744073709551615"] :=
    .apart (.maxTokens hdigits.2 (hlt (by decide)))
  have harranged : Choice.Arranged ⟨"-", some .tree, true, some 7, some 18446744073709551615, 301⟩
      [.ofList ('-' :: List.replicate 300 'v'), "--max-depth=007", "-", "--emit", "ast",
        "--verbose", "--no-color", "--max-tokens", "18446744073709551615"] := by
    refine ⟨[300, 1], [.verbose 300, .maxDepth 7, .file "-", .emit .tree, .verbose 1, .noColor,
      .maxTokens 18446744073709551615], [[.ofList ('-' :: List.replicate 300 'v')],
      ["--max-depth=007"], ["-"], ["--emit", "ast"], ["--verbose"], ["--no-color"],
      ["--max-tokens", "18446744073709551615"]], rfl, by decide, ?_, rfl⟩
    exact .cons (.letters 299) (.cons hdepth (.cons (.file (.inl rfl))
      (.cons (.apart (.emit .tree)) (.cons .verbose (.cons .noColor (.cons htokens .nil))))))
  obtain ⟨o, ho, hfile, hemit, hcolor, hlimits, hverbose, -⟩ := ofArguments_arranged harranged
  obtain ⟨file, emit, noColor, limits, verbose⟩ := o
  subst hfile hemit hcolor hlimits hverbose
  exact ⟨harranged, ho⟩

end Options
end PascalSyntax
