import PascalSyntax.Proofs.Expr.Reading
import PascalSyntax.Statement.Parser

/-!
# Spellings of statements

A spelling of a statement is a list of tokens that the statement stands for,
with the origins that its nodes keep.

An `else` goes to the last `if` before it that has none and can take one.  A
statement is therefore spelled in one of two ways: as an open one, which may end
in an `if` without `else`, or as a closed one, which cannot take an `else` and
so may stand before one.  With this a list of tokens spells one statement only.
-/

namespace PascalSyntax

/-- The tokens spell the statement, which takes one of the levels allowed.  If
`isOpen` is false they cannot take an `else`. -/
inductive Statement.Spelling : Nat → Bool → Statement → List Token → Prop
  | assignment {levels : Nat} {isOpen : Bool} {name becomes : Token} {value : Expr}
      {ts : List Token} :
      Terminal.identifier.admits name → (Terminal.symbol ":=").admits becomes →
      Expr.Within levels value ts →
      Spelling (levels + 1) isOpen (.assignment name.toIdentifier value name.origin)
        (name :: becomes :: ts)
  | bareCall {levels : Nat} {isOpen : Bool} {name : Token} :
      Terminal.identifier.admits name →
      Spelling (levels + 1) isOpen (.call ⟨name.toIdentifier, [], name.origin⟩) [name]
  | call {levels : Nat} {isOpen : Bool} {name : Token} {args : List Argument} {ts : List Token} :
      Terminal.identifier.admits name → Call.Arguments (Expr.Within levels) args ts →
      Spelling (levels + 1) isOpen (.call ⟨name.toIdentifier, args, name.origin⟩) (name :: ts)
  | block {levels : Nat} {isOpen : Bool} {opening closing : Token}
      {pieces : List (Option Statement × List Token)} {ts : List Token} :
      (Terminal.word "begin").admits opening →
      (∀ piece ∈ pieces, ∀ s, piece.1 = some s → Spelling levels true s piece.2) →
      (∀ piece ∈ pieces, piece.1 = none → piece.2 = []) →
      Separated (.symbol ";") Eq (pieces.map (·.2)) ts →
      (Terminal.word "end").admits closing →
      Spelling (levels + 1) isOpen (.block ⟨pieces.filterMap (·.1), opening.origin⟩)
        (opening :: (ts ++ [closing]))
  | whileLoop {levels : Nat} {isOpen : Bool} {keyword does : Token} {condition : Expr}
      {s : Statement} {ts us : List Token} :
      (Terminal.word "while").admits keyword → Expr.Within levels condition ts →
      (Terminal.word "do").admits does → Spelling levels isOpen s us →
      Spelling (levels + 1) isOpen
        (.whileLoop ⟨condition, .ofStatement s, keyword.origin⟩ keyword.origin)
        (keyword :: (ts ++ does :: us))
  | forLoop {levels : Nat} {isOpen : Bool} {keyword name becomes way does : Token}
      {first last : Expr} {direction : Direction} {s : Statement} {ts us vs : List Token} :
      (Terminal.word "for").admits keyword → Terminal.identifier.admits name →
      (Terminal.symbol ":=").admits becomes → Expr.Within levels first ts →
      (Terminal.word direction.word).admits way → Expr.Within levels last us →
      (Terminal.word "do").admits does → Spelling levels isOpen s vs →
      Spelling (levels + 1) isOpen
        (.forLoop name.toIdentifier first last direction (.ofStatement s) keyword.origin)
        (keyword :: name :: becomes :: (ts ++ way :: (us ++ does :: vs)))
  | ifThen {levels : Nat} {keyword thens : Token} {condition : Expr} {s : Statement}
      {ts us : List Token} :
      (Terminal.word "if").admits keyword → Expr.Within levels condition ts →
      (Terminal.word "then").admits thens → Spelling levels true s us →
      Spelling (levels + 1) true
        (.conditional [⟨condition, .ofStatement s, keyword.origin⟩] none keyword.origin)
        (keyword :: (ts ++ thens :: us))
  | ifElse {levels : Nat} {isOpen : Bool} {keyword thens elses : Token} {condition : Expr}
      {s otherwise : Statement} {ts us vs : List Token} :
      (Terminal.word "if").admits keyword → Expr.Within levels condition ts →
      (Terminal.word "then").admits thens → Spelling levels false s us →
      (Terminal.word "else").admits elses → Spelling levels isOpen otherwise vs →
      Token.front? vs ≠ some (.word "if") →
      Spelling (levels + 1) isOpen
        (.conditional [⟨condition, .ofStatement s, keyword.origin⟩]
          (some (.ofStatement otherwise)) keyword.origin)
        (keyword :: (ts ++ thens :: (us ++ elses :: vs)))
  | elseIf {levels : Nat} {isOpen : Bool} {keyword thens elses : Token} {condition : Expr}
      {s : Statement} {branches : List Branch} {otherwise : Option Block} {origin : Origin}
      {ts us vs : List Token} :
      (Terminal.word "if").admits keyword → Expr.Within levels condition ts →
      (Terminal.word "then").admits thens → Spelling levels false s us →
      (Terminal.word "else").admits elses →
      Spelling (levels + 1) isOpen (.conditional branches otherwise origin) vs →
      Spelling (levels + 1) isOpen
        (.conditional (⟨condition, .ofStatement s, keyword.origin⟩ :: branches) otherwise
          keyword.origin)
        (keyword :: (ts ++ thens :: (us ++ elses :: vs)))

/-- The terminals that a statement may start with. -/
def Statement.starters : List Terminal :=
  [.identifier, .word "begin", .word "while", .word "for", .word "if"]

namespace Statement.Spelling

theorem ne_nil {levels : Nat} {isOpen : Bool} {s : Statement} {ts : List Token}
    (h : Spelling levels isOpen s ts) : ts ≠ [] := by
  cases h <;> simp

/-- What cannot take an `else` may also stand where none follows. -/
theorem isOpen {levels : Nat} {isOpen : Bool} {s : Statement} {ts : List Token}
    (h : Spelling levels isOpen s ts) : Spelling levels true s ts := by
  induction h with
  | assignment hn hb he => exact .assignment hn hb he
  | bareCall hn => exact .bareCall hn
  | call hn ha => exact .call hn ha
  | block ho hp hnone hs hc _ => exact .block ho hp hnone hs hc
  | whileLoop hk he hd _ ih => exact .whileLoop hk he hd ih
  | forLoop hk hn hb hf hw hl hd _ ih => exact .forLoop hk hn hb hf hw hl hd ih
  | ifThen hk he ht hs _ => exact .ifThen hk he ht hs
  | ifElse hk he ht hs hel _ hv _ ih => exact .ifElse hk he ht hs hel ih hv
  | elseIf hk he ht hs hel _ _ ih => exact .elseIf hk he ht hs hel ih

theorem front {levels : Nat} {isOpen : Bool} {s : Statement} {ts : List Token}
    (h : Spelling levels isOpen s ts) : ∃ a ∈ starters, Token.front? ts = some a := by
  cases h with
  | assignment hn _ _ => exact ⟨_, by decide, Terminal.admits_iff.mp hn⟩
  | bareCall hn => exact ⟨_, by decide, Terminal.admits_iff.mp hn⟩
  | call hn _ => exact ⟨_, by decide, Terminal.admits_iff.mp hn⟩
  | block ho _ _ _ _ => exact ⟨_, by decide, Terminal.admits_iff.mp ho⟩
  | whileLoop hk _ _ _ => exact ⟨_, by decide, Terminal.admits_iff.mp hk⟩
  | forLoop hk _ _ _ _ _ _ _ => exact ⟨_, by decide, Terminal.admits_iff.mp hk⟩
  | ifThen hk _ _ _ => exact ⟨_, by decide, Terminal.admits_iff.mp hk⟩
  | ifElse hk _ _ _ _ _ _ => exact ⟨_, by decide, Terminal.admits_iff.mp hk⟩
  | elseIf hk _ _ _ _ _ => exact ⟨_, by decide, Terminal.admits_iff.mp hk⟩

/-- A statement has the origin of one of its tokens, the first. -/
theorem origin_mem {levels : Nat} {isOpen : Bool} {s : Statement} {ts : List Token}
    (h : Spelling levels isOpen s ts) : s.origin ∈ ts.map Token.origin := by
  cases h <;> exact List.mem_cons_self

theorem conditional_front {levels : Nat} {isOpen : Bool} {branches : List Branch}
    {otherwise : Option Block} {origin : Origin} {ts : List Token}
    (h : Spelling levels isOpen (.conditional branches otherwise origin) ts) :
    ∃ keyword us, ts = keyword :: us ∧ (Terminal.word "if").admits keyword = true := by
  cases h with
  | ifThen hk _ _ _ => exact ⟨_, _, rfl, hk⟩
  | ifElse hk _ _ _ _ _ _ => exact ⟨_, _, rfl, hk⟩
  | elseIf hk _ _ _ _ _ => exact ⟨_, _, rfl, hk⟩

end Statement.Spelling

/-- What stands between two semicolons of a block: a statement, or nothing. -/
def Statement.Piece (spells : Statement → List Token → Prop) :
    Option Statement → List Token → Prop
  | none, ts => ts = []
  | some s, ts => spells s ts

/-- The spellings of a block whose statements may use the levels allowed. -/
inductive Block.Spelling (levels : Nat) : Block → List Token → Prop
  | mk {opening closing : Token} {items : List (Option Statement)} {ts : List Token} :
      (Terminal.word "begin").admits opening →
      Separated (.symbol ";") (Statement.Piece (Statement.Spelling levels true)) items ts →
      (Terminal.word "end").admits closing →
      Spelling levels ⟨items.filterMap id, opening.origin⟩ (opening :: (ts ++ [closing]))

theorem Block.Spelling.front {levels : Nat} {b : Block} {ts : List Token}
    (h : Block.Spelling levels b ts) : Token.front? ts = some (.word "begin") := by
  cases h with
  | mk ho _ _ => exact Terminal.admits_iff.mp ho

theorem Statement.spelling_block_iff {levels : Nat} {isOpen : Bool} {b : Block}
    {ts : List Token} :
    Statement.Spelling (levels + 1) isOpen (.block b) ts ↔ Block.Spelling levels b ts := by
  constructor
  · intro h
    cases h with
    | @block _ _ opening closing pieces ts ho hp hnone hs hc =>
      have hitems : pieces.filterMap (·.1) = (pieces.map (·.1)).filterMap id := by
        rw [List.filterMap_map]
        rfl
      rw [hitems]
      refine .mk ho (separated_iff_pieces.mpr ⟨pieces, rfl, ?_, hs⟩) hc
      intro h hpiece
      rcases h with ⟨o, us⟩
      cases o with
      | none => exact hnone _ hpiece rfl
      | some s => exact hp _ hpiece s rfl
  · intro h
    cases h with
    | @mk opening closing items ts ho h hc =>
      obtain ⟨pieces, rfl, hp, hs⟩ := separated_iff_pieces.mp h
      have hitems : (pieces.map (·.1)).filterMap id = pieces.filterMap (·.1) := by
        rw [List.filterMap_map]
        rfl
      rw [hitems]
      refine .block ho ?_ ?_ hs hc
      · intro piece hpiece s hsome
        have := hp piece hpiece
        rw [hsome] at this
        exact this
      · intro piece hpiece hnone
        have := hp piece hpiece
        rw [hnone] at this
        exact this

end PascalSyntax
