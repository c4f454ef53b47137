import PascalSyntax.Proofs.Program.Alphabet
import PascalSyntax.Proofs.Program.Reading
import PascalSyntax.Proofs.Tree.Directions

/-!
# `to` and `downto`

Exchange the words `to` and `downto` in a list of tokens.  If the tokens are a
program, so are the others, and the two programs differ in nothing but the
direction of every counting loop (`Program.parse_turned_iff`).

The two words stand nowhere but between the bounds of a counting loop, so that
all other parts of a program are spelled by the same tokens as before.  None of
them leads a node, and an exchanged word keeps its position: every origin stays.
-/

namespace PascalSyntax

/-- The words that say which way a counting loop goes. -/
def Direction.terminals : List Terminal :=
  [.word "to", .word "downto"]

namespace Token

/-- The token with `to` and `downto` exchanged; its position stays. -/
def turned (t : Token) : Token :=
  if (Terminal.word "to").admits t then { t with text := "downto" }
  else if (Terminal.word "downto").admits t then { t with text := "to" }
  else t

theorem turned_of_admits {a : Terminal} {t : Token} (ht : a.admits t)
    (ha : a ∉ Direction.terminals) : t.turned = t := by
  have hother : ∀ b ∈ Direction.terminals, b.admits t = false :=
    fun b hb => Terminal.not_admits ht fun he => ha (he ▸ hb)
  rw [turned, hother _ (by decide), hother _ (by decide)]
  rfl

theorem turned_direction {direction : Direction} {t : Token}
    (ht : (Terminal.word direction.word).admits t) :
    (Terminal.word direction.opposite.word).admits t.turned := by
  obtain ⟨kind, text, position⟩ := t
  obtain ⟨rfl, rfl⟩ : kind = .reservedWord ∧ text = direction.word := by
    simpa [Terminal.admits] using ht
  cases direction <;> rfl

theorem kind_turned (t : Token) : t.turned.kind = t.kind := by
  unfold turned
  split
  · rfl
  · split <;> rfl

theorem turned_turned (t : Token) : t.turned.turned = t := by
  obtain ⟨kind, text, position⟩ := t
  by_cases hto : (Terminal.word "to").admits ⟨kind, text, position⟩
  · obtain ⟨rfl, rfl⟩ : kind = .reservedWord ∧ text = "to" := by
      simpa [Terminal.admits] using hto
    rfl
  by_cases hdownto : (Terminal.word "downto").admits ⟨kind, text, position⟩
  · obtain ⟨rfl, rfl⟩ : kind = .reservedWord ∧ text = "downto" := by
      simpa [Terminal.admits] using hdownto
    rfl
  have hsame : turned ⟨kind, text, position⟩ = ⟨kind, text, position⟩ := by
    rw [turned, if_neg hto, if_neg hdownto]
  rw [hsame, hsame]

theorem map_turned_turned (tokens : List Token) : (tokens.map turned).map turned = tokens := by
  rw [List.map_map]
  exact List.map_id'' turned_turned tokens

/-- No comment comes or goes. -/
theorem significant_map_turned (tokens : List Token) :
    significant (tokens.map turned) = (significant tokens).map turned := by
  rw [significant, significant, List.filter_map]
  congr 2
  funext t
  rw [Function.comp_apply, kind_turned]

theorem front?_map_turned {a : Terminal} {ts : List Token} (h : front? ts = some a)
    (ha : a ∉ Direction.terminals) : front? (ts.map turned) = some a := by
  cases ts with
  | nil => cases h
  | cons t ts =>
    rw [List.map_cons, turned_of_admits (Terminal.admits_iff.mpr h) ha]
    exact h

theorem Bracketed.map_turned {alphabet : List Terminal} {ts : List Token}
    (h : Bracketed alphabet ts)
    (hways : ∀ a ∈ .symbol "(" :: .symbol ")" :: alphabet, a ∉ Direction.terminals) :
    ts.map turned = ts := by
  have hsame : ∀ t ∈ ts, t.turned = id t := by
    intro t ht
    obtain ⟨a, ha, hadmits⟩ := h.admitted t ht
    exact turned_of_admits hadmits (hways a ha)
  rw [List.map_congr_left hsame, List.map_id]

end Token

open Token (turned_of_admits)

theorem Expr.Within.map_turned {levels : Nat} {e : Expr} {ts : List Token}
    (h : Expr.Within levels e ts) : ts.map Token.turned = ts :=
  h.bracketed.map_turned (by decide)

/-- No statement starts with one of the two words. -/
theorem Statement.starters_turned : ∀ a ∈ starters, a ∉ Direction.terminals := by
  decide

namespace Statement.Spelling

/-- A keyword, an expression and one more keyword stay as they are. -/
theorem map_turned_branch {levels : Nat} {e : Expr} {keyword separator : Token} {a b : Terminal}
    {ts : List Token} (hk : a.admits keyword) (ha : a ∉ Direction.terminals)
    (he : Expr.Within levels e ts) (hs : b.admits separator) (hb : b ∉ Direction.terminals)
    (us : List Token) :
    (keyword :: (ts ++ separator :: us)).map Token.turned =
      keyword :: (ts ++ separator :: us.map Token.turned) := by
  rw [List.map_cons, List.map_append, List.map_cons, turned_of_admits hk ha, he.map_turned,
    turned_of_admits hs hb]

/-- So does an `else` between two parts. -/
theorem map_turned_else {keyword : Token} (hk : (Terminal.word "else").admits keyword)
    (ts us : List Token) :
    (ts ++ keyword :: us).map Token.turned =
      ts.map Token.turned ++ keyword :: us.map Token.turned := by
  rw [List.map_append, List.map_cons, turned_of_admits hk (by decide)]

/-- The tokens with the two words exchanged spell the statement with its loops
turned. -/
theorem turned {levels : Nat} {isOpen : Bool} {s : Statement} {ts : List Token}
    (h : Spelling levels isOpen s ts) : Spelling levels isOpen s.turned (ts.map Token.turned) := by
  induction h with
  | assignment hn hb he =>
    rw [List.map_cons, List.map_cons, turned_of_admits hn (by decide),
      turned_of_admits hb (by decide), he.map_turned]
    exact .assignment hn hb he
  | bareCall hn =>
    rw [List.map_singleton, turned_of_admits hn (by decide)]
    exact .bareCall hn
  | call hn ha =>
    rw [List.map_cons, turned_of_admits hn (by decide), ha.bracketed.map_turned (by decide)]
    exact .call hn ha
  | @block levels isOpen opening closing pieces ts ho _ hnone hs hc ih =>
    let turn : Option Statement × List Token → Option Statement × List Token :=
      fun piece => (piece.1.map Statement.turned, piece.2.map Token.turned)
    have hstatements : (pieces.filterMap (·.1)).map Statement.turned =
        (pieces.map turn).filterMap (·.1) := by
      rw [List.map_filterMap, List.filterMap_map]
      rfl
    have hpieces : Separated (.symbol ";") Eq ((pieces.map turn).map (·.2))
        (ts.map Token.turned) := by
      have keeps : ∀ t, (Terminal.symbol ";").admits t → (Terminal.symbol ";").admits t.turned := by
        intro t ht
        rwa [turned_of_admits ht (by decide)]
      have hmap := hs.map keeps fun _ _ _ he => congrArg (List.map Token.turned) he
      rwa [List.map_map] at hmap ⊢
    rw [List.map_cons, List.map_append, List.map_singleton, turned_of_admits ho (by decide),
      turned_of_admits hc (by decide), Statement.turned, Block.turned, allTurned_eq_map,
      hstatements]
    refine .block ho ?_ ?_ hpieces hc
    · intro turnedPiece hmem s hsome
      obtain ⟨piece, hpiece, rfl⟩ := List.mem_map.mp hmem
      obtain ⟨s, hs, rfl⟩ := Option.map_eq_some_iff.mp hsome
      exact ih piece hpiece s hs
    · intro turnedPiece hmem hturned
      obtain ⟨piece, hpiece, rfl⟩ := List.mem_map.mp hmem
      exact List.map_eq_nil_iff.mpr (hnone piece hpiece (Option.map_eq_none_iff.mp hturned))
  | whileLoop hk he hd _ ih =>
    rw [map_turned_branch hk (by decide) he hd (by decide), Statement.turned, Branch.turned,
      Block.turned_ofStatement]
    exact .whileLoop hk he hd ih
  | forLoop hk hn hb hf hw hl hd _ ih =>
    rw [List.map_cons, List.map_cons, List.map_cons, List.map_append, List.map_cons,
      List.map_append, List.map_cons, turned_of_admits hk (by decide),
      turned_of_admits hn (by decide), turned_of_admits hb (by decide), hf.map_turned,
      hl.map_turned, turned_of_admits hd (by decide), Statement.turned,
      Block.turned_ofStatement]
    exact .forLoop hk hn hb hf (Token.turned_direction hw) hl hd ih
  | ifThen hk he ht _ ih =>
    rw [map_turned_branch hk (by decide) he ht (by decide), Statement.turned, Branch.allTurned,
      Branch.allTurned, Branch.turned, Block.turned_ofStatement, Block.turned?]
    exact .ifThen hk he ht ih
  | @ifElse _ _ _ _ _ _ _ _ _ _ vs hk he ht _ hel ho hne ih iho =>
    obtain ⟨a, ha, hfront⟩ := ho.front
    have hne' : Token.front? (vs.map Token.turned) ≠ some (.word "if") := by
      rw [Token.front?_map_turned hfront (starters_turned a ha), ← hfront]
      exact hne
    rw [map_turned_branch hk (by decide) he ht (by decide), map_turned_else hel, Statement.turned,
      Branch.allTurned, Branch.allTurned, Branch.turned, Block.turned_ofStatement, Block.turned?,
      Block.turned_ofStatement]
    exact .ifElse hk he ht ih hel iho hne'
  | elseIf hk he ht _ hel _ ih iho =>
    rw [map_turned_branch hk (by decide) he ht (by decide), map_turned_else hel, Statement.turned,
      Branch.allTurned, Branch.turned, Block.turned_ofStatement]
    exact .elseIf hk he ht ih hel iho

end Statement.Spelling

theorem Block.Spelling.turned {levels : Nat} {b : Block} {ts : List Token}
    (h : Block.Spelling levels b ts) : Block.Spelling levels b.turned (ts.map Token.turned) := by
  have hstatement : Statement.Spelling (levels + 1) true (.block b) ts :=
    Statement.spelling_block_iff.mpr h
  exact Statement.spelling_block_iff.mp hstatement.turned

theorem Routine.Spelling.turned {levels : Nat} {r : Routine} {ts : List Token}
    (h : Routine.Spelling levels r ts) :
    Routine.Spelling levels r.turned (ts.map Token.turned) := by
  cases h with
  | @mk isFunction _ _ _ _ _ _ _ _ _ _ _ _ hk hn hformals hkind hsemi hlocals hbody hlast =>
    have hkeyword : Routine.keyword isFunction ∉ Direction.terminals := by
      cases isFunction <;> decide
    simp only [List.map_cons, List.map_append, List.map_nil, turned_of_admits hk hkeyword,
      turned_of_admits hn (by decide), turned_of_admits hsemi (by decide),
      turned_of_admits hlast (by decide), hformals.bracketed.map_turned (by decide),
      hkind.bracketed.map_turned (by decide), hlocals.bracketed.map_turned (by decide)]
    exact .mk hk hn hformals hkind hsemi hlocals hbody.turned hlast

theorem Program.Spelling.turned {levels : Nat} {p : Program} {ts : List Token}
    (h : Program.Spelling levels p ts) :
    Program.Spelling levels p.turned (ts.map Token.turned) := by
  cases h with
  | mk hk hn hsemi hvars hconsts hroutines hbody hpoint =>
    simp only [List.map_cons, List.map_append, List.map_nil, turned_of_admits hk (by decide),
      turned_of_admits hn (by decide), turned_of_admits hsemi (by decide),
      turned_of_admits hpoint (by decide), hvars.bracketed.map_turned (by decide),
      hconsts.bracketed.map_turned (by decide)]
    have hturned := hroutines.map fun _ _ _ hr => hr.turned
    exact .mk hk hn hsemi hvars hconsts hturned hbody.turned hpoint

/-- Tokens are a program just if they are one with `to` and `downto` exchanged,
and that is the program with every counting loop turned. -/
theorem Program.parse_turned_iff (maxDepth : Nat) (tokens : List Token) (p : Program) :
    parse maxDepth tokens = .ok p ↔
      parse maxDepth (tokens.map Token.turned) = .ok p.turned := by
  rw [parse_iff, parse_iff, Token.significant_map_turned]
  constructor
  · intro h
    exact h.turned
  · intro h
    have hback := h.turned
    rwa [Token.map_turned_turned, turned_turned] at hback

end PascalSyntax
