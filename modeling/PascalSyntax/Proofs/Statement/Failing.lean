import PascalSyntax.Proofs.Expr.Failing
import PascalSyntax.Proofs.Statement.Reading

/-!
# Where the reading of a statement fails

The readers of statements are local (`Parser.statement_local`).  The `else if`
of a conditional takes a look at two tokens, but an `else` with no `if` after it
is read all the same, as the start of the last part of the conditional: what
follows the branches of a conditional is local as a whole.
-/

namespace PascalSyntax
namespace Parser

section Over

variable {expression : Parser Cursor Expr} {statement : Parser Cursor Statement}

/-! ## Conditionals -/

theorem body_local (hs : Local statement) : Local (body statement) :=
  hs.bind fun _ => .pure _

theorem branch_local (he : Local expression) (hs : Local statement) (ending : String)
    (keyword : Token) : Local (branch expression statement ending keyword) :=
  he.bind fun _ => (Local.take _ _).bind fun _ => (body_local hs).bind fun _ => .pure _

/-- Reads what follows the first branch of a conditional. -/
def afterBranch (expression : Parser Cursor Expr) (statement : Parser Cursor Statement) :
    Parser Cursor (List Branch × Option Block) := do
  let others ← many (elseIf expression statement)
  let otherwise ← another (.word "else") (body statement)
  return (others, otherwise)

theorem conditional_eq_afterBranch (expression : Parser Cursor Expr)
    (statement : Parser Cursor Statement) (keyword : Token) :
    conditional expression statement keyword = do
      let first ← branch expression statement "then" keyword
      let (others, otherwise) ← afterBranch expression statement
      return .conditional (first :: others) otherwise keyword.origin := by
  rw [conditional]
  simp only [afterBranch, bind_assoc, pure_bind]

theorem fails_elseIf_iff {us rest : List Token} {reason : Reason} :
    (elseIf expression statement).Fails us reason rest ↔
      ∃ elses keyword mid, us = elses :: keyword :: mid ∧
        (Terminal.word "else").admits elses = true ∧ (Terminal.word "if").admits keyword = true ∧
        (branch expression statement "then" keyword).Fails mid reason rest := by
  rw [elseIf, fails_bind_iff]
  constructor
  · intro h
    rcases h with h | ⟨o, mid, ho, h⟩
    · exact absurd h not_fails_takeBoth?
    · cases o with
      | none => exact absurd h not_fails_pure
      | some keyword =>
        obtain ⟨elses, rfl, helse, hif⟩ := reads_takeBoth?_some_iff.mp ho
        simp only [bind_pure_comp, fails_map_iff] at h
        exact ⟨elses, keyword, mid, rfl, helse, hif, h⟩
  · intro h
    rcases h with ⟨elses, keyword, mid, rfl, helse, hif, h⟩
    refine .inr ⟨some keyword, mid, reads_takeBoth?_some_iff.mpr ⟨elses, rfl, helse, hif⟩, ?_⟩
    simp only [bind_pure_comp, fails_map_iff]
    exact h

theorem elseIf_some_local (hb : ∀ keyword, Local (branch expression statement "then" keyword))
    {us rest : List Token} {b : Branch} (h : (elseIf expression statement).Reads us (some b) rest) :
    ∃ ts, us = ts ++ rest ∧ ∀ rest', rest'.head? = rest.head? →
      (elseIf expression statement).Reads (ts ++ rest') (some b) rest' := by
  obtain ⟨elses, keyword, mid, rfl, helse, hif, h⟩ := reads_elseIf_some_iff.mp h
  obtain ⟨ts, rfl, hbranch⟩ := (hb keyword mid).reads _ _ h
  refine ⟨elses :: keyword :: ts, rfl, fun rest' hhead => ?_⟩
  exact reads_elseIf_some_iff.mpr ⟨elses, keyword, _, rfl, helse, hif, hbranch rest' hhead⟩

theorem advances_elseIf_of_local
    (hb : ∀ keyword, Local (branch expression statement "then" keyword)) :
    Advances (elseIf expression statement) := by
  intro us b rest h
  obtain ⟨elses, keyword, mid, rfl, -, -, h⟩ := reads_elseIf_some_iff.mp h
  obtain ⟨ts, rfl, -⟩ := (hb keyword mid).reads _ _ h
  simp only [List.length_cons, List.length_append]
  omega

/-- There is no more `else if` where another token follows an `else`. -/
theorem reads_elseIf_none_congr {elses : Token} {us us' : List Token}
    (h : (elseIf expression statement).Reads (elses :: us) none (elses :: us))
    (hhead : us'.head? = us.head?) :
    (elseIf expression statement).Reads (elses :: us') none (elses :: us') := by
  refine reads_elseIf_none_iff.mpr ⟨?_, rfl⟩
  intro t mid he ht
  cases he
  rw [Token.front?_congr hhead]
  exact (reads_elseIf_none_iff.mp h).1 elses us rfl ht

/-- The end of a conditional, after the last `else if`. -/
theorem otherwise_local (hs : Local statement) {mid rest : List Token} {otherwise : Option Block}
    (last : (elseIf expression statement).Reads mid none mid)
    (hend : (another (.word "else") (body statement)).Reads mid otherwise rest) :
    ∃ vs, mid = vs ++ rest ∧ ∀ rest', rest'.head? = rest.head? →
      (elseIf expression statement).Reads (vs ++ rest') none (vs ++ rest') ∧
        (another (.word "else") (body statement)).Reads (vs ++ rest') otherwise rest' := by
  cases otherwise with
  | none =>
    obtain ⟨hne, rfl⟩ := reads_another_none_iff.mp hend
    refine ⟨[], rfl, fun rest' hhead => ?_⟩
    rw [← Token.front?_congr hhead] at hne
    exact ⟨reads_elseIf_of_ne hne, reads_another_none_iff.mpr ⟨hne, rfl⟩⟩
  | some b =>
    obtain ⟨elses, front, rfl, helse, hbody⟩ := reads_another_some_iff.mp hend
    obtain ⟨vs, rfl, hread⟩ := (body_local hs front).reads _ _ hbody
    refine ⟨elses :: vs, rfl, fun rest' hhead => ⟨?_, ?_⟩⟩
    · exact reads_elseIf_none_congr last (Token.head?_append_congr hhead vs)
    · exact reads_another_some_iff.mpr ⟨elses, _, rfl, helse, hread rest' hhead⟩

theorem afterBranch_local (hb : ∀ keyword, Local (branch expression statement "then" keyword))
    (hs : Local statement) : Local (afterBranch expression statement) := by
  have advances := advances_elseIf_of_local hb
  intro us
  refine ⟨?_, ?_⟩
  · intro r rest h
    simp only [afterBranch, reads_bind_iff, reads_pure_iff] at h
    obtain ⟨others, stop, hmany, otherwise, last, hend, rfl, rfl⟩ := h
    obtain ⟨mid, rounds, hnone⟩ := (reads_many_iff advances).mp hmany
    obtain ⟨-, rfl⟩ := reads_elseIf_none_iff.mp hnone
    obtain ⟨vs, rfl, hlast⟩ := otherwise_local hs hnone hend
    obtain ⟨ts, rfl, hrounds⟩ := rounds.local fun _ _ _ => elseIf_some_local hb
    refine ⟨ts ++ vs, (List.append_assoc _ _ _).symm, fun rest' hhead => ?_⟩
    obtain ⟨hnone, hend⟩ := hlast rest' hhead
    rw [List.append_assoc]
    simp only [afterBranch, reads_bind_iff, reads_pure_iff]
    exact ⟨others, _, (hrounds _ (Token.head?_append_congr hhead vs)).many hnone, otherwise, rest',
      hend, rfl, rfl⟩
  · intro reason rest h
    simp only [afterBranch, fails_bind_iff, not_fails_pure, and_false, exists_false,
      or_false] at h
    rcases h with h | ⟨others, stop, hmany, h⟩
    · obtain ⟨others, mid, rounds, last⟩ := fails_many_iff.mp h
      obtain ⟨elses, keyword, front, rfl, helse, hif, hbranch⟩ := fails_elseIf_iff.mp last
      obtain ⟨hliteral, vs, rfl, hfail⟩ := (hb keyword front).fails _ _ hbranch
      obtain ⟨ts, rfl, hrounds⟩ := rounds.local fun _ _ _ => elseIf_some_local hb
      refine ⟨hliteral, ts ++ elses :: keyword :: vs, by simp, fun rest' hhead => ?_⟩
      have hlast := fails_elseIf_iff.mpr
        ⟨elses, keyword, _, rfl, helse, hif, hfail rest' hhead⟩
      rw [List.append_assoc, afterBranch, fails_bind_iff]
      exact .inl ((hrounds (elses :: keyword :: (vs ++ rest')) rfl).fails hlast)
    · obtain ⟨mid, rounds, last⟩ := (reads_many_iff advances).mp hmany
      obtain ⟨-, rfl⟩ := reads_elseIf_none_iff.mp last
      obtain ⟨elses, front, rfl, helse, hbody⟩ := fails_another_iff.mp h
      obtain ⟨hliteral, vs, rfl, hfail⟩ := (body_local hs front).fails _ _ hbody
      obtain ⟨ts, rfl, hrounds⟩ := rounds.local fun _ _ _ => elseIf_some_local hb
      refine ⟨hliteral, ts ++ elses :: vs, by simp, fun rest' hhead => ?_⟩
      have hnone := reads_elseIf_none_congr last (Token.head?_append_congr hhead vs)
      rw [List.append_assoc]
      simp only [afterBranch, fails_bind_iff]
      exact .inr ⟨others, _, (hrounds (elses :: (vs ++ rest')) rfl).many hnone,
        .inl (fails_another_iff.mpr ⟨elses, _, rfl, helse, hfail rest' hhead⟩)⟩

theorem conditional_local (he : Local expression) (hs : Local statement) (keyword : Token) :
    Local (conditional expression statement keyword) := by
  rw [conditional_eq_afterBranch]
  have hb := branch_local he hs "then"
  exact (hb keyword).bind fun _ => (afterBranch_local hb hs).bind fun _ => .pure _

/-! ## Blocks, loops and names -/

theorem separator_local : Local separator :=
  .take?_bind (fun _ => .pure ()) (.sees_bind (.pure ()) (.fail _))

theorem item?_local (hs : Local statement) : Local (item? statement) :=
  .take?_bind (fun _ => .pure none) (.take?_bind (fun _ => .pure (some none))
    (hs.bind fun s => separator_local.bind fun _ => .pure (some (some s))))

theorem blockOver_local (hs : Local statement) : Local (blockOver statement) :=
  (Local.take _ _).bind fun _ => (item?_local hs).many.bind fun _ => .pure _

theorem direction_local : Local direction :=
  .takeFirst?_bind (fun _ => .pure _) (.fail _)

theorem forLoop_local (he : Local expression) (hs : Local statement) (keyword : Token) :
    Local (forLoop expression statement keyword) :=
  identifier_local.bind fun _ => (Local.take _ _).bind fun _ => he.bind fun _ =>
    direction_local.bind fun _ => he.bind fun _ => (Local.take _ _).bind fun _ =>
      (body_local hs).bind fun _ => .pure _

theorem nameStatement_local (he : Local expression) : Local (nameStatement expression) :=
  identifier_local.bind fun name => .take?_bind (fun _ => he.bind fun _ => .pure _)
    ((callOf_local he name).bind fun _ => .pure _)

theorem statementOver_local (he : Local expression) (hs : Local statement) :
    Local (statementOver expression statement) :=
  .take?_bind (conditional_local he hs)
    (.take?_bind (fun keyword => (branch_local he hs "do" keyword).bind fun _ => .pure _)
      (.take?_bind (forLoop_local he hs)
        (.sees_bind ((blockOver_local hs).bind fun _ => .pure _)
          (.sees_bind (nameStatement_local he) (.fail _)))))

end Over

theorem statement_local (levels : Nat) : Local (statement levels) := by
  induction levels with
  | zero => exact .tooDeep
  | succ levels ih => exact statementOver_local (expression_local levels) ih

theorem block_local (levels : Nat) : Local (block levels) :=
  blockOver_local (statement_local levels)

end Parser
end PascalSyntax
