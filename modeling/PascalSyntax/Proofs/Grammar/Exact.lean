import PascalSyntax.Proofs.Grammar.Trees
import PascalSyntax.Proofs.Program.Reading

/-!
# The parser and the grammar

The parser accepts just what the grammar derives.  One direction is that
spellings derive, the other that what derives spells a tree at every number of
levels that is no less than the number of tokens.
-/

namespace PascalSyntax

theorem Token.significant_length_le (tokens : List Token) :
    (significant tokens).length ≤ tokens.length :=
  List.length_filter_le _ _

/-- If nesting is allowed as deep as there are tokens, then just those tokens are
parsed that, with the comments left out, derive from the grammar. -/
theorem Program.parse_iff_derives {maxDepth : Nat} {tokens : List Token}
    (deep : tokens.length ≤ maxDepth) :
    (∃ p, Program.parse maxDepth tokens = .ok p) ↔
      Nonterminal.program.Derives (Token.significant tokens) := by
  have hl := Token.significant_length_le tokens
  constructor
  · intro h
    rcases h with ⟨p, h⟩
    exact .ofProgram (Program.parse_iff.mp h)
  · intro h
    obtain ⟨p, hp⟩ := h.spelled maxDepth (by omega)
    exact ⟨p, Program.parse_iff.mpr hp⟩

/-- The tokens of `program p; {note} begin if a then if b then c else d end.` -/
def danglingElse : List Token :=
  [(.reservedWord, "program"), (.identifier, "p"), (.symbol, ";"), (.comment, "\x7bnote\x7d"),
    (.reservedWord, "begin"), (.reservedWord, "if"), (.identifier, "a"), (.reservedWord, "then"),
    (.reservedWord, "if"), (.identifier, "b"), (.reservedWord, "then"), (.identifier, "c"),
    (.reservedWord, "else"), (.identifier, "d"), (.reservedWord, "end"), (.symbol, ".")].map
  fun (kind, text) => ⟨kind, text, .start⟩

/-- The `else` is derived for the first `if` here, and the parser takes it for the
second: the program is accepted all the same. -/
theorem danglingElse_parsed :
    danglingElse.length ≤ 16 ∧ ∃ p, Program.parse 16 danglingElse = .ok p := by
  refine ⟨by decide, (Program.parse_iff_derives (by decide)).mpr ?_⟩
  have hname {t : Token} (ht : Terminal.identifier.admits t) :
      Nonterminal.expression.Derives [t] :=
    Nonterminal.Derives.ofPrimary (.nonterminal (.first (.token ht))) 0
  have hcall {t : Token} (ht : Terminal.identifier.admits t) : Nonterminal.statement.Derives [t] :=
    .nonterminal (.second (.second (.second (.first (.nonterminal (.cons ht .absent))))))
  have hinner : Nonterminal.statement.Derives ((danglingElse.drop 8).take 4) :=
    @Nonterminal.Derives.ofConditional _ _ [_] [_] [] rfl (hname rfl) rfl (hcall rfl) .absent
  have houter : Nonterminal.statement.Derives ((danglingElse.drop 5).take 9) :=
    @Nonterminal.Derives.ofConditional _ _ [_] ((danglingElse.drop 8).take 4) _ rfl (hname rfl) rfl
      hinner (.present (.cons rfl (hcall rfl)))
  have hblock : Nonterminal.block.Derives ((danglingElse.drop 4).take 11) :=
    .nonterminal (.cons rfl (@Derives.sequence _ _ _ _ ((danglingElse.drop 5).take 9) [_]
      (.single (.present houter)) (.token rfl)))
  exact .nonterminal (.cons rfl (.cons rfl (.cons rfl (.skip (.skip (.noMore
    (@Derives.sequence _ _ _ _ ((danglingElse.drop 4).take 11) [_] hblock (.token rfl))))))))

end PascalSyntax
