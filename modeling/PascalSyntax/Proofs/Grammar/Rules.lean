import PascalSyntax.Proofs.Grammar.Phrase

/-!
# The grammar

The grammar that is documented, rule by rule.  It is ambiguous at `else`: an
`else` may be derived for any `if` before it that has none.

Two remarks beside the documented rules are rules here.  A group of variables
has an initial value only if it declares a single name, and a function has a
return type while a procedure has none.
-/

namespace PascalSyntax

inductive Nonterminal where
  | program
  | varSection
  | varGroup
  | constSection
  | block
  | statement
  | assignment
  | call
  | conditional
  | whileLoop
  | forLoop
  | routine
  | formals
  | parameterGroup
  | expression
  | additive
  | term
  | unary
  | primary

namespace Nonterminal

open Phrase (concat alternatives symbol word identifier stringLiteral integerLiteral oneOf
  nonterminal)

/-- The rule of each nonterminal. -/
def rule : Nonterminal → Phrase Nonterminal
  | program =>
    concat [word "program", identifier, symbol ";", (nonterminal varSection).optional,
      (nonterminal constSection).optional, (nonterminal routine).many, nonterminal block,
      symbol "."]
  | varSection => concat [word "var", (nonterminal varGroup).some]
  | varGroup =>
    alternatives [
      concat [identifier, symbol ":", identifier,
        (concat [symbol "=", nonterminal expression]).optional, symbol ";"],
      concat [identifier.list ",", symbol ":", identifier, symbol ";"]]
  | constSection =>
    concat [word "const",
      (concat [identifier, symbol "=", nonterminal expression, symbol ";"]).some]
  | block => concat [word "begin", (nonterminal statement).optional.list ";", word "end"]
  | statement =>
    alternatives [nonterminal conditional, nonterminal whileLoop, nonterminal forLoop,
      nonterminal call, nonterminal assignment, nonterminal block]
  | assignment => concat [identifier, symbol ":=", nonterminal expression]
  | call =>
    concat [identifier,
      (concat [symbol "(", ((nonterminal expression).list ",").optional, symbol ")"]).optional]
  | conditional =>
    concat [word "if", nonterminal expression, word "then", nonterminal statement,
      (concat [word "else", word "if", nonterminal expression, word "then",
        nonterminal statement]).many,
      (concat [word "else", nonterminal statement]).optional]
  | whileLoop => concat [word "while", nonterminal expression, word "do", nonterminal statement]
  | forLoop =>
    concat [word "for", identifier, symbol ":=", nonterminal expression,
      oneOf [.word "to", .word "downto"], nonterminal expression, word "do",
      nonterminal statement]
  | routine =>
    concat [
      alternatives [
        concat [word "function", identifier, nonterminal formals, symbol ":", identifier],
        concat [word "procedure", identifier, nonterminal formals]],
      symbol ";", (nonterminal varSection).optional, nonterminal block, symbol ";"]
  | formals =>
    (concat [symbol "(", ((nonterminal parameterGroup).list ";").optional, symbol ")"]).optional
  | parameterGroup =>
    concat [(word "var").optional, identifier.list ",", symbol ":", identifier]
  | expression =>
    concat [nonterminal additive, (concat [oneOf [.symbol "=", .symbol "<>", .symbol "<",
      .symbol "<=", .symbol ">", .symbol ">=", .word "or"], nonterminal additive]).many]
  | additive =>
    concat [nonterminal term,
      (concat [oneOf [.symbol "+", .symbol "-"], nonterminal term]).many]
  | term =>
    concat [nonterminal unary, (concat [oneOf [.symbol "*", .symbol "/", .word "div",
      .word "mod", .word "and"], nonterminal unary]).many]
  | unary =>
    alternatives [concat [oneOf [.symbol "-", .word "not"], nonterminal unary],
      nonterminal primary]
  | primary =>
    alternatives [identifier, integerLiteral, stringLiteral, nonterminal call,
      concat [symbol "(", nonterminal expression, symbol ")"]]

end Nonterminal

abbrev Nonterminal.Derives (n : Nonterminal) (ts : List Token) : Prop :=
  PascalSyntax.Derives rule (.nonterminal n) ts

end PascalSyntax
