/-!
# The vocabulary

These are the words and the symbols that stand for themselves in the grammar.
-/

namespace PascalSyntax
namespace Vocabulary

/-- The reserved words; case matters. -/
def reservedWords : List String :=
  ["and", "array", "begin", "case", "const", "div", "do", "downto", "else", "end", "file",
   "for", "function", "goto", "if", "in", "label", "mod", "nil", "not", "of", "or",
   "packed", "procedure", "program", "record", "repeat", "set", "then", "to", "type",
   "until", "var", "while", "with"]

/-- The symbols of one and of two characters.  Each of two characters starts
with one of one character, so one character of lookahead tells them apart. -/
def symbols : List String :=
  ["+", "-", "*", "/", "=", "<", ">", "[", "]", ".", ",", ":", ";", "^", "(", ")",
   "<>", "<=", ">=", ":=", ".."]

end Vocabulary
end PascalSyntax
