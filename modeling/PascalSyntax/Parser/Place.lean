import PascalSyntax.Parser.Spot

/-!
# Places

A place is a spot among all tokens, comments included: so many of them are
behind it, and it is inside so many levels of nesting.  To go on is to go on to
the next token that is no comment.  No reader runs at more than `maxDepth`
levels.
-/

namespace PascalSyntax

@[ext] structure Place (maxDepth : Nat) where
  tokens : Array Token
  /-- The number of tokens behind the place. -/
  index : Nat
  /-- The number of levels that the place is inside. -/
  depth : Nat
  index_le : index ≤ tokens.size

namespace Place

variable {maxDepth : Nat}

def peek? (place : Place maxDepth) : Option Token :=
  place.tokens[place.index]?

def atEnd (place : Place maxDepth) : Bool :=
  place.tokens.size ≤ place.index

/-- The place after the comments that stand at a place. -/
def skipComments (place : Place maxDepth) : Place maxDepth :=
  if h : place.index < place.tokens.size then
    if place.tokens[place.index].kind = .comment then
      skipComments { place with index := place.index + 1, index_le := h }
    else
      place
  else
    place
termination_by place.tokens.size - place.index

/-- The place after the token at a place and the comments behind that token. -/
def advance (place : Place maxDepth) : Place maxDepth :=
  if h : place.index < place.tokens.size then
    skipComments { place with index := place.index + 1, index_le := h }
  else
    place

def start (maxDepth : Nat) (tokens : List Token) : Place maxDepth :=
  skipComments ⟨tokens.toArray, 0, 0, Nat.zero_le _⟩

/-- Runs a reader one level further in, if there may be one, and comes back to
the level of the place. -/
def nested (p : Parser (Place maxDepth) α) : Parser (Place maxDepth) α := fun place =>
  if maxDepth ≤ place.depth then
    .error ⟨.nestingTooDeep, place⟩
  else
    match p { place with depth := place.depth + 1 } with
    | .error failure => .error failure
    | .ok (a, next) => .ok (a, { next with depth := place.depth })

instance : Spot (Place maxDepth) where
  peek? := peek?
  atEnd := atEnd
  advance := advance
  left place := place.tokens.size - place.index
  nested := nested

end Place
end PascalSyntax
