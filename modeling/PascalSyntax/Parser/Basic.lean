import PascalSyntax.Parser.Spot

/-!
# Building readers

Readers are run one after another, and the smallest of them look at the token at
a spot or read it.
-/

namespace PascalSyntax
namespace Parser

section Sequencing

variable {σ : Type}

def andThen (p : Parser σ α) (f : α → Parser σ β) : Parser σ β := fun s =>
  match p s with
  | .error failure => .error failure
  | .ok (a, next) => f a next

instance : Monad (Parser σ) where
  pure a := fun s => .ok (a, s)
  bind := andThen

@[simp] theorem pure_apply (a : α) (s : σ) : (pure a : Parser σ α) s = .ok (a, s) := rfl

@[simp] theorem bind_apply (p : Parser σ α) (f : α → Parser σ β) (s : σ) :
    (p >>= f) s = p.andThen f s := rfl

theorem bind_eq_ok_iff {p : Parser σ α} {f : α → Parser σ β} {s : σ} {r : β × σ} :
    (p >>= f) s = .ok r ↔ ∃ a next, p s = .ok (a, next) ∧ f a next = .ok r := by
  rw [bind_apply, andThen]
  cases p s with
  | error failure => simp
  | ok read =>
    obtain ⟨a, next⟩ := read
    constructor
    · intro h
      exact ⟨a, next, rfl, h⟩
    · rintro ⟨b, last, h, hr⟩
      cases h
      exact hr

instance : LawfulMonad (Parser σ) := by
  refine LawfulMonad.mk' (Parser σ) ?_ ?_ ?_
  · intro α p
    funext s
    show p.andThen pure s = p s
    rw [andThen]
    cases p s <;> rfl
  · intro α β a f
    rfl
  · intro α β γ p f g
    funext s
    show (p.andThen f).andThen g s = p.andThen (fun a => (f a).andThen g) s
    simp only [andThen]
    cases p s <;> rfl

end Sequencing

variable {σ : Type} [Spot σ]

def fail (what : Expectation) : Parser σ α := fun s =>
  .error (Spot.missing s what)

/-- Fails because no level of nesting is left. -/
def tooDeep : Parser σ α := fun s =>
  .error ⟨.nestingTooDeep, s⟩

/-- The token at the spot, which is not read. -/
def peek? : Parser σ (Option Token) := fun s =>
  .ok (Spot.peek? s, s)

/-- Whether an instance of a terminal is next; it is not read. -/
def sees (terminal : Terminal) : Parser σ Bool := fun s =>
  .ok (Spot.check s terminal, s)

def take? (terminal : Terminal) : Parser σ (Option Token) := fun s =>
  match Spot.take? s terminal with
  | some (t, next) => .ok (some t, next)
  | none => .ok (none, s)

/-- Reads instances of two terminals in a row if both are next, and gives the
second of them. -/
def takeBoth? (first second : Terminal) : Parser σ (Option Token) := fun s =>
  match Spot.take? s first with
  | none => .ok (none, s)
  | some (_, next) =>
    match Spot.take? next second with
    | some (t, last) => .ok (some t, last)
    | none => .ok (none, s)

/-- Reads an instance of a terminal, which has to be there. -/
def take (terminal : Terminal) (place : Option String) : Parser σ Token := fun s =>
  Spot.take s terminal place

def symbol (text place : String) : Parser σ Token :=
  take (.symbol text) (some place)

def word (text place : String) : Parser σ Token :=
  take (.word text) (some place)

/-- Reads the terminal of the first of some choices that has its terminal next.
-/
def takeFirst? (choices : List γ) (terminal : γ → Terminal) :
    Parser σ (Option (γ × Token)) := fun s =>
  match choices.find? (Spot.check s <| terminal ·), Spot.peek? s with
  | some choice, some t => .ok (some (choice, t), Spot.advance s)
  | _, _ => .ok (none, s)

/-- Repeats a round as long as it gives a value, and gives all values in order.
The round that gives none is the last, and so is one that has read nothing,
which would come again for ever. -/
def many (round : Parser σ (Option α)) : Parser σ (List α) := fun s =>
  match round s with
  | .error failure => .error failure
  | .ok (none, next) => .ok ([], next)
  | .ok (some a, next) =>
    if Spot.left next < Spot.left s then
      match many round next with
      | .error failure => .error failure
      | .ok (as, last) => .ok (a :: as, last)
    else
      .ok ([a], next)
termination_by s => Spot.left s

def another (separator : Terminal) (item : Parser σ α) : Parser σ (Option α) := do
  match ← take? separator with
  | some _ => return some (← item)
  | none => return none

/-- Reads one or more items, with a separator before each but the first. -/
def separated (separator : Terminal) (item : Parser σ α) : Parser σ (List α) := do
  let first ← item
  let others ← many (another separator item)
  return first :: others

/-- Reads an item if the terminal `start` is next. -/
def oneMore (start : Terminal) (item : Parser σ α) : Parser σ (Option α) := do
  if ← sees start then
    return some (← item)
  else
    return none

/-- Reads one or more items: after the first, one for each time that the
terminal `start` is next. -/
def repeated (start : Terminal) (item : Parser σ α) : Parser σ (List α) := do
  let first ← item
  let others ← many (oneMore start item)
  return first :: others

end Parser
end PascalSyntax
