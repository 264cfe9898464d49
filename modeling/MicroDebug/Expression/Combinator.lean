import MicroDebug.Expression.Token

/-! Parsers put together from smaller ones. Of several ways the first that succeeds is taken, and what may be repeated
    is read as often as it comes. A way that is given up leaves nothing behind but where it failed: of all failures the
    furthest is kept. -/

namespace MicroDebug

/-- A place where a parser could not go on, counted in tokens, and the token that it found there, if there was one. -/
structure Failure where
  index : Nat
  found : Option Token
deriving DecidableEq, Repr

/-- The further one of two failures. -/
def Failure.further : Option Failure → Option Failure → Option Failure
  | f, none => f
  | none, g => g
  | some f, some g => if f.index < g.index then some g else some f

/-- What reading tokens from a place on comes to. -/
structure Reading (α : Type) where
  /-- What has been read, and the place after it. -/
  result : Option (α × Nat)
  /-- The furthest failure on the way, also in what was given up. -/
  furthest : Option Failure := none
deriving DecidableEq, Repr

/-- Reads tokens from a place on. -/
def Parser (α : Type) : Type := List Token → Nat → Reading α

namespace Parser

variable {α β : Type}

/-! ### Single tokens -/

/-- The failure at a token that is not allowed where it stands. -/
def unexpected (t : Token) (i : Nat) : Failure := { index := i, found := some t }

/-- Takes a token, whatever it is. -/
def any : Parser Token := fun ts i =>
  match ts[i]? with
  | some t => { result := some (t, i + 1) }
  | none => { result := none, furthest := some { index := i, found := none } }

/-- Takes the end of the tokens. -/
def ending : Parser Unit := fun ts i =>
  match ts[i]? with
  | some t => { result := none, furthest := some (unexpected t i) }
  | none => { result := some ((), i) }

/-- Takes nothing. -/
def succeed (a : α) : Parser α := fun _ i => { result := some (a, i) }

def fail : Parser α := fun ts i => { result := none, furthest := some { index := i, found := ts[i]? } }

/-! ### Combinations -/

/-- Makes something of what is read. -/
def map (p : Parser α) (f : α → β) : Parser β := fun ts i =>
  match p ts i with
  | ⟨some (a, j), furthest⟩ => ⟨some (f a, j), furthest⟩
  | ⟨none, furthest⟩ => ⟨none, furthest⟩

/-- Makes something of what is read, or refuses it with a failure that may tell where it begins. -/
def tryMap (p : Parser α) (f : α → Nat → Except Failure β) : Parser β := fun ts i =>
  match p ts i with
  | ⟨some (a, j), furthest⟩ =>
    match f a i with
    | .ok b => ⟨some (b, j), furthest⟩
    | .error failure => ⟨none, Failure.further furthest (some failure)⟩
  | ⟨none, furthest⟩ => ⟨none, furthest⟩

/-- Reads one thing after another. -/
def andThen (p : Parser α) (q : Parser β) : Parser (α × β) := fun ts i =>
  match p ts i with
  | ⟨some (a, j), furthest⟩ =>
    match q ts j with
    | ⟨some (b, k), later⟩ => ⟨some ((a, b), k), Failure.further furthest later⟩
    | ⟨none, later⟩ => ⟨none, Failure.further furthest later⟩
  | ⟨none, furthest⟩ => ⟨none, furthest⟩

/-- Reads one thing or else, from the same place on, another. -/
def orElse (p q : Parser α) : Parser α := fun ts i =>
  match p ts i with
  | ⟨some x, furthest⟩ => ⟨some x, furthest⟩
  | ⟨none, furthest⟩ =>
    match q ts i with
    | ⟨result, later⟩ => ⟨result, Failure.further furthest later⟩

/-! ### Recursion -/

/-- A parser that is used within itself to a depth below `depth`. -/
def nested (body : Parser α → Parser α) : (depth : Nat) → Parser α
  | 0 => fail
  | depth + 1 => body (nested body depth)

/-- A parser that is used within itself. Every use comes after a token, so the depth is bounded by the tokens left. -/
def recursive (body : Parser α → Parser α) : Parser α := fun ts i => nested body (ts.length - i + 1) ts i

/-- Reads something before the rest, or nothing if it does not come. -/
def more (p : Parser α) (rest : Parser (List α)) : Parser (List α) :=
  ((p.andThen rest).map fun (a, as) => a :: as).orElse (succeed [])

/-- Reads something as often as it comes. -/
def repeated (p : Parser α) : Parser (List α) := recursive p.more

/-- Reads something and what may follow repeatedly, and puts each to what is before it. -/
def foldl (p : Parser α) (q : Parser β) (f : α → β → α) : Parser α :=
  (p.andThen q.repeated).map fun (a, bs) => bs.foldl f a

/-- Reads what may come repeatedly and something after it, and puts each to what is after it. -/
def foldr (p : Parser α) (q : Parser β) (f : α → β → β) : Parser β :=
  (p.repeated.andThen q).map fun (as, b) => as.foldr f b

/-! ### Whole lists of tokens -/

/-- What a parser makes of all tokens, or where it failed. -/
def parse (p : Parser α) (ts : List Token) : Except (List Failure) α :=
  match p.andThen ending ts 0 with
  | ⟨some ((a, ()), _), _⟩ => .ok a
  | ⟨none, furthest⟩ => .error furthest.toList

end Parser
end MicroDebug
