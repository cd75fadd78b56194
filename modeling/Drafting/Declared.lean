/-!
Declarations by name.

The first declaration of a name counts; later ones are repeats.

* `Declared.firsts`, `Declared.repeats`: the declarations that count, and the others.
* `Declared.indexOf?`: the position of a name among the declarations that count.
-/

namespace Drafting.Declared

variable {β : Type}

/-- The declarations whose name has not been seen, each name once. -/
def firstsAfter (name : β → String) (seen : List String) : List β → List β
  | [] => []
  | x :: rest =>
    if seen.contains (name x) then firstsAfter name seen rest
    else x :: firstsAfter name (name x :: seen) rest

/-- The declarations whose name has been seen, in the list or before it. -/
def repeatsAfter (name : β → String) (seen : List String) : List β → List β
  | [] => []
  | x :: rest =>
    if seen.contains (name x) then x :: repeatsAfter name seen rest
    else repeatsAfter name (name x :: seen) rest

/-- The first declaration of each name. -/
def firsts (name : β → String) (xs : List β) : List β := firstsAfter name [] xs

/-- The declarations of names declared before. -/
def repeats (name : β → String) (xs : List β) : List β := repeatsAfter name [] xs

/-- The position of a name. -/
def indexOf? (name : β → String) (xs : List β) (id : String) : Option Nat :=
  xs.findIdx? fun x => name x == id

end Drafting.Declared
