/-!
Identities of participants, nodes and clusters.

An identity is a name; two elements are the same when their names are.
-/

namespace Drafting

/-- The name by which an element is referred to. -/
abbrev Ident := String

namespace Ident

/-- The identity of an element inside another one. -/
def nested (outer inner : Ident) : Ident := outer ++ "::" ++ inner

/-- The identity of an element without a name, given by a number. -/
def anonymous (n : Nat) : Ident := "__" ++ toString n

end Ident

end Drafting
