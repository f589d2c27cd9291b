import ContentTypes.Declaration

/-!
# Families of declarations

Declarations without items whose names are a stem and a number: `Declaration.chain` is a line of
inheritance, `Declaration.fan` a type with many supertypes.
-/

namespace ContentTypes

/-- The member `i` of a family of names. -/
def Name.numbered (stem : String) (i : Nat) : Name := stem ++ toString i

/-- A chain of declarations in which each but the first has the one before it as its supertype. -/
def Declaration.chain (stem : String) (count : Nat) : List Declaration :=
  (List.range count).map fun i =>
    { name := Name.numbered stem i
      supertypes := if i = 0 then [] else [Name.numbered stem (i - 1)] }

/-- Declarations without supertypes, and one that has all of them as its supertypes. -/
def Declaration.fan (root stem : String) (count : Nat) : List Declaration :=
  let leaves := (List.range count).map (Name.numbered stem)
  leaves.map (fun n => { name := n }) ++ [{ name := root, supertypes := leaves }]

end ContentTypes
