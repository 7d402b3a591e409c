import TokenKeeper.Json.Label
import TokenKeeper.Json.Loose

/-!
# Merge patches

A patch that is an object changes the members it names: null removes a member, an object is merged
into it, and anything else takes its place. Members that it does not name stay, in their order, and
new ones come last. A patch that is no object takes the place of the whole.
-/
namespace TokenKeeper.Json.Spelling

def removeMember (name : List Glyph) :
    List (List Glyph × Spelling) → List (List Glyph × Spelling)
  | [] => []
  | (k, v) :: rest => if sameLabel k name then rest else (k, v) :: removeMember name rest

def alterMember (name : List Glyph) (change : Spelling → Spelling) :
    List (List Glyph × Spelling) → List (List Glyph × Spelling)
  | [] => [(name, change .null)]
  | (k, v) :: rest =>
    if sameLabel k name then (k, change v) :: rest else (k, v) :: alterMember name change rest

mutual

def patched (target : Spelling) : Spelling → Spelling
  | .obj changes => .obj (patchedMembers (target.members?.getD []) changes)
  | replacement => replacement

def patchedMembers (ms : List (List Glyph × Spelling)) :
    List (List Glyph × Spelling) → List (List Glyph × Spelling)
  | [] => ms
  | (name, .null) :: rest => patchedMembers (removeMember name ms) rest
  | (name, v) :: rest => patchedMembers (alterMember name (fun old => patched old v) ms) rest

end

def patchText? (target patch : String) : Option String := do
  return (patched (← ofLooseText? target) (← ofLooseText? patch)).minified

end TokenKeeper.Json.Spelling
