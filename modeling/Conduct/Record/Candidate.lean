import Conduct.Finding
import Conduct.Json.Basic
import Conduct.Text.Blank

/-! What is wrong with data that is meant to be a tree.

The data is looked at as it is, before anything is read or built from it. All flaws are found, not
only the first one, each with the position of its node.
-/

set_option autoImplicit false

namespace Conduct.Candidate

def name (members : Dict Json) : String := ((members.get? "name").bind Json.asString?).getD ""

def children (j : Json) : List Json :=
  match j.get? "children" with
  | some (.arr items) => items
  | _ => []

def countFlaws (kind : Kind) (name : String) (count : Nat) : List Flaw :=
  match kind.category with
  | .leaf => if 0 < count then [.leafWithChildren kind name] else []
  | .decorator => if 1 < count then [.tooManyChildren kind name count] else []
  | .root => if 1 < count then [.tooManyChildren kind name count] else []
  | .composite => []

def kindFlaws (members : Dict Json) (count : Nat) : List Flaw :=
  match (members.get? "type").bind Json.asString? with
  | none => [.noKind]
  | some tag =>
    match Kind.ofTag? tag with
    | none => [.unknownKind tag]
    | some kind => countFlaws kind (name members) count

def axisFlaws (members : Dict Json) (axis : String) : List Flaw :=
  match members.get? axis with
  | some value => if value.isNumber then [] else [.notANumber axis]
  | none => [.notANumber axis]

def childrenFlaws (members : Dict Json) : List Flaw :=
  match members.get? "children" with
  | none => []
  | some (.arr _) => []
  | some _ => [.childrenNotAList]

def flaws (j : Json) : List Flaw :=
  match j with
  | .obj members =>
    (if Text.isAllBlank (name members) then [.noName] else []) ++
      axisFlaws members "x" ++ axisFlaws members "y" ++ childrenFlaws members ++
      kindFlaws members (children j).length
  | _ => [.notAnObject]

/-- The findings of a single node; its children are only counted. -/
def nodeFindings (j : Json) : List Finding := (flaws j).map (⟨[], ·⟩)

def id? (j : Json) : Option String :=
  match (j.get? "id").bind Json.asString? with
  | some id => if id.isEmpty then none else some id
  | none => none

/-- The flaws of an id, given those seen before, and all ids seen then. -/
def idFlaws (seen : List String) (j : Json) : List Flaw × List String :=
  match id? j with
  | some id => if seen.contains id then ([.duplicateId id], seen) else ([], id :: seen)
  | none => ([], seen)

mutual

/-- The findings of a tree at a position, given the ids seen before, and all ids seen then. -/
def findingsAt (p : Position) (seen : List String) : Json → List Finding × List String
  | .obj members =>
    let (own, seen) := idFlaws seen (.obj members)
    let (below, seen) := findingsOfMembers p seen members
    ((own ++ flaws (.obj members)).map (⟨p, ·⟩) ++ below, seen)
  | j => ((flaws j).map (⟨p, ·⟩), seen)
termination_by structural j => j

def findingsOfMembers (p : Position) (seen : List String) {lo : Option String} :
    Dict.From Json lo → List Finding × List String
  | .nil => ([], seen)
  | .cons key _ value rest =>
    if key = "children" then findingsOfChildren p seen value else findingsOfMembers p seen rest
termination_by structural members => members

def findingsOfChildren (p : Position) (seen : List String) : Json → List Finding × List String
  | .arr items => findingsOfItems p 0 seen items
  | _ => ([], seen)
termination_by structural j => j

/-- The findings of children, the first of which has the given index. -/
def findingsOfItems (p : Position) (index : Nat) (seen : List String) :
    List Json → List Finding × List String
  | [] => ([], seen)
  | item :: items =>
    let (found, seen) := findingsAt (p.child index) seen item
    let (more, seen) := findingsOfItems p (index + 1) seen items
    (found ++ more, seen)
termination_by structural items => items

end

/-- The findings of a whole tree, each node before its children. -/
def findings (j : Json) : List Finding := (findingsAt [] [] j).1

end Conduct.Candidate
