import Conduct.Kind
import Conduct.Position
import Conduct.Text.Quoted

/-! Findings: what is wrong with a tree, and where.

Findings are data, not errors; a report is valid when it has none.
-/

set_option autoImplicit false

namespace Conduct

/-- What is wrong with a node or with data that is meant to be one. -/
inductive Flaw
  | notAnObject
  | duplicateId (id : String)
  | noName
  | unnamed (id : String)
  | notANumber (axis : String)
  | childrenNotAList
  | noKind
  | unknownKind (tag : String)
  | leafWithChildren (kind : Kind) (name : String)
  | tooManyChildren (kind : Kind) (name : String) (count : Nat)
  | unsuited (kind : Kind) (name : String) (text : String)
  deriving DecidableEq

/-- A flaw and the position of the node that has it. -/
structure Finding where
  position : Position
  flaw : Flaw
  deriving DecidableEq

namespace Finding

/-- A position with the kind and the name of its node. -/
def labelled (p : Position) (kind : Kind) (name : String) : String :=
  p.text ++ " (" ++ kind.tag ++ " " ++ Text.quoted name ++ ")"

def text (f : Finding) : String :=
  let here := f.position.text
  match f.flaw with
  | .notAnObject => here ++ ": node must be an object"
  | .duplicateId id => here ++ ": duplicate node id " ++ Text.quoted id
  | .noName => here ++ ": node has no name"
  | .unnamed id => here ++ ": node " ++ Text.quoted id ++ " has no name"
  | .notANumber axis => here ++ ": position " ++ axis ++ " must be a number"
  | .childrenNotAList => here ++ ": children must be a list"
  | .noKind => here ++ ": missing node type"
  | .unknownKind tag => here ++ ": unknown node type " ++ Text.quoted tag
  | .leafWithChildren kind name =>
    labelled f.position kind name ++ ": leaf nodes must not have children"
  | .tooManyChildren kind name count =>
    labelled f.position kind name ++ ": may have at most one child, found " ++ toString count
  | .unsuited kind name text => labelled f.position kind name ++ ": " ++ text

end Finding

end Conduct
