import Conduct.Catalog

/-! Changing the nodes of a tree.

A child is only inserted where children are allowed and where all its ids are new. New properties
take effect only if a behavior can be built from them.
-/

set_option autoImplicit false

namespace Conduct

inductive EditError
  | tooManyNodes
  | duplicateId (id : String)
  | unknownParent (id : String)
  deriving DecidableEq

def EditError.message : EditError → String
  | .tooManyNodes => "Attempted to add too many nodes"
  | .duplicateId id => "Node id " ++ Text.quoted id ++ " already exists in the tree"
  | .unknownParent id => "No node with id " ++ Text.quoted id ++ " to add a child to"

variable {H : Host}

namespace Tree

/-- The first id of the second tree that the first one has too. -/
def clash? (t incoming : Tree H) : Option String :=
  let known := t.ids
  incoming.ids.find? fun id => known.contains id

def checkDistinct (t incoming : Tree H) : Except EditError Unit :=
  match clash? t incoming with
  | some id => .error (.duplicateId id)
  | none => .ok ()

/-- Inserts a child below the top, before the one at the index, or else as the last one. -/
def insertChild (parent : Tree H) (index : Nat) (child : Tree H) : Except EditError (Tree H) :=
  if parent.value.behavior.limit.isClosed then .error .tooManyNodes
  else do
    checkDistinct parent child
    .ok (parent.withChildren
      (parent.children.take index ++ child :: parent.children.drop index))

def addChild (parent child : Tree H) : Except EditError (Tree H) :=
  insertChild parent parent.children.length child

def graft (t : Tree H) (parentId : String) (index : Nat) (child : Tree H) :
    Except EditError (Tree H) := do
  checkDistinct t child
  match find? t parentId with
  | none => .error (.unknownParent parentId)
  | some parent => do
    let parent ← insertChild parent index child
    .ok (Rose.replace (named parentId) parent t)

def removeChild? (t : Tree H) (id : String) : Option (Tree H × Tree H) :=
  (Rose.takeFirst? (named id) t.children).map fun (found, rest) => (found, t.withChildren rest)

def detach? (t : Tree H) (id : String) : Option (Tree H × Tree H) := Rose.detach? (named id) t

def replace (t : Tree H) (id : String) (new : Tree H) : Tree H := Rose.replace (named id) new t

def changeTop (t : Tree H) (f : Node H → Node H) : Tree H := t.withValue (f t.value)

/-- Gives the node at the top other properties, and with them a new behavior. -/
def setProperties (catalog : Catalog H) (t : Tree H) (properties : Properties) :
    Except BuildError (Tree H) := do
  let behavior ← catalog.build t.value.kind properties
  .ok (t.changeTop fun n =>
    { n with behavior := behavior, properties := properties, status := .ready })

def setProperty (catalog : Catalog H) (t : Tree H) (key : String) (value : Json) :
    Except BuildError (Tree H) :=
  setProperties catalog t (t.value.properties.insert key value)

end Tree

end Conduct
