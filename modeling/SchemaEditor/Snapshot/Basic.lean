import SchemaEditor.Model.Basic
import SchemaEditor.Text.Keyed

/-!
# Snapshots

The form in which a model is stored: libraries with their members, and each member with its
properties, values, aliases and actions. Nodes are named by keys. A member has the key it is given
or else its name, and what it holds has a key that begins with the key of the member; references
are written as keys.
-/

namespace SchemaEditor

namespace Snapshot

/-- A stored property. -/
structure Property where
  kind : NodeKind
  name : String
  /-- The key of the assigned type. -/
  typeKey : Option String
  mandatory : Bool
  description : String
  deriving DecidableEq

/-- A stored action of a resource, with the keys of what it takes and gives. -/
structure Action where
  name : String
  request : Option String
  response : Option String
  deriving DecidableEq

/-- A stored member. -/
structure Member where
  kind : NodeKind
  name : String
  /-- The key of the member, if it is not its name. -/
  key : Option String
  description : String
  typeKey : Option String
  baseKey : Option String
  contributesTo : Option String
  /-- The properties of each standard facet, under the name of its role. -/
  facets : Text.Keyed (List Property)
  /-- The properties that the member itself holds. -/
  properties : List Property
  values : List String
  aliases : List String
  actions : List Action

/-- A stored library. -/
structure Library where
  name : String
  uri : String
  version : Version
  status : LibraryStatus
  managed : Bool
  lockedBy : Option String
  members : List Member

end Snapshot

/-- A stored model. -/
structure Snapshot where
  libraries : List Snapshot.Library

namespace Snapshot

/-- The key under which a member and its parts are known. -/
def Member.effectiveKey (m : Member) : String := m.key.getD m.name

/-- The key of a standard facet of a member. -/
def facetKey (member : String) (role : FacetRole) : String := member ++ "#" ++ role.name

/-- The key of a property or value of a member. -/
def partKey (member name : String) : String := member ++ "." ++ name

/-- The key of an alias of a member. -/
def aliasKey (member name : String) : String := member ++ "@" ++ name

/-- The key of an action of a member. -/
def actionKey (member name : String) : String := member ++ "/" ++ name

/-- The key of the request or response of an action. -/
def payloadKey (action ending : String) : String := action ++ "#" ++ ending

/-- The beginning of references to built-in types. -/
def builtinMark : List Char := "xsd:".toList

/-- The name of the built-in type that a reference may mean. -/
def builtinName? (key : String) : Option String :=
  if builtinMark.isPrefixOf key.toList then
    some (String.ofList (key.toList.drop builtinMark.length))
  else none

end Snapshot

end SchemaEditor
