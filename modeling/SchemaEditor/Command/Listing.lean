import SchemaEditor.Command.Workspace
import SchemaEditor.Graph.Structure
import SchemaEditor.Graph.Types

/-!
# The tree of a model

Every library with its members and, indented, what they contain. An object that contributes to
another one is shown in both places but expanded only once in the section of a library, so the
tree is finite also where contributions run in a circle.
-/

namespace SchemaEditor.Command

/-- A tree that is being written. -/
structure Listing where
  graph : Graph
  /-- The facades expanded in the section of the current library. -/
  expanded : List FacadeId
  /-- The lines so far, last first. -/
  lines : List String

namespace Listing

/-- A step of the listing. -/
abbrev Step := EStateM Graph.Error Listing

/-- Makes an edit of the graph. -/
def edit {α : Type} (e : Graph.Edit α) : Step α := fun l =>
  match e l.graph with
  | .ok a graph => .ok a { l with graph }
  | .error cause graph => .error cause { l with graph }

/-- Puts a query to the graph. -/
def ask {α : Type} (query : Graph → Except Graph.Error α) : Step α := edit (Graph.ask query)

/-- Writes a line. -/
def print (line : String) : Step Unit := fun l => .ok () { l with lines := line :: l.lines }

/-- Blanks in front of a line. -/
def indentation (depth : Nat) : String := String.ofList (List.replicate (2 * depth) ' ')

/-- The mention of a facade after a word, if there is one. -/
def mention (word : String) : Option FacadeId → Step String
  | none => return ""
  | some f => return word ++ (← ask fun g => g.name f)

/-- The line of a facade: what it is, whether it is mandatory, its type and its base. -/
def headline (depth : Nat) (f : FacadeId) : Step String := do
  let title ← ask fun g => describe g f
  let star := if ← ask fun g => g.isMandatory f then " *" else ""
  let type ← mention " -> " (← edit (Graph.assignedType? f))
  let base ← mention " extends " (← edit (Graph.baseType? f))
  return indentation depth ++ title ++ star ++ type ++ base

/-- Notes that a facade is expanded, and says whether it was not before. -/
def expandOnce (f : FacadeId) : Step Bool := fun l =>
  if l.expanded.contains f then .ok false l
  else .ok true { l with expanded := f :: l.expanded }

/-- The line of a child that a facade inherits. -/
def showInherited (depth : Nat) (child : FacadeId) : Step Unit := do
  print (indentation depth ++ "  ^ " ++ (← ask fun g => describe g child))

/-- The lines of a facade and of what it contains, down to `fuel` levels. Every level expands
another node, so the number of nodes is fuel enough. -/
def showFacade (inherited : Bool) : Nat → Nat → FacadeId → Step Unit
  | 0, depth, f => do print (← headline depth f)
  | fuel + 1, depth, f => do
    print (← headline depth f)
    if ← expandOnce f then
      let children ← edit (Graph.children f)
      children.forM (showFacade inherited fuel (depth + 1))
      if inherited then
        let fromBases ← edit (Graph.inheritedChildren f)
        fromBases.forM (showInherited depth)

/-- The section of a library. -/
def showLibrary (inherited : Bool) (id : LibraryId) (l : Library) : Step Unit := do
  let g := (← get).graph
  let editability := g.versioning.editability g.model id
  print (l.name ++ " " ++ l.version.text ++ " (" ++ editability.description ++ ")")
  let members ← edit (Graph.members id)
  modify fun l => { l with expanded := [] }
  members.forM (showFacade inherited g.model.nodes.size 1)

/-- The libraries to be shown with their ids, without built-in ones if so asked. -/
def shownLibraries (noBuiltins : Bool) (m : Model) : List (LibraryId × Library) :=
  (m.libraries.toList.zipIdx.map fun (l, i) => (⟨i⟩, l)).filter fun (_, l) =>
    !(noBuiltins && l.builtin)

/-- The sections of the libraries to be shown. -/
def showModel (noBuiltins inherited : Bool) : Step Unit := do
  let libraries := shownLibraries noBuiltins (← get).graph.model
  libraries.forM fun (id, l) => showLibrary inherited id l

/-- The lines of the tree of a graph, as far as it can be shown, and why it breaks off. -/
def ofGraph (noBuiltins inherited : Bool) (g : Graph) : List String × Option Graph.Error :=
  match showModel noBuiltins inherited ⟨g, [], []⟩ with
  | .ok _ l => (l.lines.reverse, none)
  | .error e l => (l.lines.reverse, some e)

end Listing

end SchemaEditor.Command
