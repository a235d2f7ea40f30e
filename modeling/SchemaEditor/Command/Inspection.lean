import SchemaEditor.Graph.Structure
import SchemaEditor.Graph.Verify

/-!
# Inspecting a whole graph

All objects are given their facades, from the members of the libraries on down, before a graph is
verified.
-/

namespace SchemaEditor.Command.Inspection

/-- The facades that are reached from those on a stack, together with those `seen` before. Every
step that expands a facade takes one from `fuel`, and there are no more facades than nodes. -/
def reach (fuel : Nat) (seen : List FacadeId) (pending : List FacadeId) :
    Graph.Edit (List FacadeId) :=
  match fuel, pending with
  | _, [] => return seen
  | fuel, f :: rest =>
    if seen.contains f then reach fuel seen rest
    else
      match fuel with
      | 0 => return seen
      | fuel + 1 => do
        let children ← Graph.children f
        reach fuel (f :: seen) (children.reverse ++ rest)
termination_by (fuel, pending.length)

/-- The facades of the members of some libraries, in order. -/
def memberFacades : List LibraryId → Graph.Edit (List FacadeId)
  | [] => return []
  | id :: ids => do
    let members ← Graph.members id
    return members ++ (← memberFacades ids)

/-- The facades of everything that the libraries of a graph contain. -/
def allFacades : Graph.Edit (List FacadeId) := fun g =>
  let ids := (List.range g.model.libraries.size).map LibraryId.mk
  (do
    let members ← memberFacades ids
    reach g.model.nodes.size [] members.reverse : Graph.Edit _) g

end SchemaEditor.Command.Inspection
