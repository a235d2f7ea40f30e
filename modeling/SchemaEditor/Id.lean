/-!
# Ids of nodes, libraries and facades

An id is a position: in the arena of nodes, in the list of libraries, in the list of facades that
were handed out. Ids order by position. Ids that come from outside are read modulo `2 ^ 32`.
-/

namespace SchemaEditor

/-- The number of positions an id can name. -/
def idRange : Nat := UInt32.size

/-- A position in the arena of a model. -/
structure NodeId where
  index : Nat
  deriving DecidableEq

/-- A position in the list of libraries of a model. -/
structure LibraryId where
  index : Nat
  deriving DecidableEq

/-- A position in the list of facades of a graph. -/
structure FacadeId where
  index : Nat
  deriving DecidableEq

namespace NodeId

instance : Ord NodeId := ⟨fun a b => compare a.index b.index⟩

instance : Std.TransOrd NodeId where
  eq_swap {a b} := Std.OrientedOrd.eq_swap (α := Nat) (a := a.index) (b := b.index)
  isLE_trans {a b c} := Std.TransOrd.isLE_trans (α := Nat) (a := a.index) (b := b.index)
    (c := c.index)

instance : Std.LawfulEqOrd NodeId where
  eq_of_compare {a b} h := by
    cases a; cases b
    exact congrArg NodeId.mk (Nat.compare_eq_eq.1 h)

/-- The node at a position given from outside. -/
def ofIndex (n : Nat) : NodeId := ⟨n % idRange⟩

end NodeId

namespace LibraryId

/-- The library at a position given from outside. -/
def ofIndex (n : Nat) : LibraryId := ⟨n % idRange⟩

end LibraryId

namespace FacadeId

instance : Ord FacadeId := ⟨fun a b => compare a.index b.index⟩

instance : Std.TransOrd FacadeId where
  eq_swap {a b} := Std.OrientedOrd.eq_swap (α := Nat) (a := a.index) (b := b.index)
  isLE_trans {a b c} := Std.TransOrd.isLE_trans (α := Nat) (a := a.index) (b := b.index)
    (c := c.index)

instance : Std.LawfulEqOrd FacadeId where
  eq_of_compare {a b} h := by
    cases a; cases b
    exact congrArg FacadeId.mk (Nat.compare_eq_eq.1 h)

/-- The facade at a position given from outside. -/
def ofIndex (n : Nat) : FacadeId := ⟨n % idRange⟩

end FacadeId

end SchemaEditor
