import SchemaEditor.Id

/-!
# Navigation history

The targets visited so far, the current one last, and the targets left by going back. A new
navigation drops the latter. At most `limit` targets are kept behind; the oldest makes room.
-/

namespace SchemaEditor

/-- A bounded history with a current target. -/
structure History where
  /-- The visited targets, the current one first. -/
  visited : List FacadeId
  /-- The targets ahead, next first. -/
  ahead : List FacadeId
  limit : Nat
  limit_pos : 0 < limit
  deriving DecidableEq

namespace History

/-- The number of targets that are kept unless another limit is given. -/
def defaultLimit : Nat := 50

/-- An empty history; a limit of zero counts as one. -/
def ofLimit (limit : Nat) : History where
  visited := []
  ahead := []
  limit := max limit 1
  limit_pos := by omega

/-- The current target. -/
def current? (h : History) : Option FacadeId := h.visited.head?

/-- Makes a target the current one; when the limit is reached the oldest target is dropped. -/
def visit (h : History) (target : FacadeId) : History :=
  { h with
    visited := target :: (if h.visited.length = h.limit then h.visited.dropLast else h.visited) }

/-- Records a new navigation, and says whether it led to another target. Nothing stays ahead. -/
def push (h : History) (target : FacadeId) : Bool × History :=
  let h := { h with ahead := [] }
  if h.current? = some target then (false, h) else (true, h.visit target)

/-- Goes back to the target before, if there is one. -/
def back (h : History) : Option FacadeId × History :=
  match h.visited with
  | left :: target :: rest =>
    (some target, { h with visited := target :: rest, ahead := left :: h.ahead })
  | _ => (none, h)

/-- Goes forward to the target that was left by going back, if there is one. -/
def forward (h : History) : Option FacadeId × History :=
  match h.ahead with
  | target :: rest => (some target, { h with ahead := rest }.visit target)
  | [] => (none, h)

/-- Forgets all targets. -/
def clear (h : History) : History := { h with visited := [], ahead := [] }

/-- Whether there is a target to go back to. -/
def canGoBack (h : History) : Bool := 1 < h.visited.length

/-- Whether there is a target to go forward to. -/
def canGoForward (h : History) : Bool := !h.ahead.isEmpty

/-- The visited targets, oldest first. -/
def backEntries (h : History) : List FacadeId := h.visited.reverse

/-- The targets ahead, next first. -/
def forwardEntries (h : History) : List FacadeId := h.ahead

end History

end SchemaEditor
