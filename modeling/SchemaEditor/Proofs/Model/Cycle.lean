import Mathlib.Logic.Relation

/-!
# Ways and cycles along a relation

What references lead on to, from one node to the next, is a relation in which every node has at most
one successor. An edit of one reference gives it one more pair, or takes pairs away.
-/

namespace SchemaEditor.Model

open Relation (TransGen ReflTransGen)

variable {α : Type} {R R' : α → α → Prop} {x y u p : α}

/-- Where a node has one successor only, every way from there begins with it. -/
theorem next_of_unique (hR : Relator.RightUnique R) (hxy : R x y) (h : TransGen R x p) :
    ReflTransGen R y p := by
  obtain ⟨z, hxz, hzp⟩ := TransGen.head'_iff.mp h
  exact hR hxy hxz ▸ hzp

/-- Where nodes have one successor only, a cycle goes on from everything that it leads to. -/
theorem cycle_goes_on (hR : Relator.RightUnique R) (hx : TransGen R x x)
    (hxy : ReflTransGen R x y) : TransGen R y x := by
  induction hxy with
  | refl => exact hx
  | @tail y z _ hyz ih =>
    obtain rfl | hzx := Relation.reflTransGen_iff_eq_or_transGen.mp (next_of_unique hR hyz ih)
    · exact hx
    · exact hzx

/-- The way to a node does not depend on where one goes from there. -/
theorem reaches_of_kept (h : ∀ y z, y ≠ u → R y z → R' y z) (hx : ReflTransGen R x u) :
    ReflTransGen R' x u := by
  induction hx using ReflTransGen.head_induction_on with
  | refl => exact .refl
  | @head y z hyz _ ih =>
    by_cases hy : y = u
    · exact hy ▸ .refl
    · exact .head (h y z hy hyz) ih

/-- A way is an old one, or it comes to one end of the new pair and goes on from the other. -/
theorem transGen_cases (h : ∀ y z, R' y z → R y z ∨ y = u ∧ z = p) (hxy : TransGen R' x y) :
    TransGen R x y ∨ ReflTransGen R x u ∧ ReflTransGen R p y := by
  induction hxy with
  | @single y hxy =>
    obtain hold | ⟨rfl, rfl⟩ := h x y hxy
    · exact .inl (.single hold)
    · exact .inr ⟨.refl, .refl⟩
  | @tail y z _ hyz ih =>
    obtain hold | ⟨rfl, rfl⟩ := h y z hyz
    · exact ih.imp (·.tail hold) fun ⟨hxu, hpy⟩ => ⟨hxu, hpy.tail hold⟩
    · exact .inr ⟨ih.elim (·.to_reflTransGen) (·.1), .refl⟩

/-- A new pair closes a cycle only if its end led back to its start. -/
theorem cycle_cases (h : ∀ y z, R' y z → R y z ∨ y = u ∧ z = p) (hx : TransGen R' x x) :
    TransGen R x x ∨ ReflTransGen R p u :=
  (transGen_cases h hx).imp_right fun ⟨hxu, hpx⟩ => hpx.trans hxu

/-- If the end of a new pair led back to its start, it closes a cycle, whatever else led on from
there. -/
theorem cycle_of_reaches (hu : R' u p) (h : ∀ y z, y ≠ u → R y z → R' y z)
    (hp : ReflTransGen R p u) : TransGen R' u u :=
  .head' hu (reaches_of_kept h hp)

end SchemaEditor.Model
