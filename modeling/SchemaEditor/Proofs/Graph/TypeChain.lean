import SchemaEditor.Proofs.Graph.Follow
import SchemaEditor.Proofs.Graph.Rewriting
import SchemaEditor.Proofs.Model.Cycle

/-!
# Chains of types

A simple type and a value with attributes have a type and may be assigned as one, so that chains of
types go on from them; every other node either has no type or is the type of none. A chain of types
that comes back to a node stays among nodes of one of these two kinds.
-/

namespace SchemaEditor

/-- What is assigned as a type and takes one itself is a simple type or a value with attributes. -/
theorem Facade.Kind.eq_of_provides_and_takes {k : Facade.Kind} {c : ProviderClass}
    {classes : List ProviderClass} (hc : k.providerClass? = some c)
    (htakes : k.assignable? = some classes) :
    k = .member .simpleType ∧ c = .simple ∧ classes = [.simple] ∨
      k = .member .valueWithAttributes ∧ c = .valueWithAttributes := by
  cases k with
  | member kind =>
    cases kind with
    | simpleType =>
      exact .inl ⟨rfl, (Option.some.inj hc).symm, (Option.some.inj htakes).symm⟩
    | valueWithAttributes => exact .inr ⟨rfl, (Option.some.inj hc).symm⟩
    | resource => cases hc
    | _ => cases htakes
  | facet => cases htakes
  | _ => cases hc

theorem Facade.Kind.eq_of_ofNode?_member {kind : NodeKind} {member : MemberKind}
    (h : Facade.Kind.ofNode? kind = some (.member member)) : kind = .member member := by
  cases kind with
  | member => exact congrArg NodeKind.member (Facade.Kind.member.inj (Option.some.inj h))
  | extensionPoint => cases h
  | _ => cases Option.some.inj h

namespace Model

open Relation (TransGen ReflTransGen)

variable {m m' : Model} {w x y z p u : NodeId} {W : NodeId → Node → Node → Prop}
variable {new? : Option Node} {kind : MemberKind}

/-- One node has the other as its type. -/
def HasType (m : Model) (x p : NodeId) : Prop := ∃ n, m.node? x = some n ∧ n.typeRef = some p

/-- A node is its own type, or the type of its type, and so on. -/
def OnTypeCycle (m : Model) (x : NodeId) : Prop := TransGen m.HasType x x

/-- Types suit the nodes that have them, and no node is its own type. -/
def WellTyped (m : Model) : Prop :=
  ∀ x n p, m.node? x = some n → n.typeRef = some p → m.Joins n p ∧ p ≠ x

/-- A node is a member of a kind. -/
def IsMember (m : Model) (x : NodeId) (kind : MemberKind) : Prop :=
  ∃ n, m.node? x = some n ∧ n.kind = .member kind

instance (m : Model) (x p : NodeId) : Decidable (m.HasType x p) :=
  decidable_of_iff ((m.node? x).any (fun n => decide (n.typeRef = some p)) = true)
    (by simp [HasType, Option.any_eq_true])

theorem HasType.unique : Relator.RightUnique m.HasType := by
  rintro x p q ⟨n, hn, hp⟩ ⟨n', hn', hq⟩
  obtain rfl := Option.some.inj (hn.symm.trans hn')
  exact Option.some.inj (hp.symm.trans hq)

/-- What has a type and is the type of another node has one of two kinds. -/
theorem WellTyped.isMember (h : m.WellTyped) (hwx : m.HasType w x) (hxp : m.HasType x p) :
    m.IsMember x .simpleType ∨ m.IsMember x .valueWithAttributes := by
  obtain ⟨k, hk, hkx⟩ := hwx
  obtain ⟨n, hn, hp⟩ := hxp
  obtain ⟨-, -, c, -, -, hc, -⟩ := (h w k x hk hkx).1
  obtain ⟨user, classes, -, huser, htakes, -, -⟩ := (h x n p hn hp).1
  obtain ⟨n', kind, hn', hkind, hc⟩ := providerClass?_eq_some_iff.mp hc
  obtain rfl := Option.some.inj (hn.symm.trans hn')
  obtain rfl := Option.some.inj (huser.symm.trans hkind)
  obtain ⟨rfl, -, -⟩ | ⟨rfl, -⟩ := Facade.Kind.eq_of_provides_and_takes hc htakes
  · exact .inl ⟨n, hn, Facade.Kind.eq_of_ofNode?_member huser⟩
  · exact .inr ⟨n, hn, Facade.Kind.eq_of_ofNode?_member huser⟩

/-- The type of a simple type is a simple type, if it has a type itself. -/
theorem WellTyped.simple_next (h : m.WellTyped) (hx : m.IsMember x .simpleType)
    (hxy : m.HasType x y) (hyz : m.HasType y z) : m.IsMember y .simpleType := by
  obtain ⟨n, hn, hkind⟩ := hx
  obtain ⟨n', hn', hy⟩ := id hxy
  obtain rfl := Option.some.inj (hn.symm.trans hn')
  refine (h.isMember hxy hyz).resolve_right ?_
  rintro ⟨k, hk, hvalue⟩
  obtain ⟨user, classes, c, huser, htakes, hc, hmem⟩ := (h x n y hn hy).1
  obtain ⟨k', kind, hk', hkind', hc⟩ := providerClass?_eq_some_iff.mp hc
  obtain rfl := Option.some.inj (hk.symm.trans hk')
  rw [hkind] at huser
  rw [hvalue] at hkind'
  obtain rfl := Option.some.inj huser
  obtain rfl := Option.some.inj hkind'
  obtain rfl := Option.some.inj htakes
  obtain rfl := Option.some.inj hc
  cases List.mem_singleton.mp hmem

/-- What a cycle of types leads to is a simple type throughout, or a value with attributes
throughout. -/
theorem WellTyped.isMember_of_cycle (h : m.WellTyped) (hx : m.OnTypeCycle x) :
    (∀ y, ReflTransGen m.HasType x y → m.IsMember y .simpleType) ∨
      ∀ y, ReflTransGen m.HasType x y → m.IsMember y .valueWithAttributes := by
  have next {a y : NodeId} (ha : m.OnTypeCycle a) (hay : ReflTransGen m.HasType a y) :
      ∃ z, m.HasType y z := by
    obtain ⟨z, hyz, -⟩ := TransGen.head'_iff.mp (cycle_goes_on HasType.unique ha hay)
    exact ⟨z, hyz⟩
  have either {y : NodeId} (hxy : ReflTransGen m.HasType x y) :
      m.IsMember y .simpleType ∨ m.IsMember y .valueWithAttributes := by
    have hcycle : m.OnTypeCycle y := (cycle_goes_on HasType.unique hx hxy).trans_left hxy
    obtain ⟨w, -, hwy⟩ := TransGen.tail'_iff.mp hcycle
    obtain ⟨z, hyz⟩ := next hx hxy
    exact h.isMember hwy hyz
  -- Simple types lead to simple types only, around the whole cycle.
  have simple {a y : NodeId} (ha : m.OnTypeCycle a) (hs : m.IsMember a .simpleType)
      (hay : ReflTransGen m.HasType a y) : m.IsMember y .simpleType := by
    induction hay with
    | refl => exact hs
    | @tail y z hay hyz ih =>
      obtain ⟨t, hzt⟩ := next ha (hay.tail hyz)
      exact h.simple_next ih hyz hzt
  obtain hs | ⟨n, hn, hvalue⟩ := either .refl
  · exact .inl fun y hxy => simple hx hs hxy
  · refine .inr fun y hxy => (either hxy).resolve_left fun hs => ?_
    have hyx := cycle_goes_on HasType.unique hx hxy
    obtain ⟨n', hn', hsimple⟩ := simple (hyx.trans_left hxy) hs hyx.to_reflTransGen
    obtain rfl := Option.some.inj (hn.symm.trans hn')
    cases hvalue.symm.trans hsimple

/-- Where no reference to a type is set, every node has the type that it had, or none. -/
theorem Rewritten.hasType (h : m.Rewritten W new? m')
    (hnew : ∀ n, new? = some n → n.typeRef = none)
    (hW : ∀ {x n n'}, W x n n' → n'.typeRef = n.typeRef ∨ n'.typeRef = none)
    (hx : m'.HasType x p) : m.HasType x p := by
  obtain ⟨n', hn', hp⟩ := hx
  obtain ⟨n, hn, hw⟩ | ⟨-, hadded⟩ := h.cases hn'
  · obtain hsame | hnone := hW hw
    · exact ⟨n, hn, hsame ▸ hp⟩
    · cases hnone.symm.trans hp
  · cases (hnew n' hadded).symm.trans hp

/-- The same where no node is new. -/
theorem Rewritten.hasType_of_none (h : m.Rewritten W none m')
    (hW : ∀ {x n n'}, W x n n' → n'.typeRef = n.typeRef ∨ n'.typeRef = none)
    (hx : m'.HasType x p) : m.HasType x p :=
  h.hasType (fun _ hnew => nomatch hnew) hW hx

end Model

end SchemaEditor
