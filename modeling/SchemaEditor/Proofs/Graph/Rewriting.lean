import SchemaEditor.Proofs.Graph.Footprint
import SchemaEditor.Proofs.Naming

/-!
# What edits write

`Change.rewrite` is what a change makes of each node that is there before it: a step writes that
and nothing else (`Step.node?_eq`). `Model.Rewritten` says of a whole edit what may have become of
each node, which node is new, and that the libraries are as they were. The edits that write more
than the node they are made at are a new name, which others follow, and a deletion, which clears
references of others and to them.
-/

namespace SchemaEditor

/-- One node is changed by `f`, and every other one is as it was. -/
def Node.OnlyAt (node : NodeId) (f : Node → Node) (x : NodeId) (n n' : Node) : Prop :=
  n' = if x = node then f n else n

/-- Some of the nodes may have another name, and nothing else is written. -/
def Node.Renamed (may : NodeId → Prop) (x : NodeId) (n n' : Node) : Prop :=
  n' = n ∨ may x ∧ ∃ name, n' = { n with name }

theorem Node.Renamed.rename {may : NodeId → Prop} {x : NodeId} {n n' : Node}
    (h : Node.Renamed may x n n') (hx : may x) (name : String) :
    Node.Renamed may x n { n' with name } := by
  obtain rfl | ⟨-, _, rfl⟩ := h <;> exact .inr ⟨hx, name, rfl⟩

/-- The node without its references, as far as they lead out of some nodes or to them. The
references of a detached node do not count. -/
def Node.released (below : List NodeId) (x : NodeId) (n : Node) : Node :=
  if n.attached then
    { n with
      typeRef := n.typeRef.filter fun p => x ∉ below ∧ p ∉ below
      base := n.base.filter fun p => x ∉ below ∧ p ∉ below }
  else n

theorem Node.reference_released (slot : Usage.Slot) (below : List NodeId) (x : NodeId) (n : Node) :
    slot.reference (n.released below x) =
      if n.attached then (slot.reference n).filter fun p => x ∉ below ∧ p ∉ below
      else slot.reference n := by
  unfold released
  cases slot <;> split <;> rfl

/-- A reference that is gone was one of the nodes that were cut off, or led to one. -/
theorem Node.released_cases (slot : Usage.Slot) (below : List NodeId) (x : NodeId) (n : Node) :
    slot.reference (n.released below x) = slot.reference n ∨
      slot.reference (n.released below x) = none ∧
        (x ∈ below ∨ ∃ p ∈ below, slot.reference n = some p) := by
  rw [reference_released]
  split
  · cases href : slot.reference n with
    | none => exact .inl rfl
    | some p =>
      rw [Option.filter_some]
      split
      · exact .inl rfl
      · next hcut =>
        rw [decide_eq_true_eq, not_and_or, not_not, not_not] at hcut
        exact .inr ⟨rfl, hcut.imp_right fun hp => ⟨p, hp, rfl⟩⟩
  · exact .inl rfl

namespace Model

/-- What an edit has made of a model: the libraries are as they were, `W` says what may have become
of each node, and `new?` is the node that was added, if any. -/
structure Rewritten (m : Model) (W : NodeId → Node → Node → Prop) (new? : Option Node)
    (m' : Model) : Prop where
  libraries : m'.libraries = m.libraries
  size : m'.nodes.size = m.nodes.size + new?.toList.length
  kept : ∀ {x n}, m.node? x = some n → ∃ n', m'.node? x = some n' ∧ W x n n'
  added : ∀ {n}, new? = some n → m'.node? m.nextId = some n

namespace Rewritten

variable {m m₁ m' : Model} {W W₁ W₂ : NodeId → Node → Node → Prop} {new? : Option Node}
variable {x : NodeId} {n' : Node}

/-- Every node was there before, unless it is the new one. -/
theorem cases (h : m.Rewritten W new? m') (hx : m'.node? x = some n') :
    (∃ n, m.node? x = some n ∧ W x n n') ∨ x = m.nextId ∧ new? = some n' := by
  cases hm : m.node? x with
  | some n =>
    obtain ⟨k, hk, hw⟩ := h.kept hm
    obtain rfl := Option.some.inj (hk.symm.trans hx)
    exact .inl ⟨n, rfl, hw⟩
  | none =>
    have hle := node?_eq_none_iff.mp hm
    have hlt := lt_of_node? hx
    have hsize := h.size
    cases hnew : new? with
    | none => simp [hnew] at hsize; omega
    | some n =>
      have hid : x = m.nextId := by
        obtain ⟨i⟩ := x
        simp only [hnew, Option.toList_some, List.length_singleton] at hsize hle hlt
        exact congrArg NodeId.mk (by omega)
      have hadded := h.added hnew
      rw [← hid, hx] at hadded
      exact .inr ⟨hid, hadded.symm⟩

theorem mono (h : m.Rewritten W new? m')
    (hW : ∀ {x n n'}, m.node? x = some n → W x n n' → W₁ x n n') : m.Rewritten W₁ new? m' where
  libraries := h.libraries
  size := h.size
  kept hn := by
    obtain ⟨n', hn', hw⟩ := h.kept hn
    exact ⟨n', hn', hW hn hw⟩
  added := h.added

theorem trans (h : m.Rewritten W none m₁) (h' : m₁.Rewritten W₁ none m')
    (hW : ∀ {x n n₁ n'}, m.node? x = some n → m₁.node? x = some n₁ → W x n n₁ → W₁ x n₁ n' →
      W₂ x n n') : m.Rewritten W₂ none m' where
  libraries := h'.libraries.trans h.libraries
  size := h'.size.trans h.size
  kept hn := by
    obtain ⟨n₁, hn₁, hw⟩ := h.kept hn
    obtain ⟨n', hn', hw'⟩ := h'.kept hn₁
    exact ⟨n', hn', hW hn hn₁ hw hw'⟩
  added := nofun

theorem refl (m : Model) (hW : ∀ x n, W x n n) : m.Rewritten W none m where
  libraries := rfl
  size := rfl
  kept {x n} hn := ⟨n, hn, hW x n⟩
  added := nofun

end Rewritten

end Model

namespace Graph

open Model (Extends Forest)
open Outcome (bind_ok run_bind_eq_ok_iff)

variable {P : Graph → Change → Prop} {g g₁ g₂ g' : Graph} {c : Change} {id facade : FacadeId}
variable {x p node owner : NodeId} {n q : Node} {kind : NodeKind} {name : String}

/-! ### Steps -/

/-- What a change makes of the node `x`. -/
def Change.rewrite (m : Model) (x : NodeId) (n : Node) : Change → Node
  | .register _ => n
  | .rename node name => if x = node then { n with name } else n
  | .document node f => if x = node then { n with doc := f n.doc } else n
  | .mandate node mandatory => if x = node then { n with mandatory } else n
  | .grow owner _ _ => if x = owner then { n with children := n.children ++ [m.nextId] } else n
  | .point r p => if x = r.user then r.slot.put (some p) n else n
  | .clear r => if x = r.user then r.slot.put none n else n
  | .detach node => n.cut (m.preorder node) ((m.node? node).bind (·.owner)) node x

/-- Whether a change neither adds a node nor detaches one. -/
def Change.InPlace : Change → Prop
  | .grow .. | .detach _ => False
  | _ => True

namespace Step

/-- A step writes what its change says, and nothing else. -/
theorem node?_eq (h : Step g c g') (hn : g.model.node? x = some n) :
    g'.model.node? x = some (c.rewrite g.model x n) := by
  have modified {id : NodeId} {f : Node → Node} :
      (g.model.modifyNode id f).node? x = some (if x = id then f n else n) := by
    rw [Model.node?_modifyNode, hn]
    split <;> rfl
  cases h with
  | register => exact hn
  | rename | document | mandate | point | clear => exact modified
  | grow hp =>
    show (Model.appendChild _ _ _ _ _).2.node? x = _
    rw [Model.node?_appendChild hp, if_neg (Model.ne_nextId hn), Change.rewrite]
    split
    · next hx =>
      obtain rfl := Option.some.inj (hp.symm.trans (hx ▸ hn))
      rfl
    · exact hn
  | detach hm =>
    rw [Change.rewrite, hm, Option.bind_some]
    exact Model.node?_without_of_node? hn _ _

theorem rewritten (h : Step g c g') (hc : c.InPlace) :
    g.model.Rewritten (fun x n n' => n' = c.rewrite g.model x n) none g'.model where
  libraries := h.libraries_eq fun node _ hdetach _ => by subst hdetach; exact hc.elim
  size := h.size_eq fun _ _ _ hgrow => by subst hgrow; exact hc.elim
  kept hn := ⟨_, h.node?_eq hn, rfl⟩
  added := nofun

/-- A node that grew is there, and its owner lists it last. -/
theorem rewritten_of_grow {f : Node → Node} {m' : Model}
    (h : Step g (.grow owner kind name) g₁) (hp : g.model.node? owner = some q)
    (hrest : g₁.model.Rewritten (Node.OnlyAt g.model.nextId f) none m') :
    g.model.Rewritten
      (Node.OnlyAt owner fun n => { n with children := n.children ++ [g.model.nextId] })
      (some (f (.fresh kind q.library (some owner) name))) m' where
  libraries := by
    rw [hrest.libraries, h.libraries_eq fun _ _ hc => by cases hc]
  size := by rw [hrest.size, h.size_of_grow, Option.toList_none, Option.toList_some]; rfl
  kept {x n} hn := by
    obtain ⟨n', hn', hw⟩ := hrest.kept (h.node?_eq hn)
    refine ⟨n', hn', ?_⟩
    rwa [Node.OnlyAt, if_neg (Model.ne_nextId hn)] at hw
  added {n} hnew := by
    obtain rfl := Option.some.inj hnew
    have hgrown : g₁.model.node? g.model.nextId =
        some (.fresh kind q.library (some owner) name) := by
      cases h with
      | grow hp' =>
        obtain rfl := Option.some.inj (hp.symm.trans hp')
        rw [Model.node?_appendChild hp, if_pos rfl]
    obtain ⟨n', hn', hw⟩ := hrest.kept hgrown
    rw [Node.OnlyAt, if_pos rfl] at hw
    exact hw ▸ hn'

end Step

/-- Steps that add and detach nothing write what one of them after the other writes. -/
theorem Evolves.rewritten {W : NodeId → Node → Node → Prop} (h : Evolves P g g')
    (hP : ∀ {k c}, P k c → c.InPlace) (refl : ∀ x n, W x n n)
    (step : ∀ {k c k' x n n'}, Evolves P g k → P k c → Step k c k' → g.model.node? x = some n →
      k.model.node? x = some n' → W x n n' → W x n (c.rewrite k.model x n')) :
    g.model.Rewritten W none g'.model := by
  induction h with
  | refl => exact .refl g.model refl
  | step before hp hs ih =>
    refine ih.trans (hs.rewritten (hP hp)) fun hn hn₁ hw hw' => ?_
    rw [hw']
    exact step before hp hs hn hn₁ hw

/-! ### Names that follow -/

/-- The name of a node follows another one, if this is its type. -/
def NameFollows (g : Graph) (x p : NodeId) : Prop :=
  ∃ kind name, g.model.facadeKind? x = some kind ∧ g.model.followedName? kind p = .ok (some name)

/-- Whether a name follows has not changed since the nodes were there. -/
theorem NameFollows.of_extended (h : NameFollows g' x p) (hf : Forest g.model)
    (hext : Extends g.model g'.model) (hx : g.model.node? x = some n)
    (hp : g.model.node? p = some q) : NameFollows g x p := by
  obtain ⟨kind, name, hkind, hname⟩ := h
  obtain ⟨n', hn', hsame, -⟩ := hext.same hx
  have hkind : g.model.facadeKind? x = some kind := by
    rw [Model.facadeKind?_of_node? hx, ← hsame, ← Model.facadeKind?_of_node? hn', hkind]
  obtain ⟨name?, hname?⟩ := hf.exists_followedName? hp kind
  cases name? with
  | none => exact absurd hname (hext.followedName?_ne hname? name)
  | some name => exact ⟨kind, name, hkind, hname?⟩

/-- Only the names of references and of elements follow. -/
theorem NameFollows.exists_property (h : NameFollows g x p) (hx : g.model.node? x = some n) :
    ∃ property, n.kind = .property property ∧
      (property.profile.naming = .fromType ∨ property = .element) := by
  obtain ⟨kind, name, hkind, hname⟩ := h
  rw [Model.facadeKind?_of_node? hx] at hkind
  obtain ⟨property, hproperty, hnaming⟩ := Model.property_of_followedName? hname
  refine ⟨property, ?_, hnaming⟩
  cases hn : n.kind with
  | property =>
    rw [hn] at hkind
    obtain rfl := Option.some.inj hkind
    exact congrArg _ (Option.some.inj hproperty)
  | extensionPoint =>
    rw [hn] at hkind
    cases hkind
  | _ =>
    rw [hn] at hkind
    cases hkind
    cases hproperty

/-- The nodes whose names follow a provider that they have as their type. -/
def Follower (g : Graph) (providers : List NodeId) (x : NodeId) : Prop :=
  ∃ p ∈ providers, g.model.reference? ⟨x, .type⟩ = some p ∧ g.NameFollows x p

theorem Follower.of_extended {providers : List NodeId} (h : Follower g' providers x)
    (hf : Forest g.model) (hext : Extends g.model g'.model)
    (hrefs : ∀ r, g'.model.reference? r = g.model.reference? r)
    (hproviders : ∀ p ∈ providers, ∃ q, g.model.node? p = some q) : Follower g providers x := by
  obtain ⟨p, hmem, href, hfollows⟩ := h
  rw [hrefs] at href
  obtain ⟨n, hn, -⟩ := Model.reference?_eq_some_iff.mp href
  obtain ⟨q, hq⟩ := hproviders p hmem
  exact ⟨p, hmem, href, hfollows.of_extended hf hext hn hq⟩

/-- While names follow, only those that follow a provider are written. -/
theorem Evolves.rewritten_of_follows {providers : List NodeId}
    (h : Evolves (Follows providers) g g') (hg : Managed g)
    (hproviders : ∀ p ∈ providers, ∃ q, g.model.node? p = some q) :
    g.model.Rewritten (Node.Renamed (g.Follower providers)) none g'.model := by
  refine h.rewritten (fun hc => ?_) (fun _ _ => .inl rfl)
    fun {k c k' x m m'} hev hc _ hm _ hw => ?_
  · obtain ⟨_, _, rfl⟩ := hc.isRename
    trivial
  · obtain ⟨user, p, kind, name, rfl, hmem, href, hkind, hname⟩ := hc
    rw [Change.rewrite]
    split
    · next hx =>
      subst hx
      have hfollower : k.Follower providers x := ⟨p, hmem, href, kind, name, hkind, hname⟩
      exact hw.rename (hfollower.of_extended hg.forest hev.extends_
        (hev.of_isRename fun _ _ => Follows.isRename).2.2 hproviders) name
    · exact hw

/-- A new name is written to the node that it is given to, and to those whose names follow this node
or one of its facets. -/
theorem setName_rewritten {newName after : String} (hg : Managed g)
    (hnode : g.attachedNode id = .ok node) (hn : g.model.node? node = some n)
    (h : setName id newName g = .ok after g') :
    g.model.Rewritten (Node.Renamed fun x => x = node ∨ g.Follower (g.namedBy node n) x) none
      g'.model := by
  obtain ⟨err, hrun⟩ | ⟨_, _, rule, hnode', hn', hrule, hname⟩ := setName_cases g id newName
  · cases hrun.symm.trans h
  obtain rfl := Except.ok.inj (hnode.symm.trans hnode')
  obtain rfl := Option.some.inj (hn.symm.trans hn')
  obtain ⟨g₁, _, hrun, hstep, hev, -⟩ := setName_steps hg hnode hn hrule hname
  obtain ⟨-, rfl⟩ := EStateM.Result.ok.inj (hrun.symm.trans h)
  have hproviders {p} (hp : p ∈ g.namedBy node n) := hg.exists_of_namedBy hn hp
  have hrewritten := hev.rewritten_of_follows (hstep.managed hg) fun p hp => by
    obtain ⟨q, hq⟩ := hproviders hp
    obtain ⟨q', hq', -⟩ := hstep.extends_.same hq
    exact ⟨q', hq'⟩
  have hrefs :=
    ((Evolves.single (P := IsRename) ⟨_, _, rfl⟩ hstep).of_isRename fun _ _ hc => hc).2.2
  refine (hstep.rewritten trivial).trans hrewritten fun {x m m₁ m'} hm _ hw hw' => ?_
  have hfirst : Node.Renamed (fun x => x = node ∨ g.Follower (g.namedBy node n) x) x m m₁ := by
    rw [hw, Change.rewrite]
    split
    · next hx => exact .inr ⟨.inl hx, _, rfl⟩
    · exact .inl rfl
  obtain rfl | ⟨hfollower, name, rfl⟩ := hw'
  · exact hfirst
  · exact hfirst.rename
      (.inr (hfollower.of_extended hg.forest hstep.extends_ hrefs fun _ => hproviders)) name

/-- A type is written to the node that it is assigned to, with a name if it follows. -/
theorem assignType_rewritten {user provider : FacadeId} {previous : Option NodeId}
    (hg : Managed g) (hu : g.attachedNode user = .ok node) (hp : g.attachedNode provider = .ok p)
    (h : assignType user provider g = .ok previous g') :
    g.model.Rewritten (fun x n n' => ∃ name, (name = n.name ∨ g.NameFollows node p) ∧
      Node.OnlyAt node (fun n => { n with typeRef := some p, name }) x n n') none g'.model := by
  cases hcan : g.canAssign user provider with
  | error err =>
    rw [assignType, Outcome.bind_error (ask_of_error hcan)] at h
    cases h
  | ok =>
    obtain ⟨-, n, -, -, hn, -⟩ := attachedNode_eq_ok_iff.mp hu
    obtain ⟨-, q, -, -, hq, -⟩ := attachedNode_eq_ok_iff.mp hp
    obtain ⟨g₁, _, n₁, kind, hrun, hstep, hn₁, -, -, hkind, hnamed⟩ :=
      assignType_cases hg hcan hu hp
    obtain ⟨-, rfl⟩ := EStateM.Result.ok.inj (hrun.symm.trans h)
    have hpointed := hstep.rewritten trivial
    obtain ⟨-, rfl⟩ | ⟨name, hname, rfl⟩ := hnamed
    · exact hpointed.mono fun _ hw => ⟨_, .inl rfl, hw⟩
    · have hfollows : g.NameFollows node p :=
        NameFollows.of_extended ⟨kind, name, hkind, hname⟩ hg.forest hstep.extends_ hn hq
      refine hpointed.trans ((Step.rename hn₁ name).rewritten trivial) fun _ _ hw hw' => ?_
      refine ⟨name, .inr hfollows, ?_⟩
      rw [hw', hw, Node.OnlyAt]
      simp only [Change.rewrite]
      split <;> rfl

/-! ### Deletion -/

/-- While references are cleared, a node loses at most those of its references that are among the
ones to be cleared. -/
def Loses (below : List NodeId) (x : NodeId) (n n' : Node) : Prop :=
  n' = { n with typeRef := n'.typeRef, base := n'.base } ∧ ∀ slot : Usage.Slot,
    slot.reference n' = slot.reference n ∨
      slot.reference n' = none ∧ n.attached = true ∧
        (x ∈ below ∨ ∃ p ∈ below, slot.reference n = some p)

theorem Evolves.loses {below : List NodeId} (h : Evolves (ClearsBelow below) g g') :
    g.model.Rewritten (Loses below) none g'.model := by
  refine h.rewritten (fun hc => ?_) (fun _ _ => ⟨rfl, fun _ => .inl rfl⟩)
    fun {k c k' x n n'} hev hc hs hn hn' hw => ?_
  · obtain ⟨_, rfl, -⟩ := hc
    trivial
  · obtain ⟨r, rfl, hr⟩ := hc
    rw [Change.rewrite]
    split
    · next hx =>
      subst hx
      obtain ⟨heq, hslots⟩ := hw
      cases hs with
      | @clear _ m hm ha =>
        obtain rfl := Option.some.inj (hn'.symm.trans hm)
        have hna : n.attached = true := by rw [heq] at ha; exact ha
        refine ⟨?_, fun slot => ?_⟩
        · rw [heq]
          cases r.slot <;> rfl
        · rw [Usage.Slot.reference_put]
          split
          · next hslot =>
            subst hslot
            rw [Model.reference?_of_attached hn' ha] at hr
            obtain hsame | ⟨-, hreason⟩ := hslots r.slot
            · rw [hsame] at hr
              cases href : r.slot.reference n with
              | none => exact .inl rfl
              | some p =>
                exact .inr ⟨rfl, hna, hr.imp_right fun hr => ⟨p, hr p href, rfl⟩⟩
            · exact .inr ⟨rfl, hreason⟩
          · exact hslots slot
    · exact hw

/-- A node that may have lost references has lost those that are not left. -/
theorem Loses.eq_released {below : List NodeId} {n n' : Node} (h : Loses below x n n')
    (hn' : g'.model.node? x = some n')
    (hleft : ∀ r p, g'.model.reference? r = some p → r.user ∉ below ∧ p ∉ below) :
    n' = n.released below x := by
  obtain ⟨heq, hslots⟩ := h
  have hattached : n'.attached = n.attached := by rw [heq]
  have hslot (slot : Usage.Slot) : slot.reference n' =
      if n.attached then (slot.reference n).filter fun p => x ∉ below ∧ p ∉ below
      else slot.reference n := by
    split
    · next ha =>
      have href (p) (hp : slot.reference n' = some p) : x ∉ below ∧ p ∉ below :=
        hleft ⟨x, slot⟩ p
          ((Model.reference?_of_attached hn' (hattached.trans ha)).trans hp)
      obtain hsame | ⟨hnone, -, hreason⟩ := hslots slot
      · rw [hsame] at href ⊢
        cases hs : slot.reference n with
        | none => rfl
        | some p => simp [Option.filter_some, href p hs]
      · rw [hnone, eq_comm, Option.filter_eq_none_iff]
        rintro p hp
        obtain hx | ⟨q, hq, hqp⟩ := hreason
        · simp [hx]
        · obtain rfl := Option.some.inj (hqp.symm.trans hp)
          simp [hq]
    · next ha =>
      obtain hsame | ⟨-, ha', -⟩ := hslots slot
      · exact hsame
      · exact absurd ha' ha
  have htype := hslot .type
  have hbase := hslot .base
  simp only [Usage.Slot.reference] at htype hbase
  rw [heq, Node.released, htype, hbase]
  split <;> rfl

/-- A deletion cuts the node off with all that is below it, after the references out of it and into
it were cleared. -/
theorem delete_rewritten {nodes : List NodeId} (hg : Managed g)
    (hnode : g.attachedNode id = .ok node) (hn : g.model.node? node = some n)
    (ho : n.owner ≠ none) (h : delete id g = .ok nodes g') :
    g.model.Rewritten
      (fun x k k' =>
        k' = (k.released (g.model.preorder node) x).cut (g.model.preorder node) n.owner node x)
      none g'.model := by
  obtain ⟨g₁, _, hrun, hev, hstep⟩ := delete_eq hg hnode
  obtain ⟨-, rfl⟩ := EStateM.Result.ok.inj (hrun.symm.trans h)
  obtain ⟨n₁, hn₁, hsame⟩ := hev.samePlace_of_clearsBelow hn
  have hbelow : g₁.model.preorder node = g.model.preorder node :=
    hg.forest.preorder_congr (hev.managed hg).forest
      (fun hx => hev.samePlace_of_clearsBelow hx) hn
  have hlost := hev.loses
  cases hstep with
  | @detach _ m hm _ hr =>
    obtain rfl := Option.some.inj (hn₁.symm.trans hm)
    rw [hbelow] at hr
    have hdetached : g₁.model.Rewritten
        (fun x k k' => k' = k.cut (g₁.model.preorder node) n₁.owner node x) none
        (g₁.model.without node n₁) := {
      libraries := Model.without_libraries (hsame.owner ▸ ho)
      size := Model.size_of_node?_map (Model.node?_without _ _ _)
      kept := fun hk => ⟨_, Model.node?_without_of_node? hk _ _, rfl⟩
      added := nofun }
    refine hlost.trans hdetached fun _ hk₁ hw hw' => ?_
    rw [hw', hw.eq_released hk₁ hr, hbelow, hsame.owner]

/-! ### Additions -/

/-- A node was added as the last child of an attached one, under a name that none of its children
has, and nothing else was written. -/
def GrownBelow (g : Graph) (container : NodeId) (kind : NodeKind) (mandatory : Bool) (m' : Model) :
    Prop :=
  ∃ p taken name, g.model.node? container = some p ∧ p.attached = true ∧
    g.model.childNames container = .ok taken ∧ name ∉ taken ∧
    g.model.Rewritten
      (Node.OnlyAt container fun n => { n with children := n.children ++ [g.model.nextId] })
      (some { Node.fresh kind p.library (some container) name with mandatory }) m'

theorem addNamedChild_grown {k : Facade.Kind} {name : String} (hg : Managed g)
    (hnode : g.attachedNode id = .ok node) (hk : Facade.Kind.ofNode? kind = some k)
    (h : addNamedChild id kind name g = .ok facade g') :
    g.GrownBelow node kind false g'.model := by
  obtain ⟨-, p, -, -, hp, ha⟩ := attachedNode_eq_ok_iff.mp hnode
  obtain ⟨taken, g₁, htaken, hfree, hstep, hev, -⟩ := steps_of_addNamedChild hg hnode hk h
  have hmodel := (hev.of_isRegister fun _ _ hc => ⟨_, hc⟩).1
  have hgrown := hstep.rewritten_of_grow (f := fun n => n) hp
    (.refl g₁.model fun _ _ => (ite_self _).symm)
  exact ⟨p, taken, _, hp, ha, htaken, hfree, hmodel ▸ hgrown⟩

/-- A property was added under the name that was found for it. -/
theorem addProperty_rewritten {kind : PropertyKind} {container : NodeId} {p : Node}
    {name : Option String} {taken : List String} (hg : Managed g)
    (hc : g.acceptingContainer? id kind = .ok (some container))
    (hp : g.model.node? container = some p) (htaken : g.model.childNames container = .ok taken)
    (h : addProperty id kind name g = .ok facade g') :
    g.model.Rewritten
      (Node.OnlyAt container fun n => { n with children := n.children ++ [g.model.nextId] })
      (some { Node.fresh (.property kind) p.library (some container)
        (Naming.uniqueName (requestedName kind name) taken) with
        mandatory := kind.profile.required }) g'.model := by
  obtain ⟨_, g₁, g₂, _, hrun, hstep, hmand, hev, -⟩ := addProperty_steps hg hc name htaken
  obtain ⟨-, rfl⟩ := EStateM.Result.ok.inj (hrun.symm.trans h)
  have hmodel := (hev.of_isRegister fun _ _ hc => ⟨_, hc⟩).1
  rw [hmodel]
  obtain ⟨hreq, rfl⟩ | ⟨hreq, hmand⟩ := hmand
  · have hgrown := hstep.rewritten_of_grow (f := fun n => n) hp
      (.refl g₂.model fun _ _ => (ite_self _).symm)
    rw [hreq]
    exact hgrown
  · rw [hreq]
    exact hstep.rewritten_of_grow (f := fun n => { n with mandatory := true }) hp
      (hmand.rewritten trivial)

theorem addProperty_grown {kind : PropertyKind} {container : NodeId} {name : Option String}
    (hg : Managed g) (hc : g.acceptingContainer? id kind = .ok (some container))
    (h : addProperty id kind name g = .ok facade g') :
    g.GrownBelow container (.property kind) kind.profile.required g'.model := by
  obtain ⟨p, hp, ha⟩ := attached_of_acceptingContainer? hc
  obtain ⟨taken, htaken⟩ := hg.forest.exists_childNames hp
  exact ⟨p, taken, _, hp, ha, htaken, Naming.uniqueName_not_mem (requestedName kind name) _,
    addProperty_rewritten hg hc hp htaken h⟩

end Graph

end SchemaEditor
