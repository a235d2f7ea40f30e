import SchemaEditor.Proofs.Graph.Extension
import SchemaEditor.Proofs.Graph.Rewriting

/-!
# Renaming again

The nodes that a name is passed on to are properties whose names follow; none of them is the node
that the name was given to or one of its facets. So no name that is followed changes on the way, and
afterwards every user has the name that follows: passing the name on once more changes nothing. What
becomes of the name itself is a matter of its rule.
-/

namespace SchemaEditor

namespace Model

variable {m m' : Model} {W : NodeId → Node → Node → Prop} {may : NodeId → Prop} {p x : NodeId}
variable {q : Node}

theorem Rewritten.node?_eq (h : m.Rewritten W none m') (hW : ∀ n n', W x n n' → n' = n) :
    m'.node? x = m.node? x := by
  cases hx : m.node? x with
  | some n =>
    obtain ⟨n', hn', hw⟩ := h.kept hx
    rw [hn', hW n n' hw]
  | none =>
    rw [Option.eq_none_iff_forall_ne_some]
    intro n' hn'
    obtain ⟨n, hn, -⟩ | ⟨-, hnew⟩ := h.cases hn'
    · cases hx.symm.trans hn
    · cases hnew

/-- Where only names are written, a node has the same facets. -/
theorem Rewritten.isFacet_eq (h : m.Rewritten (Node.Renamed may) none m') (x : NodeId) :
    ((m'.node? x).any fun k => k.kind.isFacet) = (m.node? x).any fun k => k.kind.isFacet := by
  cases hx : m'.node? x with
  | some n' =>
    obtain ⟨n, hn, rfl | ⟨-, name, rfl⟩⟩ | ⟨-, hnew⟩ := h.cases hx
    · rw [hn]
    · rw [hn]
      rfl
    · cases hnew
  | none =>
    cases hn : m.node? x with
    | none => rfl
    | some n =>
      obtain ⟨n', hn', -⟩ := h.kept hn
      cases hx.symm.trans hn'

/-- The name that follows a node depends only on the nodes that this one is named after. -/
theorem Forest.followedName?_congr (hf : Forest m) (hf' : Forest m') (hp : m.node? p = some q)
    (hsame : ∀ x, NamedAfter m x p → m'.node? x = m.node? x) (user : Facade.Kind) :
    m'.followedName? user p = m.followedName? user p := by
  obtain ⟨name, hname⟩ := hf.exists_nodeName hp
  have hname' := hf'.nodeName_of_names (((hf.names_iff hp).mpr hname).congr hsame)
  have hp' := (hsame p .self).trans hp
  rw [followedName?, followedName?, hname, hname', node_of_node? hp, node_of_node? hp']

end Model

namespace Graph

open Model (Forest NamedAfter)
open Outcome (bind_ok)

variable {P : Graph → Change → Prop} {g k k' g' : Graph} {id : FacadeId} {node p u x : NodeId}
variable {n : Node} {providers : List NodeId} {rule : Naming.Rule} {name after : String}

/-! ### What a renamed node is named after -/

theorem Evolves.givenNameRule (h : Evolves P g g') (hP : ∀ g c, P g c → IsRename g c)
    (hg : Managed g) (hrule : g.givenNameRule id = .ok rule) : g'.givenNameRule id = .ok rule := by
  obtain ⟨e, he, hnaming, hfromType, hfree⟩ := (givenNameRule_eq_ok_iff hg).mp hrule
  refine (givenNameRule_eq_ok_iff (h.managed hg)).mpr
    ⟨e, h.entry?_eq he, hnaming, hfromType, fun p hp => ?_⟩
  rw [(h.of_isRename hP).2.2] at hp
  exact h.extends_.followedName?_none (h.managed hg).forest (hfree p hp)

theorem Evolves.attachedNode (h : Evolves P g g') (hP : ∀ g c, P g c → IsRename g c)
    (hnode : g.attachedNode id = .ok node) : g'.attachedNode id = .ok node := by
  obtain ⟨e, n, he, rfl, hn, ha⟩ := attachedNode_eq_ok_iff.mp hnode
  have hkeeps {k : Graph} {x : NodeId} : ¬ P k (.detach x) := fun hc => by
    obtain ⟨_, _, hc⟩ := hP _ _ hc
    cases hc
  obtain ⟨n', hn', ha'⟩ := h.attached_eq hkeeps hn
  exact attachedNode_eq_ok_iff.mpr ⟨e, n', h.entry?_eq he, rfl, hn', ha'.trans ha⟩

/-- A node that may be renamed and its facets are named after the node and after themselves. -/
theorem eq_of_namedAfter (hg : Managed g) (hnode : g.attachedNode id = .ok node)
    (hrule : g.givenNameRule id = .ok rule) (hn : g.model.node? node = some n)
    (hp : p ∈ g.namedBy node n) (hx : NamedAfter g.model x p) :
    x = node ∨ x = p ∧ ∃ k, g.model.node? p = some k ∧ k.kind.isFacet = true := by
  have hnamed : ∀ x, NamedAfter g.model x node → x = node := by
    rintro x (_ | ⟨hn', hending, -, -⟩)
    · rfl
    · obtain ⟨e, _, he, rfl, -, -⟩ := attachedNode_eq_ok_iff.mp hnode
      obtain rfl := Option.some.inj (hn.symm.trans hn')
      have hfacade := (Model.facadeKind?_of_node? hn).symm.trans (hg.facades.known he)
      cases (NodeKind.ending?_of_naming? hfacade
        (naming?_of_givenNameRule hg he hrule)).symm.trans hending
  obtain rfl | hfacet := List.mem_cons.mp hp
  · exact .inl (hnamed x hx)
  · obtain ⟨hchild, hfacet⟩ := List.mem_filter.mp hfacet
    obtain ⟨k, hk, howner, -⟩ := hg.forest.owned hn hchild
    cases hx with
    | self =>
      rw [hk] at hfacet
      exact .inr ⟨rfl, k, hk, hfacet⟩
    | derived hk' _ howner' hx =>
      obtain rfl := Option.some.inj (hk.symm.trans hk')
      obtain rfl := Option.some.inj (howner.symm.trans howner')
      exact .inl (hnamed x hx)

/-- None of these nodes has a name that follows. -/
theorem not_follower_of_namedAfter (hg : Managed g) (hnode : g.attachedNode id = .ok node)
    (hrule : g.givenNameRule id = .ok rule) (hn : g.model.node? node = some n)
    (hp : p ∈ g.namedBy node n) (hx : NamedAfter g.model x p) : ¬ g.Follower providers x := by
  rintro ⟨q, -, href, hfollows⟩
  obtain rfl | ⟨rfl, k, hk, hfacet⟩ := eq_of_namedAfter hg hnode hrule hn hp hx
  · obtain ⟨kind, name, hkind, hname⟩ := hfollows
    obtain ⟨kind', hkind', hnone⟩ := followedName?_of_givenNameRule hg hnode hrule href
    obtain rfl := Option.some.inj (hkind.symm.trans hkind')
    cases hname.symm.trans hnone
  · obtain ⟨property, hproperty, -⟩ := hfollows.exists_property hk
    rw [hproperty] at hfacet
    cases hfacet

section propagation

variable (hg : Managed g) (hnode : g.attachedNode id = .ok node)
  (hrule : g.givenNameRule id = .ok rule) (hn : g.model.node? node = some n)

include hg hnode hrule hn

/-- What follows a node that may be renamed, or one of its facets, stays the same while names
follow. -/
theorem Evolves.followedName?_eq (h : Evolves (Follows (g.namedBy node n)) g g')
    (hp : p ∈ g.namedBy node n) (user : Facade.Kind) :
    g'.model.followedName? user p = g.model.followedName? user p := by
  obtain ⟨q, hq⟩ := hg.exists_of_namedBy hn hp
  have hrewritten := h.rewritten_of_follows hg fun _ => hg.exists_of_namedBy hn
  refine hg.forest.followedName?_congr (h.managed hg).forest hq (fun x hx => ?_) user
  refine hrewritten.node?_eq fun k k' hw => hw.resolve_right fun hfollows => ?_
  exact not_follower_of_namedAfter hg hnode hrule hn hp hx hfollows.1

/-- The node itself is not written while names follow it. -/
theorem Evolves.node?_eq (h : Evolves (Follows (g.namedBy node n)) g g') :
    g'.model.node? node = some n := by
  have hrewritten := h.rewritten_of_follows hg fun _ => hg.exists_of_namedBy hn
  refine (hrewritten.node?_eq fun k k' hw => hw.resolve_right fun hfollows => ?_).trans hn
  exact not_follower_of_namedAfter hg hnode hrule hn List.mem_cons_self .self hfollows.1

end propagation

theorem Evolves.namedBy_eq (h : Evolves (Follows (g.namedBy node n)) g g') (hg : Managed g)
    (hn : g.model.node? node = some n) : g'.namedBy node n = g.namedBy node n := by
  have hrewritten := h.rewritten_of_follows hg fun _ => hg.exists_of_namedBy hn
  unfold namedBy
  congr 2
  funext c
  exact hrewritten.isFacet_eq c

/-! ### Names that are passed on -/

/-- In `k` a user has the name that follows in `g`, if one follows from a provider. -/
def NamedAs (g : Graph) (providers : List NodeId) (u : NodeId) (k : Graph) : Prop :=
  ∀ p ∈ providers, ∀ kind name, g.model.reference? ⟨u, .type⟩ = some p →
    g.model.facadeKind? u = some kind → g.model.followedName? kind p = .ok (some name) →
      ∃ n, k.model.node? u = some n ∧ n.name = name

/-- Every user of a provider has the name that follows. -/
def Settled (g : Graph) (providers : List NodeId) : Prop := ∀ u, g.NamedAs providers u g

/-- Where all names are as they follow, there is nothing to follow. -/
theorem Settled.eq_of_follows (h : g.Settled providers) (hev : Evolves (Follows providers) g g') :
    g' = g := by
  refine hev.keeps (I := fun k => k = g) (fun {k c k'} hk hc hs => ?_) rfl
  subst hk
  obtain ⟨user, p, kind, name, rfl, hmem, href, hkind, hname⟩ := hc
  obtain ⟨n, hn, hsame⟩ := h user p hmem kind name href hkind hname
  cases hs
  rw [Model.modifyNode_of_fixed hn (by rw [← hsame])]

section settling

variable (hg : Managed g) (hnode : g.attachedNode id = .ok node)
  (hrule : g.givenNameRule id = .ok rule) (hn : g.model.node? node = some n)

include hg hnode hrule hn

/-- What follows for a user on the way is what followed at the start. -/
theorem Evolves.follows_at_start {kind : Facade.Kind}
    (hk : Evolves (Follows (g.namedBy node n)) g k) (hp : p ∈ g.namedBy node n)
    (hr : k.model.reference? ⟨u, .type⟩ = some p) (hkind : k.model.facadeKind? u = some kind) :
    g.model.reference? ⟨u, .type⟩ = some p ∧ g.model.facadeKind? u = some kind ∧
      k.model.followedName? kind p = g.model.followedName? kind p := by
  rw [(hk.of_isRename fun _ _ => Follows.isRename).2.2] at hr
  obtain ⟨m, hm, -⟩ := Model.reference?_eq_some_iff.mp hr
  obtain ⟨m', hm', hsame, -⟩ := hk.extends_.same hm
  rw [Model.facadeKind?_of_node? hm', hsame, ← Model.facadeKind?_of_node? hm] at hkind
  exact ⟨hr, hkind, hk.followedName?_eq hg hnode hrule hn hp kind⟩

theorem NamedAs.of_visited (hk : Evolves (Follows (g.namedBy node n)) g k)
    (hp : p ∈ g.namedBy node n) (hr : k.model.reference? ⟨u, .type⟩ = some p)
    (h : Visited p u k k') : g.NamedAs (g.namedBy node n) u k' := by
  intro q _ kind name href hkind hname
  have hkind' := hk.extends_.facadeKind? hkind
  obtain ⟨hr', -, hsame⟩ := hk.follows_at_start hg hnode hrule hn hp hr hkind'
  obtain rfl := Option.some.inj (hr'.symm.trans href)
  rw [← hsame] at hname
  cases h with
  | kept hm hnone =>
    rw [Model.facadeKind?_of_node? hm] at hkind'
    cases (hnone kind hkind').symm.trans hname
  | named hm hkind'' hname' =>
    rw [Model.facadeKind?_of_node? hm] at hkind'
    obtain rfl := Option.some.inj (hkind''.symm.trans hkind')
    obtain rfl := Option.some.inj (Except.ok.inj (hname'.symm.trans hname))
    exact ⟨_, (Model.node?_modifyNode_self ..).trans (congrArg _ hm), rfl⟩

theorem NamedAs.of_evolves (hk : Evolves (Follows (g.namedBy node n)) g k)
    (hev : Evolves (Follows (g.namedBy node n)) k k')
    (h : g.NamedAs (g.namedBy node n) u k) : g.NamedAs (g.namedBy node n) u k' := by
  induction hev with
  | refl => exact h
  | @step k₁ k₂ c before hc hs ih =>
    obtain ⟨user, p, kind, name, rfl, hp, hr, hkind, hname⟩ := hc
    obtain ⟨href, hkind, hsame⟩ :=
      (hk.trans before).follows_at_start hg hnode hrule hn hp hr hkind
    intro q hq kind' name' href' hkind' hname'
    cases hs with
    | rename hm =>
      by_cases hu : u = user
      · -- The user is renamed once more, to what it is called already.
        subst hu
        obtain rfl := Option.some.inj (href.symm.trans href')
        obtain rfl := Option.some.inj (hkind.symm.trans hkind')
        rw [hsame] at hname
        obtain rfl := Option.some.inj (Except.ok.inj (hname.symm.trans hname'))
        exact ⟨_, (Model.node?_modifyNode_self ..).trans (congrArg _ hm), rfl⟩
      · obtain ⟨m, hm', hmname⟩ := ih q hq kind' name' href' hkind' hname'
        exact ⟨m, (Model.node?_modifyNode ..).trans ((if_neg hu).trans hm'), hmname⟩

theorem propagateName_settles :
    ∃ g', propagateName node g = .ok ⟨⟩ g' ∧ Evolves (Follows (g.namedBy node n)) g g' ∧
      g'.Settled (g.namedBy node n) := by
  obtain ⟨g', hrun, hev, hdone⟩ := propagateName_establishes hg hn
    (T := g.NamedAs (g.namedBy node n))
    (fun u _ _ hk hev => NamedAs.of_evolves hg hnode hrule hn hk hev)
    fun p hp u _ _ hk => NamedAs.of_visited hg hnode hrule hn hk hp
  refine ⟨g', hrun, hev, fun u p hp kind name href hkind hname => ?_⟩
  obtain ⟨href, hkind, hsame⟩ := hev.follows_at_start hg hnode hrule hn hp href hkind
  exact hdone p hp u href p hp kind name href hkind (hsame.symm.trans hname)

end settling

/-- Once the name of a node was passed on, passing it on again changes nothing. -/
theorem Settled.propagateName_eq (h : g.Settled (g.namedBy node n)) (hg : Managed g)
    (hn : g.model.node? node = some n) : propagateName node g = .ok ⟨⟩ g := by
  obtain ⟨g', hrun, hev, -⟩ := Graph.propagateName_eq hg hn
  rw [hrun, h.eq_of_follows hev]

/-! ### Names that are given -/

/-- A name that was given can be given again. If the rule leaves its form alone, this gives it once
more and changes nothing. -/
theorem setName_again (hg : Managed g) (h : setName id name g = .ok after g') :
    ∃ rule, g.givenNameRule id = .ok rule ∧ after = rule.apply name ∧
      ∃ g'', setName id after g' = .ok (rule.apply after) g'' ∧
        (rule.apply after = after → g'' = g') := by
  obtain ⟨err, hrun⟩ | ⟨node, n, rule, hnode, hn, hrule, hname⟩ := setName_cases g id name
  · cases hrun.symm.trans h
  rw [setName_run hnode hn hrule hname, Naming.apply_trim] at h
  have hstep := Step.rename hn (rule.apply name)
  have hrename := Evolves.single (P := IsRename) ⟨_, _, rfl⟩ hstep
  have hg₁ := hstep.managed hg
  have hnode₁ := hrename.attachedNode (fun _ _ hc => hc) hnode
  have hrule₁ := hrename.givenNameRule (fun _ _ hc => hc) hg hrule
  have hn₁ := (Model.node?_modifyNode_self g.model node
    fun n => { n with name := rule.apply name }).trans (congrArg _ hn)
  obtain ⟨g₂, hrun, hev, hsettled⟩ := propagateName_settles hg₁ hnode₁ hrule₁ hn₁
  rw [bind_ok hrun] at h
  obtain ⟨rfl, rfl⟩ := EStateM.Result.ok.inj h
  have hg₂ := hev.managed hg₁
  have hnode₂ := hev.attachedNode (fun _ _ => Follows.isRename) hnode₁
  have hrule₂ := hev.givenNameRule (fun _ _ => Follows.isRename) hg₁ hrule₁
  have hn₂ := hev.node?_eq hg₁ hnode₁ hrule₁ hn₁
  rw [← hev.namedBy_eq hg₁ hn₁] at hsettled
  have hname₂ : Text.trim (rule.apply name) ≠ "" := by
    rw [Naming.trim_apply]
    exact Naming.apply_ne_empty rule hname
  obtain ⟨g'', hagain, -⟩ := setName_eq hg₂ hnode₂ hn₂ hrule₂ hname₂
  rw [Naming.apply_trim] at hagain
  refine ⟨rule, hrule, rfl, g'', hagain, fun hsame => ?_⟩
  rw [setName_run hnode₂ hn₂ hrule₂ hname₂, Naming.apply_trim, hsame,
    Model.modifyNode_of_fixed hn₂ rfl, bind_ok (hsettled.propagateName_eq hg₂ hn₂)] at hagain
  exact (EStateM.Result.ok.inj hagain).2.symm

/-- Every rule but that of indicators leaves a name in its form alone, and that of indicators does
so exactly if the form does not begin with an `is` before an upper-case character. Over every model
that was built or loaded, after any calls: the name that a new name was stored as can be given
again. It is then stored as it is and nothing changes, unless the facade is that of an indicator and
the name begins with such an `is`. -/
theorem renaming_is_stable :
    (∀ rule : Naming.Rule, rule ≠ .indicator →
      ∀ s, rule.apply (rule.apply s) = rule.apply s) ∧
    (∀ s, Naming.Rule.indicator.apply (Naming.Rule.indicator.apply s) =
        Naming.Rule.indicator.apply s ↔
      ¬ Naming.BeginsWithIs (Naming.Rule.indicator.apply s)) ∧
    ∀ m, Source m → ∀ v, ∃ g, ofModel m v = .ok g ∧ ∀ calls id name after g',
      setName id name (g.after calls) = .ok after g' →
        ∃ rule, (g.after calls).givenNameRule id = .ok rule ∧ after = rule.apply name ∧
          g'.name id = .ok after ∧
          ∃ g'', setName id after g' = .ok (rule.apply after) g'' ∧
            g''.name id = .ok (rule.apply after) ∧
            (rule ≠ .indicator ∨ ¬ Naming.BeginsWithIs after →
              rule.apply after = after ∧ g'' = g') := by
  refine ⟨fun _ hrule => Naming.apply_apply hrule, Naming.indicator_apply_apply_iff,
    fun m hm v => ?_⟩
  obtain ⟨x, hgraph, hg⟩ := exists_ofModel hm.forest v
  refine ⟨_, hgraph, fun calls id name after g' h => ?_⟩
  have hafter := (evolves_after hg calls).managed hg
  obtain ⟨rule, hrule, rfl, g'', hagain, hsame⟩ := setName_again hafter h
  have hg' : Managed g' := by
    have hleft := (setName_atomic hafter id name).left.managed hafter
    rwa [left, h] at hleft
  refine ⟨rule, hrule, rfl, name_of_setName hafter h, g'', hagain, name_of_setName hg' hagain,
    fun hform => ?_⟩
  have hstable : rule.apply (rule.apply name) = rule.apply name := by
    by_cases hindicator : rule = .indicator
    · subst hindicator
      exact (Naming.indicator_apply_apply_iff name).mpr (hform.resolve_left (absurd rfl))
    · exact Naming.apply_apply hindicator name
  exact ⟨hstable, hsame hstable⟩

end Graph

namespace Snapshot

open SchemaEditor.Graph (setName)

/-- The object has users of its own and of its summary; given its name again, nothing changes. -/
theorem renaming_is_stable_untypedOrder :
    ∃ loaded g g', untypedOrder.load = .ok loaded ∧
      Graph.ofModel loaded.model (.chain none) = .ok g ∧
      setName ⟨2⟩ " price" (g.after renamedMoney.dropLast) = .ok "Price" g' ∧
      setName ⟨2⟩ "Price" g' = .ok "Price" g' := by
  obtain ⟨loaded, g, hload, hgraph, hp⟩ := exists_graph (s := untypedOrder) (v := .chain none)
    (p := fun g => match setName ⟨2⟩ " price" (g.after renamedMoney.dropLast) with
      | .ok after _ => decide (after = "Price" ∧
        (g.after renamedMoney.dropLast).givenNameRule ⟨2⟩ = .ok .upperFirst)
      | .error _ _ => false) (by decide +kernel)
  obtain ⟨g₀, hgraph₀, hcalls⟩ :=
    Graph.renaming_is_stable.2.2 loaded.model (.loaded hload) (.chain none)
  obtain rfl := Except.ok.inj (hgraph₀.symm.trans hgraph)
  split at hp
  · next after g' h =>
    obtain ⟨rfl, hupper⟩ := of_decide_eq_true hp
    obtain ⟨rule, hrule, -, -, g'', hagain, -, hsame⟩ := hcalls _ _ _ _ _ h
    obtain rfl := Except.ok.inj (hrule.symm.trans hupper)
    obtain ⟨hname, rfl⟩ := hsame (.inl nofun)
    rw [hname] at hagain
    exact ⟨loaded, g₀, g'', hload, hgraph, h, hagain⟩
  · cases hp

/-- An order with an indicator. -/
def indicatorOrder : Snapshot :=
  shop [.object "Order" none [⟨.property .indicator, "flagInd", none, true, ""⟩]]

/-- The form of a name that begins with `Is` has another form: the name of an indicator that was
renamed changes when it is given again. -/
theorem indicator_renamed_twice :
    Naming.Rule.indicator.apply "IsPrimary" = "isPrimaryInd" ∧
    Naming.Rule.indicator.apply "isPrimaryInd" = "primaryInd" ∧
    ∃ loaded g g' g'', indicatorOrder.load = .ok loaded ∧
      Graph.ofModel loaded.model (.chain none) = .ok g ∧
      setName ⟨0⟩ "IsPrimary" (g.after [.facadeFor ⟨4⟩]) = .ok "isPrimaryInd" g' ∧
      setName ⟨0⟩ "isPrimaryInd" g' = .ok "primaryInd" g'' := by
  refine ⟨by decide +kernel, by decide +kernel, ?_⟩
  obtain ⟨loaded, g, hload, hgraph, hp⟩ := exists_graph (s := indicatorOrder) (v := .chain none)
    (p := fun g => match setName ⟨0⟩ "IsPrimary" (g.after [.facadeFor ⟨4⟩]) with
      | .ok after g' => decide (after = "isPrimaryInd") &&
        match setName ⟨0⟩ "isPrimaryInd" g' with
        | .ok again _ => decide (again = "primaryInd")
        | .error _ _ => false
      | .error _ _ => false) (by decide +kernel)
  split at hp
  · next after g' h =>
    obtain ⟨hafter, hp⟩ := (Bool.and_eq_true ..).mp hp
    obtain rfl := of_decide_eq_true hafter
    split at hp
    · next again g'' hagain =>
      obtain rfl := of_decide_eq_true hp
      exact ⟨loaded, g, g', g'', hload, hgraph, h, hagain⟩
    · cases hp
  · cases hp

end Snapshot

end SchemaEditor
