import SchemaEditor.Proofs.Action.Parameter
import SchemaEditor.Proofs.Session.Policy

/-!
# What the list of available actions tells

The list checks every action without a parameter. An action that is refused there for another reason
than a missing parameter is refused with every parameter, with one exception: on a member carried
forward that takes additions, a property may be made optional, although to change its flag at all is
prohibited. An action that only lacks its parameter can be given one that it accepts, as far as this
depends on the subject alone.
-/

namespace SchemaEditor

theorem Action.mem_all (action : Action) : action ∈ Action.all := by
  cases action <;> decide

namespace Session

open Outcome (bind_eq_ok_iff)
open Policy (Admits)

variable {s : Session} {action : Action} {f : FacadeId} {param : Option Param}
variable {err : Action.Error} {editability : Editability} {new : Bool}

/-- The list has the check of every action without a parameter. -/
theorem mem_available_iff {verdict : Except Action.Error PUnit} :
    (action, verdict) ∈ s.available f ↔ s.check action f none = verdict := by
  simp only [available, List.mem_map, Prod.mk.injEq]
  constructor
  · rintro ⟨_, -, rfl, h⟩
    exact h
  · exact fun h => ⟨action, Action.mem_all action, rfl, h⟩

/-- An action that succeeds with a parameter is refused without it only because it is missing,
unless the parameter makes a property of a member carried forward optional. -/
theorem missing_or_optional (he : s.graph.editability f = .ok editability)
    (hnew : s.graph.isNewToChain f = .ok new) (h : s.check action f none = .error err)
    (hcheck : s.check action f param = .ok ⟨⟩) :
    err = .missingParameter action ∨ action = .setMandatory ∧ param = some (.flag false) ∧
      editability = .minorOnly ∧ new = false ∧ s.minorVersionAdditions = true := by
  obtain ⟨hpolicy, hok⟩ := check_eq_ok_iff_stages.mp hcheck
  obtain hadmits | hexception :=
    Action.admits_none ((checkPolicy_eq_ok_iff he hnew).mp hpolicy)
  · left
    by_contra hne
    rw [check_of_checkPolicy_ok ((checkPolicy_eq_ok_iff he hnew).mpr hadmits)] at h
    cases (Request.precondition_of_refused_none h hne param).symm.trans hok
  · exact .inr hexception

/-- An action that only lacks its parameter passes the policy, and its subject is attached and as it
should be. -/
theorem stages_of_missing (he : s.graph.editability f = .ok editability)
    (hnew : s.graph.isNewToChain f = .ok new)
    (h : s.check action f none = .error (.missingParameter action)) :
    Admits s.minorVersionAdditions editability new (action.changeClass none) ∧
      (⟨action, f, none⟩ : Request).subjectPrecondition s.graph = .ok ⟨⟩ := by
  obtain ⟨hadmits, hpolicy⟩ | ⟨-, reason, hpolicy⟩ := checkPolicy_cases he hnew action none
  · rw [check_of_checkPolicy_ok hpolicy] at h
    exact ⟨hadmits, Request.subjectPrecondition_of_missing h⟩
  · cases (check_of_checkPolicy_error he hnew hpolicy).2.symm.trans h

/-- The subject of such an action is attached and meets what is asked of it. -/
theorem requirement_of_missing {e : Facade.Entry} {n : Node}
    (hentry : s.graph.facades.entry? f = some e) (hn : s.graph.model.node? e.node = some n)
    (h : (⟨action, f, none⟩ : Request).subjectPrecondition s.graph = .ok ⟨⟩) :
    s.graph.attachedNode f = .ok e.node ∧
      (⟨action, f, none⟩ : Request).subjectRequirement s.graph = .ok ⟨⟩ := by
  rw [Request.subjectPrecondition_of_entry (r := ⟨action, f, none⟩) hentry hn] at h
  obtain ⟨⟨⟩, ha, hsubject⟩ := bind_eq_ok_iff.mp h
  exact ⟨Graph.attachedNode_eq_ok_iff.mpr ⟨e, n, hentry, rfl, hn,
    Request.demand_eq_ok_iff.mp ha⟩, hsubject⟩

/-- Whether a property of a member carried forward may be made optional: the member's library takes
minor changes only, and additions to such members are enabled. -/
structure TakesAdditions (s : Session) (n : Node) (top : NodeId) : Prop where
  editability : s.graph.versioning.editability s.graph.model n.library = .minorOnly
  carried : s.graph.versioning.isNewToChain s.graph.model top = false
  additions : s.minorVersionAdditions = true

/-- What the list of available actions tells about the parameters of an action on a facade, where
`e` is its entry, `n` its node and `top` the member around it. -/
structure TellsOfParameters (s : Session) (f : FacadeId) (e : Facade.Entry) (n : Node)
    (top : NodeId) : Prop where
  /-- What is refused for another reason than a missing parameter is refused with every parameter,
  unless the parameter makes a property of a member carried forward optional. -/
  refused : ∀ action err, (action, .error err) ∈ s.available f →
    err ≠ .missingParameter action → ∀ param, s.check action f param = .ok ⟨⟩ →
      action = .setMandatory ∧ param = some (.flag false) ∧ s.TakesAdditions n top
  /-- There the flag is listed as prohibited, and every attached property may be made optional. -/
  optional : s.TakesAdditions n top →
    (∃ reason, (.setMandatory, .error (.notPermitted .setMandatory f reason)) ∈ s.available f) ∧
    (s.check .setMandatory f (some (.flag false)) = .ok ⟨⟩ ↔
      n.attached = true ∧ e.kind.isProperty = true)
  /-- What lacks a text, a truth value or a kind of property accepts one. -/
  fitting : ∀ action, (action, .error (.missingParameter action)) ∈ s.available f →
    action.profile.param ∈ [.text, .flag, .property] →
      ∃ p : Param, p.kind = action.profile.param ∧ s.check action f (some p) = .ok ⟨⟩
  /-- What lacks a type, indicators apart, is of a kind that some class of types fits. -/
  assignable : (.assignType, .error (.missingParameter .assignType)) ∈ s.available f →
    e.kind ≠ .property .indicator → e.kind ≠ .property .indicatorElement →
      ∃ classes, e.kind.assignable? = some classes ∧ classes ≠ []

section

variable {e : Facade.Entry} {n : Node}

/-- A change of the flag of a property is prohibited on a member carried forward, except that the
property is made optional. -/
theorem optional_of_carried (hentry : s.graph.facades.entry? f = some e)
    (hn : s.graph.model.node? e.node = some n) (he : s.graph.editability f = .ok .minorOnly)
    (hnew : s.graph.isNewToChain f = .ok false) (hadditions : s.minorVersionAdditions = true) :
    (∃ reason, s.check .setMandatory f none = .error (.notPermitted .setMandatory f reason)) ∧
    (s.check .setMandatory f (some (.flag false)) = .ok ⟨⟩ ↔
      n.attached = true ∧ e.kind.isProperty = true) := by
  constructor
  · obtain ⟨hadmits, -⟩ | ⟨-, reason, hpolicy⟩ := checkPolicy_cases he hnew .setMandatory none
    · cases hadmits.isEditable
    · exact ⟨reason, (check_of_checkPolicy_error he hnew hpolicy).2⟩
  · have hpolicy : s.checkPolicy .setMandatory f (some (.flag false)) = .ok ⟨⟩ := by
      refine (checkPolicy_eq_ok_iff he hnew).mpr ?_
      rw [hadditions]
      decide
    have hsubject : (⟨.setMandatory, f, some (.flag false)⟩ : Request).subjectRequirement s.graph =
        (⟨.setMandatory, f, some (.flag false)⟩ : Request).demand e.kind.isProperty
          .notAProperty := by
      simp only [Request.subjectRequirement, Request.query, Graph.kind_of_entry hentry,
        Outcome.ok_bind]
    rw [check_of_checkPolicy_ok hpolicy, Request.precondition_eq,
      Request.subjectPrecondition_of_entry (r := ⟨.setMandatory, f, some (.flag false)⟩) hentry hn,
      hsubject]
    cases n.attached <;> cases e.kind.isProperty <;> simp [Request.demand,
      Request.parameterRequirement, Request.flag, bind, Except.bind, pure, Except.pure]

/-- What lacks a text, a truth value or a kind of property accepts one. -/
theorem exists_param_of_missing (hg : Graph.Managed s.graph)
    (hentry : s.graph.facades.entry? f = some e) (hn : s.graph.model.node? e.node = some n)
    (he : s.graph.editability f = .ok editability) (hnew : s.graph.isNewToChain f = .ok new)
    (h : s.check action f none = .error (.missingParameter action))
    (hparam : action.profile.param ∈ [.text, .flag, .property]) :
    ∃ p : Param, p.kind = action.profile.param ∧ s.check action f (some p) = .ok ⟨⟩ := by
  obtain ⟨hadmits, hsubject⟩ := stages_of_missing he hnew h
  obtain ⟨hnode, hrequirement⟩ := requirement_of_missing hentry hn hsubject
  obtain ⟨p, hkind, hclass, hfits⟩ := Request.exists_fitting hg hnode hparam hrequirement
  refine ⟨p, hkind, check_eq_ok_iff_stages.mpr ⟨?_, ?_⟩⟩
  · exact (checkPolicy_eq_ok_iff he hnew).mpr (hclass ▸ hadmits)
  · rw [Request.precondition_eq, Request.subjectPrecondition_none, hsubject]
    exact hfits

/-- What lacks a type is of a kind that takes one; all these kinds but those of indicators have
classes that fit. -/
theorem exists_classes_of_missing (hentry : s.graph.facades.entry? f = some e)
    (hn : s.graph.model.node? e.node = some n) (he : s.graph.editability f = .ok editability)
    (hnew : s.graph.isNewToChain f = .ok new)
    (h : s.check .assignType f none = .error (.missingParameter .assignType))
    (hi : e.kind ≠ .property .indicator) (hie : e.kind ≠ .property .indicatorElement) :
    ∃ classes, e.kind.assignable? = some classes ∧ classes ≠ [] := by
  obtain ⟨-, hsubject⟩ := stages_of_missing he hnew h
  obtain ⟨-, hrequirement⟩ := requirement_of_missing hentry hn hsubject
  obtain ⟨kind, hkind, htakes⟩ := bind_eq_ok_iff.mp hrequirement
  obtain rfl := Except.ok.inj
    ((Graph.kind_of_entry hentry).symm.trans (Request.query_eq_ok_iff.mp hkind))
  obtain ⟨classes, hclasses⟩ := Option.isSome_iff_exists.mp (Request.demand_eq_ok_iff.mp htakes)
  refine ⟨classes, hclasses, ?_⟩
  rintro rfl
  cases hk : e.kind with
  | property kind => cases kind <;> simp_all [Facade.Kind.assignable?, PropertyKind.profile,
      ProviderClass.values, ProviderClass.objects, ProviderClass.facets]
  | member kind => cases kind <;> simp_all [Facade.Kind.assignable?, ProviderClass.values]
  | _ => simp_all [Facade.Kind.assignable?, ProviderClass.objects, ProviderClass.facets]

end

/-- In a session over any model that was built or loaded, after any history, the list of available
actions of every facade that the session knows tells of parameters. -/
theorem available_tells_of_parameters {m : Model} (hm : Graph.Source m) (v : Versioning) :
    ∃ g, Graph.ofModel m v = .ok g ∧ ∀ (calls : List Call) (f : FacadeId) (e : Facade.Entry),
      let s := (ofGraph g).after calls
      s.graph.facades.entry? f = some e →
        ∃ n top, s.graph.model.node? e.node = some n ∧ s.graph.model.memberOf e.node = .ok top ∧
          TellsOfParameters s f e n top := by
  obtain ⟨g, hgraph, hg⟩ := exists_managed hm.forest v
  refine ⟨g, hgraph, fun calls f e => ?_⟩
  intro s hentry
  have hs : Graph.Managed s.graph := hg calls
  obtain ⟨n, top, hn, htop, he, hnew⟩ := hs.exists_standing hentry
  refine ⟨n, top, hn, htop, ?_⟩
  constructor
  case refused =>
    intro action err hmem hne param hcheck
    obtain h | ⟨haction, hparam, hminor, hcarried, hadditions⟩ :=
      missing_or_optional he hnew (mem_available_iff.mp hmem) hcheck
    · exact absurd h hne
    · exact ⟨haction, hparam, hminor, hcarried, hadditions⟩
  case optional =>
    rintro ⟨hminor, hcarried, hadditions⟩
    rw [hminor] at he
    rw [hcarried] at hnew
    obtain ⟨⟨reason, hlisted⟩, hflag⟩ := optional_of_carried hentry hn he hnew hadditions
    exact ⟨⟨reason, mem_available_iff.mpr hlisted⟩, hflag⟩
  case fitting =>
    intro action hmem hparam
    exact exists_param_of_missing hs hentry hn he hnew (mem_available_iff.mp hmem) hparam
  case assignable =>
    intro hmem hi hie
    exact exists_classes_of_missing hentry hn he hnew (mem_available_iff.mp hmem) hi hie

end Session

namespace Snapshot

open Session (Call TellsOfParameters)

/-- The total of the object carried forward is an attached property that may be made optional. -/
theorem available_twoVersions :
    ∃ loaded g, twoVersions.load = .ok loaded ∧ Graph.ofModel loaded.model carriedTable = .ok g ∧
      let s := (Session.ofGraph g).after [.graph (.facadeFor ⟨8⟩)]
      s.graph.facades.entry? ⟨0⟩ = some ⟨⟨8⟩, .property .element⟩ ∧
        ∃ n top, s.graph.model.node? ⟨8⟩ = some n ∧ s.graph.model.memberOf ⟨8⟩ = .ok top ∧
          TellsOfParameters s ⟨0⟩ ⟨⟨8⟩, .property .element⟩ n top := by
  obtain ⟨loaded, g, hload, hgraph, hp⟩ := exists_graph_twoVersions (v := carriedTable)
    (p := fun g =>
    ((Session.ofGraph g).after [.graph (.facadeFor ⟨8⟩)]).graph.facades.entry? ⟨0⟩ =
      some ⟨⟨8⟩, .property .element⟩) (by decide +kernel)
  have hentry := of_decide_eq_true hp
  obtain ⟨g', hgraph', h⟩ := Session.available_tells_of_parameters (.loaded hload) carriedTable
  obtain rfl := Except.ok.inj (hgraph.symm.trans hgraph')
  exact ⟨loaded, g, hload, hgraph, hentry, h [.graph (.facadeFor ⟨8⟩)] ⟨0⟩ _ hentry⟩

/-- An object with an indicator in its summary. -/
def flaggedOrder : Snapshot :=
  shop [.object "Order" none
    [{ kind := .property .indicator, name := "paidInd", typeKey := none, mandatory := false
       description := "" }]]

/-- The list does not always tell the whole truth. On a property of a member carried forward, to set
the flag is listed as prohibited, yet the property may be made optional. On an indicator, to assign
a type is listed as lacking a type only, yet no class of types fits. -/
theorem available_misleads :
    (∃ loaded g, twoVersions.load = .ok loaded ∧ Graph.ofModel loaded.model carriedTable = .ok g ∧
      let s := (Session.ofGraph g).after [.graph (.facadeFor ⟨8⟩)]
      (.setMandatory, .error (.notPermitted .setMandatory ⟨0⟩ .carriedForward)) ∈ s.available ⟨0⟩ ∧
        s.check .setMandatory ⟨0⟩ (some (.flag false)) = .ok ⟨⟩) ∧
    ∃ loaded g, flaggedOrder.load = .ok loaded ∧
      Graph.ofModel loaded.model (.fixed .editable [] []) = .ok g ∧
      let s := (Session.ofGraph g).after [.graph (.facadeFor ⟨4⟩)]
      (.assignType, .error (.missingParameter .assignType)) ∈ s.available ⟨0⟩ ∧
        s.graph.kind ⟨0⟩ = .ok (.property .indicator) ∧
        Facade.Kind.assignable? (.property .indicator) = some [] := by
  constructor
  · obtain ⟨loaded, g, hload, hgraph, hp⟩ :=
      exists_graph_twoVersions (v := carriedTable) (p := fun g =>
        let s := (Session.ofGraph g).after [.graph (.facadeFor ⟨8⟩)]
        s.check .setMandatory ⟨0⟩ none =
            .error (.notPermitted .setMandatory ⟨0⟩ .carriedForward) ∧
          s.check .setMandatory ⟨0⟩ (some (.flag false)) = .ok ⟨⟩) (by decide +kernel)
    obtain ⟨hlisted, hcheck⟩ := of_decide_eq_true hp
    exact ⟨loaded, g, hload, hgraph, Session.mem_available_iff.mpr hlisted, hcheck⟩
  · obtain ⟨loaded, g, hload, hgraph, hp⟩ :=
      exists_graph (s := flaggedOrder) (v := .fixed .editable [] []) (p := fun g =>
        let s := (Session.ofGraph g).after [.graph (.facadeFor ⟨4⟩)]
        s.check .assignType ⟨0⟩ none = .error (.missingParameter .assignType) ∧
          s.graph.kind ⟨0⟩ = .ok (.property .indicator)) (by decide +kernel)
    obtain ⟨hlisted, hkind⟩ := of_decide_eq_true hp
    exact ⟨loaded, g, hload, hgraph, Session.mem_available_iff.mpr hlisted, hkind, rfl⟩

end Snapshot

end SchemaEditor
