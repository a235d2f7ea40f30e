import SchemaEditor.Command.Listing
import SchemaEditor.Proofs.Graph.Inheritance

/-!
# Outlines

What the section of a library looks like does not depend on facades, only on the model. An outline
of some nodes has a line for each of them and, under the first line of a node, the outline of what
is listed under it. Which nodes were expanded before is passed along, so that outlines are finite
also where contributions run in a circle. An outline stops early at a node whose line cannot be
written, because it refers to an extension point.
-/

namespace SchemaEditor.Command.Listing

open SchemaEditor.Graph (ofModelResult)
open List (Forall₂)
open Model (Exposed Forest Tidy)

variable {m : Model} {inherited : Bool} {depth : Nat} {x p : NodeId}
variable {roots seen nodes seen' : List NodeId} {lines : List String} {stop : Option NodeId}

/-! ### Lines -/

/-- The name of a node, and what it is. -/
def titleOf (m : Model) (x : NodeId) : Except Graph.Error String :=
  match m.facadeKind? x with
  | none => .error (.unsupported x)
  | some kind => do return (← ofModelResult (m.nodeName x)) ++ " [" ++ kind.label ++ "]"

/-- The mention of a node after a word, if there is one. -/
def mentionOf (m : Model) (word : String) : Option NodeId → Except Graph.Error String
  | none => .ok ""
  | some p =>
    match m.facadeKind? p with
    | none => .error (.unsupported p)
    | some _ => do return word ++ (← ofModelResult (m.nodeName p))

/-- The line of a node: what it is, whether it is mandatory, its type and its base. -/
def headlineOf (m : Model) (depth : Nat) (x : NodeId) : Except Graph.Error String := do
  let title ← titleOf m x
  let star := if (m.node? x).any (·.mandatory) then " *" else ""
  let type ← mentionOf m " -> " (m.reference? ⟨x, .type⟩)
  let base ← mentionOf m " extends " (m.reference? ⟨x, .base⟩)
  return indentation depth ++ title ++ star ++ type ++ base

/-- A line shows a node, at some depth. -/
def Heads (m : Model) (x : NodeId) (line : String) : Prop :=
  ∃ depth, headlineOf m depth x = .ok line

theorem exists_titleOf (hf : Forest m) (hx : m.Faced x) : ∃ title, titleOf m x = .ok title := by
  obtain ⟨kind, hk⟩ := hx
  obtain ⟨n, hn, -⟩ := Model.facadeKind?_eq_some_iff.mp hk
  obtain ⟨name, hname⟩ := hf.exists_nodeName hn
  exact ⟨_, by rw [titleOf, hk]; simp only [hname]; rfl⟩

/-- A reference is mentioned unless it leads to an extension point. -/
theorem mentionOf_cases (hf : Forest m) (ht : Tidy m) (word : String) (r : Usage.Reference) :
    (∃ text, mentionOf m word (m.reference? r) = .ok text) ∧
        (∀ p, m.reference? r = some p → m.Faced p) ∨
      ∃ p, mentionOf m word (m.reference? r) = .error (.unsupported p) ∧
        m.reference? r = some p ∧ ¬ m.Faced p := by
  cases hr : m.reference? r with
  | none => exact .inl ⟨⟨"", rfl⟩, nofun⟩
  | some p =>
    cases hk : m.facadeKind? p with
    | none => exact .inr ⟨p, by rw [mentionOf, hk], rfl, fun ⟨_, h⟩ => nomatch hk.symm.trans h⟩
    | some kind =>
      obtain ⟨n, hn, -⟩ := ht r p hr
      obtain ⟨name, hname⟩ := hf.exists_nodeName hn
      refine .inl ⟨⟨word ++ name, ?_⟩, fun _ h => Option.some.inj h ▸ ⟨kind, hk⟩⟩
      rw [mentionOf, hk]
      simp only [hname]
      rfl

/-- The line of a node can be written unless the node refers to an extension point. -/
theorem headlineOf_cases (hf : Forest m) (ht : Tidy m) (hx : m.Faced x) (depth : Nat) :
    (∃ line, headlineOf m depth x = .ok line) ∧
        (∀ slot p, m.reference? ⟨x, slot⟩ = some p → m.Faced p) ∨
      ∃ p slot, headlineOf m depth x = .error (.unsupported p) ∧
        m.reference? ⟨x, slot⟩ = some p ∧ ¬ m.Faced p := by
  obtain ⟨title, htitle⟩ := exists_titleOf hf hx
  rw [headlineOf, htitle, Outcome.ok_bind]
  obtain ⟨⟨type, htype⟩, hfaced⟩ | ⟨p, htype, hr, hp⟩ := mentionOf_cases hf ht " -> " ⟨x, .type⟩
  · obtain ⟨⟨base, hbase⟩, hfaced'⟩ | ⟨p, hbase, hr, hp⟩ :=
      mentionOf_cases hf ht " extends " ⟨x, .base⟩
    · refine .inl ⟨⟨_, by simp only [htype, hbase, Outcome.ok_bind]; rfl⟩, fun slot p hr => ?_⟩
      cases slot with
      | type => exact hfaced p hr
      | base => exact hfaced' p hr
    · exact .inr ⟨p, .base, by simp only [htype, hbase, Outcome.ok_bind]; rfl, hr, hp⟩
  · exact .inr ⟨p, .type, by simp only [htype]; rfl, hr, hp⟩

/-- A node with a line refers to no extension point. -/
theorem Heads.faced {line : String} (h : Heads m x line) (hf : Forest m) (ht : Tidy m)
    (hx : m.Faced x) {slot : Usage.Slot} (hr : m.reference? ⟨x, slot⟩ = some p) : m.Faced p := by
  obtain ⟨depth, hline⟩ := h
  obtain ⟨-, hfaced⟩ | ⟨_, _, herror, -⟩ := headlineOf_cases hf ht hx depth
  · exact hfaced slot p hr
  · cases hline.symm.trans herror

/-- A node whose line cannot be written refers to an extension point. -/
theorem exists_reference_of_stuck (hf : Forest m) (ht : Tidy m) (hx : m.Faced x)
    (h : headlineOf m depth x = .error (.unsupported p)) :
    ∃ slot, m.reference? ⟨x, slot⟩ = some p ∧ ¬ m.Faced p := by
  obtain ⟨⟨line, hline⟩, -⟩ | ⟨p', slot, herror, hr, hp⟩ := headlineOf_cases hf ht hx depth
  · cases hline.symm.trans h
  · cases herror.symm.trans h
    exact ⟨slot, hr, hp⟩

/-- The lines of what a node inherits, if they are asked for. -/
def Echoes (m : Model) (inherited : Bool) (depth : Nat) (x : NodeId) (lines : List String) : Prop :=
  if inherited then
    ∃ nodes, m.Inherits x nodes ∧ Forall₂ (fun y line => ∃ title, titleOf m y = .ok title ∧
      line = indentation depth ++ "  ^ " ++ title) (m.facedAmong nodes.eraseDups) lines
  else lines = []

/-! ### Outlines -/

/-- The outline of nodes at a depth, where the nodes in `seen` are expanded already. Afterwards
those in `seen'` are. If the outline stops early, then at a node that refers to the node `stop`. -/
inductive Outlines (m : Model) (inherited : Bool) :
    (depth : Nat) → (seen nodes : List NodeId) → (lines : List String) → (seen' : List NodeId) →
    (stop : Option NodeId) → Prop
  | done {depth : Nat} {seen : List NodeId} : Outlines m inherited depth seen [] [] seen none
  /-- The line of a node cannot be written. -/
  | stuck {depth : Nat} {seen rest : List NodeId} {x p : NodeId}
      (hline : headlineOf m depth x = .error (.unsupported p)) :
      Outlines m inherited depth seen (x :: rest) [] seen (some p)
  /-- A node that is expanded elsewhere gets its line only. -/
  | again {depth : Nat} {seen rest seen' : List NodeId} {x : NodeId} {line : String}
      {lines : List String} {stop : Option NodeId} (hx : x ∈ seen)
      (hline : headlineOf m depth x = .ok line)
      (hrest : Outlines m inherited depth seen rest lines seen' stop) :
      Outlines m inherited depth seen (x :: rest) (line :: lines) seen' stop
  /-- The outline stops below a node. -/
  | breakOff {depth : Nat} {seen rest seen' : List NodeId} {x p : NodeId} {line : String}
      {lines : List String} (hx : x ∉ seen) (hline : headlineOf m depth x = .ok line)
      (hparts : Outlines m inherited (depth + 1) (x :: seen) (m.listedUnder x) lines seen'
        (some p)) :
      Outlines m inherited depth seen (x :: rest) (line :: lines) seen' (some p)
  /-- A node is expanded. -/
  | expand {depth : Nat} {seen rest seen₁ seen' : List NodeId} {x : NodeId} {line : String}
      {lines lower echoes : List String} {stop : Option NodeId} (hx : x ∉ seen)
      (hline : headlineOf m depth x = .ok line)
      (hparts : Outlines m inherited (depth + 1) (x :: seen) (m.listedUnder x) lower seen₁ none)
      (hechoes : Echoes m inherited depth x echoes)
      (hrest : Outlines m inherited depth seen₁ rest lines seen' stop) :
      Outlines m inherited depth seen (x :: rest) (line :: (lower ++ echoes ++ lines)) seen' stop

namespace Outlines

/-- Nothing is expanded twice. -/
theorem nodup (h : Outlines m inherited depth seen nodes lines seen' stop) (hseen : seen.Nodup) :
    seen'.Nodup := by
  induction h with
  | done | stuck => exact hseen
  | again _ _ _ ih => exact ih hseen
  | breakOff hx _ _ ih => exact ih (List.nodup_cons.mpr ⟨hx, hseen⟩)
  | expand hx _ _ _ _ ihparts ihrest => exact ihrest (ihparts (List.nodup_cons.mpr ⟨hx, hseen⟩))

/-- The lines of the nodes that are expanded stand in the outline, in the order in which they are
expanded. -/
theorem exists_headlines (h : Outlines m inherited depth seen nodes lines seen' stop) :
    ∃ news own, seen' = news.reverse ++ seen ∧ Forall₂ (Heads m) news own ∧ own.Sublist lines := by
  induction h with
  | done | stuck => exact ⟨[], [], rfl, .nil, .slnil⟩
  | again _ _ _ ih =>
    obtain ⟨news, own, rfl, hown, hsub⟩ := ih
    exact ⟨news, own, rfl, hown, hsub.cons _⟩
  | @breakOff _ _ _ _ x _ line _ _ hline _ ih =>
    obtain ⟨news, own, rfl, hown, hsub⟩ := ih
    exact ⟨x :: news, line :: own, by simp, .cons ⟨_, hline⟩ hown, hsub.cons_cons _⟩
  | @expand _ _ _ _ _ x line _ _ _ _ _ hline _ _ _ ihparts ihrest =>
    obtain ⟨news, own, rfl, hown, hsub⟩ := ihparts
    obtain ⟨news', own', rfl, hown', hsub'⟩ := ihrest
    refine ⟨x :: (news ++ news'), line :: (own ++ own'), by simp, .cons ⟨_, hline⟩
      (List.rel_append hown hown'), ?_⟩
    exact ((hsub.trans (List.sublist_append_left ..)).append hsub').cons_cons _

theorem subset (h : Outlines m inherited depth seen nodes lines seen' stop) : seen ⊆ seen' := by
  obtain ⟨news, -, rfl, -⟩ := h.exists_headlines
  exact List.subset_append_right ..

theorem length_le (h : Outlines m inherited depth seen nodes lines seen' stop) :
    seen.length ≤ seen'.length := by
  obtain ⟨news, -, rfl, -⟩ := h.exists_headlines
  exact (List.suffix_append ..).length_le

/-- Where the outline of a node stops, that of a list beginning with the node stops. -/
theorem cons_of_stuck (h : Outlines m inherited depth seen [x] lines seen' (some p))
    (rest : List NodeId) : Outlines m inherited depth seen (x :: rest) lines seen' (some p) := by
  cases h with
  | stuck hline => exact .stuck hline
  | again _ _ hrest => cases hrest
  | breakOff hx hline hparts => exact .breakOff hx hline hparts
  | expand _ _ _ _ hrest => cases hrest

/-- The outline of a list goes on behind that of its first node. -/
theorem cons {rest seen₁ : List NodeId} {lines₁ : List String}
    (h : Outlines m inherited depth seen [x] lines₁ seen₁ none)
    (hrest : Outlines m inherited depth seen₁ rest lines seen' stop) :
    Outlines m inherited depth seen (x :: rest) (lines₁ ++ lines) seen' stop := by
  cases h with
  | again hx hline hdone =>
    cases hdone
    exact .again hx hline hrest
  | expand hx hline hparts hechoes hdone =>
    cases hdone
    simpa using Outlines.expand hx hline hparts hechoes hrest

/-- An outline of exposed nodes expands exposed nodes only. -/
theorem exposed (h : Outlines m inherited depth seen nodes lines seen' stop)
    (hseen : ∀ x ∈ seen, m.Exposed roots x) (hnodes : ∀ x ∈ nodes, m.Exposed roots x) :
    ∀ x ∈ seen', m.Exposed roots x := by
  induction h with
  | done | stuck => exact hseen
  | again _ _ _ ih => exact ih hseen fun y hy => hnodes y (List.mem_cons_of_mem _ hy)
  | breakOff _ _ _ ih =>
    have hx := hnodes _ List.mem_cons_self
    exact ih (List.forall_mem_cons.mpr ⟨hx, hseen⟩) fun _ => hx.listed
  | expand _ _ _ _ _ ihparts ihrest =>
    have hx := hnodes _ List.mem_cons_self
    have hparts := ihparts (List.forall_mem_cons.mpr ⟨hx, hseen⟩)
      fun _ => hx.listed
    exact ihrest hparts fun y hy => hnodes y (List.mem_cons_of_mem _ hy)

/-- An outline of exposed nodes stops only at an exposed node, whose line cannot be written. -/
theorem exists_stuck (h : Outlines m inherited depth seen nodes lines seen' (some p))
    (hnodes : ∀ x ∈ nodes, m.Exposed roots x) :
    ∃ x depth, m.Exposed roots x ∧ headlineOf m depth x = .error (.unsupported p) := by
  generalize hstop : some p = stop at h
  induction h with
  | done => cases hstop
  | stuck hline =>
    obtain rfl := Option.some.inj hstop
    exact ⟨_, _, hnodes _ List.mem_cons_self, hline⟩
  | again _ _ _ ih => exact ih (fun y hy => hnodes y (List.mem_cons_of_mem _ hy)) hstop
  | breakOff _ _ _ ih =>
    have hx := hnodes _ List.mem_cons_self
    exact ih (fun _ => hx.listed) hstop
  | expand _ _ _ _ _ _ ihrest =>
    exact ihrest (fun z hz => hnodes z (List.mem_cons_of_mem _ hz)) hstop

/-- An outline that does not stop early expands all its nodes. -/
theorem nodes_subset (h : Outlines m inherited depth seen nodes lines seen' none) :
    nodes ⊆ seen' := by
  generalize hstop : none = stop at h
  induction h with
  | done => exact List.nil_subset _
  | stuck | breakOff => cases hstop
  | again hx _ hrest ih => exact List.cons_subset.mpr ⟨hrest.subset hx, ih hstop⟩
  | expand _ _ hparts _ hrest _ ihrest =>
    exact List.cons_subset.mpr
      ⟨hrest.subset (hparts.subset List.mem_cons_self), ihrest hstop⟩

/-- What an outline that does not stop early has expanded, it has expanded with all that is listed
under it. -/
theorem closed (h : Outlines m inherited depth seen nodes lines seen' none) :
    ∀ x ∈ seen', x ∈ seen ∨ m.listedUnder x ⊆ seen' := by
  generalize hstop : none = stop at h
  induction h with
  | done => exact fun _ => .inl
  | stuck | breakOff => cases hstop
  | again _ _ _ ih => exact ih hstop
  | expand _ _ hparts _ hrest ihparts ihrest =>
    intro y hy
    obtain hy | hy := ihrest hstop y hy
    · obtain hy | hy := ihparts rfl y hy
      · obtain rfl | hy := List.mem_cons.mp hy
        · exact .inr (List.Subset.trans hparts.nodes_subset hrest.subset)
        · exact .inl hy
      · exact .inr (List.Subset.trans hy hrest.subset)
    · exact .inr hy

/-- The outline of the members of a library that does not stop early expands exactly what is exposed
by them. -/
theorem mem_iff (h : Outlines m inherited depth [] (m.facedAmong roots) lines seen' none) :
    x ∈ seen' ↔ m.Exposed roots x := by
  constructor
  · exact h.exposed nofun (fun _ => Exposed.of_mem_facedAmong) x
  · intro hx
    induction hx with
    | root hroot hfaced => exact h.nodes_subset (Model.mem_facedAmong.mpr ⟨hroot, hfaced⟩)
    | listed _ hlisted ih => exact (h.closed _ ih).resolve_left List.not_mem_nil hlisted

end Outlines

end SchemaEditor.Command.Listing
