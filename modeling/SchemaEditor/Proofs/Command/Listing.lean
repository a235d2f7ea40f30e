import SchemaEditor.Command.Report
import SchemaEditor.Proofs.Command.Outline
import SchemaEditor.Proofs.Session.Loaded
import SchemaEditor.Proofs.Snapshot.Faithful

/-!
# Trees of snapshots

A tree writes the outlines of its libraries, one after the other. Every level of an outline expands
another node, so that the fuel of a tree, one unit for each node, is never used up.
-/

namespace SchemaEditor

namespace Graph

open Outcome (bind_ok bind_error)

variable {g : Graph} {f : FacadeId} {x p : NodeId} {kind : Facade.Kind}

/-- Asking for what a facade refers to: there may be nothing, an extension point or a facade. -/
theorem slotFacade?_cases (hg : Managed g) (ht : Model.Tidy g.model) (hf : g.Stands f x)
    (slot : Usage.Slot) :
    (g.model.reference? ⟨x, slot⟩ = none ∧ slotFacade? f slot g = .ok none g) ∨
      ∃ p, g.model.reference? ⟨x, slot⟩ = some p ∧
        (g.model.facadeKind? p = none ∧ slotFacade? f slot g = .error (.unsupported p) g ∨
          ∃ kind id g', g.model.facadeKind? p = some kind ∧
            slotFacade? f slot g = .ok (some id) g' ∧ Evolves IsRegister g g' ∧
            g'.facades.entry? id = some ⟨p, kind⟩) := by
  obtain ⟨kind, he⟩ := hf
  have hnode : ask (·.nodeOf f) g = .ok x g := ask_of_ok (nodeOf_of_entry he)
  have hget : (get : Edit Graph) g = .ok g g := rfl
  have hprovider := hg.usage.assigned ⟨x, slot⟩
  cases hr : g.model.reference? ⟨x, slot⟩ with
  | none =>
    refine .inl ⟨rfl, ?_⟩
    rw [slotFacade?, bind_ok hnode, bind_ok hget]
    simp only [hprovider, hr]
    rfl
  | some p =>
    have hask : slotFacade? f slot g = (facadeFor p >>= fun id => pure (some id)) g := by
      rw [slotFacade?, bind_ok hnode, bind_ok hget]
      simp only [hprovider, hr]
    refine .inr ⟨p, rfl, ?_⟩
    cases hk : g.model.facadeKind? p with
    | none =>
      obtain ⟨n, hn, -⟩ := ht _ p hr
      exact .inl ⟨rfl, hask.trans (bind_error (facadeFor_of_faceless hg ⟨n, hn⟩ hk))⟩
    | some kind =>
      obtain ⟨id, g', hrun, hev, he⟩ := facadeFor_eq hg hk
      exact .inr ⟨kind, id, g', rfl, hask.trans (bind_ok hrun),
        hev.mono fun _ _ hc => ⟨p, hc⟩, he⟩

end Graph

namespace Command.Listing

open SchemaEditor.Graph (Evolves IsRegister Managed)
open List (Forall₂)
open Model (Tidy)
open Outcome (bind_ok bind_error)

variable {m : Model} {inherited : Bool} {depth : Nat} {l l' : Listing} {g : Graph} {f : FacadeId}
variable {x p : NodeId} {seen nodes : List NodeId}

/-! ### Single lines -/

theorem edit_of_ok {α : Type} {e : Graph.Edit α} {a : α} (h : e l.graph = .ok a g) :
    edit e l = .ok a { l with graph := g } := by
  rw [edit, h]

theorem edit_of_error {α : Type} {e : Graph.Edit α} {err : Graph.Error}
    (h : e l.graph = .error err g) : edit e l = .error err { l with graph := g } := by
  rw [edit, h]

theorem ask_of_ok {α : Type} {query : Graph → Except Graph.Error α} {a : α}
    (h : query l.graph = .ok a) : ask query l = .ok a l :=
  edit_of_ok (Graph.ask_of_ok h)

theorem ask_of_error {α : Type} {query : Graph → Except Graph.Error α} {err : Graph.Error}
    (h : query l.graph = .error err) : ask query l = .error err l :=
  edit_of_error (Graph.ask_of_error h)

theorem describe_of_stands (hg : Managed g) (hf : g.Stands f x) :
    describe g f = titleOf g.model x := by
  obtain ⟨kind, he⟩ := hf
  rw [describe, Graph.name, Graph.nodeOf_of_entry he, Outcome.ok_bind, Graph.kind_of_entry he,
    titleOf, hg.facades.known he]
  rfl

/-- A type or a base is mentioned as the node says. -/
theorem mention_slot (hg : Managed l.graph) (ht : Tidy l.graph.model) (hf : l.graph.Stands f x)
    (word : String) (slot : Usage.Slot) :
    ∃ g', Evolves IsRegister l.graph g' ∧ ∀ {α : Type} (k : String → Step α),
      (do k (← mention word (← edit (Graph.slotFacade? f slot)))) l =
        match mentionOf l.graph.model word (l.graph.model.reference? ⟨x, slot⟩) with
        | .ok text => k text { l with graph := g' }
        | .error err => .error err { l with graph := g' } := by
  obtain ⟨hr, hrun⟩ | ⟨p, hr, ⟨hk, hrun⟩ | ⟨kind, id, g', hk, hrun, hev, he⟩⟩ :=
    Graph.slotFacade?_cases hg ht hf slot
  · refine ⟨l.graph, .refl, fun k => ?_⟩
    rw [bind_ok (edit_of_ok hrun), hr]
    rfl
  · refine ⟨l.graph, .refl, fun k => ?_⟩
    rw [bind_error (edit_of_error hrun), hr, mentionOf, hk]
  · refine ⟨g', hev, fun k => ?_⟩
    rw [bind_ok (edit_of_ok hrun), hr, mentionOf, hk, mention, ← hev.model_eq, bind_assoc]
    have hname : g'.name id = Graph.ofModelResult (g'.model.nodeName p) := by
      rw [Graph.name, Graph.nodeOf_of_entry he]
      rfl
    cases h : Graph.ofModelResult (g'.model.nodeName p) with
    | ok name => rw [bind_ok (ask_of_ok (hname.trans h))]; rfl
    | error err => rw [bind_error (ask_of_error (hname.trans h))]; rfl

/-- The line of a facade is that of its node. -/
theorem headline_eq (hg : Managed l.graph) (ht : Tidy l.graph.model) (hf : l.graph.Stands f x)
    (depth : Nat) :
    ∃ g', Evolves IsRegister l.graph g' ∧
      headline depth f l =
        match headlineOf l.graph.model depth x with
        | .ok line => .ok line { l with graph := g' }
        | .error err => .error err { l with graph := g' } := by
  obtain ⟨n, kind, hn, -, he⟩ := hf.entry hg
  have hmandatory : l.graph.isMandatory f = .ok ((l.graph.model.node? x).any (·.mandatory)) := by
    rw [Graph.isMandatory, Graph.content_of_entry he hn, hn]
    rfl
  obtain ⟨title, hx⟩ := exists_titleOf hg.forest (hf.faced hg)
  rw [headline, bind_ok (ask_of_ok ((describe_of_stands hg hf).trans hx)),
    bind_ok (ask_of_ok hmandatory), headlineOf, hx, Outcome.ok_bind, Graph.assignedType?,
    Graph.baseType?]
  obtain ⟨g₁, hev₁, htype⟩ := mention_slot hg ht hf " -> " .type
  obtain ⟨g₂, hev₂, hbase⟩ := mention_slot (l := { l with graph := g₁ }) (hev₁.managed hg)
    (hev₁.model_eq ▸ ht) (hf.of_evolves hev₁) " extends " .base
  rw [htype]
  cases h₁ : mentionOf l.graph.model " -> " (l.graph.model.reference? ⟨x, .type⟩) with
  | error err => exact ⟨g₁, hev₁, rfl⟩
  | ok type =>
    refine ⟨g₂, hev₁.trans hev₂, ?_⟩
    simp only [hbase, hev₁.model_eq, Outcome.ok_bind]
    cases mentionOf l.graph.model " extends " (l.graph.model.reference? ⟨x, .base⟩) <;> rfl

theorem forM_showInherited {fs : List FacadeId} {nodes : List NodeId} (hg : Managed l.graph)
    (hfs : Forall₂ l.graph.Stands fs nodes) (depth : Nat) :
    ∃ lines, fs.forM (showInherited depth) l = .ok () { l with lines := lines.reverse ++ l.lines } ∧
      Forall₂ (fun y line => ∃ title, titleOf l.graph.model y = .ok title ∧
        line = indentation depth ++ "  ^ " ++ title) nodes lines := by
  induction fs generalizing nodes l with
  | nil =>
    cases hfs
    exact ⟨[], rfl, .nil⟩
  | cons f fs ih =>
    cases hfs with | @cons _ x _ nodes hf hfs =>
    obtain ⟨title, htitle⟩ := exists_titleOf hg.forest (hf.faced hg)
    have hline : showInherited depth f l = .ok () { l with
        lines := (indentation depth ++ "  ^ " ++ title) :: l.lines } := by
      rw [showInherited, bind_ok (ask_of_ok ((describe_of_stands hg hf).trans htitle))]
      rfl
    obtain ⟨lines, hrun, htitles⟩ := ih (l := { l with
      lines := (indentation depth ++ "  ^ " ++ title) :: l.lines }) hg hfs
    refine ⟨_ :: lines, ?_, .cons ⟨title, htitle, rfl⟩ htitles⟩
    show (showInherited depth f >>= fun _ => fs.forM (showInherited depth)) l = _
    rw [bind_ok hline, hrun]
    simp

/-! ### Outlines -/

/-- A listing over a model, with the facades of certain nodes expanded. -/
structure Over (m : Model) (seen : List NodeId) (l : Listing) : Prop where
  managed : Managed l.graph
  model_eq : l.graph.model = m
  tidy : Tidy m
  expanded : Forall₂ l.graph.Stands l.expanded seen
  nodup : seen.Nodup

namespace Over

theorem of_evolves (h : Over m seen l) (hev : Evolves IsRegister l.graph g) (lines : List String) :
    Over m seen ⟨g, l.expanded, lines⟩ :=
  ⟨hev.managed h.managed, hev.model_eq.trans h.model_eq, h.tidy,
    h.expanded.imp fun _ _ hf => hf.of_evolves hev, h.nodup⟩

theorem expand (h : Over m seen l) (hf : l.graph.Stands f x) (hx : x ∉ seen) :
    Over m (x :: seen) { l with expanded := f :: l.expanded } :=
  ⟨h.managed, h.model_eq, h.tidy, .cons hf h.expanded, List.nodup_cons.mpr ⟨hx, h.nodup⟩⟩

/-- If there are no more nodes than expanded ones, everything is expanded. -/
theorem mem_of_size_le (h : Over m seen l) (hle : m.nodes.size ≤ seen.length)
    (hf : l.graph.Stands f x) : x ∈ seen := by
  have hexist : ∀ {f y}, l.graph.Stands f y → ∃ n, m.node? y = some n := fun hf => by
    obtain ⟨n, -, hn, -⟩ := hf.entry h.managed
    exact ⟨n, h.model_eq ▸ hn⟩
  obtain ⟨n, hn⟩ := hexist hf
  refine Model.mem_of_size_le h.nodup (fun y hy => ?_) hle hn
  obtain ⟨f', -, hf'⟩ := exists_left_of_mem h.expanded hy
  exact hexist hf'

theorem mem_expanded_iff (h : Over m seen l) (hf : l.graph.Stands f x) :
    f ∈ l.expanded ↔ x ∈ seen :=
  (List.rel_mem (Graph.Stands.biUnique h.managed) hf h.expanded)

end Over

/-- The end of a step that may have stopped. -/
def ended (stop : Option NodeId) (l : Listing) : EStateM.Result Graph.Error Listing Unit :=
  match stop with
  | none => .ok () l
  | some p => .error (.unsupported p) l

/-- A step writes the outline of some nodes. -/
def Draws (m : Model) (inherited : Bool) (depth : Nat) (seen nodes : List NodeId) (l : Listing)
    (r : EStateM.Result Graph.Error Listing Unit) : Prop :=
  ∃ lines seen' stop l', r = ended stop l' ∧
    Outlines m inherited depth seen nodes lines seen' stop ∧ Over m seen' l' ∧
    Evolves IsRegister l.graph l'.graph ∧ l'.lines = lines.reverse ++ l.lines

/-- A step shows every facade, as soon as so many nodes are expanded. -/
def DrawsEach (m : Model) (inherited : Bool) (depth bound : Nat) (step : FacadeId → Step Unit) :
    Prop :=
  ∀ {l seen f x}, Over m seen l → bound ≤ seen.length → l.graph.Stands f x →
    Draws m inherited depth seen [x] l (step f l)

/-- Facades are shown one after the other, up to the first that stops. -/
theorem draws_forM {step : FacadeId → Step Unit} {bound : Nat} {fs : List FacadeId}
    (hstep : DrawsEach m inherited depth bound step) (h : Over m seen l)
    (hbound : bound ≤ seen.length) (hfs : Forall₂ l.graph.Stands fs nodes) :
    Draws m inherited depth seen nodes l (fs.forM step l) := by
  induction fs generalizing nodes l seen with
  | nil =>
    cases hfs
    exact ⟨[], seen, none, l, rfl, .done, h, .refl, rfl⟩
  | cons f fs ih =>
    cases hfs with | @cons _ x _ nodes hf hfs =>
    obtain ⟨lines₁, seen₁, stop, l₁, hrun, houtline, hover, hev, hlines⟩ := hstep h hbound hf
    show Draws m inherited depth seen (x :: nodes) l ((step f >>= fun _ => fs.forM step) l)
    cases stop with
    | some p =>
      exact ⟨lines₁, seen₁, some p, l₁, bind_error hrun, houtline.cons_of_stuck nodes, hover, hev,
        hlines⟩
    | none =>
      obtain ⟨lines, seen', stop, l', hrun', hrest, hover', hev', hlines'⟩ :=
        ih hover (Nat.le_trans hbound houtline.length_le) (hfs.imp fun _ _ hf => hf.of_evolves hev)
      refine ⟨lines₁ ++ lines, seen', stop, l', (bind_ok hrun).trans hrun', houtline.cons hrest,
        hover', hev.trans hev', ?_⟩
      rw [hlines', hlines, List.reverse_append, List.append_assoc]

/-- The line of a facade is written, or the line cannot be written. -/
theorem print_headline (h : Over m seen l) (hf : l.graph.Stands f x) (depth : Nat) :
    (∃ line g', (do print (← headline depth f)) l = .ok () ⟨g', l.expanded, line :: l.lines⟩ ∧
      headlineOf m depth x = .ok line ∧ Evolves IsRegister l.graph g') ∨
    ∃ p g', (do print (← headline depth f)) l = .error (.unsupported p) { l with graph := g' } ∧
      headlineOf m depth x = .error (.unsupported p) ∧ Evolves IsRegister l.graph g' := by
  obtain ⟨hg, rfl, ht, -, -⟩ := h
  obtain ⟨g', hev, hrun⟩ := headline_eq hg ht hf depth
  obtain ⟨⟨line, hline⟩, -⟩ | ⟨p, -, hline, -⟩ := headlineOf_cases hg.forest ht (hf.faced hg) depth
  · rw [hline] at hrun
    exact .inl ⟨line, g', bind_ok hrun, hline, hev⟩
  · rw [hline] at hrun
    exact .inr ⟨p, g', bind_error hrun, hline, hev⟩

/-- The lines of what a facade inherits are written, if they are asked for. -/
theorem exists_echoes (h : Over m seen l) (hf : l.graph.Stands f x) (inherited : Bool)
    (depth : Nat) :
    ∃ echoes g', (do
        if inherited then
          let fromBases ← edit (Graph.inheritedChildren f)
          fromBases.forM (showInherited depth) : Step Unit) l =
      .ok () ⟨g', l.expanded, echoes.reverse ++ l.lines⟩ ∧
      Echoes m inherited depth x echoes ∧ Evolves IsRegister l.graph g' := by
  cases inherited with
  | false => exact ⟨[], l.graph, rfl, rfl, .refl⟩
  | true =>
    obtain ⟨hg, rfl, -, -, -⟩ := h
    obtain ⟨ids, g', nodes, hrun, hev, hinherits, hids⟩ := Graph.exists_inheritedChildren hg hf
    obtain ⟨echoes, hshow, htitles⟩ := forM_showInherited (l := { l with graph := g' })
      (hev.managed hg) hids depth
    rw [hev.model_eq] at htitles
    exact ⟨echoes, g', (bind_ok (edit_of_ok hrun)).trans hshow, ⟨nodes, hinherits, htitles⟩, hev⟩

/-- What is listed under a facade is shown below its line, and then, unless that stops, what it
inherits. -/
theorem exists_parts {step : FacadeId → Step Unit} {bound : Nat}
    (hstep : DrawsEach m inherited (depth + 1) bound step) (h : Over m seen l)
    (hbound : bound ≤ seen.length) (hf : l.graph.Stands f x) :
    ∃ lines seen' stop l', (do
        let children ← edit (Graph.children f)
        children.forM step
        if inherited then
          let fromBases ← edit (Graph.inheritedChildren f)
          fromBases.forM (showInherited depth) : Step Unit) l = ended stop l' ∧
      Over m seen' l' ∧ Evolves IsRegister l.graph l'.graph ∧
      l'.lines = lines.reverse ++ l.lines ∧
      ((∃ p, stop = some p ∧
          Outlines m inherited (depth + 1) seen (m.listedUnder x) lines seen' (some p)) ∨
        stop = none ∧ ∃ lower echoes, lines = lower ++ echoes ∧
          Outlines m inherited (depth + 1) seen (m.listedUnder x) lower seen' none ∧
          Echoes m inherited depth x echoes) := by
  obtain ⟨ids, g₁, hrun, hev, hids⟩ := Graph.exists_children h.managed hf
  rw [h.model_eq] at hids
  obtain ⟨lower, seen', stop, l₂, hshow, houtline, h₂, hev₂, hlines⟩ :=
    draws_forM hstep (h.of_evolves hev l.lines) hbound hids
  rw [bind_ok (edit_of_ok hrun)]
  cases stop with
  | some p =>
    rw [bind_error hshow]
    exact ⟨lower, seen', some p, l₂, rfl, h₂, hev.trans hev₂, hlines, .inl ⟨p, rfl, houtline⟩⟩
  | none =>
    obtain ⟨echoes, g₃, hecho, hechoes, hev₃⟩ :=
      exists_echoes h₂ (hf.of_evolves (hev.trans hev₂)) inherited depth
    rw [bind_ok hshow, hecho]
    refine ⟨lower ++ echoes, seen', none, _, rfl, h₂.of_evolves hev₃ _,
      (hev.trans hev₂).trans hev₃, ?_, .inr ⟨rfl, lower, echoes, rfl, houtline, hechoes⟩⟩
    simp [hlines]

theorem showFacade_succ (inherited : Bool) (fuel depth : Nat) (f : FacadeId) :
    showFacade inherited (fuel + 1) depth f = (do
      (do print (← headline depth f))
      if ← expandOnce f then
        let children ← edit (Graph.children f)
        children.forM (showFacade inherited fuel (depth + 1))
        if inherited then
          let fromBases ← edit (Graph.inheritedChildren f)
          fromBases.forM (showInherited depth)) := by
  rw [showFacade, bind_assoc]

/-- With fuel for all the nodes that are not expanded yet, a facade is shown in full, up to where it
stops. -/
theorem draws_showFacade (m : Model) (inherited : Bool) (fuel depth : Nat) :
    DrawsEach m inherited depth (m.nodes.size - fuel) (showFacade inherited fuel depth) := by
  intro l seen f x h hfuel hf
  induction fuel generalizing depth seen l f x with
  | zero =>
    obtain ⟨line, g', hrun, hline, hev⟩ | ⟨p, g', hrun, hline, hev⟩ := print_headline h hf depth
    · have hx : x ∈ seen := h.mem_of_size_le hfuel hf
      exact ⟨[line], seen, none, _, hrun, .again hx hline .done, h.of_evolves hev _, hev, rfl⟩
    · exact ⟨[], seen, some p, _, hrun, .stuck hline, h.of_evolves hev _, hev, rfl⟩
  | succ fuel ih =>
    rw [showFacade_succ]
    obtain ⟨line, g₁, hrun, hline, hev⟩ | ⟨p, g₁, hrun, hline, hev⟩ := print_headline h hf depth
    · have h₁ := h.of_evolves hev (line :: l.lines)
      have hf₁ : g₁.Stands f x := hf.of_evolves hev
      rw [bind_ok hrun]
      by_cases hx : x ∈ seen
      · have hold : expandOnce f ⟨g₁, l.expanded, line :: l.lines⟩ = .ok false _ :=
          if_pos (List.contains_iff_mem.mpr ((h₁.mem_expanded_iff hf₁).mpr hx))
        rw [bind_ok hold]
        exact ⟨[line], seen, none, _, rfl, .again hx hline .done, h₁, hev, rfl⟩
      · have hnew : expandOnce f ⟨g₁, l.expanded, line :: l.lines⟩ =
            .ok true ⟨g₁, f :: l.expanded, line :: l.lines⟩ :=
          if_neg (by simpa using (h₁.mem_expanded_iff hf₁).not.mpr hx)
        rw [bind_ok hnew]
        obtain ⟨lines, seen', stop, l', hparts, hover, hev', hlines, hcases⟩ :=
          exists_parts (ih _) (h₁.expand hf₁ hx) (by rw [List.length_cons]; omega) hf₁
        refine ⟨line :: lines, seen', stop, l', hparts, ?_, hover, hev.trans hev', ?_⟩
        · obtain ⟨p, rfl, houtline⟩ | ⟨rfl, lower, echoes, rfl, houtline, hechoes⟩ := hcases
          · exact .breakOff hx hline houtline
          · simpa using Outlines.expand hx hline houtline hechoes .done
        · rw [hlines, List.reverse_cons, List.append_assoc]
          rfl
    · rw [bind_error hrun]
      exact ⟨[], seen, some p, _, rfl, .stuck hline, h.of_evolves hev _, hev, rfl⟩

/-! ### Sections -/

/-- The title of a library: its name, its version and how far it can be edited. -/
def titleLine (m : Model) (v : Versioning) (entry : LibraryId × Library) : String :=
  entry.2.name ++ " " ++ entry.2.version.text ++
    " (" ++ (v.editability m entry.1).description ++ ")"

/-- The section of a library is its title and the outline of its members. It expands nothing twice,
and has a line for everything that it expands. -/
structure Section (m : Model) (v : Versioning) (inherited : Bool) (entry : LibraryId × Library)
    (lines : List String) (expanded : List NodeId) (stop : Option NodeId) : Prop where
  outline : ∃ body, lines = titleLine m v entry :: body ∧
    Outlines m inherited 1 [] (m.facedAmong entry.2.members) body expanded stop
  once : expanded.Nodup
  headed : ∃ own, Forall₂ (Heads m) expanded.reverse own ∧ own.Sublist lines

theorem Section.of_outline {v : Versioning} {entry : LibraryId × Library} {body : List String}
    {expanded : List NodeId} {stop : Option NodeId}
    (h : Outlines m inherited 1 [] (m.facedAmong entry.2.members) body expanded stop) :
    Section m v inherited entry (titleLine m v entry :: body) expanded stop := by
  refine ⟨⟨body, rfl, h⟩, h.nodup .nil, ?_⟩
  obtain ⟨news, own, rfl, hown, hsub⟩ := h.exists_headlines
  exact ⟨own, by simpa using hown, hsub.cons _⟩

/-- The sections of libraries, up to the first one that stops. -/
inductive Prints (m : Model) (v : Versioning) (inherited : Bool) :
    List (LibraryId × Library) → List String → Option NodeId → Prop
  | done : Prints m v inherited [] [] none
  | stuck {entry : LibraryId × Library} {rest : List (LibraryId × Library)} {part : List String}
      {expanded : List NodeId} {p : NodeId}
      (h : Section m v inherited entry part expanded (some p)) :
      Prints m v inherited (entry :: rest) part (some p)
  | next {entry : LibraryId × Library} {rest : List (LibraryId × Library)}
      {part lines : List String} {expanded : List NodeId} {stop : Option NodeId}
      (h : Section m v inherited entry part expanded none)
      (hrest : Prints m v inherited rest lines stop) :
      Prints m v inherited (entry :: rest) (part ++ lines) stop

namespace Prints

variable {v : Versioning} {entries : List (LibraryId × Library)} {lines : List String}
variable {stop : Option NodeId}

theorem exists_section (h : Prints m v inherited entries lines stop) (hstop : stop = none)
    {entry : LibraryId × Library} (hentry : entry ∈ entries) :
    ∃ part expanded, Section m v inherited entry part expanded none ∧ part <:+: lines := by
  induction h with
  | done => cases hentry
  | stuck => cases hstop
  | next h _ ih =>
    obtain rfl | hentry := List.mem_cons.mp hentry
    · exact ⟨_, _, h, (List.prefix_append ..).isInfix⟩
    · obtain ⟨part, expanded, hpart, hinfix⟩ := ih hstop hentry
      exact ⟨part, expanded, hpart, hinfix.trans (List.suffix_append ..).isInfix⟩

theorem exists_stuck (h : Prints m v inherited entries lines stop) (hstop : stop = some p) :
    ∃ entry ∈ entries, ∃ part expanded, Section m v inherited entry part expanded (some p) := by
  induction h with
  | done => cases hstop
  | stuck h =>
    obtain rfl := Option.some.inj hstop
    exact ⟨_, List.mem_cons_self, _, _, h⟩
  | next _ _ ih =>
    obtain ⟨entry, hentry, hpart⟩ := ih hstop
    exact ⟨entry, List.mem_cons_of_mem _ hentry, hpart⟩

end Prints

theorem exists_showLibrary {id : LibraryId} {lib : Library} (hg : Managed l.graph)
    (hs : Model.Shelved l.graph.model) (ht : Tidy l.graph.model)
    (hlib : l.graph.model.library? id = some lib) (inherited : Bool) :
    ∃ lines expanded stop l', showLibrary inherited id lib l = ended stop l' ∧
      Section l.graph.model l.graph.versioning inherited (id, lib) lines expanded stop ∧
      Evolves IsRegister l.graph l'.graph ∧ l'.lines = lines.reverse ++ l.lines := by
  obtain ⟨ids, g₁, hrun, hev, hids⟩ := Graph.exists_members hg hs hlib
  let title := titleLine l.graph.model l.graph.versioning (id, lib)
  have hstart : Over l.graph.model [] ⟨g₁, [], title :: l.lines⟩ :=
    ⟨hev.managed hg, hev.model_eq, ht, .nil, .nil⟩
  obtain ⟨body, expanded, stop, l', hshow, houtline, -, hev', hlines⟩ :=
    draws_forM (draws_showFacade _ inherited l.graph.model.nodes.size 1) hstart (by simp) hids
  refine ⟨title :: body, expanded, stop, l', ?_, .of_outline houtline, hev.trans hev', ?_⟩
  · exact (bind_ok (edit_of_ok (l := { l with lines := title :: l.lines }) hrun)).trans hshow
  · rw [hlines, List.reverse_cons, List.append_assoc]
    rfl

theorem mem_shownLibraries {noBuiltins : Bool} {id : LibraryId} {lib : Library} :
    (id, lib) ∈ shownLibraries noBuiltins m ↔
      m.library? id = some lib ∧ (noBuiltins && lib.builtin) = false := by
  obtain ⟨i⟩ := id
  cases noBuiltins <;> simp [shownLibraries, Model.library?, List.mk_mem_zipIdx_iff_getElem?]

/-- The libraries of a list are shown one after the other, up to the first one that stops. -/
theorem exists_prints {entries : List (LibraryId × Library)} (hg : Managed l.graph)
    (hs : Model.Shelved l.graph.model) (ht : Tidy l.graph.model)
    (hentries : ∀ entry ∈ entries, l.graph.model.library? entry.1 = some entry.2)
    (inherited : Bool) :
    ∃ lines stop l', (entries.forM fun (id, lib) => showLibrary inherited id lib) l =
        ended stop l' ∧
      Prints l.graph.model l.graph.versioning inherited entries lines stop ∧
      l'.lines = lines.reverse ++ l.lines := by
  induction entries generalizing l with
  | nil => exact ⟨[], none, l, rfl, .done, rfl⟩
  | cons entry rest ih =>
    obtain ⟨part, expanded, stop, l₁, hrun, hpart, hev, hlines⟩ :=
      exists_showLibrary hg hs ht (hentries entry List.mem_cons_self) inherited
    cases stop with
    | some p => exact ⟨part, some p, l₁, bind_error hrun, .stuck hpart, hlines⟩
    | none =>
      obtain ⟨lines, stop, l', hrun', hrest, hlines'⟩ := ih (hev.managed hg) (hev.model_eq ▸ hs)
        (hev.model_eq ▸ ht)
        fun entry hentry => hev.model_eq ▸ hentries entry (List.mem_cons_of_mem _ hentry)
      rw [hev.model_eq, hev.versioning_eq] at hrest
      refine ⟨part ++ lines, stop, l', (bind_ok hrun).trans hrun', .next hpart hrest, ?_⟩
      rw [hlines', hlines, List.reverse_append, List.append_assoc]

/-- The tree of a graph, and why it breaks off. -/
theorem exists_ofGraph (hg : Managed g) (hs : Model.Shelved g.model) (ht : Tidy g.model)
    (noBuiltins inherited : Bool) :
    ∃ lines stop, ofGraph noBuiltins inherited g = (lines, stop.map .unsupported) ∧
      Prints g.model g.versioning inherited (shownLibraries noBuiltins g.model) lines stop := by
  obtain ⟨lines, stop, l', hrun, hprints, hlines⟩ :=
    exists_prints (l := ⟨g, [], []⟩) hg hs ht
      (fun entry (hentry : entry ∈ shownLibraries noBuiltins g.model) =>
        (mem_shownLibraries.mp hentry).1) inherited
  refine ⟨lines, stop, ?_, hprints⟩
  rw [ofGraph, show showModel noBuiltins inherited ⟨g, [], []⟩ = ended stop l' from hrun]
  cases stop <;> simp [ended, hlines]

namespace Prints

variable {v : Versioning} {entries : List (LibraryId × Library)} {lines : List String}
variable {stop : Option NodeId}

/-- Sections stop only where something that is exposed refers to an extension point. -/
theorem exists_reference (h : Prints m v inherited entries lines (some p)) (hf : Model.Forest m)
    (ht : Tidy m) :
    ¬ m.Faced p ∧ ∃ entry ∈ entries, ∃ x slot, m.Exposed entry.2.members x ∧
      m.reference? ⟨x, slot⟩ = some p := by
  obtain ⟨entry, hentry, part, expanded, hpart⟩ := h.exists_stuck rfl
  obtain ⟨body, -, houtline⟩ := hpart.outline
  obtain ⟨x, depth, hx, herror⟩ :=
    houtline.exists_stuck fun _ => Model.Exposed.of_mem_facedAmong
  obtain ⟨slot, hr, hp⟩ := exists_reference_of_stuck hf ht hx.faced herror
  exact ⟨hp, entry, hentry, x, slot, hx, hr⟩

/-- If no section stops, nothing that is exposed refers to an extension point. -/
theorem faced (h : Prints m v inherited entries lines none) (hf : Model.Forest m) (ht : Tidy m)
    {entry : LibraryId × Library} (hentry : entry ∈ entries) (hx : m.Exposed entry.2.members x)
    {slot : Usage.Slot} (hr : m.reference? ⟨x, slot⟩ = some p) : m.Faced p := by
  obtain ⟨part, expanded, hpart, -⟩ := h.exists_section rfl hentry
  obtain ⟨body, -, houtline⟩ := hpart.outline
  obtain ⟨own, hown, -⟩ := hpart.headed
  obtain ⟨line, -, hline⟩ :=
    exists_right_of_mem hown (List.mem_reverse.mpr (houtline.mem_iff.mpr hx))
  exact hline.faced hf ht hx.faced hr

theorem eq_none_iff (h : Prints m v inherited entries lines stop) (hf : Model.Forest m)
    (ht : Tidy m) :
    stop = none ↔ ∀ entry ∈ entries, ∀ x, m.Exposed entry.2.members x →
      ∀ slot p, m.reference? ⟨x, slot⟩ = some p → m.Faced p := by
  cases stop with
  | none =>
    exact iff_of_true rfl fun entry hentry x hx slot p => h.faced hf ht hentry hx
  | some p =>
    refine iff_of_false nofun fun hall => ?_
    obtain ⟨hp, entry, hentry, x, slot, hx, hr⟩ := h.exists_reference hf ht
    exact hp (hall entry hentry x hx slot p hr)

end Prints

/-- The tree of a loaded snapshot breaks off exactly if something that it would show refers to an
extension point, and with the complaint that this has no facade. If nothing does, every section
shows just what is exposed by the members of its library, among it all supported nodes of the
library. -/
theorem shows_supported_unless_stuck {snapshot : Snapshot} {loaded : Snapshot.Loaded}
    (h : snapshot.load = .ok loaded) (v : Versioning) :
    ∃ g, Graph.ofModel loaded.model v = .ok g ∧
      ∀ w : Workspace, w.session.graph = g → ∀ noBuiltins inherited, ∃ lines stop,
        treeReport w noBuiltins inherited =
            ⟨lines, [], stop.map fun p => .graph (.unsupported p)⟩ ∧
          Prints loaded.model v inherited (shownLibraries noBuiltins loaded.model) lines stop ∧
          (stop = none ↔ ∀ entry ∈ shownLibraries noBuiltins loaded.model,
            ∀ x, loaded.model.Exposed entry.2.members x →
              ∀ slot p, loaded.model.reference? ⟨x, slot⟩ = some p → loaded.model.Faced p) ∧
          (∀ p, stop = some p → ¬ loaded.model.Faced p ∧
            ∃ entry ∈ shownLibraries noBuiltins loaded.model,
              ∃ x slot, loaded.model.Exposed entry.2.members x ∧
                loaded.model.reference? ⟨x, slot⟩ = some p) ∧
          (stop = none → ∀ entry ∈ shownLibraries noBuiltins loaded.model, ∃ part expanded,
            Section loaded.model v inherited entry part expanded none ∧ part <:+: lines ∧
              (∀ x, x ∈ expanded ↔ loaded.model.Exposed entry.2.members x) ∧
              ∀ x n, loaded.model.node? x = some n → n.library = entry.1 →
                loaded.model.Supported x → x ∈ expanded) := by
  obtain ⟨g, hgraph, hmodel, rfl, hsound⟩ := Session.exists_sound_of_load h v
  have hw := Snapshot.whole_of_load h
  refine ⟨g, hgraph, ?_⟩
  rintro w rfl noBuiltins inherited
  obtain ⟨lines, stop, hrun, hprints⟩ :=
    exists_ofGraph hsound.managed hsound.shelved hsound.tidy noBuiltins inherited
  simp only [show (Session.ofGraph w.session.graph).graph = w.session.graph from rfl, hmodel]
    at hrun hprints
  refine ⟨lines, stop, ?_, hprints, hprints.eq_none_iff hw.forest hw.tidy, ?_, ?_⟩
  · rw [treeReport, hrun]
    cases stop <;> rfl
  · rintro p rfl
    exact hprints.exists_reference hw.forest hw.tidy
  · rintro rfl entry hentry
    obtain ⟨part, expanded, hpart, hinfix⟩ := hprints.exists_section rfl hentry
    obtain ⟨body, -, houtline⟩ := hpart.outline
    refine ⟨part, expanded, hpart, hinfix, fun x => houtline.mem_iff, fun x n hn hlib hx => ?_⟩
    obtain ⟨hl, -⟩ := mem_shownLibraries.mp hentry
    exact houtline.mem_iff.mpr (.of_supported hw.forest hw.shelved hn (hw.attached hn)
      (hlib ▸ hl) hx)

end Command.Listing

namespace Snapshot

open Command (Workspace treeReport Listing.Prints Listing.shownLibraries
  Listing.shows_supported_unless_stuck)

/-- The tree of the two facets that contribute into each other does not break off, as nothing refers
to the extension point beside them. -/
theorem shows_notesInCircle :
    ∃ loaded g, notesInCircle.load = .ok loaded ∧
      Graph.ofModel loaded.model (.chain none) = .ok g ∧
      ∀ w : Workspace, w.session.graph = g → ∃ lines, treeReport w false true = ⟨lines, [], none⟩ ∧
        Listing.Prints loaded.model (.chain none) true (Listing.shownLibraries false loaded.model)
          lines none := by
  obtain ⟨loaded, h, hnone⟩ := exists_loaded (s := notesInCircle)
    (p := fun loaded => loaded.model.nodes.all fun n => decide (n.typeRef = none ∧ n.base = none))
    (by decide +kernel)
  obtain ⟨g, hgraph, hshows⟩ := Listing.shows_supported_unless_stuck h (.chain none)
  refine ⟨loaded, g, h, hgraph, fun w hw => ?_⟩
  obtain ⟨lines, stop, hrun, hprints, hiff, -⟩ := hshows w hw false true
  have hstop : stop = none := hiff.mpr fun entry _ x _ slot p hr => by
    obtain ⟨n, hn, -, hreference⟩ := Model.reference?_eq_some_iff.mp hr
    obtain ⟨htype, hbase⟩ := of_decide_eq_true
      (Array.all_eq_true_iff_forall_mem.mp hnone n (Array.mem_of_getElem? hn))
    cases slot with
    | type => cases htype.symm.trans hreference
    | base => cases hbase.symm.trans hreference
  subst hstop
  exact ⟨lines, hrun, hprints⟩

/-- An extension point, and a value whose type it is. -/
def pricedByExtension : Snapshot :=
  shop
    [{ Member.object "Spare" none [] with
      kind := .extensionPoint
      facets := .empty },
    { Member.object "Price" none [] with
      kind := .member .valueWithAttributes
      typeKey := some "Spare"
      facets := .empty }]

/-- The tree of the value breaks off in front of its line. -/
theorem tree_of_pricedByExtension :
    ∃ loaded g, pricedByExtension.load = .ok loaded ∧
      Graph.ofModel loaded.model (.chain none) = .ok g ∧
      ∀ w : Workspace, w.session.graph = g →
        treeReport w false false =
          ⟨["Shop 1.0.0 (editable)"], [], some (.graph (.unsupported ⟨0⟩))⟩ := by
  obtain ⟨loaded, g, h, hgraph, hp⟩ := exists_graph (s := pricedByExtension) (v := .chain none)
    (p := fun g => decide (Command.Listing.ofGraph false false g =
      (["Shop 1.0.0 (editable)"], some (.unsupported ⟨0⟩)))) (by decide +kernel)
  refine ⟨loaded, g, h, hgraph, ?_⟩
  rintro w rfl
  rw [treeReport, of_decide_eq_true hp]
  rfl

end Snapshot

end SchemaEditor
