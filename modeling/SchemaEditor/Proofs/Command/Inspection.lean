import Mathlib.Data.Set.Card
import SchemaEditor.Command.Report
import SchemaEditor.Proofs.Graph.Exposure
import SchemaEditor.Proofs.Session.Loaded
import SchemaEditor.Proofs.Snapshot.Faithful

/-!
# Inspections cover everything once

The walk of an inspection keeps a list of the facades that it has seen and a stack of those to come.
Whatever it has expanded is exposed, and what is listed under it is seen or still to come; so at the
end exactly what is exposed has been seen. As every expansion adds a facade, and there are no more
facades than nodes, the walk never runs out of fuel: with more fuel it would end in the same way.
-/

namespace SchemaEditor.Command.Inspection

open SchemaEditor.Graph (Evolves IsRegister Managed)
open List (Forall₂)
open Outcome (bind_ok)

variable {g g' : Graph} {m : Model} {roots : List NodeId} {fuel : Nat}
variable {seen pending seen' : List FacadeId}

/-- What a walk with `pending` to come has seen, where `seen` were seen before. -/
structure Reaches (m : Model) (roots : List NodeId) (g : Graph) (seen pending seen' : List FacadeId)
    (g' : Graph) : Prop where
  evolves : Evolves IsRegister g g'
  nodup : seen'.Nodup
  kept : ∀ f ∈ seen, f ∈ seen'
  reached : ∀ f ∈ pending, f ∈ seen'
  exposed : ∀ f ∈ seen', ∃ x, g'.Stands f x ∧ m.Exposed roots x
  closed : ∀ f ∈ seen', f ∈ seen ∨ ∀ x, g'.Stands f x → ∀ y ∈ m.listedUnder x,
    ∃ f' ∈ seen', g'.Stands f' y

namespace Reaches

/-- A walk for which nothing new is to come. -/
theorem stop (hnodup : seen.Nodup) (hseen : ∀ f ∈ seen, ∃ x, g.Stands f x ∧ m.Exposed roots x)
    (hpending : ∀ f ∈ pending, f ∈ seen) : Reaches m roots g seen pending seen g :=
  ⟨.refl, hnodup, fun _ => id, hpending, hseen, fun _ => .inl⟩

/-- A walk passes over what it has seen. -/
theorem skip {f : FacadeId} (hf : f ∈ seen) (h : Reaches m roots g seen pending seen' g') :
    Reaches m roots g seen (f :: pending) seen' g' :=
  { h with reached := List.forall_mem_cons.mpr ⟨h.kept f hf, h.reached⟩ }

/-- A walk that expands a facade goes on with what is listed under it. -/
theorem expand {f : FacadeId} {x : NodeId} {ids rest : List FacadeId} {g₁ : Graph}
    (hev : Evolves IsRegister g g₁) (hf : g₁.Stands f x)
    (hids : Forall₂ g₁.Stands ids (m.listedUnder x))
    (h : Reaches m roots g₁ (f :: seen) (ids.reverse ++ rest) seen' g') :
    Reaches m roots g seen (f :: rest) seen' g' := by
  constructor
  case evolves => exact hev.trans h.evolves
  case nodup => exact h.nodup
  case kept => exact fun f' hf' => h.kept f' (List.mem_cons_of_mem _ hf')
  case reached =>
    exact List.forall_mem_cons.mpr ⟨h.kept f List.mem_cons_self,
      fun f' hf' => h.reached f' (List.mem_append_right _ hf')⟩
  case exposed => exact h.exposed
  case closed =>
    intro f' hf'
    obtain hf' | hclosed := h.closed f' hf'
    · obtain rfl | hf' := List.mem_cons.mp hf'
      · right
        intro x' hx' y hy
        obtain rfl := (hf.of_evolves h.evolves).node_unique hx'
        obtain ⟨id, hid, hstands⟩ := exists_left_of_mem hids hy
        exact ⟨id, h.reached id (List.mem_append_left _ (List.mem_reverse.mpr hid)),
          hstands.of_evolves h.evolves⟩
      · exact .inl hf'
    · exact .inr hclosed

end Reaches

theorem reach_nil (fuel : Nat) (seen : List FacadeId) : reach fuel seen [] = pure seen := by
  cases fuel <;> rw [reach]

theorem reach_of_mem {f : FacadeId} {rest : List FacadeId} (hf : f ∈ seen) :
    reach fuel seen (f :: rest) = reach fuel seen rest := by
  cases fuel <;> rw [reach, if_pos (List.contains_iff_mem.mpr hf)]

/-- A walk with fuel for all the facades that it has not seen ends with everything exposed, and
would not use more fuel. -/
theorem exists_reach (hg : Managed g) (hm : g.model = m) (hnodup : seen.Nodup)
    (hseen : ∀ f ∈ seen, ∃ x, g.Stands f x ∧ m.Exposed roots x)
    (hpending : ∀ f ∈ pending, ∃ x, g.Stands f x ∧ m.Exposed roots x)
    (hfuel : m.nodes.size ≤ fuel + seen.length) :
    ∃ seen' g', (∀ more, reach (fuel + more) seen pending g = .ok seen' g') ∧
      Reaches m roots g seen pending seen' g' := by
  induction fuel generalizing g seen pending with
  | zero =>
    have hall : ∀ f ∈ pending, f ∈ seen := fun f hf => by
      obtain ⟨x, hx, -⟩ := hpending f hf
      exact Graph.mem_of_size_le hg hnodup (fun f' hf' => (hseen f' hf').imp fun _ => And.left)
        (by rw [hm]; omega) hx
    refine ⟨seen, g, fun more => ?_, .stop hnodup hseen hall⟩
    clear hpending
    induction pending with
    | nil => rw [reach_nil]; rfl
    | cons f rest ih =>
      rw [reach_of_mem (hall f List.mem_cons_self)]
      exact ih fun f hf => hall f (List.mem_cons_of_mem _ hf)
  | succ fuel ihfuel =>
    induction pending with
    | nil => exact ⟨seen, g, fun _ => by rw [reach_nil]; rfl, .stop hnodup hseen nofun⟩
    | cons f rest ih =>
      obtain ⟨⟨x, hx, hexposed⟩, hrest⟩ := List.forall_mem_cons.mp hpending
      by_cases hf : f ∈ seen
      · obtain ⟨seen', g', hrun, h⟩ := ih hrest
        refine ⟨seen', g', fun more => ?_, h.skip hf⟩
        rw [reach_of_mem hf, hrun]
      · obtain ⟨ids, g₁, hchildren, hev, hids⟩ := Graph.exists_children hg hx
        rw [hm] at hids
        have later : ∀ {f'}, (∃ y, g.Stands f' y ∧ m.Exposed roots y) →
            ∃ y, g₁.Stands f' y ∧ m.Exposed roots y :=
          fun ⟨y, hy, hexposed⟩ => ⟨y, hy.of_evolves hev, hexposed⟩
        have hseen₁ : ∀ f' ∈ f :: seen, ∃ y, g₁.Stands f' y ∧ m.Exposed roots y :=
          List.forall_mem_cons.mpr ⟨later ⟨x, hx, hexposed⟩, fun f' hf' => later (hseen f' hf')⟩
        have hpending₁ : ∀ f' ∈ ids.reverse ++ rest, ∃ y, g₁.Stands f' y ∧ m.Exposed roots y := by
          intro f' hf'
          obtain hf' | hf' := List.mem_append.mp hf'
          · obtain ⟨y, hy, hstands⟩ := exists_right_of_mem hids (List.mem_reverse.mp hf')
            exact ⟨y, hstands, hexposed.listed hy⟩
          · exact later (hrest f' hf')
        obtain ⟨seen', g', hrun, h⟩ := ihfuel (hev.managed hg) (hev.model_eq.trans hm)
          (List.nodup_cons.mpr ⟨hf, hnodup⟩) hseen₁ hpending₁ (by rw [List.length_cons]; omega)
        refine ⟨seen', g', fun more => ?_, h.expand hev (hx.of_evolves hev) hids⟩
        rw [Nat.add_right_comm, reach, if_neg (by simpa using hf), bind_ok hchildren, hrun]

/-! ### All facades -/

/-- The facades of the members of libraries that exist. -/
theorem exists_memberFacades (hg : Managed g) (hs : Model.Shelved g.model) {ids : List LibraryId}
    (hids : ∀ id ∈ ids, ∃ l, g.model.library? id = some l) :
    ∃ fs g', memberFacades ids g = .ok fs g' ∧ Evolves IsRegister g g' ∧
      Forall₂ g'.Stands fs (g.model.facedAmong (g.model.membersOf ids)) := by
  induction ids generalizing g with
  | nil => exact ⟨[], g, rfl, .refl, .nil⟩
  | cons id ids ih =>
    obtain ⟨l, hl⟩ := hids id List.mem_cons_self
    obtain ⟨fs, g₁, hrun, hev, hfs⟩ := Graph.exists_members hg hs hl
    obtain ⟨gs, g₂, hrun', hev', hgs⟩ := ih (hev.managed hg) (hev.model_eq ▸ hs)
      fun id' hid' => hev.model_eq ▸ hids id' (List.mem_cons_of_mem _ hid')
    refine ⟨fs ++ gs, g₂, ?_, hev.trans hev', ?_⟩
    · rw [memberFacades, bind_ok hrun, bind_ok hrun']
      rfl
    · rw [Model.membersOf_cons hl, Model.facedAmong_append]
      rw [hev.model_eq] at hgs
      exact List.rel_append (hfs.imp fun _ _ h => h.of_evolves hev') hgs

/-- The facades of everything that the libraries of a graph contain, as far as the fuel reaches. -/
def walk (fuel : Nat) : Graph.Edit (List FacadeId) := fun g =>
  (memberFacades g.model.libraryIds >>= fun members => reach fuel [] members.reverse) g

theorem allFacades_eq (g : Graph) : allFacades g = walk g.model.nodes.size g := rfl

/-- Once everything was asked for, there is one facade for each exposed node, and they were all seen
once. -/
theorem exists_allFacades (hg : Managed g) (hs : Model.Shelved g.model) :
    ∃ seen g', (∀ fuel, g.model.nodes.size ≤ fuel → walk fuel g = .ok seen g') ∧
      Evolves IsRegister g g' ∧ seen.Nodup ∧
      (∀ f ∈ seen, ∃ x, g'.Stands f x ∧
        g.model.Exposed (g.model.membersOf g.model.libraryIds) x) ∧
      ∀ x, g.model.Exposed (g.model.membersOf g.model.libraryIds) x →
        ∃ f ∈ seen, g'.Stands f x := by
  obtain ⟨fs, g₁, hrun, hev, hfs⟩ :=
    exists_memberFacades hg hs fun _ => Model.exists_library?_of_mem_libraryIds
  have hpending : ∀ f ∈ fs.reverse, ∃ x, g₁.Stands f x ∧
      g.model.Exposed (g.model.membersOf g.model.libraryIds) x := fun f hf => by
    obtain ⟨x, hx, hstands⟩ := exists_right_of_mem hfs (List.mem_reverse.mp hf)
    exact ⟨x, hstands, .of_mem_facedAmong hx⟩
  obtain ⟨seen, g', hreach, h⟩ :=
    exists_reach (hev.managed hg) hev.model_eq .nil nofun hpending (Nat.le_add_right _ _)
  refine ⟨seen, g', fun fuel hfuel => ?_, hev.trans h.evolves, h.nodup, ?_, ?_⟩
  · obtain ⟨more, rfl⟩ := Nat.exists_eq_add_of_le hfuel
    rw [walk, bind_ok hrun, hreach]
  · exact h.exposed
  · intro x hx
    induction hx with
    | root hmember hfaced =>
      obtain ⟨f, hf, hstands⟩ :=
        exists_left_of_mem hfs (Model.mem_facedAmong.mpr ⟨hmember, hfaced⟩)
      exact ⟨f, h.reached f (List.mem_reverse.mpr hf), hstands.of_evolves h.evolves⟩
    | listed _ hlisted ih =>
      obtain ⟨f, hf, hstands⟩ := ih
      exact (h.closed f hf).resolve_left List.not_mem_nil _ hstands _ hlisted

/-- Facades of certain nodes, one for each, are as many as these nodes. -/
theorem length_eq_ncard {P : NodeId → Prop} (hg : Managed g) (hnodup : seen.Nodup)
    (hseen : ∀ f ∈ seen, ∃ x, g.Stands f x ∧ P x) (hall : ∀ x, P x → ∃ f ∈ seen, g.Stands f x) :
    seen.length = {x | P x}.ncard := by
  obtain ⟨xs, hxs⟩ := Graph.exists_forall₂_stands fun f hf => (hseen f hf).imp fun _ h => h.1
  have hset : {x | P x} = ↑xs.toFinset := by
    ext x
    show P x ↔ x ∈ (xs.toFinset : Set NodeId)
    rw [List.coe_toFinset]
    constructor
    · intro hx
      obtain ⟨f, hf, hstands⟩ := hall x hx
      obtain ⟨y, hy, hstands'⟩ := exists_right_of_mem hxs hf
      exact hstands.node_unique hstands' ▸ hy
    · intro hx
      obtain ⟨f, hf, hstands⟩ := exists_left_of_mem hxs hx
      obtain ⟨y, hstands', hy⟩ := hseen f hf
      exact hstands.node_unique hstands' ▸ hy
  rw [hset, Set.ncard_coe_finset, List.toFinset_card_of_nodup
    ((List.rel_nodup (Graph.Stands.biUnique hg) hxs).mp hnodup), hxs.length_eq]

/-- An inspection of a loaded snapshot ends, whatever contributes into what, and finds no fault. The
facades that it has seen are those of the supported nodes, one for each of them, and it reports
their number. -/
theorem covers_supported_once {snapshot : Snapshot} {loaded : Snapshot.Loaded}
    (h : snapshot.load = .ok loaded) (v : Versioning) :
    ∃ g, Graph.ofModel loaded.model v = .ok g ∧
      ∃ seen g', (∀ fuel, loaded.model.nodes.size ≤ fuel → walk fuel g = .ok seen g') ∧
        allFacades g = .ok seen g' ∧ g'.model = loaded.model ∧
        seen.Nodup ∧ seen.length = {x | loaded.model.Supported x}.ncard ∧
        (∀ f, f ∈ seen ↔ ∃ x, loaded.model.Supported x ∧ g'.Stands f x) ∧
        (∀ x, loaded.model.Supported x → ∃! f, g'.Stands f x) ∧
        g'.verify = [] ∧
        ∀ w : Workspace, w.session.graph = g → ∀ quiet,
          verifyReport quiet w = .ofLines (if quiet then []
            else ["ok (" ++ Text.Decimal.ofNat seen.length ++ " objects checked)"]) := by
  obtain ⟨g, hgraph, hmodel, -, hsound⟩ := Session.exists_sound_of_load h v
  obtain ⟨seen, g', hrun, hev, hnodup, hseen, hall⟩ :=
    exists_allFacades hsound.managed hsound.shelved
  have hw := Snapshot.whole_of_load h
  have hexposed : ∀ x, loaded.model.Exposed (loaded.model.membersOf loaded.model.libraryIds) x ↔
      loaded.model.Supported x :=
    fun x => hw.exposed_iff fun hn hc => Snapshot.owner_eq_none_of_contributesTo h hn hc
  simp only [show (Session.ofGraph g).graph = g from rfl, hmodel, hexposed] at hrun hev hseen hall
  have hall_run : allFacades g = .ok seen g' :=
    (allFacades_eq g).trans (hrun _ (hmodel ▸ le_rfl))
  have hg' : Managed g' := hev.managed hsound.managed
  have hverify : g'.verify = [] :=
    hg'.verify_eq_nil (hev.shelved hsound.managed.forest hsound.shelved) (hev.tidy hsound.tidy)
  have hmem : ∀ f, f ∈ seen ↔ ∃ x, loaded.model.Supported x ∧ g'.Stands f x := by
    intro f
    constructor
    · intro hf
      obtain ⟨x, hstands, hx⟩ := hseen f hf
      exact ⟨x, hx, hstands⟩
    · rintro ⟨x, hx, hstands⟩
      obtain ⟨f', hf', hstands'⟩ := hall x hx
      exact hstands.facade_unique hg' hstands' ▸ hf'
  refine ⟨g, hgraph, seen, g', hrun, hall_run, hev.model_eq.trans hmodel, hnodup,
    length_eq_ncard hg' hnodup hseen hall, hmem, ?_, hverify, ?_⟩
  · intro x hx
    obtain ⟨f, -, hstands⟩ := hall x hx
    exact ⟨f, hstands, fun f' hf' => hf'.facade_unique hg' hstands⟩
  · rintro w rfl quiet
    rw [verifyReport, hall_run]
    simp only [hverify]

end SchemaEditor.Command.Inspection

namespace SchemaEditor.Snapshot

open Command (Inspection.allFacades Workspace verifyReport)

/-- An inspection gets out of the circle. -/
theorem covers_notesInCircle :
    ∃ loaded g, notesInCircle.load = .ok loaded ∧
      Graph.ofModel loaded.model (.chain none) = .ok g ∧
      ∃ seen g', Inspection.allFacades g = .ok seen g' ∧
        seen.length = {x | loaded.model.Supported x}.ncard ∧
        ∀ w : Workspace, w.session.graph = g →
          verifyReport false w =
            .ofLines ["ok (" ++ Text.Decimal.ofNat seen.length ++ " objects checked)"] := by
  obtain ⟨loaded, h, -⟩ :=
    exists_loaded (s := notesInCircle) (p := fun _ => true) (by decide +kernel)
  obtain ⟨g, hgraph, seen, g', -, hrun, -, -, hcount, -, -, -, hreport⟩ :=
    Command.Inspection.covers_supported_once h (.chain none)
  exact ⟨loaded, g, h, hgraph, seen, g', hrun, hcount, fun w hw => hreport w hw false⟩

end SchemaEditor.Snapshot
