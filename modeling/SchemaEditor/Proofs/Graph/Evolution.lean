import SchemaEditor.Proofs.Graph.Change

/-!
# How edits change a graph

`Evolves` follows the steps of an edit, all of a certain kind. An edit that `Succeeds` gives a value
and leaves a graph reached by such steps; an edit that `Leads` leaves such a graph also where it is
refused. Both compose along sequences and loops, so that each edit is followed once from its
definition and later only spoken of through the steps that it makes.
-/

namespace SchemaEditor.Graph

open Outcome (bind_ok bind_error)
open Model (Forest Extends Layered Shelved Tidy)

variable {α β : Type} {P Q : Graph → Change → Prop} {g g' g'' : Graph} {c : Change}

/-- Steps of a certain kind lead from one graph to another. -/
inductive Evolves (P : Graph → Change → Prop) (g : Graph) : Graph → Prop
  | refl : Evolves P g g
  | step {g' g'' : Graph} {c : Change} (before : Evolves P g g') (hp : P g' c)
      (h : Step g' c g'') : Evolves P g g''

namespace Evolves

theorem single (hp : P g c) (h : Step g c g') : Evolves P g g' := .step .refl hp h

theorem trans (h : Evolves P g g') (h' : Evolves P g' g'') : Evolves P g g'' := by
  induction h' with
  | refl => exact h
  | step _ hp hs ih => exact .step ih hp hs

theorem mono (h : Evolves P g g') (hPQ : ∀ g c, P g c → Q g c) : Evolves Q g g' := by
  induction h with
  | refl => exact .refl
  | step _ hp hs ih => exact .step ih (hPQ _ _ hp) hs

/-- What each of the steps keeps, all of them keep. -/
theorem keeps {I : Graph → Prop} (h : Evolves P g g')
    (step : ∀ {g c g'}, I g → P g c → Step g c g' → I g') (hg : I g) : I g' := by
  induction h with
  | refl => exact hg
  | step _ hp hs ih => exact step ih hp hs

theorem managed (h : Evolves P g g') (hg : Managed g) : Managed g' :=
  h.keeps (fun hg _ hs => hs.managed hg) hg

theorem tidy (h : Evolves P g g') (hg : Tidy g.model) : Tidy g'.model :=
  h.keeps (I := fun g => Tidy g.model) (fun hg _ hs => hs.tidy hg) hg

theorem shelved (h : Evolves P g g') (hf : Forest g.model) (hg : Shelved g.model) :
    Shelved g'.model :=
  (h.keeps (I := fun g => Forest g.model ∧ Shelved g.model)
    (fun hg _ hs => ⟨hs.forest hg.1, hs.shelved hg.1 hg.2⟩) ⟨hf, hg⟩).2

theorem layered (h : Evolves Admitted g g') (hg : Layered g.model) : Layered g'.model :=
  h.keeps (I := fun g => Layered g.model) (fun hg hp hs => hs.layered hp hg) hg

theorem extends_ (h : Evolves P g g') : Extends g.model g'.model :=
  h.keeps (I := fun k => Extends g.model k.model) (fun hk _ hs => hk.trans hs.extends_) (.refl _)

theorem versioning_eq (h : Evolves P g g') : g'.versioning = g.versioning :=
  h.keeps (I := fun k => k.versioning = g.versioning)
    (fun hk _ hs => hs.versioning_eq.trans hk) rfl

end Evolves

/-! ### Running edits -/

section run

variable {a : α} {err : Error} {q : Graph → Except Error α}

theorem ask_of_ok (h : q g = .ok a) : ask q g = .ok a g := by
  rw [ask, h]

theorem ask_of_error (h : q g = .error err) : ask q g = .error err g := by
  rw [ask, h]

theorem ask_eq_ok_iff : ask q g = .ok a g' ↔ q g = .ok a ∧ g = g' := by
  unfold ask
  cases q g <;> simp

theorem editModel_of_ok {f : Model → Except Model.Error Model} {m : Model} (h : f g.model = .ok m) :
    editModel f g = .ok ⟨⟩ { g with model := m } := by
  rw [editModel, h]

end run

/-! ### Edits that give a value -/

/-- An edit gives a value and leaves a graph reached by steps of a certain kind. -/
def Succeeds (P : Graph → Change → Prop) (e : Edit α) (g : Graph) : Prop :=
  ∃ a g', e g = .ok a g' ∧ Evolves P g g'

/-- A loop whose body establishes for each element what later steps do not undo. -/
theorem forM_establishes {f : α → Edit PUnit} {T : α → Graph → Prop} {l : List α}
    (hT : ∀ a {k k'}, Evolves P g k → Evolves P k k' → T a k → T a k')
    (hf : ∀ a ∈ l, ∀ k, Evolves P g k → ∃ k', f a k = .ok ⟨⟩ k' ∧ Evolves P k k' ∧ T a k') :
    ∃ g', l.forM f g = .ok ⟨⟩ g' ∧ Evolves P g g' ∧ ∀ a ∈ l, T a g' := by
  induction l generalizing g with
  | nil => exact ⟨g, rfl, .refl, fun a ha => by cases ha⟩
  | cons a l ih =>
    obtain ⟨k, hrun, hev, ha⟩ := hf a List.mem_cons_self g .refl
    obtain ⟨g', hrest, hev', hl⟩ := ih (fun b _ _ hk => hT b (hev.trans hk))
      fun b hb k' hk => hf b (List.mem_cons_of_mem _ hb) k' (hev.trans hk)
    refine ⟨g', ?_, hev.trans hev', fun b hb => ?_⟩
    · exact (bind_ok hrun).trans hrest
    · obtain rfl | hb := List.mem_cons.mp hb
      · exact hT b hev hev' ha
      · exact hl b hb

/-! ### Edits that may be refused -/

/-- The graph that an edit leaves, whether it is refused or not. -/
def left (e : Edit α) (g : Graph) : Graph :=
  match e g with
  | .ok _ g' => g'
  | .error _ g' => g'

/-- An edit succeeds, or it is refused and leaves the graph as it was. -/
def Atomic (P : Graph → Change → Prop) (e : Edit α) (g : Graph) : Prop :=
  Succeeds P e g ∨ ∃ err, e g = .error err g

namespace Atomic

theorem of_ok {e : Edit α} {a : α} (h : e g = .ok a g') (hev : Evolves P g g') :
    Atomic P e g :=
  .inl ⟨a, g', h, hev⟩

theorem refused {e : Edit α} (err : Error) (h : e g = .error err g) : Atomic P e g := .inr ⟨err, h⟩

theorem left {e : Edit α} (h : Atomic P e g) : Evolves P g (left e g) := by
  obtain ⟨a, g', he, hev⟩ | ⟨err, he⟩ := h
  · rwa [Graph.left, he]
  · rw [Graph.left, he]
    exact .refl

end Atomic

/-- An edit of a managed graph leaves a graph reached by steps of a certain kind. -/
def Leads (P : Graph → Change → Prop) (e : Edit α) : Prop :=
  ∀ g, Managed g → Evolves P g (left e g)

namespace Leads

theorem pure (a : α) : Leads P (Pure.pure a : Edit α) := fun _ _ => .refl

theorem throw (err : Error) : Leads P (MonadExcept.throw err : Edit α) := fun _ _ => .refl

theorem get : Leads P (MonadState.get : Edit Graph) := fun _ _ => .refl

theorem ask (q : Graph → Except Error α) : Leads P (Graph.ask q) := by
  intro g _
  cases h : q g with
  | ok a => rw [left, ask_of_ok h]; exact .refl
  | error err => rw [left, ask_of_error h]; exact .refl

theorem bind {e : Edit α} {f : α → Edit β} (h : Leads P e) (hf : ∀ a, Leads P (f a)) :
    Leads P (e >>= f) := by
  intro g hg
  have hev := h g hg
  cases he : e g with
  | ok a g' =>
    rw [left, he] at hev
    have hrest := hev.trans (hf a g' (hev.managed hg))
    rwa [left, bind_ok he]
  | error err g' =>
    rw [left, he] at hev
    rwa [left, bind_error he]

end Leads

end SchemaEditor.Graph
