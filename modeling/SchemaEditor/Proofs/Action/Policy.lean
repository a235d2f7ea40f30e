import SchemaEditor.Action.Manager
import SchemaEditor.Proofs.Outcome

/-!
# The policy stage of a manager

Which manager a library has and what that manager says come down to one table: how freely the
library may be edited, whether the member is new to its chain, and the class of the change. `Admits`
is this table together with the one setting that a manager adds to it. A refusal of this stage is
always a prohibition.
-/

namespace SchemaEditor

/-! ### The table -/

namespace Editability

/-- How much a degree allows. -/
def rank : Editability → Nat
  | .readOnly => 0
  | .minorOnly => 1
  | .editable => 2

/-- A degree is at most another one if it allows no more. -/
instance : LE Editability := ⟨fun a b => a.rank ≤ b.rank⟩

end Editability

namespace Policy

variable {editability editability' : Editability} {new new' additions additions' : Bool}
variable {change : ChangeClass}

/-- Whether a change passes the managers: it is permitted, and it is not an addition to a member
carried forward while such additions are disabled. -/
def Admits (additions : Bool) (editability : Editability) (newToChain : Bool)
    (change : ChangeClass) : Prop :=
  permits editability newToChain change = true ∧
    ¬ (additions = false ∧ editability = .minorOnly ∧ newToChain = false ∧ change = .addition)

instance : Decidable (Admits additions editability new change) :=
  inferInstanceAs (Decidable (_ ∧ ¬ (_ ∧ _ ∧ _ ∧ _)))

/-- What passes where a structural change is permitted: everything. -/
theorem admits_of_isEditable (h : isEditable editability new = true) :
    Admits additions editability new change := by
  cases editability <;> cases new <;> simp_all [Admits, isEditable, permits]

/-- Where a structural change passes, every change is permitted. -/
theorem Admits.isEditable (h : Admits additions editability new .structural) :
    isEditable editability new = true :=
  h.1

/-- A policy that allows more stops nothing that passed. -/
theorem Admits.mono (h : Admits additions editability new change)
    (he : editability ≤ editability') (hnew : new ≤ new') (ha : additions ≤ additions') :
    Admits additions' editability' new' change := by
  obtain ⟨hpermits, hadditions⟩ := h
  have he : editability.rank ≤ editability'.rank := he
  cases editability' with
  | editable => exact admits_of_isEditable rfl
  | readOnly => cases editability <;> simp_all [Editability.rank, permits]
  | minorOnly =>
    cases editability with
    | editable => simp [Editability.rank] at he
    | readOnly => simp [permits] at hpermits
    | minorOnly =>
      cases new' with
      | true => exact admits_of_isEditable rfl
      | false =>
        cases new with
        | true => exact absurd hnew (by decide)
        | false =>
          refine ⟨hpermits, fun h => hadditions ⟨?_, rfl, rfl, h.2.2.2⟩⟩
          exact Bool.eq_false_of_le_false (h.1 ▸ ha)

end Policy

/-! ### Managers -/

namespace Manager

open Policy (Admits)

variable {g : Graph} {r : Request} {editability : Editability} {new additions : Bool}

/-- What the manager of a library says is what the table says, and a refusal is a prohibition. -/
theorem checkPolicy_cases (he : g.editability r.subject = .ok editability)
    (hnew : g.isNewToChain r.subject = .ok new) :
    (Admits additions editability new (r.action.changeClass r.param) ∧
      (ofEditability editability additions).checkPolicy g r = .ok ⟨⟩) ∨
    (¬ Admits additions editability new (r.action.changeClass r.param) ∧
      ∃ reason, (ofEditability editability additions).checkPolicy g r =
        .error (.notPermitted r.action r.subject reason)) := by
  cases editability with
  | editable =>
    refine .inl ⟨Policy.admits_of_isEditable rfl, ?_⟩
    simp only [ofEditability, checkPolicy, he, consult, Outcome.ok_bind]
    rfl
  | readOnly =>
    exact .inr ⟨fun h => by simp [Admits, Policy.permits] at h, .readOnly, rfl⟩
  | minorOnly =>
    have hcheck : (ofEditability .minorOnly additions).checkPolicy g r =
        if !new then checkCarried additions r else .ok ⟨⟩ := by
      simp only [ofEditability, checkPolicy, he, hnew, consult, Outcome.ok_bind]
      cases new <;> rfl
    rw [hcheck]
    cases new with
    | true => exact .inl ⟨Policy.admits_of_isEditable rfl, rfl⟩
    | false =>
      simp only [Bool.not_false, if_true, checkCarried]
      cases hchange : r.action.changeClass r.param <;> cases additions <;>
        simp [Admits, Policy.permits]

end Manager

end SchemaEditor
