import SchemaEditor.Config.Store
import SchemaEditor.Proofs.Config.Codec
import SchemaEditor.Proofs.Storage.Tree

/-!
# Configuration files read back

Writing a configuration makes directories, puts the text into a temporary file and moves that file
onto the one that is asked for. When all of this succeeds, the file holds the text of the
configuration. When it fails before the file system refuses anything, only directories were made.
-/

namespace SchemaEditor.Config

open Storage (Tree)
open Outcome (run_bind_eq_ok_iff run_bind_eq_error_iff)

variable {α : Type} {c : Config} {t t' : Tree} {path : String} {a : α} {u : Unit} {e : Error}
variable {change : Tree.Change α}

theorem writing_eq_ok_iff : writing path change t = .ok a t' ↔ change t = .ok a t' := by
  rw [writing]
  cases change t <;> simp

theorem writing_eq_error (h : writing path change t = .error e t') :
    ∃ cause, e = .write path cause := by
  rw [writing] at h
  split at h
  · cases h
  · obtain ⟨rfl, -⟩ := EStateM.Result.error.inj h
    exact ⟨_, rfl⟩

theorem write_eq_ok_iff : c.write path t = .ok u t' ↔
    ∃ text t₁ t₂, Tree.createDirectories (Storage.parent path) t = .ok ⟨⟩ t₁ ∧ c.print = .ok text ∧
      Tree.write (temporaryPath path) text t₁ = .ok ⟨⟩ t₂ ∧
      Tree.rename (temporaryPath path) path t₂ = .ok ⟨⟩ t' := by
  rw [write, run_bind_eq_ok_iff]
  constructor
  · rintro ⟨⟨⟩, t₁, hmake, h⟩
    cases hprint : c.print with
    | error fault =>
      rw [hprint] at h
      cases h
    | ok text =>
      rw [hprint] at h
      obtain ⟨⟨⟩, t₂, hwrite, hrename⟩ := run_bind_eq_ok_iff.mp h
      exact ⟨text, t₁, t₂, writing_eq_ok_iff.mp hmake, rfl, writing_eq_ok_iff.mp hwrite,
        writing_eq_ok_iff.mp hrename⟩
  · rintro ⟨text, t₁, t₂, hmake, hprint, hwrite, hrename⟩
    refine ⟨⟨⟩, t₁, writing_eq_ok_iff.mpr hmake, ?_⟩
    rw [hprint]
    exact run_bind_eq_ok_iff.mpr
      ⟨⟨⟩, t₂, writing_eq_ok_iff.mpr hwrite, writing_eq_ok_iff.mpr hrename⟩

/-- A valid configuration that was written is read again. -/
theorem loadFile_of_write (hvalid : c.validate = .ok u) (h : c.write path t = .ok () t') :
    loadFile t' path = .ok c := by
  obtain ⟨text, t₁, t₂, -, hprint, hwrite, hrename⟩ := write_eq_ok_iff.mp h
  have hread := Tree.read_of_rename hrename (Tree.read_of_write hwrite)
  rw [loadFile, hread]
  simp only [parse_print hprint, hvalid]

/-- A configuration is not written where the file system refuses it, or no file is touched. -/
theorem sameFiles_of_write_eq_error (h : c.write path t = .error e t') :
    (∃ p cause, e = .write p cause) ∨ t.SameFiles t' := by
  rw [write, run_bind_eq_error_iff] at h
  obtain hmake | ⟨⟨⟩, t₁, hmake, h⟩ := h
  · exact .inl ⟨path, writing_eq_error hmake⟩
  · cases hprint : c.print with
    | error fault =>
      rw [hprint] at h
      obtain ⟨-, rfl⟩ := EStateM.Result.error.inj h
      exact .inr (Tree.sameFiles_of_createDirectories (writing_eq_ok_iff.mp hmake))
    | ok text =>
      rw [hprint] at h
      obtain hwrite | ⟨⟨⟩, t₂, -, hrename⟩ := run_bind_eq_error_iff.mp h
      · exact .inl ⟨_, writing_eq_error hwrite⟩
      · exact .inl ⟨path, writing_eq_error hrename⟩

end SchemaEditor.Config
