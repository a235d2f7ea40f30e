import SchemaEditor.Proofs.Outcome
import SchemaEditor.Storage.Tree

/-!
# Files after changes

A walk passes only through directories, so a path still leads to the same place after a change that
keeps the directories. Writing a file and moving one onto another keep them: what is put somewhere
is a file, and no directory stood there. Hence the text that was written is read under the same
path, and moving the file brings that text to the other path. Making directories touches no file.
-/

namespace SchemaEditor.Storage.Tree

variable {t t' : Tree} {place here p : Place} {path source target name text : String}
variable {ns : List String} {entry : Entry} {u : PUnit}

/-! ### Places -/

theorem entry?_of_isStanding (h : p.isStanding = true) : t.entry? p = some .directory := if_pos h

theorem entry?_of_not_isStanding (h : p.isStanding = false) :
    t.entry? p = t.entries.get? p.text := by
  rw [ entry?, h]
  rfl

/-- What is no directory stands at no standing place. -/
theorem not_isStanding_of_ne (h : t.entry? p ≠ some .directory) : p.isStanding = false :=
  Bool.eq_false_iff.mpr fun hp => h (entry?_of_isStanding hp)

theorem entry?_put (hplace : place.isStanding = false) :
    entry? (t.put place entry) place = some entry := by
  rw [entry?_of_not_isStanding hplace, put, Text.Keyed.get?_insert, if_pos rfl]

/-- A change at one place leaves alone what stands at places with another text. -/
theorem entry?_of_change (hplace : place.isStanding = false)
    (hchange : ∀ k, k ≠ place.text → t'.entries.get? k = t.entries.get? k)
    (h : t.entry? p ≠ t.entry? place) : t'.entry? p = t.entry? p := by
  cases hp : p.isStanding with
  | true => rw [entry?_of_isStanding hp, entry?_of_isStanding hp]
  | false =>
    rw [entry?_of_not_isStanding hp, entry?_of_not_isStanding hplace] at h
    rw [entry?_of_not_isStanding hp, entry?_of_not_isStanding hp]
    exact hchange p.text fun heq => h (congrArg _ heq)

theorem entry?_put_of_ne (hplace : place.isStanding = false) (h : t.entry? p ≠ t.entry? place)
    (entry : Entry) : entry? (t.put place entry) p = t.entry? p := by
  refine entry?_of_change hplace (fun k hk => ?_) h
  rw [put, Text.Keyed.get?_insert, if_neg hk]

theorem entry?_remove_of_ne (hplace : place.isStanding = false) (h : t.entry? p ≠ t.entry? place) :
    entry? (t.remove place) p = t.entry? p := by
  refine entry?_of_change hplace (fun k hk => ?_) h
  rw [remove, Text.Keyed.get?_erase, if_neg hk]

/-- Two trees of which the second has the directories of the first. -/
def Keeps (t t' : Tree) : Prop := ∀ p, t.entry? p = some .directory → t'.entry? p = some .directory

/-- Where no directory stands, anything may be put. -/
theorem keeps_put (h : t.entry? place ≠ some .directory) (entry : Entry) :
    Keeps t (t.put place entry) := fun p hp =>
  (entry?_put_of_ne (not_isStanding_of_ne h) (by rw [hp]; exact h.symm) entry).trans hp

/-- What is no directory may be taken away. -/
theorem keeps_remove (h : t.entry? place ≠ some .directory) : Keeps t (t.remove place) :=
  fun p hp => (entry?_remove_of_ne (not_isStanding_of_ne h) (by rw [hp]; exact h.symm)).trans hp

/-- Taking something away puts no directory anywhere. -/
theorem entry?_remove_ne (h : t.entry? p ≠ some .directory) (place : Place) :
    entry? (t.remove place) p ≠ some .directory := by
  have hp := not_isStanding_of_ne h
  rw [entry?_of_not_isStanding hp] at h ⊢
  rw [remove, Text.Keyed.get?_erase]
  split
  · nofun
  · exact h

theorem Keeps.trans {t'' : Tree} (h : Keeps t t') (h' : Keeps t' t'') : Keeps t t'' :=
  fun p hp => h' p (h p hp)

/-! ### Paths -/

theorem lookupFault?_eq_none_iff : t.lookupFault? here name = none ↔
    t.entry? here = some .directory ∧ ¬ nameLimit < name.utf8ByteSize := by
  rw [lookupFault?]
  split
  · next h => simp [h]
  · next h => simp [h]
  · next h => simp [h]

theorem Keeps.walk (h : Keeps t t') (hwalk : t.walk here ns = .ok p) : t'.walk here ns = .ok p := by
  induction ns generalizing here with
  | nil => exact hwalk
  | cons name ns ih =>
    rw [Tree.walk] at hwalk ⊢
    cases hfault : t.lookupFault? here name with
    | none =>
      rw [hfault] at hwalk
      obtain ⟨hhere, hname⟩ := lookupFault?_eq_none_iff.mp hfault
      rw [lookupFault?_eq_none_iff.mpr ⟨h here hhere, hname⟩]
      exact ih hwalk
    | some e =>
      rw [hfault] at hwalk
      cases hwalk

theorem Keeps.locate (h : Keeps t t') (hlocate : t.locate path = .ok p) :
    t'.locate path = .ok p := by
  rw [Tree.locate] at hlocate ⊢
  split at hlocate
  · cases hlocate
  · next hne =>
    split at hlocate
    · cases hlocate
    · next hlength =>
      rw [if_neg hne, if_neg hlength]
      exact h.walk hlocate

theorem find_eq_ok_iff {e : Entry} :
    t.find path = .ok e ↔ ∃ p, t.locate path = .ok p ∧ t.entry? p = some e := by
  rw [find, Outcome.bind_eq_ok_iff]
  refine exists_congr fun p => and_congr_right fun _ => ?_
  cases t.entry? p with
  | none => simp [throw, throwThe, MonadExceptOf.throw]
  | some e' => simp [pure, Except.pure]

/-- A file is read where its path leads to. -/
theorem read_eq_ok_iff : t.read path = .ok text ↔
    ∃ p, t.locate path = .ok p ∧ t.entry? p = some (.file text) := by
  rw [← find_eq_ok_iff, read, Outcome.bind_eq_ok_iff]
  constructor
  · rintro ⟨e, he, h⟩
    cases e with
    | file text' =>
      obtain rfl := Except.ok.inj h
      exact he
    | directory => cases h
  · exact fun h => ⟨_, h, rfl⟩

/-! ### Files written and moved -/

theorem write_eq_ok_iff : write path text t = .ok u t' ↔
    ∃ p, t.locate path = .ok p ∧ t.entry? p ≠ some .directory ∧ t' = t.put p (.file text) := by
  rw [write]
  cases t.locate path with
  | error e => simp
  | ok p =>
    cases hp : t.entry? p with
    | none => simp [hp, eq_comm]
    | some e => cases e <;> simp [hp, eq_comm]

theorem rename_eq_ok_iff : rename source target t = .ok u t' ↔
    ∃ old new e, t.locate source = .ok old ∧ t.locate target = .ok new ∧ t.entry? old = some e ∧
      t.entry? new ≠ some .directory ∧ t' = (t.remove old).put new e := by
  rw [rename]
  cases t.locate source with
  | error e => simp
  | ok old =>
    cases t.locate target with
    | error e => simp
    | ok new =>
      cases hold : t.entry? old with
      | none => simp [hold]
      | some e =>
        cases hnew : t.entry? new with
        | none => simp [hold, hnew, eq_comm]
        | some e' => cases e' <;> simp [hold, hnew, eq_comm]

/-- A text is read under the path where it was written. -/
theorem read_of_write (h : write path text t = .ok u t') : t'.read path = .ok text := by
  obtain ⟨p, hp, hentry, rfl⟩ := write_eq_ok_iff.mp h
  exact read_eq_ok_iff.mpr ⟨p, (keeps_put hentry _).locate hp,
    entry?_put (not_isStanding_of_ne hentry)⟩

/-- A text that is moved is read under the path where it was moved to. -/
theorem read_of_rename (h : rename source target t = .ok u t') (hread : t.read source = .ok text) :
    t'.read target = .ok text := by
  obtain ⟨old, new, e, hold, hnew, he, hfree, rfl⟩ := rename_eq_ok_iff.mp h
  obtain ⟨old', hold', hfile⟩ := read_eq_ok_iff.mp hread
  obtain rfl := Except.ok.inj (hold.symm.trans hold')
  obtain rfl := Option.some.inj (he.symm.trans hfile)
  have hremove : Keeps t (t.remove old) := keeps_remove (by simp [hfile])
  have hfree' := entry?_remove_ne hfree old
  exact read_eq_ok_iff.mpr ⟨new, (hremove.trans (keeps_put hfree' _)).locate hnew,
    entry?_put (not_isStanding_of_ne hfree')⟩

/-! ### Directories made -/

/-- Two trees with the same files, of which the second may have more directories. -/
structure SameFiles (t t' : Tree) : Prop where
  files : t'.files = t.files
  kept : ∀ p e, t.entry? p = some e → t'.entry? p = some e

theorem SameFiles.refl (t : Tree) : SameFiles t t := ⟨rfl, fun _ _ => id⟩

theorem SameFiles.trans {t'' : Tree} (h : SameFiles t t') (h' : SameFiles t' t'') :
    SameFiles t t'' :=
  ⟨h'.files.trans h.files, fun p e hp => h'.kept p e (h.kept p e hp)⟩

/-- Whatever could be read is still read. -/
theorem SameFiles.read (h : SameFiles t t') (hread : t.read path = .ok text) :
    t'.read path = .ok text := by
  obtain ⟨p, hp, hfile⟩ := read_eq_ok_iff.mp hread
  exact read_eq_ok_iff.mpr
    ⟨p, Keeps.locate (fun q => h.kept q .directory) hp, h.kept p _ hfile⟩

theorem sameFiles_put_directory (h : t.entry? place = none) :
    SameFiles t (t.put place .directory) := by
  have hplace : place.isStanding = false := not_isStanding_of_ne (t := t) (by simp [h])
  constructor
  case files =>
    rw [entry?_of_not_isStanding hplace] at h
    exact Text.Keyed.filterMap_insertEntry h rfl
  case kept => exact fun p e hp => (entry?_put_of_ne hplace (by simp [hp, h]) _).trans hp

theorem sameFiles_of_makeDirectories (h : makeDirectories here ns t = .ok u t') :
    SameFiles t t' := by
  induction ns generalizing here t with
  | nil =>
    obtain ⟨-, rfl⟩ := EStateM.Result.ok.inj h
    exact .refl t
  | cons name ns ih =>
    simp only [makeDirectories] at h
    by_cases hname : nameLimit < name.utf8ByteSize
    · rw [if_pos hname] at h
      cases h
    · rw [if_neg hname] at h
      cases hnext : t.entry? (step here name) with
      | none =>
        rw [hnext] at h
        exact (sameFiles_put_directory hnext).trans (ih h)
      | some e =>
        rw [hnext] at h
        cases e with
        | directory => exact ih h
        | file s => cases h

/-- Making directories touches no file. -/
theorem sameFiles_of_createDirectories (h : createDirectories path t = .ok u t') :
    SameFiles t t' := by
  rw [createDirectories] at h
  split at h
  · obtain ⟨-, rfl⟩ := EStateM.Result.ok.inj h
    exact .refl t
  · split at h
    · cases h
    · exact sameFiles_of_makeDirectories h

end SchemaEditor.Storage.Tree
