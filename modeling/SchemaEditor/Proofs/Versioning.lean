import SchemaEditor.Proofs.Model.Preserved
import SchemaEditor.Proofs.Model.Shelf
import SchemaEditor.Proofs.Model.Succession
import SchemaEditor.Versioning

/-!
# Members that versioning guards

A member is guarded if its library is read-only, or if the library takes minor changes only and the
member is carried forward into it. A member that is carried forward in a version chain stays so as
long as an earlier library of the chain has a member of its name. That library is read-only, as it
is not the last one of the chain; so the member and the one that it is carried forward from guard
each other.
-/

namespace SchemaEditor.Versioning

open Model (Extends Shelved)

variable {v : Versioning} {user : Option String} {m m' : Model} {lib earlier : LibraryId}
variable {l e : Library} {top member origin : NodeId} {n n' w : Node} {gone : NodeId → Prop}

/-! ### Versioning by chains -/

/-- Editability by chains depends on the libraries only. -/
theorem chainEditability_of_libraries (h : m'.libraries = m.libraries) (lib : LibraryId) :
    chainEditability user m' lib = chainEditability user m lib := by
  rw [chainEditability, chainEditability, Model.library?_of_libraries h, Model.chain_of_libraries h]

/-- A library that is closed to a user whatever its chain has: it is built in, no draft, or managed
and not locked by this very user. -/
def Closed (user : Option String) (l : Library) : Prop :=
  l.builtin = true ∨ l.status ≠ .draft ∨
    l.managed = true ∧ ¬ ∃ name, user = some name ∧ l.lockedBy = some name

theorem lockedOut_iff : lockedOut user l = true ↔
    l.managed = true ∧ ¬ ∃ name, user = some name ∧ l.lockedBy = some name := by
  cases user <;> simp [lockedOut]

theorem closed_iff :
    Closed user l ↔ (l.builtin || l.status ≠ .draft || lockedOut user l) = true := by
  simp only [Closed, Bool.or_eq_true, decide_eq_true_eq, lockedOut_iff, or_assoc]

/-- The rules for the editability of a library, given whether its chain has a later and an earlier
one. -/
inductive Rules (user : Option String) (l : Library) (later earlier : Prop) :
    Editability → Prop where
  | readOnly (h : Closed user l ∨ later) : Rules user l later earlier .readOnly
  | minorOnly (hopen : ¬ Closed user l) (hlast : ¬ later)
      (hminor : l.version.minor ≠ 0 ∨ l.version.patch ≠ 0) (hearlier : earlier) :
      Rules user l later earlier .minorOnly
  | editable (hopen : ¬ Closed user l) (hlast : ¬ later)
      (hfree : ¬ ((l.version.minor ≠ 0 ∨ l.version.patch ≠ 0) ∧ earlier)) :
      Rules user l later earlier .editable

/-- The rules leave no choice. -/
theorem Rules.unique {later earlier : Prop} {d d' : Editability} (h : Rules user l later earlier d)
    (h' : Rules user l later earlier d') : d = d' := by
  cases h with
  | readOnly h =>
    cases h' with
    | readOnly => rfl
    | minorOnly hopen hlast => exact (h.elim hopen hlast).elim
    | editable hopen hlast => exact (h.elim hopen hlast).elim
  | minorOnly hopen hlast hminor hearlier =>
    cases h' with
    | readOnly h => exact (h.elim hopen hlast).elim
    | minorOnly => rfl
    | editable _ _ hfree => exact absurd ⟨hminor, hearlier⟩ hfree
  | editable hopen hlast hfree =>
    cases h' with
    | readOnly h => exact (h.elim hopen hlast).elim
    | minorOnly _ _ hminor hearlier => exact absurd ⟨hminor, hearlier⟩ hfree
    | editable => rfl

/-- The last library of a chain, found by its position, is the one that none comes after. -/
theorem rules_chainEditability (hl : m.library? lib = some l) (user : Option String) :
    Rules user l (∃ later, m.Precedes lib later) (∃ earlier, m.Precedes earlier lib)
      (chainEditability user m lib) := by
  simp only [chainEditability, hl]
  split
  · next hclosed => exact .readOnly (.inl (closed_iff.mpr hclosed))
  next hopen =>
  rw [← closed_iff] at hopen
  have hiff := Model.getLast?_chain_eq_iff hl
  split
  · next hlast =>
    rw [ne_eq, hiff, not_forall_not] at hlast
    exact .readOnly (.inr hlast)
  next hlast =>
  have hnone := hiff.mp (not_not.mp hlast)
  have hcond : (l.version.isMinor && decide (1 < (m.chain lib).length)) = true ↔
      (l.version.minor ≠ 0 ∨ l.version.patch ≠ 0) ∧ ∃ earlier, m.Precedes earlier lib := by
    rw [Bool.and_eq_true, decide_eq_true_eq, Version.isMinor_iff,
      Model.one_lt_length_chain_iff hl hnone]
  split
  · next h => exact .minorOnly hopen (not_exists.mpr hnone) (hcond.mp h).1 (hcond.mp h).2
  · next h => exact .editable hopen (not_exists.mpr hnone) (hcond.not.mp h)

/-- A library with a later one in its chain is read-only. -/
theorem chainEditability_of_precedes (h : m.Precedes earlier lib) (user : Option String) :
    chainEditability user m earlier = .readOnly := by
  obtain ⟨e, -, he, -⟩ := id h
  exact (rules_chainEditability he user).unique (.readOnly (.inr ⟨lib, h⟩))

/-- A library with an earlier version in its chain is not freely editable. -/
theorem chainEditability_of_earlier (h : m.EarlierVersion earlier lib) (user : Option String) :
    chainEditability user m lib ≠ .editable := by
  obtain ⟨e, l, -, hl, hsame, hlt⟩ := id h
  simp only [Model.sameChain, Bool.and_eq_true, decide_eq_true_eq] at hsame
  intro heq
  have hrules := rules_chainEditability hl user
  rw [heq] at hrules
  cases hrules with
  | editable _ _ hfree =>
    exact hfree ⟨Version.isMinor_iff.mp (Version.isMinor_of_lt hsame.2 hlt), earlier, h.precedes⟩

/-- A member is not new to its chain if an earlier version has a member of its name. -/
theorem newInChain_eq_false_iff (hn : m.node? member = some n)
    (hl : m.library? n.library = some l) : newInChain m member = false ↔
      ∃ earlier, m.EarlierVersion earlier n.library ∧
        (m.findMember? earlier n.name).isSome = true := by
  simp only [newInChain, hn, hl, Bool.not_eq_false', List.any_eq_true]
  constructor
  · rintro ⟨earlier, hmem, h⟩
    obtain ⟨e, he, hsame⟩ := (Model.mem_chain_iff hl).mp hmem
    rw [he, Bool.and_eq_true, decide_eq_true_eq] at h
    exact ⟨earlier, ⟨e, l, he, hl, hsame, h.1⟩, h.2⟩
  · rintro ⟨earlier, hearlier, hfind⟩
    refine ⟨earlier, hearlier.precedes.mem_chain.1, ?_⟩
    obtain ⟨e, l', he, hl', -, hlt⟩ := hearlier
    obtain rfl := Option.some.inj (hl.symm.trans hl')
    rw [he, Bool.and_eq_true, decide_eq_true_eq]
    exact ⟨hlt, hfind⟩

/-- An attached member of the same name in an earlier library of the chain. -/
structure Origin (m : Model) (n : Node) (l : Library) (origin : NodeId) (w : Node) (e : Library) :
    Prop where
  node : m.node? origin = some w
  library : m.library? w.library = some e
  listed : origin ∈ e.members
  chain : w.library ∈ m.chain n.library
  earlier : e.version < l.version
  attached : w.attached = true
  name : w.name = n.name

namespace Origin

theorem earlierVersion (h : Origin m n l origin w e) (hl : m.library? n.library = some l) :
    m.EarlierVersion w.library n.library := by
  obtain ⟨e', he', hsame⟩ := (Model.mem_chain_iff hl).mp h.chain
  obtain rfl := Option.some.inj (h.library.symm.trans he')
  exact ⟨e, l, he', hl, hsame, h.earlier⟩

/-- A member with an origin is not new to its chain. -/
theorem newInChain_eq_false (h : Origin m n l origin w e) (hn : m.node? member = some n)
    (hl : m.library? n.library = some l) : newInChain m member = false := by
  have hfind : (m.findMember? w.library n.name).isSome = true :=
    Model.isSome_findMember?_iff.mpr ⟨e, origin, w, h.library, h.listed, h.node, h.attached, h.name⟩
  exact (newInChain_eq_false_iff hn hl).mpr ⟨w.library, h.earlierVersion hl, hfind⟩

/-- A member that is not new to its chain has an origin. -/
theorem exists_of_newInChain (hs : Shelved m) (hn : m.node? member = some n)
    (hl : m.library? n.library = some l) (h : newInChain m member = false) :
    ∃ origin w e, Origin m n l origin w e ∧ w.owner = none := by
  obtain ⟨earlier, hearlier, hfind⟩ := (newInChain_eq_false_iff hn hl).mp h
  have hmem := hearlier.precedes.mem_chain.1
  obtain ⟨e, l', he, hl', -, hlt⟩ := hearlier
  obtain rfl := Option.some.inj (hl.symm.trans hl')
  obtain ⟨_, origin, w, he', hlisted, hw, ha, hname⟩ := Model.isSome_findMember?_iff.mp hfind
  obtain rfl := Option.some.inj (he.symm.trans he')
  obtain ⟨w', hw', ho, rfl, -⟩ := hs.member he hlisted
  obtain rfl := Option.some.inj (hw.symm.trans hw')
  exact ⟨origin, w, e, ⟨hw, he, hlisted, hmem, hlt, ha, hname⟩, ho⟩

/-- The library of an origin is read-only, as there is a later one. -/
theorem readOnly (h : Origin m n l origin w e) (hl : m.library? n.library = some l)
    (user : Option String) : chainEditability user m w.library = .readOnly :=
  chainEditability_of_precedes (h.earlierVersion hl).precedes user

/-- An origin that is preserved stays one while the name and the libraries stay as they are. -/
theorem of_preserves (h : Origin m n l origin w e) (hlibs : m'.libraries = m.libraries)
    (hlib : n'.library = n.library) (hname : n'.name = n.name) (hext : Extends m m')
    (hp : m.Preserves origin gone m') :
    ∃ w', Origin m' n' l origin w' e ∧ w'.owner = w.owner := by
  obtain ⟨w', hw', -, hwo, hwl⟩ := hext.same h.node
  obtain ⟨_, hw'', hwname⟩ := hp.name h.node
  obtain rfl := Option.some.inj (hw'.symm.trans hw'')
  obtain ⟨_, hw'', hkept⟩ := hp.kept h.node .self
  obtain rfl := Option.some.inj (hw'.symm.trans hw'')
  refine ⟨w', ?_, hwo⟩
  exact {
    node := hw'
    library := hwl ▸ (Model.library?_of_libraries hlibs _).trans h.library
    listed := h.listed
    chain := by rw [hlib, hwl, Model.chain_of_libraries hlibs]; exact h.chain
    earlier := h.earlier
    attached := hkept.attached h.attached
    name := hwname.trans (h.name.trans hname.symm) }

end Origin

/-! ### Guarded members -/

/-- A member is carried forward into a library that takes minor changes only. -/
def Carries (v : Versioning) (m : Model) (top : NodeId) : Prop :=
  ∃ n, m.node? top = some n ∧ n.owner = none ∧ v.editability m n.library = .minorOnly ∧
    v.isNewToChain m top = false

/-- A member that takes no change that might break a user. -/
def Guards (v : Versioning) (m : Model) (top : NodeId) : Prop :=
  ∃ n, m.node? top = some n ∧ n.owner = none ∧ (v.editability m n.library = .readOnly ∨
    v.editability m n.library = .minorOnly ∧ v.isNewToChain m top = false)

theorem Carries.guards (h : v.Carries m top) : v.Guards m top := by
  obtain ⟨n, hn, ho, hcarried⟩ := h
  exact ⟨n, hn, ho, .inr hcarried⟩

/-- While two members are preserved and the libraries stay as they are, the first one is carried
forward and the second one, its origin, is guarded. -/
def Sustains (v : Versioning) (m : Model) (top origin : NodeId) : Prop :=
  ∀ m', Extends m m' → m'.libraries = m.libraries → m.Preserves top (fun _ => True) m' →
    m.Preserves origin (fun _ => True) m' → v.Carries m' top ∧ v.Guards m' origin

/-- A member has the name of an attached member of an earlier library in its chain. -/
def Continues (m : Model) (top origin : NodeId) : Prop :=
  ∃ n l w e, m.node? top = some n ∧ n.owner = none ∧ m.library? n.library = some l ∧
    w.owner = none ∧ Origin m n l origin w e

namespace Continues

theorem newInChain_eq_false (h : Continues m top origin) : newInChain m top = false := by
  obtain ⟨n, l, w, e, hn, -, hl, -, horigin⟩ := h
  exact horigin.newInChain_eq_false hn hl

/-- A member that is not new to its chain continues another one. -/
theorem exists_of_newInChain (hs : Shelved m) (hn : m.node? top = some n) (ho : n.owner = none)
    (h : newInChain m top = false) : ∃ origin, Continues m top origin := by
  obtain ⟨l, hl⟩ := hs.library_exists hn
  obtain ⟨origin, w, e, horigin, hwo⟩ := Origin.exists_of_newInChain hs hn hl h
  exact ⟨origin, n, l, w, e, hn, ho, hl, hwo, horigin⟩

/-- The library of a member that continues another one is not freely editable. -/
theorem chainEditability_ne (h : Continues m top origin) (hn : m.node? top = some n)
    (user : Option String) : chainEditability user m n.library ≠ .editable := by
  obtain ⟨_, l, w, e, hn', -, hl, -, horigin⟩ := h
  obtain rfl := Option.some.inj (hn.symm.trans hn')
  exact chainEditability_of_earlier (horigin.earlierVersion hl) user

/-- A member and the one that it continues are guarded. -/
theorem guards (h : Continues m top origin) (user : Option String) :
    (chain user).Guards m top ∧ (chain user).Guards m origin := by
  have hnew := h.newInChain_eq_false
  obtain ⟨n, l, w, e, hn, ho, hl, hwo, horigin⟩ := id h
  refine ⟨⟨n, hn, ho, ?_⟩, w, horigin.node, hwo, .inl (horigin.readOnly hl user)⟩
  cases heditability : (chain user).editability m n.library with
  | editable => exact absurd heditability (h.chainEditability_ne hn user)
  | minorOnly => exact .inr ⟨rfl, hnew⟩
  | readOnly => exact .inl rfl

/-- A member continues another one as long as both are preserved. -/
theorem of_preserves (h : Continues m top origin) (hlibs : m'.libraries = m.libraries)
    (hext : Extends m m') (htop : m.Preserves top gone m') (horigin : m.Preserves origin gone m') :
    Continues m' top origin := by
  obtain ⟨n, l, w, e, hn, ho, hl, hwo, h⟩ := h
  obtain ⟨n', hn', -, ho', hlib⟩ := hext.same hn
  obtain ⟨_, hn'', hname⟩ := htop.name hn
  obtain rfl := Option.some.inj (hn'.symm.trans hn'')
  obtain ⟨w', h', hwo'⟩ := h.of_preserves hlibs hlib hname hext horigin
  have hl' : m'.library? n'.library = some l :=
    hlib ▸ (Model.library?_of_libraries hlibs _).trans hl
  exact ⟨n', l, w', e, hn', ho'.trans ho, hl', hwo'.trans hwo, h'⟩

end Continues

/-- The origin of a member carried forward in a chain is the member of its name in an earlier
library, which is read-only. -/
theorem exists_origin_chain (hs : Shelved m) (h : (chain user).Carries m top) :
    ∃ origin, (chain user).Sustains m top origin := by
  obtain ⟨n, hn, ho, hminor, hnew⟩ := h
  obtain ⟨origin, hcontinues⟩ := Continues.exists_of_newInChain hs hn ho hnew
  refine ⟨origin, fun m' hext hlibs htop horigin => ?_⟩
  have hstill := hcontinues.of_preserves hlibs hext htop horigin
  obtain ⟨n', hn', -, ho', hlib⟩ := hext.same hn
  refine ⟨⟨n', hn', ho'.trans ho, ?_, hstill.newInChain_eq_false⟩, (hstill.guards user).2⟩
  exact hlib ▸ (chainEditability_of_libraries hlibs _).trans hminor

/-- Versioning by chains, as seen by any user, or by a table. -/
def Standard (v : Versioning) : Prop :=
  (∃ user, v = .chain user) ∨ ∃ default libraries carried, v = .fixed default libraries carried

/-- Every member that is carried forward has an origin; by a table, it is its own. -/
theorem exists_origin (hv : v.Standard) (hs : Shelved m) (h : v.Carries m top) :
    ∃ origin, v.Sustains m top origin := by
  obtain ⟨user, rfl⟩ | ⟨default, libraries, carried, rfl⟩ := hv
  · exact exists_origin_chain hs h
  · refine ⟨top, fun m' hext _ _ _ => ?_⟩
    obtain ⟨n, hn, ho, hcarried⟩ := h
    obtain ⟨n', hn', -, ho', hl'⟩ := hext.same hn
    have hstill : (fixed default libraries carried).Carries m' top :=
      ⟨n', hn', ho'.trans ho, hl' ▸ hcarried⟩
    exact ⟨hstill, hstill.guards⟩

end SchemaEditor.Versioning
