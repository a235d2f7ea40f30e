import SchemaEditor.Proofs.Snapshot.Load
import SchemaEditor.Proofs.Versioning

/-!
# Editability in version chains

Versioning by chains looks at the place of a library in its chain and at the length of the chain. So
it goes by the order of the chain, in which one library comes last and is the only one that may be
edited at all. In terms of version numbers alone the rules hold where no other library of the chain
has the same version; the first of two equal versions is read-only though none is later, and the
last one takes minor changes only though none is earlier.
-/

namespace SchemaEditor

/-- A library registered in two versions, both of them drafts with an object of their own. -/
def Snapshot.registered (first second : Version) : Snapshot where
  libraries :=
    [{ name := "Shop", uri := "urn:shop", version := first, status := .draft, managed := false
       lockedBy := none, members := [.object "Order" none []] },
      { name := "Shop", uri := "urn:shop", version := second, status := .draft, managed := false
        lockedBy := none, members := [.object "Order" (some "Order-2") []] }]

namespace Versioning

open Snapshot (registered)

variable {m : Model} {lib other a b : LibraryId} {l k e : Library}

/-- Two libraries that are open to everyone make up a chain; the second one has an object. -/
structure TwoDrafts (m : Model) (l k : Library) : Prop where
  first : m.library? ⟨0⟩ = some l
  second : m.library? ⟨1⟩ = some k
  openFirst : ¬ Closed none l
  openSecond : ¬ Closed none k
  versions : m.versions k = [(⟨0⟩, l.version), (⟨1⟩, k.version)]
  order : ∃ n, m.node? ⟨4⟩ = some n ∧ n.library = ⟨1⟩

namespace TwoDrafts

theorem sameChain (h : TwoDrafts m l k) : Model.sameChain l k = true := by
  have hmem : ((⟨0⟩, l.version) : LibraryId × Version) ∈ m.versions k := by
    rw [h.versions]
    exact List.mem_cons_self
  obtain ⟨l', hl', hs, -⟩ := Model.mem_versions_iff.mp hmem
  obtain rfl := Option.some.inj (h.first.symm.trans hl')
  exact hs

/-- The chain has the two libraries only. -/
theorem cases (h : TwoDrafts m l k) (he : m.library? other = some e)
    (hs : Model.sameChain e k = true) :
    (other = ⟨0⟩ ∧ e = l) ∨ other = ⟨1⟩ ∧ e = k := by
  have hmem : (other, e.version) ∈ m.versions k := Model.mem_versions_iff.mpr ⟨e, he, hs, rfl⟩
  rw [h.versions, List.mem_cons, List.mem_singleton] at hmem
  obtain hmem | hmem := hmem
  · obtain rfl := congrArg Prod.fst hmem
    exact .inl ⟨rfl, Option.some.inj (he.symm.trans h.first)⟩
  · obtain rfl := congrArg Prod.fst hmem
    exact .inr ⟨rfl, Option.some.inj (he.symm.trans h.second)⟩

/-- The second library comes last if its version is not smaller. -/
theorem not_precedes (h : TwoDrafts m l k) (hle : l.version ≤ k.version) (later : LibraryId) :
    ¬ m.Precedes ⟨1⟩ later := by
  have hpairwise : (m.versions k).Pairwise fun a b => a.2 ≤ b.2 := by
    rw [h.versions]
    exact List.pairwise_pair.mpr hle
  have hchain := Model.chain_of_pairwise h.second hpairwise
  rw [h.versions] at hchain
  exact (Model.getLast?_chain_eq_iff h.second).mp (by rw [hchain]; rfl) later

/-- Of two equal versions none is earlier. -/
theorem not_earlierVersion (h : TwoDrafts m l k) (heq : l.version = k.version)
    (hmem : a ∈ m.chain ⟨1⟩ ∨ b ∈ m.chain ⟨1⟩) : ¬ m.EarlierVersion a b := by
  have hversion : ∀ other e, other ∈ m.chain ⟨1⟩ → m.library? other = some e →
      e.version = k.version := by
    intro other e hother he
    obtain ⟨e', he', hs⟩ := (Model.mem_chain_iff h.second).mp hother
    obtain rfl := Option.some.inj (he.symm.trans he')
    obtain ⟨-, rfl⟩ | ⟨-, rfl⟩ := h.cases he hs
    · exact heq
    · rfl
  intro hab
  have hboth : a ∈ m.chain ⟨1⟩ ∧ b ∈ m.chain ⟨1⟩ := by
    obtain ⟨ha, hb⟩ := hab.precedes.mem_chain
    obtain hmem | hmem := hmem
    · exact ⟨hmem, Model.chain_eq_of_mem h.second hmem ▸ hb⟩
    · exact ⟨Model.chain_eq_of_mem h.second hmem ▸ ha, hmem⟩
  obtain ⟨x, y, hx, hy, -, hlt⟩ := hab
  rw [hversion a x hboth.1 hx, hversion b y hboth.2 hy] at hlt
  exact Nat.lt_irrefl _ hlt

/-- Two drafts are loaded where they are found in the model. -/
theorem exists_of_load (first second : Version)
    (hp : ((registered first second).load.toOption.any fun loaded =>
      (loaded.model.library? ⟨0⟩).any fun l => (loaded.model.library? ⟨1⟩).any fun k =>
        decide (l.version = first ∧ k.version = second) &&
          decide (l.builtin = false ∧ l.status = .draft ∧ l.managed = false) &&
          decide (k.builtin = false ∧ k.status = .draft ∧ k.managed = false) &&
          decide (loaded.model.versions k = [(⟨0⟩, first), (⟨1⟩, second)]) &&
          (loaded.model.node? ⟨4⟩).any fun n => decide (n.library = ⟨1⟩)) = true) :
    ∃ loaded l k, (registered first second).load = .ok loaded ∧ TwoDrafts loaded.model l k ∧
      l.version = first ∧ k.version = second := by
  simp only [Option.any_eq_true, Outcome.toOption_eq_some_iff, Bool.and_eq_true,
    decide_eq_true_eq] at hp
  obtain ⟨loaded, hload, l, hl, k, hk, ⟨⟨⟨⟨rfl, rfl⟩, hlb, hls, hlm⟩, hkb, hks, hkm⟩, h⟩, n, hn⟩ :=
    hp
  refine ⟨loaded, l, k, hload, ⟨hl, hk, ?_, ?_, h, n, hn⟩, rfl, rfl⟩
  · simp [Closed, hlb, hls, hlm]
  · simp [Closed, hkb, hks, hkm]

end TwoDrafts

/-! ### Rules and order -/

/-- The editability of a library is what the rules say of the order of its chain, and of the
versions in it unless another library has the same version. -/
theorem editability_follows_order (hl : m.library? lib = some l) (user : Option String) :
    (∀ d, (chain user).editability m lib = d ↔
      Rules user l (∃ later, m.Precedes lib later) (∃ earlier, m.Precedes earlier lib) d) ∧
    (m.Unrepeated lib l → ∀ d, (chain user).editability m lib = d ↔
      Rules user l (∃ later, m.EarlierVersion lib later) (∃ earlier, m.EarlierVersion earlier lib)
        d) := by
  have hrules : ∀ d, (chain user).editability m lib = d ↔
      Rules user l (∃ later, m.Precedes lib later) (∃ earlier, m.Precedes earlier lib) d := by
    refine fun d => ⟨?_, (rules_chainEditability hl user).unique⟩
    rintro rfl
    exact rules_chainEditability hl user
  refine ⟨hrules, fun hown => ?_⟩
  simpa only [hown.precedes_left_iff hl, hown.precedes_right_iff hl] using hrules

/-- A version after a smaller one takes minor changes only. -/
theorem editability_registered : ∃ loaded k, (registered ⟨1, 0, 0⟩ ⟨1, 1, 0⟩).load = .ok loaded ∧
    loaded.model.library? ⟨1⟩ = some k ∧ loaded.model.Unrepeated ⟨1⟩ k ∧
    (chain none).editability loaded.model ⟨1⟩ = .minorOnly := by
  obtain ⟨loaded, l, k, hload, h, hlv, hkv⟩ := TwoDrafts.exists_of_load ⟨1, 0, 0⟩ ⟨1, 1, 0⟩
    (by decide +kernel)
  have hown : loaded.model.Unrepeated ⟨1⟩ k := fun other e he hs hv => by
    obtain ⟨rfl, rfl⟩ | ⟨rfl, -⟩ := h.cases he hs
    · rw [hlv, hkv] at hv
      cases hv
    · rfl
  refine ⟨loaded, k, hload, h.second, hown, ?_⟩
  refine ((editability_follows_order h.second none).2 hown .minorOnly).mpr
    (.minorOnly h.openSecond ?_ (by rw [hkv]; decide) ⟨⟨0⟩, ?_⟩)
  · rintro ⟨later, hlater⟩
    exact h.not_precedes (by rw [hlv, hkv]; decide) later hlater.precedes
  · exact ⟨l, k, h.first, h.second, h.sameChain, by rw [hlv, hkv]; decide⟩

/-- Of two equal versions the first one is read-only though none is later, and the last one takes
minor changes only though none is earlier. -/
theorem editability_misjudges_equal_versions :
    ∃ loaded l k, (registered ⟨1, 1, 0⟩ ⟨1, 1, 0⟩).load = .ok loaded ∧
      loaded.model.library? ⟨0⟩ = some l ∧ loaded.model.library? ⟨1⟩ = some k ∧
      (Rules none l (∃ later, loaded.model.EarlierVersion ⟨0⟩ later)
          (∃ earlier, loaded.model.EarlierVersion earlier ⟨0⟩) .editable ∧
        (chain none).editability loaded.model ⟨0⟩ = .readOnly) ∧
      Rules none k (∃ later, loaded.model.EarlierVersion ⟨1⟩ later)
          (∃ earlier, loaded.model.EarlierVersion earlier ⟨1⟩) .editable ∧
        (chain none).editability loaded.model ⟨1⟩ = .minorOnly := by
  obtain ⟨loaded, l, k, hload, h, hlv, hkv⟩ := TwoDrafts.exists_of_load ⟨1, 1, 0⟩ ⟨1, 1, 0⟩
    (by decide +kernel)
  have heq : l.version = k.version := hlv.trans hkv.symm
  have hbefore : loaded.model.Precedes ⟨0⟩ ⟨1⟩ :=
    ⟨l, k, h.first, h.second, h.sameChain, .inr ⟨heq, Nat.zero_lt_one⟩⟩
  have hfirst := hbefore.mem_chain.1
  have hsecond := Model.mem_chain_self h.second
  refine ⟨loaded, l, k, hload, h.first, h.second, ⟨?_, ?_⟩, ?_, ?_⟩
  · refine .editable h.openFirst ?_ ?_
    · rintro ⟨later, hlater⟩
      exact h.not_earlierVersion heq (.inl hfirst) hlater
    · rintro ⟨-, earlier, hearlier⟩
      exact h.not_earlierVersion heq (.inr hfirst) hearlier
  · exact chainEditability_of_precedes hbefore none
  · refine .editable h.openSecond ?_ ?_
    · rintro ⟨later, hlater⟩
      exact h.not_earlierVersion heq (.inl hsecond) hlater
    · rintro ⟨-, earlier, hearlier⟩
      exact h.not_earlierVersion heq (.inr hsecond) hearlier
  · refine (rules_chainEditability h.second none).unique (.minorOnly h.openSecond ?_ ?_ ?_)
    · exact not_exists.mpr (h.not_precedes (Nat.le_of_eq (congrArg _ heq)))
    · rw [hkv]
      decide
    · exact ⟨⟨0⟩, hbefore⟩

/-! ### The last version -/

/-- A library that is not read-only comes last in its chain, and the others are read-only. One that
is freely editable has no earlier version in its chain, so that its members are new there. -/
theorem one_writable_per_chain (hl : m.library? lib = some l) (user : Option String) :
    ((chain user).editability m lib ≠ .readOnly →
      ∀ other ∈ m.chain lib, other ≠ lib →
        m.Precedes other lib ∧ (chain user).editability m other = .readOnly) ∧
    ((chain user).editability m lib = .editable →
      (∀ earlier, ¬ m.EarlierVersion earlier lib) ∧
      ∀ member n, m.node? member = some n → n.library = lib →
        (chain user).isNewToChain m member = true) := by
  constructor
  · intro hwritable other hmem hne
    obtain ⟨k, hk, hs⟩ := (Model.mem_chain_iff hl).mp hmem
    obtain hbefore | hafter := Model.precedes_or_precedes hk hl hs hne
    · exact ⟨hbefore, chainEditability_of_precedes hbefore user⟩
    · exact absurd (chainEditability_of_precedes hafter user) hwritable
  · intro hfree
    have hnone : ∀ earlier, ¬ m.EarlierVersion earlier lib := fun earlier h =>
      chainEditability_of_earlier h user hfree
    refine ⟨hnone, fun member n hn hlib => ?_⟩
    subst hlib
    show newInChain m member = true
    by_contra hold
    rw [Bool.not_eq_true] at hold
    obtain ⟨earlier, hearlier, -⟩ := (newInChain_eq_false_iff hn hl).mp hold
    exact hnone earlier hearlier

/-- Of two equal versions that open a chain, the last one may be edited freely and the first one not
at all. -/
theorem one_writable_registered :
    ∃ loaded, (registered ⟨1, 0, 0⟩ ⟨1, 0, 0⟩).load = .ok loaded ∧
      (chain none).editability loaded.model ⟨1⟩ = .editable ∧
      loaded.model.Precedes ⟨0⟩ ⟨1⟩ ∧ (chain none).editability loaded.model ⟨0⟩ = .readOnly ∧
      (chain none).isNewToChain loaded.model ⟨4⟩ = true := by
  obtain ⟨loaded, l, k, hload, h, hlv, hkv⟩ := TwoDrafts.exists_of_load ⟨1, 0, 0⟩ ⟨1, 0, 0⟩
    (by decide +kernel)
  have hfree : (chain none).editability loaded.model ⟨1⟩ = .editable := by
    refine (rules_chainEditability h.second none).unique (.editable h.openSecond ?_ ?_)
    · exact not_exists.mpr (h.not_precedes (by rw [hlv, hkv]; decide))
    · rw [hkv]
      exact fun hminor => absurd hminor.1 (by decide)
  obtain ⟨hothers, hearlier⟩ := one_writable_per_chain h.second none
  have hmem := (Model.mem_chain_iff h.second).mpr ⟨l, h.first, h.sameChain⟩
  obtain ⟨hbefore, hreadOnly⟩ := hothers (by rw [hfree]; decide) ⟨0⟩ hmem (by decide)
  obtain ⟨n, hn, hlib⟩ := h.order
  exact ⟨loaded, hload, hfree, hbefore, hreadOnly, (hearlier hfree).2 ⟨4⟩ n hn hlib⟩

end Versioning

end SchemaEditor
