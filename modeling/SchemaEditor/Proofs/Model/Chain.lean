import SchemaEditor.Proofs.Model.Lookup

/-!
# Version chains

The libraries of a chain are those that share name, namespace and major number, whichever of them
is asked.
-/

namespace SchemaEditor.Model

variable {m m' : Model} {lib earlier : LibraryId} {l k : Library}

theorem library?_of_libraries (h : m'.libraries = m.libraries) (lib : LibraryId) :
    m'.library? lib = m.library? lib := by
  rw [library?, library?, h]

/-- The chain of a library depends on the libraries only. -/
theorem chain_of_libraries (h : m'.libraries = m.libraries) (lib : LibraryId) :
    m'.chain lib = m.chain lib := by
  simp only [chain, library?, libraryIds, h]

theorem mem_libraryIds (h : m.library? lib = some l) : lib ∈ m.libraryIds := by
  obtain ⟨hlt, -⟩ := Array.getElem?_eq_some_iff.mp h
  exact List.mem_map.mpr ⟨lib.index, List.mem_range.mpr hlt, rfl⟩

theorem exists_library?_of_mem_libraryIds (h : lib ∈ m.libraryIds) :
    ∃ l, m.library? lib = some l := by
  obtain ⟨i, hi, rfl⟩ := List.mem_map.mp h
  exact ⟨_, Array.getElem?_eq_getElem (List.mem_range.mp hi)⟩

/-- The libraries in the chain of a library, with their versions, in the order of the model. -/
def versions (m : Model) (l : Library) : List (LibraryId × Version) :=
  m.libraryIds.filterMap fun id =>
    match m.library? id with
    | some other => if sameChain other l then some (id, other.version) else none
    | none => none

theorem mem_versions_iff {entry : LibraryId × Version} :
    entry ∈ m.versions l ↔
      ∃ k, m.library? entry.1 = some k ∧ sameChain k l = true ∧ entry.2 = k.version := by
  rw [versions, List.mem_filterMap]
  constructor
  · rintro ⟨id, -, h⟩
    split at h
    · next k hk =>
      split at h
      · next hs =>
        obtain rfl := Option.some.inj h
        exact ⟨k, hk, hs, rfl⟩
      · cases h
    · cases h
  · rintro ⟨k, hk, hs, hv⟩
    refine ⟨entry.1, mem_libraryIds hk, ?_⟩
    simp only [hk, hs, if_true, ← hv]

theorem chain_eq (hl : m.library? lib = some l) :
    m.chain lib = ((m.versions l).mergeSort fun a b => decide (a.2 ≤ b.2)).map (·.1) := by
  rw [chain, hl]
  rfl

/-- Versions that come in order are not moved. -/
theorem chain_of_pairwise (hl : m.library? lib = some l)
    (h : (m.versions l).Pairwise fun a b => a.2 ≤ b.2) :
    m.chain lib = (m.versions l).map (·.1) := by
  rw [chain_eq hl, List.mergeSort_of_pairwise (h.imp fun hab => decide_eq_true hab)]

/-- Chains join the libraries that share name, namespace and major number. -/
theorem mem_chain_iff (hl : m.library? lib = some l) :
    earlier ∈ m.chain lib ↔ ∃ k, m.library? earlier = some k ∧ sameChain k l = true := by
  simp only [chain_eq hl, List.mem_map, List.mem_mergeSort, mem_versions_iff]
  constructor
  · rintro ⟨_, ⟨k, hk, hs, -⟩, rfl⟩
    exact ⟨k, hk, hs⟩
  · rintro ⟨k, hk, hs⟩
    exact ⟨(earlier, k.version), ⟨k, hk, hs, rfl⟩, rfl⟩

theorem sameChain_symm (h : sameChain k l = true) : sameChain l k = true := by
  simp only [sameChain, Bool.and_eq_true, decide_eq_true_eq] at h ⊢
  exact ⟨⟨h.1.1.symm, h.1.2.symm⟩, h.2.symm⟩

theorem sameChain_congr (h : sameChain k l = true) (a : Library) :
    sameChain a k = sameChain a l := by
  simp only [sameChain, Bool.and_eq_true, decide_eq_true_eq] at h
  obtain ⟨⟨huri, hname⟩, hmajor⟩ := h
  simp only [sameChain, huri, hname, hmajor]

/-- The libraries of a chain have the same chain. -/
theorem chain_eq_of_mem (hl : m.library? lib = some l) (h : earlier ∈ m.chain lib) :
    m.chain earlier = m.chain lib := by
  obtain ⟨k, hk, hs⟩ := (mem_chain_iff hl).mp h
  simp only [chain, hl, hk, sameChain_congr hs]

theorem mem_chain_self (hl : m.library? lib = some l) : lib ∈ m.chain lib :=
  (mem_chain_iff hl).mpr ⟨l, hl, by simp [sameChain]⟩

/-- A library with another one in its chain is not alone in it. -/
theorem one_lt_length_chain (hl : m.library? lib = some l) (h : earlier ∈ m.chain lib)
    (hne : earlier ≠ lib) : 1 < (m.chain lib).length := by
  have hself := mem_chain_self hl
  match hchain : m.chain lib with
  | [] =>
    rw [hchain] at h
    cases h
  | [a] =>
    rw [hchain, List.mem_singleton] at h hself
    exact absurd (h.trans hself.symm) hne
  | _ :: _ :: _ => simp

theorem isSome_findMember?_iff {name : String} :
    (m.findMember? lib name).isSome = true ↔ ∃ l w n, m.library? lib = some l ∧ w ∈ l.members ∧
      m.node? w = some n ∧ n.attached = true ∧ n.name = name := by
  unfold findMember?
  cases hl : m.library? lib with
  | none => simp
  | some l =>
    simp only [Option.bind_some, List.find?_isSome, Option.any_eq_true, Bool.and_eq_true,
      decide_eq_true_eq, Option.some.injEq]
    constructor
    · rintro ⟨w, hw, n, hn, ha, hname⟩
      exact ⟨l, w, n, rfl, hw, hn, ha, hname⟩
    · rintro ⟨_, w, n, rfl, hw, hn, ha, hname⟩
      exact ⟨w, hw, n, hn, ha, hname⟩

end SchemaEditor.Model
