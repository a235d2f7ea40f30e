import SchemaEditor.Proofs.Facade.Registry

/-!
# Sequences of registrations

There are three ways to ask a registry for the facade of a node. They differ in what they make of a
node that has a facade already, and in whether a kind is at hand. Each of them hands out a facade
for a node that has none or leaves the registry as it was, so a registry stays consistent and only
ever grows at its end.
-/

namespace SchemaEditor.Facade.Registry

/-- A way to ask for the facade of a node. -/
inductive Call where
  | register (node : NodeId) (kind : Kind)
  | tryRegister (node : NodeId) (kind : Kind)
  | getOrCreate (node : NodeId) (kind? : Option Kind)

namespace Call

/-- The node that a call asks about. -/
def node : Call → NodeId
  | register node _ => node
  | tryRegister node _ => node
  | getOrCreate node _ => node

/-- What a call answers, and the registry that it leaves. A refusal names the facade that is in the
way, if there is one. -/
def run (r : Registry) : Call → Except (Option FacadeId) FacadeId × Registry
  | register node kind => (.ok (r.register node kind).1, (r.register node kind).2)
  | tryRegister node kind =>
    match r.tryRegister node kind with
    | .ok (id, r') => (.ok id, r')
    | .error existing => (.error (some existing), r)
  | getOrCreate node kind? =>
    match r.getOrCreate node kind? with
    | some (id, r') => (.ok id, r')
    | none => (.error none, r)

/-- A call answers with a facade, be it as a refusal. -/
def Names (r : Registry) (c : Call) (id : FacadeId) : Prop :=
  (c.run r).1 = .ok id ∨ (c.run r).1 = .error (some id)

end Call

/-- A registry after a sequence of calls. -/
def after (r : Registry) (calls : List Call) : Registry := calls.foldl (fun r c => (c.run r).2) r

variable {r : Registry} {c : Call} {id : FacadeId}

namespace Call

/-- A node that has a facade keeps it, and the call names it. -/
theorem run_of_registered (h : r.get? c.node = some id) :
    (c.run r).2 = r ∧ ∀ j, c.Names r j ↔ j = id := by
  cases c with
  | register node kind =>
    rw [Call.node] at h
    have hrun : r.register node kind = (id, r) := by rw [Registry.register, h]
    simp [Names, run, hrun, eq_comm]
  | tryRegister node kind =>
    rw [Call.node] at h
    have hrun : r.tryRegister node kind = .error id := by rw [Registry.tryRegister, h]
    simp [Names, run, hrun, eq_comm]
  | getOrCreate node kind? =>
    rw [Call.node] at h
    have hrun : r.getOrCreate node kind? = some (id, r) := by rw [Registry.getOrCreate, h]
    simp [Names, run, hrun, eq_comm]

/-- A node that has no facade gets a new one, or the call is refused and names none. -/
theorem run_of_free (h : r.get? c.node = none) :
    (∃ kind, c.run r = (.ok ⟨r.size⟩, (r.insert c.node kind).2)) ∨ c.run r = (.error none, r) := by
  cases c with
  | register node kind =>
    rw [Call.node] at h
    have hrun : r.register node kind = r.insert node kind := by rw [Registry.register, h]
    exact .inl ⟨kind, by rw [run, hrun]; rfl⟩
  | tryRegister node kind =>
    rw [Call.node] at h
    have hrun : r.tryRegister node kind = .ok (r.insert node kind) := by
      rw [Registry.tryRegister, h]
    exact .inl ⟨kind, by rw [run, hrun]; rfl⟩
  | getOrCreate node kind? =>
    rw [Call.node] at h
    have hrun : r.getOrCreate node kind? = kind?.map (r.insert node) := by
      rw [Registry.getOrCreate, h]
    cases kind? with
    | none => exact .inr (by rw [run, hrun]; rfl)
    | some kind => exact .inl ⟨kind, by rw [run, hrun]; rfl⟩

/-- A call leaves the registry as it was or hands out a facade for a node that had none. -/
theorem run_cases (r : Registry) (c : Call) :
    (c.run r).2 = r ∨ r.get? c.node = none ∧ ∃ kind,
      c.run r = (.ok ⟨r.size⟩, (r.insert c.node kind).2) := by
  cases h : r.get? c.node with
  | some id => exact .inl (run_of_registered h).1
  | none =>
    obtain ⟨kind, hrun⟩ | hrun := run_of_free h
    · exact .inr ⟨rfl, kind, hrun⟩
    · exact .inl (by rw [hrun])

theorem consistent (h : r.Consistent) (c : Call) : (c.run r).2.Consistent := by
  obtain hrun | ⟨hfree, kind, hrun⟩ := run_cases r c
  · rwa [hrun]
  · rw [hrun]
    exact h.insert hfree kind

theorem continues (r : Registry) (c : Call) : r.Continues (c.run r).2 := by
  obtain hrun | ⟨hfree, kind, hrun⟩ := run_cases r c
  · rw [hrun]
    exact .refl r
  · rw [hrun]
    exact .insert hfree kind

/-- A refused call leaves the registry as it was. -/
theorem run_of_error {existing? : Option FacadeId} (h : (c.run r).1 = .error existing?) :
    (c.run r).2 = r := by
  obtain hrun | ⟨-, kind, hrun⟩ := run_cases r c
  · exact hrun
  · rw [hrun] at h
    cases h

/-- What a call names is the facade of its node from then on. -/
theorem get?_of_names (h : c.Names r id) : (c.run r).2.get? c.node = some id := by
  cases hget : r.get? c.node with
  | some j =>
    obtain ⟨hrun, hnames⟩ := run_of_registered hget
    rw [hrun, hget, (hnames id).mp h]
  | none =>
    obtain ⟨kind, hrun⟩ | hrun := run_of_free hget
    · simp only [Names, hrun, Except.ok.injEq, reduceCtorEq, or_false] at h
      rw [hrun, get?_insert, if_pos rfl, h]
    · simp [Names, hrun] at h

end Call

theorem Consistent.after (h : r.Consistent) (calls : List Call) : (r.after calls).Consistent := by
  induction calls generalizing r with
  | nil => exact h
  | cons c calls ih => exact ih (c.consistent h)

theorem Continues.after (r : Registry) (calls : List Call) : r.Continues (r.after calls) := by
  induction calls generalizing r with
  | nil => exact .refl r
  | cons c calls ih => exact (c.continues r).trans (ih _)

end SchemaEditor.Facade.Registry
