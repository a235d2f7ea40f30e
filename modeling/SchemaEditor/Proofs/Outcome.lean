import Mathlib.Data.List.Induction

/-!
# Outcomes of queries and edits

How a query made of several queries succeeds: each of them gives a value, and the last one gives
the value of the whole. An edit made of several edits runs on from the state that the first one
leaves. A run of steps keeps what all its steps keep that are not of a certain kind, as long as no
step of that kind `Occurs` in it; and what some steps bring about and others undo holds after it
exactly if one of the first kind `Stands`.
-/

namespace SchemaEditor.Outcome

variable {ε α β : Type} {q : Except ε α} {f : α → Except ε β} {a : α} {b : β} {e : ε}

theorem map_eq_ok_iff {g : α → β} : g <$> q = .ok b ↔ ∃ a, q = .ok a ∧ g a = b := by
  cases q <;> simp [Functor.map, Except.map]

theorem bind_eq_ok_iff : q >>= f = .ok b ↔ ∃ a, q = .ok a ∧ f a = .ok b := by
  cases q <;> simp [bind, Except.bind]

theorem bind_eq_error_iff :
    q >>= f = .error e ↔ q = .error e ∨ ∃ a, q = .ok a ∧ f a = .error e := by
  cases q <;> simp [bind, Except.bind]

theorem toOption_eq_some_iff : q.toOption = some a ↔ q = .ok a := by
  cases q <;> simp [Except.toOption]

/-- A query of each element of a list gives a value if each of them does. -/
theorem exists_mapM {f : α → Except ε β} {l : List α} (h : ∀ a ∈ l, ∃ b, f a = .ok b) :
    ∃ bs, l.mapM f = .ok bs := by
  induction l with
  | nil => exact ⟨[], rfl⟩
  | cons a l ih =>
    obtain ⟨b, hb⟩ := h a List.mem_cons_self
    obtain ⟨bs, hbs⟩ := ih fun c hc => h c (List.mem_cons_of_mem _ hc)
    exact ⟨b :: bs, by rw [List.mapM_cons, hb, hbs]; rfl⟩

/-- A query of each element of a list gives the values of the elements, and nothing else. -/
theorem map_of_mapM {f : α → Except ε β} {l : List α} {bs : List β} (h : l.mapM f = .ok bs) :
    l.map f = bs.map .ok := by
  induction l generalizing bs with
  | nil =>
    obtain rfl := Except.ok.inj h
    rfl
  | cons a l ih =>
    rw [List.mapM_cons] at h
    obtain ⟨b, hb, h⟩ := bind_eq_ok_iff.mp h
    obtain ⟨bs', hbs', h⟩ := bind_eq_ok_iff.mp h
    obtain rfl := Except.ok.inj h
    rw [List.map_cons, List.map_cons, hb, ih hbs']

/-- What each step of a loop keeps, the loop keeps. -/
theorem foldlM_keeps {f : β → α → Except ε β} {I : β → Prop} {l : List α} {b b' : β}
    (hf : ∀ {b a b'}, I b → f b a = .ok b' → I b') (hb : I b) (h : l.foldlM f b = .ok b') :
    I b' := by
  induction l generalizing b with
  | nil =>
    obtain rfl := Except.ok.inj h
    exact hb
  | cons a l ih =>
    rw [List.foldlM_cons] at h
    obtain ⟨c, hc, h⟩ := bind_eq_ok_iff.mp h
    exact ih (hf hb hc) h

/-- A loop establishes of the elements it has gone through what each step adds for its own. -/
theorem foldlM_collects {f : β → α → Except ε β} {I : β → List α → Prop} {l : List α} {b b' : β}
    (hf : ∀ {b done a b'}, I b done → f b a = .ok b' → I b' (done ++ [a])) (hb : I b [])
    (h : l.foldlM f b = .ok b') : I b' l := by
  suffices rest : ∀ {b done}, I b done → l.foldlM f b = .ok b' → I b' (done ++ l) from rest hb h
  clear hb h
  induction l with
  | nil =>
    intro b done hb h
    obtain rfl := Except.ok.inj h
    rwa [List.append_nil]
  | cons a l ih =>
    intro b done hb h
    rw [List.foldlM_cons] at h
    obtain ⟨c, hc, h⟩ := bind_eq_ok_iff.mp h
    simpa using ih (hf hb hc) h

/-- A loop succeeds if each of its steps does and keeps what the next one needs. -/
theorem exists_foldlM {f : β → α → Except ε β} {I : β → Prop} {l : List α} {b : β}
    (hf : ∀ {b a}, I b → a ∈ l → ∃ b', f b a = .ok b' ∧ I b') (hb : I b) :
    ∃ b', l.foldlM f b = .ok b' := by
  induction l generalizing b with
  | nil => exact ⟨b, rfl⟩
  | cons a l ih =>
    obtain ⟨c, hc, hI⟩ := hf hb List.mem_cons_self
    obtain ⟨d, hd⟩ := ih (fun hb ha => hf hb (List.mem_cons_of_mem _ ha)) hI
    exact ⟨d, by rw [List.foldlM_cons]; exact bind_eq_ok_iff.mpr ⟨c, hc, hd⟩⟩

@[simp] theorem ok_bind (a : α) (f : α → Except ε β) : (Except.ok a >>= f) = f a := rfl

/-! ### Edits of a state -/

section state

variable {σ : Type} {s s' : σ} {x : EStateM ε σ α} {k : α → EStateM ε σ β}

theorem bind_ok (h : x s = .ok a s') : (x >>= k) s = k a s' := by
  show EStateM.bind x k s = _
  rw [EStateM.bind, h]

theorem bind_error (h : x s = .error e s') : (x >>= k) s = .error e s' := by
  show EStateM.bind x k s = _
  rw [EStateM.bind, h]

theorem run_bind_eq_ok_iff {s'' : σ} :
    (x >>= k) s = .ok b s'' ↔ ∃ a s', x s = .ok a s' ∧ k a s' = .ok b s'' := by
  constructor
  · intro h
    cases hx : x s with
    | ok a s' => exact ⟨a, s', rfl, (bind_ok hx).symm.trans h⟩
    | error e s' => cases (bind_error hx).symm.trans h
  · rintro ⟨a, s', hx, hk⟩
    exact (bind_ok hx).trans hk

theorem run_bind_eq_error_iff {s'' : σ} :
    (x >>= k) s = .error e s'' ↔
      x s = .error e s'' ∨ ∃ a s', x s = .ok a s' ∧ k a s' = .error e s'' := by
  constructor
  · intro h
    cases hx : x s with
    | ok a s' => exact .inr ⟨a, s', rfl, (bind_ok hx).symm.trans h⟩
    | error e' s' =>
      obtain ⟨rfl, rfl⟩ := EStateM.Result.error.inj ((bind_error hx).symm.trans h)
      exact .inl rfl
  · rintro (hx | ⟨a, s', hx, hk⟩)
    · exact bind_error hx
    · exact (bind_ok hx).trans hk

theorem run_map_eq_ok_iff {f : α → β} : (f <$> x) s = .ok b s' ↔ ∃ a, x s = .ok a s' ∧ f a = b := by
  show EStateM.map f x s = _ ↔ _
  rw [EStateM.map]
  cases x s with
  | ok a s'' =>
    simp only [EStateM.Result.ok.injEq]
    exact ⟨fun ⟨hf, hs⟩ => ⟨a, ⟨rfl, hs⟩, hf⟩, fun ⟨_, ⟨rfl, hs⟩, hf⟩ => ⟨hf, hs⟩⟩
  | error e s'' => simp

end state

/-! ### Runs -/

section run

variable {σ : Type} {step : σ → α → σ} {P : σ → α → Prop} {s : σ} {l : List α}

/-- Somewhere in a run a step of a certain kind is made. -/
def Occurs (step : σ → α → σ) (P : σ → α → Prop) (s : σ) (l : List α) : Prop :=
  ∃ before a rest, l = before ++ a :: rest ∧ P (before.foldl step s) a

theorem not_occurs_nil : ¬ Occurs step P s [] := by
  rintro ⟨before, a, rest, h, -⟩
  cases before <;> cases h

theorem occurs_cons : Occurs step P s (a :: l) ↔ P s a ∨ Occurs step P (step s a) l := by
  constructor
  · rintro ⟨_ | ⟨_, before⟩, b, rest, h, hp⟩
    · obtain ⟨rfl, -⟩ := List.cons.inj h
      exact .inl hp
    · obtain ⟨rfl, rfl⟩ := List.cons.inj h
      exact .inr ⟨before, b, rest, rfl, hp⟩
  · rintro (hp | ⟨before, b, rest, rfl, hp⟩)
    · exact ⟨[], a, l, rfl, hp⟩
    · exact ⟨a :: before, b, rest, rfl, hp⟩

theorem Occurs.append (h : Occurs step P s l) (l' : List α) : Occurs step P s (l ++ l') := by
  obtain ⟨before, a, rest, rfl, hp⟩ := h
  exact ⟨before, a, rest ++ l', by simp, hp⟩

/-- What every step keeps that is not of a certain kind, a run keeps in which none is. -/
theorem foldl_keeps {I : σ → Prop} (hstep : ∀ {s a}, a ∈ l → I s → ¬ P s a → I (step s a))
    (hs : I s) (h : ¬ Occurs step P s l) : I (l.foldl step s) := by
  induction l generalizing s with
  | nil => exact hs
  | cons a l ih =>
    rw [occurs_cons, not_or] at h
    exact ih (fun ha => hstep (List.mem_cons_of_mem _ ha)) (hstep List.mem_cons_self hs h.1) h.2

theorem occurs_concat :
    Occurs step P s (l ++ [a]) ↔ Occurs step P s l ∨ P (l.foldl step s) a := by
  induction l generalizing s with
  | nil => simp [occurs_cons, not_occurs_nil]
  | cons b l ih => rw [List.cons_append, occurs_cons, occurs_cons, ih, List.foldl_cons, or_assoc]

/-- A step of a certain kind `Stands` in a run that makes it and makes no step of another kind after
it. -/
def Stands (step : σ → α → σ) (P Q : σ → α → Prop) (s : σ) (l : List α) : Prop :=
  ∃ before a rest, l = before ++ a :: rest ∧ P (before.foldl step s) a ∧
    ¬ Occurs step Q (step (before.foldl step s) a) rest

theorem not_stands_nil : ¬ Stands step P Q s [] :=
  fun ⟨before, a, rest, h, hp, _⟩ => not_occurs_nil ⟨before, a, rest, h, hp⟩

theorem stands_concat : Stands step P Q s (l ++ [a]) ↔
    P (l.foldl step s) a ∨ Stands step P Q s l ∧ ¬ Q (l.foldl step s) a := by
  constructor
  · rintro ⟨before, b, rest, h, hp, hq⟩
    obtain rfl | ⟨rest, c, rfl⟩ := rest.eq_nil_or_concat
    · obtain ⟨rfl, hab⟩ := List.append_inj' h rfl
      obtain rfl := List.singleton_inj.mp hab
      exact .inl hp
    · rw [List.concat_eq_append] at h hq
      rw [← List.cons_append, ← List.append_assoc] at h
      obtain ⟨rfl, hac⟩ := List.append_inj' h rfl
      obtain rfl := List.singleton_inj.mp hac
      rw [occurs_concat, not_or] at hq
      rw [List.foldl_append, List.foldl_cons]
      exact .inr ⟨⟨before, b, rest, rfl, hp, hq.1⟩, hq.2⟩
  · rintro (hp | ⟨⟨before, b, rest, rfl, hp, hq⟩, hlast⟩)
    · exact ⟨l, a, [], rfl, hp, not_occurs_nil⟩
    · rw [List.foldl_append, List.foldl_cons] at hlast
      refine ⟨before, b, rest ++ [a], by simp, hp, ?_⟩
      rw [occurs_concat, not_or]
      exact ⟨hq, hlast⟩

/-- What steps of one kind bring about, and only steps of another kind undo, holds after a run
exactly if a step of the first kind stands in it. -/
theorem foldl_iff_stands {B : σ → Prop} (hs : ¬ B s)
    (hstep : ∀ before a rest, l = before ++ a :: rest →
      let t := before.foldl step s
      B (step t a) ↔ P t a ∨ B t ∧ ¬ Q t a) :
    B (l.foldl step s) ↔ Stands step P Q s l := by
  induction l using List.reverseRecOn with
  | nil => exact iff_of_false hs not_stands_nil
  | append_singleton l a ih =>
    rw [List.foldl_append, stands_concat,
      ← ih fun before b rest h => hstep before b (rest ++ [a]) (by rw [h]; simp)]
    exact hstep l a [] rfl

end run

end SchemaEditor.Outcome
