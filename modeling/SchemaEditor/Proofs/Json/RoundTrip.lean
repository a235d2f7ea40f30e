import SchemaEditor.Json.Parser
import SchemaEditor.Proofs.Json.Lexing

/-!
# Reading what was written

The machine that reads tokens puts a value wherever one may stand, when it is given the tokens of
the value: by induction on the value, one lemma for the items of an array and one for the fields of
an object. So whatever is written of a value that is writable within the limit reads back.
-/

namespace SchemaEditor.Json

namespace Reading

variable {limit d : Nat} {stack : List Frame} {e : Expect} {ts : List Token} {t : Token}
variable {r r' : Reading}

theorem run_of_step (h : r.step limit t = some r') : run limit r (t :: ts) = run limit r' ts := by
  rw [run, h]

/-- Whether a value may come next. -/
def TakesValue (e : Expect) : Prop := e = .value ∨ e = .valueOrClose

/-- Wherever a value may stand that is nested to a depth of at most `d`, the tokens of the value put
it there. -/
def Takes (limit d : Nat) (j : Json) : Prop :=
  ∀ stack e ts, TakesValue e → stack.length + d ≤ limit →
    run limit ⟨stack, e⟩ (j.tokens ++ ts) = run limit (put stack j) ts

theorem step_closeBracket (held : List Json) (h : stack.length < limit)
    (he : e = .valueOrClose ∨ e = .commaOrClose) :
    step limit ⟨.array held :: stack, e⟩ .closeBracket = some (put stack (.arr held.reverse)) := by
  obtain rfl | rfl := he <;> simp [step, close, h]

theorem step_closeBrace (held : List (String × Json)) (key : String) (h : stack.length < limit)
    (he : e = .keyOrClose ∨ e = .commaOrClose) :
    step limit ⟨.object held true key :: stack, e⟩ .closeBrace =
      some (put stack (.obj held.reverse)) := by
  obtain rfl | rfl := he <;> simp [step, close, h]

theorem step_key (held : List (String × Json)) (key k : String) (he : e = .key ∨ e = .keyOrClose) :
    step limit ⟨.object held true key :: stack, e⟩ (.scalar (.str k)) =
      some ⟨.object held true k :: stack, .colon⟩ := by
  obtain rfl | rfl := he <;> rfl

/-- The items that are left of an array, and the bracket that closes it. -/
theorem run_items {j : Json} {items held : List Json} (hitems : ∀ k ∈ j :: items, Takes limit d k)
    (hd : stack.length + 1 + d ≤ limit) (he : TakesValue e) :
    run limit ⟨.array held :: stack, e⟩ (itemTokens (j :: items) ++ .closeBracket :: ts) =
      run limit (put stack (.arr (held.reverse ++ j :: items))) ts := by
  -- Behind a comma no bracket may come: the state is any in which a value may.
  induction items generalizing j held e with
  | nil =>
    have hj := hitems j List.mem_cons_self (.array held :: stack) e (.closeBracket :: ts) he hd
    have hclose := step_closeBracket (j :: held) (show stack.length < limit by omega) (.inr rfl)
    rw [itemTokens, hj, put, run_of_step hclose, List.reverse_cons]
  | cons k items ih =>
    have hj := hitems j List.mem_cons_self (.array held :: stack) e
      (.comma :: (itemTokens (k :: items) ++ .closeBracket :: ts)) he hd
    have hmore : run limit ⟨.array (j :: held) :: stack, .value⟩
        (itemTokens (k :: items) ++ .closeBracket :: ts) =
          run limit (put stack (.arr ((j :: held).reverse ++ k :: items))) ts :=
      ih (fun x hx => hitems x (List.mem_cons_of_mem j hx)) (.inl rfl)
    rw [itemTokens, List.append_assoc, List.cons_append, hj, put, run_of_step rfl, hmore,
      List.reverse_cons, List.append_assoc, List.singleton_append]

/-- The fields that are left of an object, and the brace that closes it. -/
theorem run_fields {f : String × Json} {fields held : List (String × Json)} {key : String}
    (hfields : ∀ g ∈ f :: fields, Takes limit d g.2) (hd : stack.length + 1 + d ≤ limit)
    (he : e = .key ∨ e = .keyOrClose) :
    run limit ⟨.object held true key :: stack, e⟩
        (fieldTokens (f :: fields) ++ .closeBrace :: ts) =
      run limit (put stack (.obj (held.reverse ++ f :: fields))) ts := by
  induction fields generalizing f held key e with
  | nil =>
    obtain ⟨k, j⟩ := f
    have hj := hfields (k, j) List.mem_cons_self (.object held true k :: stack) .value
      (.closeBrace :: ts) (.inl rfl) hd
    have hclose :=
      step_closeBrace ((k, j) :: held) k (show stack.length < limit by omega) (.inr rfl)
    rw [fieldTokens, List.cons_append, List.cons_append, run_of_step (step_key held key k he),
      run_of_step rfl, hj, put, run_of_step hclose, List.reverse_cons]
  | cons g fields ih =>
    obtain ⟨k, j⟩ := f
    have hj := hfields (k, j) List.mem_cons_self (.object held true k :: stack) .value
      (.comma :: (fieldTokens (g :: fields) ++ .closeBrace :: ts)) (.inl rfl) hd
    have hmore : run limit ⟨.object ((k, j) :: held) true k :: stack, .key⟩
        (fieldTokens (g :: fields) ++ .closeBrace :: ts) =
          run limit (put stack (.obj (((k, j) :: held).reverse ++ g :: fields))) ts :=
      ih (fun x hx => hfields x (List.mem_cons_of_mem _ hx)) (.inl rfl)
    rw [fieldTokens, List.cons_append, List.cons_append, List.append_assoc, List.cons_append,
      run_of_step (step_key held key k he), run_of_step rfl, hj, put, run_of_step rfl, hmore,
      List.reverse_cons, List.append_assoc, List.singleton_append]

end Reading

open Reading (Takes TakesValue put run_of_step run_items run_fields step_closeBracket
  step_closeBrace)

variable {limit d : Nat} {j : Json}

/-- A writable value is put wherever its tokens stand. -/
theorem Writable.takes (h : Writable d j) : Takes limit d j := by
  induction h with
  | null | bool | nat | str =>
    intro stack e ts he _
    obtain rfl | rfl := he <;> exact run_of_step rfl
  | @arr d items _ ih =>
    intro stack e ts he hd
    have hopen : Reading.step limit ⟨stack, e⟩ .openBracket =
        some ⟨.array [] :: stack, .valueOrClose⟩ := by
      obtain rfl | rfl := he <;> rfl
    rw [tokens, List.cons_append, List.append_assoc, List.singleton_append, run_of_step hopen]
    cases items with
    | nil => exact run_of_step (step_closeBracket [] (by omega) (.inl rfl))
    | cons j items => exact run_items ih (by omega) (.inr rfl)
  | @obj d fields _ ih =>
    intro stack e ts he hd
    have hopen : Reading.step limit ⟨stack, e⟩ .openBrace =
        some ⟨.object [] true "" :: stack, .keyOrClose⟩ := by
      obtain rfl | rfl := he <;> rfl
    rw [tokens, List.cons_append, List.append_assoc, List.singleton_append, run_of_step hopen]
    cases fields with
    | nil => exact run_of_step (step_closeBrace [] "" (by omega) (.inl rfl))
    | cons f fields => exact run_fields ih (by omega) (.inr rfl)

/-- What is written of a value that is writable within the limit reads back. -/
theorem Writable.parseWithin_print (h : Writable limit j) :
    parseWithin limit j.print = some j := by
  have hrun : Reading.start.run limit (j.tokens ++ []) = some j :=
    h.takes [] .value [] (.inl rfl) (by simp)
  rw [List.append_nil] at hrun
  rw [parseWithin, h.tokens?_print]
  exact hrun

theorem Writable.parse_print (h : Writable depthLimit j) : parse j.print = some j :=
  h.parseWithin_print

end SchemaEditor.Json
