import SchemaEditor.Event.Bus

/-!
# Sequences of calls of a bus

`Call` lists what may be asked of a bus, and `after` is the bus after a sequence of calls. A call
first changes what the bus holds and then posts at most one event, which it gives back:
`Call.apply_eq` says so once, and what a call leaves unchanged is read off it.
-/

namespace SchemaEditor

namespace History

variable {h h' : History}

theorem eq_of_back_none (hb : h.back = (none, h')) : h' = h := by
  unfold back at hb
  split at hb
  · cases hb
  · exact (Prod.mk.inj hb).2.symm

theorem eq_of_forward_none (hf : h.forward = (none, h')) : h' = h := by
  unfold forward at hf
  split at hf
  · cases hf
  · exact (Prod.mk.inj hf).2.symm

end History

namespace Bus

variable {b : Bus}

/-! ### Postings -/

/-- Posts one event after the other. -/
def postAll (b : Bus) (events : List Event) : Bus :=
  events.foldl (fun b event => (b.post event).2) b

@[simp] theorem postAll_nil (b : Bus) : b.postAll [] = b := rfl

@[simp] theorem postAll_cons (b : Bus) (event : Event) (events : List Event) :
    b.postAll (event :: events) = (b.post event).2.postAll events := rfl

/-- Posting leaves subscriptions and locks as they are. -/
theorem postAll_frame (b : Bus) (events : List Event) :
    (b.postAll events).subscriptions = b.subscriptions ∧ (b.postAll events).next = b.next ∧
      (b.postAll events).locked = b.locked := by
  induction events generalizing b with
  | nil => exact ⟨rfl, rfl, rfl⟩
  | cons event events ih => exact ih (b.post event).2

/-- Only navigations are recorded. -/
theorem history_postAll {events : List Event} (h : ∀ event ∈ events, event.kind ≠ .navigation) :
    (b.postAll events).history = b.history := by
  induction events generalizing b with
  | nil => rfl
  | cons event events ih =>
    obtain ⟨hkind, hrest⟩ := List.forall_mem_cons.mp h
    rw [postAll_cons, ih hrest]
    show b.recorded event = b.history
    simp only [recorded, hkind, false_and, if_false]
    cases event.target <;> rfl

/-! ### Calls -/

/-- What may be asked of a bus. -/
inductive Call where
  | subscribe (kinds : List EventKind) (group : Option ViewGroup)
  | unsubscribe (id : SubscriptionId)
  | lock (group : ViewGroup)
  | unlock (group : ViewGroup)
  | navigate (target : FacadeId)
  | back
  | forward
  | post (event : Event)
  deriving DecidableEq

namespace Call

/-- The bus that a call leaves. -/
def apply (b : Bus) : Call → Bus
  | .subscribe kinds group => (b.subscribe kinds group).2
  | .unsubscribe id => (b.unsubscribe id).2
  | .lock group => (b.lock group).2
  | .unlock group => (b.unlock group).2
  | .navigate target => (b.navigate target).2
  | .back => b.back.2
  | .forward => b.forward.2
  | .post event => (b.post event).2

/-- The event that a call posts and gives back, if any. -/
def event? (b : Bus) : Call → Option Event
  | .subscribe _ _ | .unsubscribe _ => none
  | .lock group => some (b.lock group).1
  | .unlock group => some (b.unlock group).1
  | .navigate target => some (b.navigate target).1
  | .back => b.back.1
  | .forward => b.forward.1
  | .post event => some event

/-- What a call does to a bus before it posts. -/
def prepare (b : Bus) : Call → Bus
  | .subscribe kinds group => (b.subscribe kinds group).2
  | .unsubscribe id => (b.unsubscribe id).2
  | .lock group => { b with locked := b.locked.insert group }
  | .unlock group => { b with locked := b.locked.filter (· ≠ group) }
  | .back => { b with history := b.history.back.2 }
  | .forward => { b with history := b.history.forward.2 }
  | .navigate _ | .post _ => b

/-- A call prepares the bus and then posts its event. -/
theorem apply_eq (b : Bus) (c : Call) :
    c.apply b = (c.prepare b).postAll (c.event? b).toList := by
  cases c with
  | subscribe kinds group => rfl
  | unsubscribe id => rfl
  | lock group => rfl
  | unlock group => rfl
  | navigate target => rfl
  | post event => rfl
  | back =>
    simp only [apply, prepare, event?, Bus.back]
    rcases hb : b.history.back with ⟨_ | target, h⟩
    · obtain rfl := History.eq_of_back_none hb
      rfl
    · rfl
  | forward =>
    simp only [apply, prepare, event?, Bus.forward]
    rcases hf : b.history.forward with ⟨_ | target, h⟩
    · obtain rfl := History.eq_of_forward_none hf
      rfl
    · rfl

end Call

/-- A bus after a sequence of calls. -/
def after (b : Bus) (calls : List Call) : Bus := calls.foldl Call.apply b

@[simp] theorem after_nil (b : Bus) : b.after [] = b := rfl

theorem after_append (b : Bus) (calls calls' : List Call) :
    b.after (calls ++ calls') = (b.after calls).after calls' :=
  List.foldl_append

theorem after_concat (b : Bus) (calls : List Call) (c : Call) :
    b.after (calls ++ [c]) = c.apply (b.after calls) :=
  after_append b calls [c]

end Bus

end SchemaEditor
