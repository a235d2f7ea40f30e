import SchemaEditor.Proofs.Event.Call
import SchemaEditor.Proofs.Event.Timeline

/-!
# Navigation through a bus

What subscribers and locks do never reaches the history of a bus: it makes the moves of the
navigations that are not replayed, and those of going back and forward, and no others.
-/

namespace SchemaEditor

namespace Bus

variable {b : Bus}

/-- What a call asks of the history, if anything. -/
def Call.move? : Call → Option History.Call
  | .navigate target => some (.push target)
  | .back => some .back
  | .forward => some .forward
  | .post event =>
    if event.kind = .navigation ∧ event.replayed = false then event.target.map .push else none
  | .subscribe _ _ | .unsubscribe _ | .lock _ | .unlock _ => none

/-- A replayed navigation is not recorded. -/
theorem recorded_replayed (b : Bus) (target : FacadeId) :
    b.recorded (.navigation target true) = b.history := by
  simp [recorded, Event.navigation, Event.ofKind]

theorem history_post (b : Bus) (event : Event) :
    (b.post event).2.history = b.history.after (Call.post event).move?.toList := by
  show b.recorded event = _
  simp only [recorded, Call.move?]
  by_cases hnew : event.kind = .navigation ∧ event.replayed = false
  · simp only [if_pos hnew]
    cases event.target <;> rfl
  · simp only [if_neg hnew]
    cases event.target <;> rfl

/-- A call makes the move it asks of the history. -/
theorem history_apply (b : Bus) (c : Call) :
    (c.apply b).history = b.history.after c.move?.toList := by
  cases c with
  | subscribe kinds group => rfl
  | unsubscribe id => rfl
  | lock group => rfl
  | unlock group => rfl
  | navigate target => exact history_post b (.navigation target false)
  | post event => exact history_post b event
  | back =>
    show b.back.2.history = b.history.back.2
    unfold Bus.back
    rcases hb : b.history.back with ⟨_ | target, h⟩
    · exact (History.eq_of_back_none hb).symm
    · exact recorded_replayed { b with history := h } target
  | forward =>
    show b.forward.2.history = b.history.forward.2
    unfold Bus.forward
    rcases hf : b.history.forward with ⟨_ | target, h⟩
    · exact (History.eq_of_forward_none hf).symm
    · exact recorded_replayed { b with history := h } target

theorem history_after (b : Bus) (calls : List Call) :
    (b.after calls).history = b.history.after (calls.filterMap Call.move?) := by
  induction calls generalizing b with
  | nil => rfl
  | cons c calls ih =>
    have hcons : (c :: calls).filterMap Call.move? =
        c.move?.toList ++ calls.filterMap Call.move? := by
      rw [List.filterMap_cons]
      cases c.move? <;> rfl
    rw [hcons, History.after_append, ← history_apply]
    exact ih (c.apply b)

end Bus

namespace History

/-- A history made with a limit keeps a bounded timeline, on which going back and going forward
undo each other; inside a bus, only navigations move it. -/
theorem is_bounded_timeline (limit : Nat) (moves : List Call) (b : Bus) (calls : List Bus.Call) :
    let h := (ofLimit limit).after moves
    let t := Timeline.empty.after (max limit 1) moves
    h.limit = max limit 1 ∧
      h.backEntries = t.entries.take t.cursor ∧
      h.forwardEntries = t.entries.drop t.cursor ∧
      (h.backEntries ++ h.forwardEntries).length ≤ max limit 1 ∧
      t.entries.IsChain (· ≠ ·) ∧
      (∀ target h', h.forward = (some target, h') →
        h'.backEntries = h.backEntries ++ [target]) ∧
      (∀ target h', h.back = (some target, h') →
        ∃ left, h.current? = some left ∧ h'.forward = (some left, h)) ∧
      (∀ target h', h.forward = (some target, h') →
        ∃ left, h.current? = some left ∧ h'.back = (some left, h)) ∧
      (b.after calls).history = b.history.after (calls.filterMap Bus.Call.move?) := by
  intro h t
  have hempty : (ofLimit limit).timeline.Sound (ofLimit limit).limit := .empty _
  obtain ⟨htimeline, hlimit⟩ : h.timeline = t ∧ h.limit = max limit 1 := timeline_after hempty moves
  have ht : t.Sound (max limit 1) := Timeline.Sound.after (.empty _) moves
  have hs : h.timeline.Sound h.limit := by rwa [htimeline, hlimit]
  refine ⟨hlimit, ?_, ?_, ?_, ht.distinct, ?_, ?_, ?_, Bus.history_after b calls⟩
  · rw [← htimeline]
    exact h.timeline_past.symm
  · rw [← htimeline]
    exact List.drop_left.symm
  · rw [← hlimit]
    exact hs.length_le
  · intro target h' hf
    exact backEntries_forward hs hf
  · intro target h' hb
    exact (forward_back hs hb).2
  · intro target h' hf
    exact (back_forward hs hf).2

end History

end SchemaEditor
