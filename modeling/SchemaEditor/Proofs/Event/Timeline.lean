import Mathlib.Data.List.Chain
import Mathlib.Data.List.DropRight
import SchemaEditor.Event.History

/-!
# Histories as timelines

A timeline lists targets in the order of their visits, with a cursor behind the current one. Going
back and forward moves the cursor; a new navigation cuts off what lies ahead of the cursor and may
drop the oldest entries. A history keeps two lists instead, and going forward drops the oldest
entry of the first one as soon as that is full. `timeline_apply` says that both come to the same:
a list that is full has nothing ahead of it, because the two never hold more than the limit
together.
-/

namespace SchemaEditor

/-- Targets in the order of their visits, with a cursor behind the current one. -/
@[ext]
structure Timeline where
  entries : List FacadeId
  cursor : Nat
  cursor_le : cursor ≤ entries.length

/-- What may be asked of a history. -/
inductive History.Call where
  | push (target : FacadeId)
  | back
  | forward
  | clear

namespace Timeline

/-- The timeline without targets. -/
def empty : Timeline := ⟨[], 0, Nat.le_refl 0⟩

/-- The targets up to the current one. -/
def past (t : Timeline) : List FacadeId := t.entries.take t.cursor

/-- A list of targets, the last one current. -/
def atEnd (entries : List FacadeId) : Timeline := ⟨entries, entries.length, Nat.le_refl _⟩

/-- Cuts off what lies ahead. A target that is not the current one is added, and then as many
entries are kept as the limit allows, the latest ones. -/
def push (limit : Nat) (t : Timeline) (target : FacadeId) : Timeline :=
  if t.past.getLast? = some target then atEnd t.past
  else atEnd ((t.past ++ [target]).rtake limit)

/-- Moves the cursor to the target before, if there is one. -/
def back (t : Timeline) : Timeline :=
  if 1 < t.cursor then
    ⟨t.entries, t.cursor - 1, Nat.le_trans (Nat.sub_le _ _) t.cursor_le⟩
  else t

/-- Moves the cursor to the next target, if there is one. -/
def forward (t : Timeline) : Timeline :=
  if h : t.cursor < t.entries.length then ⟨t.entries, t.cursor + 1, h⟩ else t

/-- The timeline that a call leaves. -/
def move (limit : Nat) (t : Timeline) : History.Call → Timeline
  | .push target => t.push limit target
  | .back => t.back
  | .forward => t.forward
  | .clear => empty

/-- A timeline after a sequence of calls. -/
def after (limit : Nat) (t : Timeline) (calls : List History.Call) : Timeline :=
  calls.foldl (move limit) t

/-- No timeline grows beyond the limit, the cursor stands on a target if there is one, and no
target follows on itself. -/
structure Sound (limit : Nat) (t : Timeline) : Prop where
  length_le : t.entries.length ≤ limit
  anchored : t.cursor = 0 → t.entries = []
  distinct : t.entries.IsChain (· ≠ ·)

namespace Sound

variable {limit : Nat} {t : Timeline}

theorem empty (limit : Nat) : Timeline.empty.Sound limit :=
  ⟨Nat.zero_le _, fun _ => rfl, .nil⟩

theorem atEnd {entries : List FacadeId} (hlen : entries.length ≤ limit)
    (hd : entries.IsChain (· ≠ ·)) : (Timeline.atEnd entries).Sound limit :=
  ⟨hlen, List.eq_nil_of_length_eq_zero, hd⟩

theorem push (h : t.Sound limit) (target : FacadeId) : (t.push limit target).Sound limit := by
  have hpast : t.past.IsChain (· ≠ ·) := h.distinct.take _
  unfold Timeline.push
  split
  · exact atEnd (Nat.le_trans (List.length_take_le' _ _) h.length_le) hpast
  · next hne =>
    have hgrown : (t.past ++ [target]).IsChain (· ≠ ·) := by
      refine List.isChain_append.mpr ⟨hpast, .singleton _, fun last hlast first hfirst => ?_⟩
      obtain rfl := Option.some.inj hfirst
      rintro rfl
      exact hne hlast
    refine atEnd ?_ (hgrown.drop _)
    rw [List.rtake, List.length_drop]
    omega

theorem back (h : t.Sound limit) : t.back.Sound limit := by
  unfold Timeline.back
  split
  · refine ⟨h.length_le, fun hzero => ?_, h.distinct⟩
    dsimp only at hzero
    omega
  · exact h

theorem forward (h : t.Sound limit) : t.forward.Sound limit := by
  unfold Timeline.forward
  split
  · exact ⟨h.length_le, fun hzero => absurd hzero (Nat.succ_ne_zero _), h.distinct⟩
  · exact h

/-- Every call keeps a timeline sound. -/
theorem move (h : t.Sound limit) (c : History.Call) : (t.move limit c).Sound limit := by
  cases c with
  | push target => exact h.push target
  | back => exact h.back
  | forward => exact h.forward
  | clear => exact .empty limit

theorem after (h : t.Sound limit) (calls : List History.Call) :
    (t.after limit calls).Sound limit := by
  induction calls generalizing t with
  | nil => exact h
  | cons c calls ih => exact ih (h.move c)

end Sound

end Timeline

namespace History

variable {h h' : History} {target left : FacadeId} {rest : List FacadeId}

/-! ### Calls -/

/-- The history that a call leaves. -/
def Call.apply (h : History) : Call → History
  | .push target => (h.push target).2
  | .back => h.back.2
  | .forward => h.forward.2
  | .clear => h.clear

/-- A history after a sequence of calls. -/
def after (h : History) (calls : List Call) : History := calls.foldl Call.apply h

theorem after_append (h : History) (calls calls' : List Call) :
    h.after (calls ++ calls') = (h.after calls).after calls' :=
  List.foldl_append

/-- The timeline that a history keeps. -/
def timeline (h : History) : Timeline where
  entries := h.backEntries ++ h.forwardEntries
  cursor := h.backEntries.length
  cursor_le := by simp

@[simp] theorem timeline_past (h : History) : h.timeline.past = h.backEntries := by
  simp [timeline, Timeline.past]

@[simp] theorem getLast?_backEntries (h : History) : h.backEntries.getLast? = h.current? := by
  rw [backEntries, List.getLast?_reverse, current?]

theorem length_visited_add (h : History) :
    h.visited.length + h.ahead.length = h.timeline.entries.length := by
  simp [timeline, backEntries, forwardEntries]

theorem push_of_current (hc : h.current? = some target) :
    h.push target = (false, { h with ahead := [] }) :=
  if_pos hc

theorem push_of_not_current (hc : h.current? ≠ some target) :
    h.push target = (true, { h with ahead := [] }.visit target) :=
  if_neg hc

theorem back_of_two (hv : h.visited = left :: target :: rest) :
    h.back = (some target, { h with visited := target :: rest, ahead := left :: h.ahead }) := by
  rw [back, hv]

theorem back_of_not_two (hv : h.visited.length ≤ 1) : h.back = (none, h) := by
  unfold back
  split
  · next hv' =>
    rw [hv'] at hv
    exact absurd hv (by simp)
  · rfl

theorem forward_of_cons (ha : h.ahead = target :: rest) :
    h.forward = (some target, { h with ahead := rest }.visit target) := by
  rw [forward, ha]

theorem forward_of_nil (ha : h.ahead = []) : h.forward = (none, h) := by
  rw [forward, ha]

/-- The oldest target makes room when the limit is reached. -/
theorem backEntries_visit (hlen : h.visited.length ≤ h.limit) (target : FacadeId) :
    (h.visit target).backEntries = (h.backEntries ++ [target]).rtake h.limit := by
  have hpos := h.limit_pos
  unfold visit backEntries
  split
  · next hfull =>
    have hone : (h.visited.reverse ++ [target]).length - h.limit = 1 := by
      simp only [List.length_append, List.length_reverse, List.length_singleton]
      omega
    have hne : h.visited.reverse ≠ [] := by
      rw [← List.length_pos_iff, List.length_reverse]
      omega
    rw [List.rtake, hone, List.drop_one, List.tail_append_of_ne_nil hne, List.reverse_cons,
      List.tail_reverse]
  · next hroom =>
    have hzero : (h.visited.reverse ++ [target]).length - h.limit = 0 := by
      simp only [List.length_append, List.length_reverse, List.length_singleton]
      omega
    rw [List.rtake, hzero, List.drop_zero, List.reverse_cons]

/-- While there is room, nothing is dropped. -/
theorem visit_of_lt (hlt : h.visited.length < h.limit) (target : FacadeId) :
    h.visit target = { h with visited := target :: h.visited } := by
  rw [visit, if_neg (Nat.ne_of_lt hlt)]

/-! ### The timeline of a history -/

theorem timeline_push (hs : h.timeline.Sound h.limit) (target : FacadeId) :
    (h.push target).2.timeline = h.timeline.push h.limit target := by
  unfold Timeline.push
  rw [timeline_past, getLast?_backEntries]
  by_cases hc : h.current? = some target
  · rw [if_pos hc, push_of_current hc]
    ext1
    · exact List.append_nil _
    · rfl
  · have hlen : h.visited.length ≤ h.limit := by
      have := hs.length_le
      have := h.length_visited_add
      omega
    have hvisit := backEntries_visit (h := { h with ahead := [] }) hlen target
    rw [if_neg hc, push_of_not_current hc]
    ext1
    · exact (List.append_nil _).trans hvisit
    · exact congrArg List.length hvisit

theorem timeline_back (h : History) : h.back.2.timeline = h.timeline.back := by
  unfold Timeline.back
  cases hv : h.visited with
  | nil =>
    rw [back_of_not_two (by simp [hv]), if_neg (by simp [timeline, backEntries, hv])]
  | cons left visited =>
    cases visited with
    | nil =>
      rw [back_of_not_two (by simp [hv]), if_neg (by simp [timeline, backEntries, hv])]
    | cons target rest =>
      rw [back_of_two hv, if_pos (by simp [timeline, backEntries, hv])]
      ext1 <;> simp [timeline, backEntries, forwardEntries, hv]

/-- What lies ahead was visited before, so there is still room for it. -/
theorem room_of_ahead (hs : h.timeline.Sound h.limit) (ha : h.ahead = target :: rest) :
    h.visited.length < h.limit := by
  have hlen := hs.length_le
  rw [← h.length_visited_add, ha, List.length_cons] at hlen
  omega

theorem forward_of_sound (hs : h.timeline.Sound h.limit) (ha : h.ahead = target :: rest) :
    h.forward = (some target, { h with visited := target :: h.visited, ahead := rest }) := by
  have hroom := room_of_ahead hs ha
  rw [forward_of_cons ha, visit_of_lt (h := { h with ahead := rest }) hroom]

/-- Going forward drops no entry. -/
theorem backEntries_forward (hs : h.timeline.Sound h.limit) (hf : h.forward = (some target, h')) :
    h'.backEntries = h.backEntries ++ [target] := by
  cases ha : h.ahead with
  | nil =>
    rw [forward_of_nil ha] at hf
    cases hf
  | cons next rest =>
    rw [forward_of_sound hs ha] at hf
    obtain ⟨hnext, rfl⟩ := Prod.mk.inj hf
    obtain rfl := Option.some.inj hnext
    exact List.reverse_cons

theorem timeline_forward (hs : h.timeline.Sound h.limit) :
    h.forward.2.timeline = h.timeline.forward := by
  unfold Timeline.forward
  cases ha : h.ahead with
  | nil => rw [forward_of_nil ha, dif_neg (by simp [timeline, forwardEntries, ha])]
  | cons target rest =>
    rw [forward_of_sound hs ha, dif_pos (by simp [timeline, forwardEntries, ha])]
    ext1 <;> simp [timeline, backEntries, forwardEntries, ha]

/-- A call does to the timeline of a history what it does to a timeline. -/
theorem timeline_apply (hs : h.timeline.Sound h.limit) (c : Call) :
    (c.apply h).timeline = h.timeline.move h.limit c := by
  cases c with
  | push target => exact timeline_push hs target
  | back => exact timeline_back h
  | forward => exact timeline_forward hs
  | clear => rfl

theorem limit_apply (h : History) (c : Call) : (c.apply h).limit = h.limit := by
  cases c with
  | push target =>
    show (h.push target).2.limit = h.limit
    by_cases hc : h.current? = some target
    · rw [push_of_current hc]
    · rw [push_of_not_current hc]
      rfl
  | back =>
    show h.back.2.limit = h.limit
    unfold back
    split <;> rfl
  | forward =>
    show h.forward.2.limit = h.limit
    unfold forward
    split <;> rfl
  | clear => rfl

/-- A history keeps the timeline of its calls, within the limit that it was made with. -/
theorem timeline_after (hs : h.timeline.Sound h.limit) (calls : List Call) :
    (h.after calls).timeline = h.timeline.after h.limit calls ∧
      (h.after calls).limit = h.limit := by
  induction calls generalizing h with
  | nil => exact ⟨rfl, rfl⟩
  | cons c calls ih =>
    have hlimit := limit_apply h c
    have happly := timeline_apply hs c
    obtain ⟨htimeline, hafter⟩ := ih (h := c.apply h) (by rw [happly, hlimit]; exact hs.move c)
    rw [happly, hlimit] at htimeline
    exact ⟨htimeline, hafter.trans hlimit⟩

/-! ### There and back -/

/-- Going forward undoes going back. -/
theorem forward_back (hs : h.timeline.Sound h.limit) (hb : h.back = (some target, h')) :
    h'.current? = some target ∧ ∃ left, h.current? = some left ∧ h'.forward = (some left, h) := by
  obtain ⟨visited, ahead, limit, hpos⟩ := h
  match visited, hb with
  | left :: target :: rest, rfl =>
    have hroom : (target :: rest).length < limit := by
      have hlen := hs.length_le
      rw [← length_visited_add] at hlen
      simp only [List.length_cons] at hlen ⊢
      omega
    refine ⟨rfl, left, rfl, ?_⟩
    exact congrArg (Prod.mk (some left))
      (visit_of_lt (h := ⟨target :: rest, ahead, limit, hpos⟩) hroom left)

/-- Going back undoes going forward. -/
theorem back_forward (hs : h.timeline.Sound h.limit) (hf : h.forward = (some target, h')) :
    h'.current? = some target ∧ ∃ left, h.current? = some left ∧ h'.back = (some left, h) := by
  obtain ⟨visited, ahead, limit, hpos⟩ := h
  match ahead, hf with
  | next :: rest, hf =>
    rw [forward_of_sound hs rfl] at hf
    obtain ⟨hnext, rfl⟩ := Prod.mk.inj hf
    cases hv : visited with
    | nil =>
      -- Without a current target there is nothing ahead either.
      subst hv
      have hnil := hs.anchored rfl
      cases hnil
    | cons left visited =>
      subst hv
      exact ⟨hnext, left, rfl, back_of_two rfl⟩

end History

end SchemaEditor
