import Mathlib.Data.List.Induction
import Mathlib.Data.List.Nodup
import SchemaEditor.Proofs.Event.Call

/-!
# What subscribers receive

The reference for a run of a bus does not look at its state: the last lock or unlock of a view
group tells whether the group is locked, a subscription lasts until the first call that removes its
id, and a subscriber is given every event posted in between that it asked for and that is not
suppressed. Ids are numbers that only grow, so an id never stands for two subscriptions, and the
order of the numbers is the order of subscribing.
-/

namespace SchemaEditor.Bus

variable {b : Bus} {c : Call} {sub : Subscription} {id : SubscriptionId} {group : ViewGroup}
variable {kind : EventKind} {before later : List Call}

/-! ### Locks -/

/-- Whether a call locks or unlocks a view group. -/
def Call.lockChange? (group : ViewGroup) : Call → Option Bool
  | .lock g => if g = group then some true else none
  | .unlock g => if g = group then some false else none
  | _ => none

/-- Whether the last call that locks or unlocks a view group is a lock. -/
def lockedAfter (calls : List Call) (group : ViewGroup) : Bool :=
  (calls.filterMap (Call.lockChange? group)).getLast? = some true

theorem locked_apply (b : Bus) (c : Call) : (c.apply b).locked = (c.prepare b).locked := by
  rw [Call.apply_eq]
  exact (postAll_frame _ _).2.2

theorem isLocked_apply (b : Bus) (c : Call) (group : ViewGroup) :
    (c.apply b).isLocked group = (c.lockChange? group).getD (b.isLocked group) := by
  unfold isLocked
  rw [locked_apply]
  cases c with
  | lock g =>
    by_cases hg : g = group
    · simp [Call.prepare, Call.lockChange?, hg]
    · simp [Call.prepare, Call.lockChange?, hg, Ne.symm hg]
  | unlock g =>
    by_cases hg : g = group
    · simp [Call.prepare, Call.lockChange?, hg]
    · simp [Call.prepare, Call.lockChange?, hg, Ne.symm hg]
  | _ => rfl

theorem lockedAfter_concat (calls : List Call) (c : Call) (group : ViewGroup) :
    lockedAfter (calls ++ [c]) group = (c.lockChange? group).getD (lockedAfter calls group) := by
  unfold lockedAfter
  rw [List.filterMap_append]
  cases hc : c.lockChange? group with
  | none => simp [hc]
  | some engaged => cases engaged <;> simp [hc]

/-- Starting without locks, a group is locked when the last change of its lock says so. -/
theorem isLocked_after (history : History) (calls : List Call) (group : ViewGroup) :
    ((ofHistory history).after calls).isLocked group = lockedAfter calls group := by
  induction calls using List.reverseRecOn with
  | nil => rfl
  | append_singleton calls c ih => rw [after_concat, isLocked_apply, ih, lockedAfter_concat]

/-! ### Subscriptions -/

theorem subscriptions_apply (b : Bus) (c : Call) :
    (c.apply b).subscriptions = (c.prepare b).subscriptions := by
  rw [Call.apply_eq]
  exact (postAll_frame _ _).1

theorem next_apply (b : Bus) (c : Call) : (c.apply b).next = (c.prepare b).next := by
  rw [Call.apply_eq]
  exact (postAll_frame _ _).2.1

/-- A call posts at most one event, to those who receive it then. -/
theorem journal_apply (b : Bus) (c : Call) :
    (c.apply b).journal.toList = b.journal.toList ++
      (c.event? b).toList.map fun event => ⟨event, (c.apply b).receivers event.kind⟩ := by
  have hjournal : (c.prepare b).journal = b.journal := by cases c <;> rfl
  rw [Call.apply_eq]
  cases c.event? b with
  | none => simp [hjournal]
  | some event =>
    show ((c.prepare b).journal.push _).toList = _
    rw [Array.toList_push, hjournal]
    rfl

/-- Whether a call subscribes. -/
def Call.isSubscribe : Call → Bool
  | .subscribe _ _ => true
  | _ => false

theorem next_after (b : Bus) (calls : List Call) :
    (b.after calls).next = b.next + calls.countP Call.isSubscribe := by
  induction calls generalizing b with
  | nil => rfl
  | cons c calls ih =>
    have hstep : (c.apply b).next = b.next + if c.isSubscribe then 1 else 0 := by
      rw [next_apply]
      cases c <;> rfl
    show ((c.apply b).after calls).next = _
    rw [ih, hstep, List.countP_cons]
    omega

/-- Ids are handed out in order, and only ids that were handed out are in use. -/
structure Numbered (b : Bus) : Prop where
  sorted : b.subscriptions.Pairwise (·.id.number < ·.id.number)
  lt_next : ∀ s ∈ b.subscriptions, s.id.number < b.next
  posted_sorted : ∀ p ∈ b.journal.toList, p.receivers.Pairwise (·.number < ·.number)
  posted_lt_next : ∀ p ∈ b.journal.toList, ∀ id ∈ p.receivers, id.number < b.next

namespace Numbered

theorem ofHistory (history : History) : (Bus.ofHistory history).Numbered :=
  ⟨.nil, by simp [Bus.ofHistory], by simp [Bus.ofHistory], by simp [Bus.ofHistory]⟩

theorem le_next_apply (b : Bus) (c : Call) : b.next ≤ (c.apply b).next := by
  have h := next_after b [c]
  have hle : b.next ≤ (b.after [c]).next := by omega
  exact hle

theorem prepare (h : b.Numbered) (c : Call) :
    (c.prepare b).subscriptions.Pairwise (·.id.number < ·.id.number) ∧
      ∀ s ∈ (c.prepare b).subscriptions, s.id.number < (c.prepare b).next := by
  cases c with
  | subscribe kinds group =>
    refine ⟨List.pairwise_append.mpr ⟨h.sorted, List.pairwise_singleton _ _, ?_⟩, ?_⟩
    · intro s hs s' hs'
      rw [List.mem_singleton.mp hs']
      exact h.lt_next s hs
    · intro s hs
      obtain hs | hs := List.mem_append.mp hs
      · exact Nat.lt_succ_of_lt (h.lt_next s hs)
      · rw [List.mem_singleton.mp hs]
        exact Nat.lt_succ_self _
  | unsubscribe id =>
    exact ⟨h.sorted.filter _, fun s hs => h.lt_next s (List.mem_of_mem_filter hs)⟩
  | _ => exact ⟨h.sorted, h.lt_next⟩

/-- The receivers of an event are subscriptions, in their order. -/
theorem receivers_numbered (hs : b.subscriptions.Pairwise (·.id.number < ·.id.number))
    (hlt : ∀ s ∈ b.subscriptions, s.id.number < b.next) (kind : EventKind) :
    (b.receivers kind).Pairwise (·.number < ·.number) ∧
      ∀ id ∈ b.receivers kind, id.number < b.next := by
  refine ⟨List.pairwise_map.mpr (hs.filter _), fun id hid => ?_⟩
  obtain ⟨s, hmem, rfl⟩ := List.mem_map.mp hid
  exact hlt s (List.mem_of_mem_filter hmem)

/-- Every call keeps the numbering. -/
theorem apply (h : b.Numbered) (c : Call) : (c.apply b).Numbered := by
  obtain ⟨hsorted, hlt⟩ := h.prepare c
  rw [← subscriptions_apply] at hsorted hlt
  rw [← next_apply] at hlt
  have hold : ∀ p ∈ (c.apply b).journal.toList, p ∈ b.journal.toList ∨
      ∃ kind, p.receivers = (c.apply b).receivers kind := by
    intro p hp
    rw [journal_apply] at hp
    refine (List.mem_append.mp hp).imp id fun hp => ?_
    obtain ⟨event, -, rfl⟩ := List.mem_map.mp hp
    exact ⟨event.kind, rfl⟩
  refine ⟨hsorted, hlt, fun p hp => ?_, fun p hp => ?_⟩
  · obtain hp | ⟨kind, hkind⟩ := hold p hp
    · exact h.posted_sorted p hp
    · rw [hkind]
      exact (receivers_numbered hsorted hlt kind).1
  · obtain hp | ⟨kind, hkind⟩ := hold p hp
    · exact fun id hid => Nat.lt_of_lt_of_le (h.posted_lt_next p hp id hid) (le_next_apply b c)
    · rw [hkind]
      exact (receivers_numbered hsorted hlt kind).2

theorem after (h : b.Numbered) (calls : List Call) : (b.after calls).Numbered := by
  induction calls generalizing b with
  | nil => exact h
  | cons c calls ih => exact ih (h.apply c)

end Numbered

/-- An id that was handed out stands for one subscription and no other. -/
structure Known (b : Bus) (sub : Subscription) : Prop where
  lt_next : sub.id.number < b.next
  eq_of_id : ∀ s ∈ b.subscriptions, s.id = sub.id → s = sub

theorem Known.apply (h : b.Known sub) (c : Call) : (c.apply b).Known sub := by
  refine ⟨Nat.lt_of_lt_of_le h.lt_next (Numbered.le_next_apply b c), fun s hs hid => ?_⟩
  rw [subscriptions_apply] at hs
  cases c with
  | subscribe kinds group =>
    obtain hs | hs := List.mem_append.mp hs
    · exact h.eq_of_id s hs hid
    · rw [List.mem_singleton.mp hs] at hid
      have hlt := h.lt_next
      rw [← hid] at hlt
      exact absurd hlt (Nat.lt_irrefl _)
  | unsubscribe id => exact h.eq_of_id s (List.mem_of_mem_filter hs) hid
  | _ => exact h.eq_of_id s hs hid

theorem Known.after (h : b.Known sub) (calls : List Call) : (b.after calls).Known sub := by
  induction calls generalizing b with
  | nil => exact h
  | cons c calls ih => exact ih (h.apply c)

/-- Subscribing hands out an id that stands for the new subscription. -/
theorem Numbered.known (h : b.Numbered) (kinds : List EventKind) (group : Option ViewGroup) :
    (b.subscribe kinds group).2.Known ⟨⟨b.next⟩, kinds, group⟩ := by
  refine ⟨Nat.lt_succ_self _, fun s hs hid => ?_⟩
  obtain hs | hs := List.mem_append.mp hs
  · have hlt := h.lt_next s hs
    rw [hid] at hlt
    exact absurd hlt (Nat.lt_irrefl _)
  · exact List.mem_singleton.mp hs

/-- A subscription ends only by its removal. -/
theorem mem_subscriptions_apply (h : b.Known sub) (c : Call) :
    sub ∈ (c.apply b).subscriptions ↔ sub ∈ b.subscriptions ∧ c ≠ .unsubscribe sub.id := by
  rw [subscriptions_apply]
  cases c with
  | subscribe kinds group =>
    have hne : sub ≠ ⟨⟨b.next⟩, kinds, group⟩ := by
      rintro rfl
      exact Nat.lt_irrefl _ h.lt_next
    simp [Call.prepare, subscribe, hne]
  | unsubscribe id =>
    rw [ne_eq, Call.unsubscribe.injEq]
    simp [Call.prepare, unsubscribe, eq_comm (a := id)]
  | _ => simp [Call.prepare]

theorem mem_subscriptions_after (h : b.Known sub) (calls : List Call) :
    sub ∈ (b.after calls).subscriptions ↔
      sub ∈ b.subscriptions ∧ .unsubscribe sub.id ∉ calls := by
  induction calls generalizing b with
  | nil => simp
  | cons c calls ih =>
    show sub ∈ ((c.apply b).after calls).subscriptions ↔ _
    rw [ih (h.apply c), mem_subscriptions_apply h, List.mem_cons, not_or, and_assoc, ne_comm]

theorem Known.unsubscribe_fst (h : b.Known sub) :
    (b.unsubscribe sub.id).1 = decide (sub ∈ b.subscriptions) := by
  rw [Bool.eq_iff_iff, decide_eq_true_iff]
  simp only [unsubscribe, List.any_eq_true, decide_eq_true_iff]
  constructor
  · rintro ⟨s, hs, hid⟩
    rwa [← h.eq_of_id s hs hid]
  · intro hs
    exact ⟨sub, hs, rfl⟩

/-- Removing a subscription removes no other. -/
theorem Known.unsubscribe_snd (h : b.Known sub) (hb : b.Numbered) :
    (b.unsubscribe sub.id).2 = { b with subscriptions := b.subscriptions.erase sub } := by
  have hnodup : b.subscriptions.Nodup := by
    refine hb.sorted.imp fun hlt => ?_
    rintro rfl
    exact Nat.lt_irrefl _ hlt
  have herase : b.subscriptions.filter (·.id ≠ sub.id) = b.subscriptions.erase sub := by
    rw [hnodup.erase_eq_filter]
    refine List.filter_congr fun s hs => ?_
    rw [Bool.eq_iff_iff, decide_eq_true_iff, bne_iff_ne]
    exact not_congr ⟨h.eq_of_id s hs, congrArg _⟩
  show { b with subscriptions := b.subscriptions.filter (·.id ≠ sub.id) } = _
  rw [herase]

/-- An id that was not handed out yet cannot be removed. -/
theorem Numbered.unsubscribe_fst (h : b.Numbered) (hid : b.next ≤ id.number) :
    (b.unsubscribe id).1 = false := by
  refine List.any_eq_false.mpr fun s hs => ?_
  rw [decide_eq_true_iff]
  rintro rfl
  exact absurd (h.lt_next s hs) (Nat.not_lt.mpr hid)

/-! ### Deliveries -/

/-- An event is suppressed for the subscribers of a locked view group, unless it announces a lock
or a change of structure. -/
def Suppressed (calls : List Call) (group : Option ViewGroup) (kind : EventKind) : Prop :=
  ∃ g ∈ group, lockedAfter calls g = true ∧
    kind ∉ [EventKind.lock, .typeChange, .childAdded, .childDeleted]

instance (calls : List Call) (group : Option ViewGroup) (kind : EventKind) :
    Decidable (Suppressed calls group kind) :=
  inferInstanceAs (Decidable (∃ g ∈ group, _))

/-- The events that calls post after others, each with all the calls until then. -/
def posted (b : Bus) (before : List Call) : List Call → List (List Call × Event)
  | [] => []
  | c :: later =>
    (c.event? (b.after before)).toList.map (before ++ [c], ·) ++ posted b (before ++ [c]) later

theorem passesLocks_iff (kind : EventKind) : kind.passesLocks = true ↔
    kind ∈ [EventKind.lock, .typeChange, .childAdded, .childDeleted] := by
  cases kind <;> decide

theorem delivers_iff (history : History) (calls : List Call) :
    ((ofHistory history).after calls).delivers kind sub = true ↔
      (sub.kinds = [] ∨ kind ∈ sub.kinds) ∧ ¬ Suppressed calls sub.group kind := by
  have hwants : sub.wants kind = true ↔ sub.kinds = [] ∨ kind ∈ sub.kinds := by
    simp [Subscription.wants]
  have hsuppressed : (sub.group.any ((ofHistory history).after calls).isLocked &&
      !kind.passesLocks) = true ↔ Suppressed calls sub.group kind := by
    rw [Bool.and_eq_true, Bool.not_eq_true', ← Bool.not_eq_true, passesLocks_iff]
    simp only [Option.any_eq_true, isLocked_after, Suppressed]
    constructor
    · rintro ⟨⟨g, hg, hlocked⟩, hkind⟩
      exact ⟨g, hg, hlocked, hkind⟩
    · rintro ⟨g, hg, hlocked, hkind⟩
      exact ⟨⟨g, hg, hlocked⟩, hkind⟩
  rw [delivers, Bool.and_eq_true, Bool.not_eq_true', ← Bool.not_eq_true, hwants, hsuppressed]

/-- A subscriber receives what is delivered to it. -/
theorem Known.mem_receivers (h : b.Known sub) (kind : EventKind) :
    sub.id ∈ b.receivers kind ↔ sub ∈ b.subscriptions ∧ b.delivers kind sub = true := by
  constructor
  · intro hid
    obtain ⟨s, hs, hsid⟩ := List.mem_map.mp hid
    obtain ⟨hmem, hdelivers⟩ := List.mem_filter.mp hs
    obtain rfl := h.eq_of_id s hmem hsid
    exact ⟨hmem, hdelivers⟩
  · intro hs
    exact List.mem_map.mpr ⟨sub, List.mem_filter.mpr hs, rfl⟩

theorem received_apply (b : Bus) (c : Call) (id : SubscriptionId) :
    (c.apply b).received id = b.received id ++
      (c.event? b).toList.filter fun event => id ∈ (c.apply b).receivers event.kind := by
  unfold received
  simp only [List.contains_eq_mem]
  rw [journal_apply, List.filter_append, List.map_append, List.filter_map, List.map_map]
  exact congrArg _ (List.map_id _)

/-- Once removed, a subscription receives nothing more. -/
theorem Known.received_after (h : b.Known sub) (hsub : sub ∉ b.subscriptions)
    (calls : List Call) : (b.after calls).received sub.id = b.received sub.id := by
  induction calls generalizing b with
  | nil => rfl
  | cons c calls ih =>
    have hgone : sub ∉ (c.apply b).subscriptions := fun hmem =>
      hsub ((mem_subscriptions_apply h c).mp hmem).1
    have hnone : ∀ event : Event, sub.id ∉ (c.apply b).receivers event.kind := fun event hid =>
      hgone (((h.apply c).mem_receivers event.kind).mp hid).1
    show ((c.apply b).after calls).received sub.id = _
    rw [ih (h.apply c) hgone, received_apply]
    simp [hnone]

/-- Until it is removed, a subscription receives what it asked for and is not suppressed. -/
theorem received_after_append {history : History}
    (h : ((ofHistory history).after before).Known sub)
    (hsub : sub ∈ ((ofHistory history).after before).subscriptions) (later : List Call) :
    ((ofHistory history).after (before ++ later)).received sub.id =
      ((ofHistory history).after before).received sub.id ++
        (((ofHistory history).posted before (later.takeWhile (· ≠ .unsubscribe sub.id))).filter
          fun (calls, event) => (sub.kinds = [] ∨ event.kind ∈ sub.kinds) ∧
            ¬ Suppressed calls sub.group event.kind).map (·.2) := by
  induction later generalizing before with
  | nil => simp [posted]
  | cons c later ih =>
    have hknown := h.apply c
    have hmem := mem_subscriptions_apply h c
    have hreceived := received_apply ((ofHistory history).after before) c sub.id
    rw [← after_concat] at hknown hmem hreceived
    rw [List.append_cons]
    by_cases hc : c = .unsubscribe sub.id
    · -- The removal itself posts nothing.
      have hgone : sub ∉ ((ofHistory history).after (before ++ [c])).subscriptions := fun h =>
        (hmem.mp h).2 hc
      rw [after_append, hknown.received_after hgone, hreceived]
      subst hc
      simp [Call.event?, posted]
    · have hstays := hmem.mpr ⟨hsub, hc⟩
      have hdue : ∀ event : Event,
          sub.id ∈ ((ofHistory history).after (before ++ [c])).receivers event.kind ↔
            (sub.kinds = [] ∨ event.kind ∈ sub.kinds) ∧
              ¬ Suppressed (before ++ [c]) sub.group event.kind := fun event => by
        rw [hknown.mem_receivers, delivers_iff, and_iff_right hstays]
      rw [ih hknown hstays, hreceived, List.takeWhile_cons_of_pos (by simpa using hc), posted,
        List.filter_append, List.map_append, List.append_assoc, List.filter_map, List.map_map]
      simp only [hdue]
      congr 2
      exact (List.map_id _).symm

/-- A new subscription has received nothing. -/
theorem Numbered.received_eq_nil (h : b.Numbered) (hid : b.next ≤ id.number) :
    b.received id = [] := by
  refine List.map_eq_nil_iff.mpr (List.filter_eq_nil_iff.mpr fun p hp hmem => ?_)
  have hlt := h.posted_lt_next p hp id (List.contains_iff_mem.mp hmem)
  exact absurd hlt (Nat.not_lt.mpr hid)

/-- A subscription receives exactly, in order, the events posted until its removal that it asked for
and that are not suppressed. Handlers run in the order of subscribing, posting gives their number,
and a subscription is removed once and alone. -/
theorem delivers_exactly (history : History) (before later : List Call) (kinds : List EventKind)
    (group : Option ViewGroup) :
    let start := ofHistory history
    let id := ((start.after before).subscribe kinds group).1
    let b := start.after (before ++ .subscribe kinds group :: later)
    b.received id =
        ((start.posted (before ++ [.subscribe kinds group])
            (later.takeWhile (· ≠ .unsubscribe id))).filter
          fun (calls, event) => (kinds = [] ∨ event.kind ∈ kinds) ∧
            ¬ Suppressed calls group event.kind).map (·.2) ∧
      (∀ p ∈ b.journal.toList, p.receivers.Pairwise (·.number < ·.number)) ∧
      id.number = before.countP Call.isSubscribe ∧
      (∀ event, (b.post event).2.journal =
        b.journal.push ⟨event, b.receivers event.kind⟩ ∧
          (b.post event).1 = (b.receivers event.kind).length) ∧
      (b.unsubscribe id).1 = decide (.unsubscribe id ∉ later) ∧
      (∀ earlier, earlier <+: before → ((start.after earlier).unsubscribe id).1 = false) ∧
      (b.unsubscribe id).2 = { b with subscriptions := b.subscriptions.erase ⟨id, kinds, group⟩ } := by
  intro start id b
  have hstart : start.Numbered := .ofHistory history
  have hbefore := hstart.after before
  -- The subscription right after it was made.
  let sub : Subscription := ⟨id, kinds, group⟩
  have hmade : start.after (before ++ [.subscribe kinds group]) =
      ((start.after before).subscribe kinds group).2 := after_concat start before _
  have hsub : sub ∈ (start.after (before ++ [.subscribe kinds group])).subscriptions := by
    rw [hmade]
    exact List.mem_append_right _ (List.mem_singleton_self _)
  have hknown : (start.after (before ++ [.subscribe kinds group])).Known sub := by
    rw [hmade]
    exact hbefore.known kinds group
  have hnone : (start.after (before ++ [.subscribe kinds group])).received id = [] := by
    rw [hmade]
    exact hbefore.received_eq_nil (Nat.le_refl _)
  -- The bus after all calls.
  have hb : b = (start.after (before ++ [.subscribe kinds group])).after later := by
    show start.after (before ++ .subscribe kinds group :: later) = _
    rw [List.append_cons, after_append]
  have hnumbered : b.Numbered := hstart.after _
  have hend : b.Known sub := by
    rw [hb]
    exact hknown.after later
  refine ⟨?_, hnumbered.posted_sorted, ?_, fun event => ⟨rfl, rfl⟩, ?_, ?_, ?_⟩
  · have hreceived := received_after_append hknown hsub later
    rw [hnone, List.nil_append, ← List.append_cons] at hreceived
    exact hreceived
  · exact (next_after start before).trans (Nat.zero_add _)
  · rw [hend.unsubscribe_fst, hb]
    exact decide_eq_decide.mpr
      ((mem_subscriptions_after hknown later).trans (and_iff_right hsub))
  · intro earlier hearlier
    refine (hstart.after earlier).unsubscribe_fst ?_
    rw [next_after]
    show _ ≤ (start.after before).next
    rw [next_after]
    exact Nat.add_le_add_left (hearlier.sublist.countP_le) _
  · exact hend.unsubscribe_snd hnumbered

end SchemaEditor.Bus
