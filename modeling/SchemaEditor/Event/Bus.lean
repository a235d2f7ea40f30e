import SchemaEditor.Event.Basic
import SchemaEditor.Event.History

/-!
# The event bus

Subscribers ask for kinds of events and may belong to a view group. Posting an event gives it at
once to every subscriber that asked for its kind, in the order of subscription; while the lock of a
view group is engaged, its subscribers receive only locks and structural changes. The bus keeps a
journal of what was posted and who received it.
-/

namespace SchemaEditor

/-- The number of a subscription. -/
structure SubscriptionId where
  number : Nat
  deriving DecidableEq

/-- What a subscriber asked for. -/
structure Subscription where
  id : SubscriptionId
  /-- The kinds asked for; all kinds if there are none. -/
  kinds : List EventKind
  group : Option ViewGroup
  deriving DecidableEq

/-- An event with the subscriptions that received it, in order. -/
structure Posting where
  event : Event
  receivers : List SubscriptionId
  deriving DecidableEq

/-- Subscriptions, engaged locks, navigation history, and the journal of postings. -/
structure Bus where
  /-- The subscriptions in the order they were made. -/
  subscriptions : List Subscription
  /-- The number of the next subscription. -/
  next : Nat
  locked : List ViewGroup
  history : History
  journal : Array Posting
  deriving DecidableEq

namespace Subscription

/-- Whether a subscription asked for a kind. -/
def wants (s : Subscription) (kind : EventKind) : Bool :=
  s.kinds.isEmpty || s.kinds.contains kind

end Subscription

namespace Bus

/-- A bus without subscriptions and locks. -/
def ofHistory (history : History) : Bus :=
  { subscriptions := [], next := 0, locked := [], history, journal := #[] }

/-- A bus with the default history. -/
def empty : Bus := ofHistory (.ofLimit History.defaultLimit)

/-- Subscribes to some kinds, or to all kinds if none is given. -/
def subscribe (b : Bus) (kinds : List EventKind) (group : Option ViewGroup) :
    SubscriptionId × Bus :=
  let id : SubscriptionId := ⟨b.next⟩
  (id, { b with subscriptions := b.subscriptions ++ [⟨id, kinds, group⟩], next := b.next + 1 })

/-- Removes a subscription, and says whether there was one. -/
def unsubscribe (b : Bus) (id : SubscriptionId) : Bool × Bus :=
  (b.subscriptions.any (·.id = id),
    { b with subscriptions := b.subscriptions.filter (·.id ≠ id) })

/-- The number of subscriptions. -/
def subscriberCount (b : Bus) : Nat := b.subscriptions.length

/-- Whether the lock of a view group is engaged. -/
def isLocked (b : Bus) (group : ViewGroup) : Bool := b.locked.contains group

/-- Whether a subscription receives an event of a kind now. -/
def delivers (b : Bus) (kind : EventKind) (s : Subscription) : Bool :=
  s.wants kind && !(s.group.any b.isLocked && !kind.passesLocks)

/-- The history after an event: a navigation that is not replayed is recorded. -/
def recorded (b : Bus) (event : Event) : History :=
  match event.target with
  | some target =>
    if event.kind = .navigation ∧ event.replayed = false then (b.history.push target).2
    else b.history
  | none => b.history

/-- The subscriptions that receive an event of a kind now. -/
def receivers (b : Bus) (kind : EventKind) : List SubscriptionId :=
  (b.subscriptions.filter (b.delivers kind)).map (·.id)

/-- Posts an event and gives the number of subscribers that received it. -/
def post (b : Bus) (event : Event) : Nat × Bus :=
  let receivers := b.receivers event.kind
  (receivers.length,
    { b with history := b.recorded event, journal := b.journal.push ⟨event, receivers⟩ })

/-- Engages the lock of a view group and announces it. -/
def lock (b : Bus) (group : ViewGroup) : Event × Bus :=
  let event := Event.lock group true
  (event, ({ b with locked := b.locked.insert group }.post event).2)

/-- Releases the lock of a view group and announces it. -/
def unlock (b : Bus) (group : ViewGroup) : Event × Bus :=
  let event := Event.lock group false
  (event, ({ b with locked := b.locked.filter (· ≠ group) }.post event).2)

/-- Posts a new navigation to a target. -/
def navigate (b : Bus) (target : FacadeId) : Event × Bus :=
  let event := Event.navigation target false
  (event, (b.post event).2)

/-- Posts a navigation to a target that the history gave. -/
def replay (b : Bus) (target : FacadeId) : Event × Bus :=
  let event := Event.navigation target true
  (event, (b.post event).2)

/-- Goes back and posts the navigation, if there is a target to go back to. -/
def back (b : Bus) : Option Event × Bus :=
  match b.history.back with
  | (some target, history) =>
    let (event, b) := { b with history }.replay target
    (some event, b)
  | (none, _) => (none, b)

/-- Goes forward and posts the navigation, if there is a target to go forward to. -/
def forward (b : Bus) : Option Event × Bus :=
  match b.history.forward with
  | (some target, history) =>
    let (event, b) := { b with history }.replay target
    (some event, b)
  | (none, _) => (none, b)

/-- The events that a subscription has received, in order. -/
def received (b : Bus) (id : SubscriptionId) : List Event :=
  (b.journal.toList.filter fun p => p.receivers.contains id).map (·.event)

end Bus

end SchemaEditor
