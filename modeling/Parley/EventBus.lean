/-
Handing events to subscribers.

A subscriber gets the events published after it subscribed.  The bus keeps only
the latest of them, as many as its ring holds; a subscriber that falls behind
loses the oldest and is told how many.

* `EventBus.ringSize` — the capacity, rounded up to a power of two;
* `EventBus.deliver` — what a subscriber gets of the events it has not read.
-/
import Parley.Event

namespace Parley

/-- What a subscriber reads: the number of events lost, and those kept. -/
structure Delivery where
  lagged : Nat
  events : List Event
  deriving DecidableEq, Inhabited

structure EventBus where
  capacity : Nat
  /-- All events published, oldest first. -/
  log : List Event := []
  /-- For each subscriber, how much of the log it has read or missed. -/
  subscribers : Dict Nat := ∅
  deriving DecidableEq, Inhabited

namespace EventBus

def ringSize (capacity : Nat) : Nat := Nat.nextPowerOfTwo (max capacity 1)

/-- The part of the unread events that the ring still holds. -/
def deliver (capacity : Nat) (unread : List Event) : Delivery :=
  let lagged := unread.length - ringSize capacity
  { lagged, events := unread.drop lagged }

def publish (b : EventBus) (e : Event) : EventBus := { b with log := b.log ++ [e] }

def subscribe (b : EventBus) (name : String) : EventBus :=
  { b with subscribers := b.subscribers.insert name b.log.length }

def unsubscribe (b : EventBus) (name : String) : EventBus :=
  { b with subscribers := b.subscribers.erase name }

def subscriberCount (b : EventBus) : Nat := b.subscribers.size

/-- Read everything there is for a subscriber. -/
def drain (b : EventBus) (name : String) : EventBus × Option Delivery :=
  match b.subscribers.get? name with
  | none => (b, none)
  | some position => (b.subscribe name, some (deliver b.capacity (b.log.drop position)))

end EventBus

end Parley
