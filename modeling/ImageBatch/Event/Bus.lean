/-!
# The bus

Subscribers read the events that were sent after they came, each at its own pace. The bus keeps
only the latest events; a subscriber that falls behind is told once how many it has missed.
-/

namespace ImageBatch

/-- A stream of events of which the latest are kept, newest first. -/
structure Bus (α : Type) where
  /-- How many events are kept. -/
  capacity : Nat
  kept : List α
  /-- How many events were sent so far. -/
  sent : Nat

/-- Where a subscriber stands: the number of the event that it reads next. -/
structure Subscriber where
  next : Nat
deriving DecidableEq, Repr

/-- What a subscriber finds. -/
inductive Reading (α : Type) where
  | event (a : α)
  /-- So many events are gone unread. -/
  | lagged (missed : Nat)
  | empty
  /-- There is no new event, and nobody is left to send one. -/
  | closed
deriving DecidableEq, Repr

namespace Bus

variable {α : Type}

/-- How many events a bus keeps that nobody has given a size. -/
def usualCapacity : Nat := 4096

/-- A bus of at least so many places; the count of places is a power of two. -/
def ofCapacity (capacity : Nat) : Bus α := ⟨(max capacity 1).nextPowerOfTwo, [], 0⟩

/-- A new subscriber reads what is sent from now on. -/
def subscribe (b : Bus α) : Subscriber := ⟨b.sent⟩

/-- Sends an event; the oldest one makes place for it. -/
def send (b : Bus α) (a : α) : Bus α :=
  { b with kept := (a :: b.kept).take b.capacity, sent := b.sent + 1 }

/-- The number of the oldest event that is kept. -/
def oldest (b : Bus α) : Nat := b.sent - b.kept.length

/-- Reads on. Without senders the bus closes once everything is read. -/
def receive (b : Bus α) (hasSenders : Bool) (s : Subscriber) : Reading α × Subscriber :=
  if s.next < b.oldest then (.lagged (b.oldest - s.next), ⟨b.oldest⟩)
  else match if s.next < b.sent then b.kept[b.sent - 1 - s.next]? else none with
    | some a => (.event a, ⟨s.next + 1⟩)
    | none => (if hasSenders then .empty else .closed, s)

end Bus

end ImageBatch
