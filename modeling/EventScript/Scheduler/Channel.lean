/-!
# Event channels

A channel keeps the newest of the values sent through it. A receiver stands at a position
in the sequence of all values; one that the channel has left behind first learns how many
values it missed, and goes on with the oldest that is kept.

Specification: `SPEC_FULL.md` §10 (the channel of lifecycle events).
-/

namespace EventScript

/-- Values sent so far and how many of them are kept. -/
structure Channel (α : Type) where
  /-- Values the channel was asked to keep. -/
  capacity : Nat
  /-- Everything sent, oldest first. -/
  sent : List α := []
  deriving Repr

/-- What a receiver gets. -/
inductive Received (α : Type) where
  | value (a : α)
  /-- This many values are lost. -/
  | lagged (missed : Nat)
  /-- Nothing new. -/
  | empty
  deriving DecidableEq, Repr

namespace Channel

variable {α : Type}

/-- Values kept: the capacity, at least one, rounded up to a power of two. -/
def window (c : Channel α) : Nat := (max c.capacity 1).nextPowerOfTwo

/-- Send a value. -/
def send (c : Channel α) (a : α) : Channel α := { c with sent := c.sent ++ [a] }

/-- The position of a receiver that subscribes now. -/
def tail (c : Channel α) : Nat := c.sent.length

/-- The position of the oldest value that is kept. -/
def oldest (c : Channel α) : Nat := c.sent.length - c.window

/-- What a receiver at a position gets, and its position afterwards. -/
def receive (c : Channel α) (position : Nat) : Received α × Nat :=
  if position < c.oldest then (.lagged (c.oldest - position), c.oldest)
  else
    match c.sent[position]? with
    | some a => (.value a, position + 1)
    | none => (.empty, position)

/-- Receive at most `count` times, until there is nothing new. -/
def receiveMany (c : Channel α) : Nat → Nat → List (Received α) × Nat
  | 0, position => ([], position)
  | count + 1, position =>
    match c.receive position with
    | (.empty, position) => ([], position)
    | (r, position) =>
      let (rest, position) := c.receiveMany count position
      (r :: rest, position)

/-- Everything a receiver gets now. -/
def drain (c : Channel α) (position : Nat) : List (Received α) × Nat :=
  c.receiveMany (c.sent.length + 1) position

end Channel

end EventScript
