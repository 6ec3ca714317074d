import EventScript.Command.Basic

/-!
# Command pools

A pool keeps instances that are out of use, by kind, and hands the one put back last out
first. An instance is recycled before it is stored, so nothing of its earlier use is
left. Each kind keeps at most `capacity` instances; what is put back beyond that is
dropped and counted.

Specification: `SPEC_FULL.md` §7 (Command Pool).
-/

namespace EventScript

/-- Idle instances and the use made of them. -/
structure Pool where
  /-- Instances kept for each kind (`capacity_per_kind`). -/
  capacity : Nat := 16
  /-- Idle instances of each kind, the last one first. -/
  free : Table Kind (List Command) := .empty
  acquired : Nat := 0
  /-- Acquisitions served from idle instances. -/
  reused : Nat := 0
  /-- Instances dropped because their kind was full. -/
  discarded : Nat := 0
  deriving Repr, Inhabited

namespace Pool

/-- An empty pool. -/
def new (capacity : Nat) : Pool := { capacity }

/-- The idle instances of a kind. -/
def idle (p : Pool) (k : Kind) : List Command := p.free.findD k []

/-- Number of idle instances of a kind. -/
def idleCount (p : Pool) (k : Kind) : Nat := (p.idle k).length

/-- An idle instance of a kind with default parameters. -/
def acquire (p : Pool) (k : Kind) : Command × Pool :=
  match p.idle k with
  | [] => (.ofAction (.default k), { p with acquired := p.acquired + 1 })
  | c :: rest =>
    (c, { p with acquired := p.acquired + 1
                 reused := p.reused + 1
                 free := p.free.insert k rest })

/-- Put an instance back. -/
def release (p : Pool) (c : Command) : Pool :=
  if p.idleCount c.kind < p.capacity then
    { p with free := p.free.insert c.kind (c.recycle :: p.idle c.kind) }
  else { p with discarded := p.discarded + 1 }

/-- Put instances back in order. -/
def releaseAll (p : Pool) (cs : List Command) : Pool := cs.foldl release p

end Pool

end EventScript
