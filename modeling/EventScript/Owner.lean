/-!
# Owners of sessions

A session belongs to an event of the map. Self switches are scoped by it, so two events
may each have a self switch of one name.

Specification: `SPEC_FULL.md` §2 (owners).
-/

namespace EventScript

/-- The map event that owns a session. -/
structure Owner where
  id : UInt32
  deriving DecidableEq, Repr

namespace Owner

/-- The owner of sessions that belong to no event. -/
def global : Owner := ⟨0⟩

instance : Inhabited Owner := ⟨global⟩

/-- The text that names the owner. -/
def text (o : Owner) : String := s!"event#{o.id.toNat}"

end Owner

end EventScript
