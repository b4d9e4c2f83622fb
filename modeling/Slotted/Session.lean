import Slotted.Fault
import Slotted.Handle
namespace Slotted

-- What surrounds a container while callers' code runs: the flag that marks it as being looked at, and
-- whatever the callers' code itself remembers.
structure Gate (ω : Type) where
  busy : Bool
  world : ω

structure Session (κ ω : Type) where
  store : κ
  gate : Gate ω

-- Callers' rules, probes and builders are queries: they may read the container, look things up in it,
-- change their own world or raise a fault, but they cannot change the container.
abbrev Query (κ ω : Type) : Type → Type := ReaderT κ (EStateM Fault (Gate ω))

abbrev Edit (κ : Type) : Type → Type := EStateM Fault κ

abbrev Update (κ ω : Type) : Type → Type := EStateM Fault (Session κ ω)

instance exceptInEState {σ : Type} : MonadLift (Except Fault) (EStateM Fault σ) where
  monadLift
    | .ok value => pure value
    | .error fault => throw fault

namespace Query

variable {κ ω β : Type}

-- Holds the flag while a query runs and lowers it however the query ends. A second holder faults.
def guarded (query : Query κ ω β) : Query κ ω β := fun store gate =>
  if gate.busy then .error .busy gate
  else match query store { gate with busy := true } with
    | .ok value gate => .ok value { gate with busy := false }
    | .error fault gate => .error fault { gate with busy := false }

theorem guarded_keeps_flag (query : Query κ ω β) (store : κ) (gate : Gate ω) :
    match query.guarded store gate with
    | .ok _ after => after.busy = gate.busy
    | .error _ after => after.busy = gate.busy := by
  unfold guarded
  by_cases busy : gate.busy = true
  · simp [busy]
  · simp only [busy]
    cases query store { gate with busy := true } <;> simp_all

end Query

namespace Update

variable {κ ω β : Type}

def ask (query : Query κ ω β) : Update κ ω β := fun session =>
  match query session.store session.gate with
  | .ok value gate => .ok value { session with gate := gate }
  | .error fault gate => .error fault { session with gate := gate }

def edit (change : Edit κ β) : Update κ ω β := fun ⟨store, gate⟩ =>
  match change store with
  | .ok value store => .ok value ⟨store, gate⟩
  | .error fault store => .error fault ⟨store, gate⟩

def guarded (update : Update κ ω β) : Update κ ω β := fun ⟨store, gate⟩ =>
  if gate.busy then .error .busy ⟨store, gate⟩
  else match update ⟨store, { gate with busy := true }⟩ with
    | .ok value ⟨store, gate⟩ => .ok value ⟨store, { gate with busy := false }⟩
    | .error fault ⟨store, gate⟩ => .error fault ⟨store, { gate with busy := false }⟩

end Update

-- What a container may ask of memory: room for slots in all, or a bucket table.
inductive Request where
  | slots (total : Nat)
  | buckets (count : Nat)
deriving DecidableEq, Repr

-- The world answers each request; a refusal must leave nothing half done.
class Allocator (ω : Type) where
  grant : Request → ω → Bool × ω

def Update.reserve {κ ω : Type} [Allocator ω] (request : Request) : Update κ ω Bool := fun ⟨store, gate⟩ =>
  let (granted, world) := Allocator.grant request gate.world
  .ok granted ⟨store, { gate with world := world }⟩

-- Slot numbers become handles once they are known not to name the reserved slot.
def Handle.ofIndex (index : Nat) : Except Fault Handle :=
  if h : 0 < index then .ok ⟨index, h⟩ else .error .sentinelHandle

end Slotted
