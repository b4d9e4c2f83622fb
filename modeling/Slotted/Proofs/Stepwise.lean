import Slotted.Proofs.Store.Relinking
import Slotted.Keyed
import Slotted.Rule
import Slotted.Store.Audit
namespace Slotted

variable {κ ω α β γ ν : Type} {alike inner outer : ∀ {β : Type}, Query κ ω β → Query κ ω β → Prop}

namespace Query

-- Kept by the container's own steps, and by one step after another.
structure Stepwise (alike : ∀ {β : Type}, Query κ ω β → Query κ ω β → Prop) : Prop where
  pure : ∀ {β : Type} (value : β), alike (Pure.pure value) (Pure.pure value)
  read : alike MonadReader.read MonadReader.read
  throw : ∀ {β : Type} {fault : Fault}, fault.Internal →
    alike (MonadExcept.throw fault : Query κ ω β) (MonadExcept.throw fault)
  bind : ∀ {β γ : Type} {first first' : Query κ ω γ} {rest rest' : γ → Query κ ω β}, alike first first' →
    (∀ value, alike (rest value) (rest' value)) → alike (first >>= rest) (first' >>= rest')

-- Two such relations, the one under the flag and the other where the flag is raised and lowered again.
structure Encloses (inner outer : ∀ {β : Type}, Query κ ω β → Query κ ω β → Prop) : Prop where
  inside : Stepwise inner
  outside : Stepwise outer
  guarded : ∀ {β : Type} {real ideal : Query κ ω β}, inner real ideal → outer real.guarded ideal.guarded

namespace Stepwise

theorem lift (stepwise : Stepwise alike) {given : Except Fault β} (inside : LooksInside given) :
    alike (liftM given : Query κ ω β) (liftM given) := by
  cases given with
  | ok value => exact stepwise.pure value
  | error fault => exact stepwise.throw (inside fault rfl)

theorem verdict (stepwise : Stepwise alike) (verdict : Except CheckError β) :
    alike (ExceptT.mk (Pure.pure verdict) : Audit κ ω β).run (ExceptT.mk (Pure.pure verdict) : Audit κ ω β).run :=
  stepwise.pure verdict

theorem asked (stepwise : Stepwise alike) {real ideal : Query κ ω β} (same : alike real ideal) :
    alike (liftM real : Audit κ ω β).run (liftM ideal : Audit κ ω β).run := by
  change alike (Except.ok <$> real : Query κ ω (Except CheckError β)) (Except.ok <$> ideal)
  rw [map_eq_pure_bind, map_eq_pure_bind]
  exact stepwise.bind same fun _ => stepwise.pure _

theorem continues (stepwise : Stepwise alike) {first first' : Audit κ ω γ} {rest rest' : γ → Audit κ ω β}
    (same : alike first.run first'.run) (further : ∀ value, alike (rest value).run (rest' value).run) :
    alike (first >>= rest).run (first' >>= rest').run := by
  rw [ExceptT.run_bind, ExceptT.run_bind]
  refine stepwise.bind same fun verdict => ?_
  cases verdict with
  | ok value => exact further value
  | error error => exact stepwise.pure _

theorem passes (stepwise : Stepwise alike) {c : Prop} [Decidable c] {error : CheckError} {rest rest' : Unit → Audit κ ω β}
    (further : alike (rest ()).run (rest' ()).run) :
    alike (if c then MonadExcept.throw error >>= rest else rest () : Audit κ ω β).run
      (if c then MonadExcept.throw error >>= rest' else rest' () : Audit κ ω β).run := by
  split
  · exact stepwise.pure _
  · exact further

theorem allM (stepwise : Stepwise alike) {asks asks' : γ → Query κ ω Bool} (same : ∀ item, alike (asks item) (asks' item))
    (items : List γ) : alike (items.allM asks) (items.allM asks') := by
  induction items with
  | nil => exact stepwise.pure true
  | cons item items ih =>
    refine stepwise.bind (same item) fun answer => ?_
    cases answer with
    | false => exact stepwise.pure false
    | true => exact ih

end Stepwise
end Query

structure HashRule.Alike (alike : ∀ {β : Type}, Query κ ω β → Query κ ω β → Prop) (rule rule' : HashRule κ ω α) : Prop where
  hash : ∀ value, alike (rule.hash value) (rule'.hash value)
  equal : ∀ a b, alike (rule.equal a b) (rule'.equal a b)

def OrderRule.Alike (alike : ∀ {β : Type}, Query κ ω β → Query κ ω β → Prop) (rule rule' : OrderRule κ ω α) : Prop :=
  ∀ a b, alike (rule.compare a b) (rule'.compare a b)

structure Probe.Alike (alike : ∀ {β : Type}, Query κ ω β → Query κ ω β → Prop) (probe probe' : Probe κ ω α) : Prop where
  order : ∀ element, alike (probe.order element) (probe'.order element)
  memory : probe.memory = probe'.memory

theorem OrderRule.Alike.probe {rule rule' : OrderRule κ ω α} (same : rule.Alike alike rule') (value : α) :
    (rule.probe value).Alike alike (rule'.probe value) := ⟨fun stored => same stored value, rfl⟩

namespace Keyed

variable {ι μ : Type} {alike : ∀ {β : Type}, Query (Store ι (Entry α ν) μ) ω β → Query (Store ι (Entry α ν) μ) ω β → Prop}
  (stepwise : Query.Stepwise alike) (search search' : Search ι α ν μ ω) (same : alike search search')
include stepwise same

theorem getEntry_alike : alike (Keyed.getEntry? search) (Keyed.getEntry? search') := by
  refine stepwise.bind same fun found => ?_
  cases found with
  | none => exact stepwise.pure _
  | some h => exact stepwise.bind stepwise.read fun s => stepwise.pure _

theorem get_alike : alike (get? search) (get? search') :=
  stepwise.bind (getEntry_alike stepwise search search' same) fun _ => stepwise.pure _

theorem index_alike (container : Container)
    (missing : ∀ {β : Type}, alike (throw (.keyNotFound container) : Query _ ω β) (throw (.keyNotFound container))) :
    alike (index search container) (index search' container) := by
  refine stepwise.bind (get_alike stepwise search search' same) fun found => ?_
  cases found with
  | none => exact missing
  | some value => exact stepwise.pure value

end Keyed
end Slotted
