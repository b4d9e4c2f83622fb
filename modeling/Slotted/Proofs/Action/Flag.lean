import Slotted.Proofs.Flag
import Slotted.Proofs.Action.Standing
import Slotted.Action.History
namespace Slotted

variable {ι α κ ν μ ω β γ δ ρ σ τ : Type} {blame : Fault → Prop}

open Store Update

-- What callers can ask of a container, each time with a rule of its own: an action, to fill it from an array, or to compare
-- it with another.
inductive Call (ρ γ τ δ : Type) where
  | act (rule : ρ) (action : γ)
  | collect (rule : ρ) (values : List δ)
  | compare (rule : ρ) (other : τ)

def Call.run (act : ρ → γ → Update σ ω β) (collect : ρ → List δ → Update σ ω Unit) (compare : ρ → τ → Query σ ω Bool) :
    Call ρ γ τ δ → Update σ ω Unit
  | .act rule action => do let _ ← act rule action
  | .collect rule values => collect rule values
  | .compare rule other => do let _ ← Update.ask (compare rule other)

def Call.Made (rules : ρ → Prop) (actions : γ → Prop) : Call ρ γ τ δ → Prop
  | .act rule action => rules rule ∧ actions action
  | .collect rule _ | .compare rule _ => rules rule

section Made

variable (made : ∀ β : Type, Query σ ω β → Prop)

structure HashRule.Made (rule : HashRule σ ω α) : Prop where
  hash : ∀ value, made _ (rule.hash value)
  equal : ∀ a b, made _ (rule.equal a b)

def OrderRule.Made (rule : OrderRule σ ω α) : Prop := ∀ a b, made _ (rule.compare a b)

def Probe.Made (probe : Probe σ ω α) : Prop := ∀ element, made _ (probe.order element)

def MapAction.Made : MapAction σ κ ν ω → Prop
  | .fetch _ make _ => made _ make
  | _ => True

variable {made} {kept : ∀ {β : Type}, Query σ ω β → Prop}
  (same : ∀ (β : Type) (query : Query σ ω β), made β query → kept query)
include same

theorem HashRule.Made.alike {rule : HashRule σ ω α} (rules : rule.Made made) : rule.Alike (fun query _ => kept query) rule :=
  ⟨fun value => same _ _ (rules.hash value), fun a b => same _ _ (rules.equal a b)⟩

theorem OrderRule.Made.alike {rule : OrderRule σ ω α} (rules : rule.Made made) : rule.Alike (fun query _ => kept query) rule :=
  fun a b => same _ _ (rules a b)

theorem Probe.Made.alike {probe : Probe σ ω α} (probes : probe.Made made) : probe.Alike (fun query _ => kept query) probe :=
  ⟨fun element => same _ _ (probes element), rfl⟩

end Made

def HashSetAction.Made (made : ∀ β : Type, Query (HashSet α) ω β → Prop) : HashSetAction α ω → Prop
  | .findBy _ accepts => ∀ element, made _ (accepts element)
  | .insertWith _ accepts make => (∀ element, made _ (accepts element)) ∧ made _ make
  | _ => True

def HashMapAction.Made (made : ∀ β : Type, Query (HashMap κ ν) ω β → Prop) : HashMapAction κ ν ω → Prop
  | .common action => action.Made made
  | _ => True

def TreeSetAction.Made (made : ∀ β : Type, Query (TreeSet α) ω β → Prop) : TreeSetAction α ω → Prop
  | .findBy probe | .bound _ _ probe => probe.Made made
  | .insertWith probe make => probe.Made made ∧ made _ make
  | _ => True

def TreeMapAction.Made (made : ∀ β : Type, Query (TreeMap κ ν) ω β → Prop) : TreeMapAction κ ν ω → Prop
  | .common action => action.Made made
  | _ => True

theorem Call.run_clears {act : ρ → γ → Update σ ω β} {collect : ρ → List δ → Update σ ω Unit}
    {compare : ρ → τ → Query σ ω Bool} {rules : ρ → Prop} {actions : γ → Prop}
    (acts : ∀ rule action, rules rule → actions action → Clears blame (act rule action))
    (collects : ∀ rule values, rules rule → Clears blame (collect rule values))
    (compares : ∀ rule other, rules rule → (compare rule other).Lowers blame) (call : Call ρ γ τ δ)
    (made : call.Made rules actions) : Clears blame (call.run act collect compare) := by
  cases call with
  | act rule action => exact (acts rule action made.1 made.2).bind fun _ => .pure _
  | collect rule values => exact collects rule values made
  | compare rule other => exact (Clears.ask (compares rule other made)).bind fun _ => .pure _

theorem Walker.run_clears {w : Walker κ ω γ β} (start : Clears blame w.start) (front : ∀ c, Clears blame (w.front c))
    (back : ∀ c, Clears blame (w.back c)) (strides : List Stride) : Clears blame (w.run strides) := by
  have onward : ∀ c, Clears blame (w.runFrom c strides) := by
    induction strides with
    | nil => exact fun _ => .pure _
    | cons stride strides ih =>
      intro c
      cases stride with
      | count => exact (ih c).bind fun _ => .pure _
      | front => exact (front c).bind fun step => (ih step.2).bind fun _ => .pure _
      | back => exact (back c).bind fun step => (ih step.2).bind fun _ => .pure _
  exact start.bind onward

theorem Store.secure_clears [Allocator ω] (needed : Bool) (request : Request) :
    Clears blame (secure needed request : Update (Store ι α μ) ω Bool) := by
  unfold secure
  split
  · exact fun _ lowered => lowered
  · exact .pure _

namespace Access

structure Lowers (blame : Fault → Prop) (access : Access ι α μ ω) : Prop where
  find : ∀ value, (access.find value).Lowers blame
  insert : ∀ value, Clears blame (access.insert value)
  tryInsert : ∀ value, Clears blame (access.tryInsert value)
  reinsert : ∀ d, Clears blame (access.reinsert d)
  walk : ∀ strides, Clears blame (access.walk strides)
  list : access.list.Lowers blame
  check : access.check.Lowers blame

theorem takeEach_clears {take : β → Update (Store ι α μ) ω (Option γ)} (one : ∀ value, Clears blame (take value))
    (values : List β) : Clears blame (takeEach take values) := by
  induction values with
  | nil => exact .pure _
  | cons value values ih => exact (one value).bind fun _ => ih.bind fun _ => .pure _

theorem finish_clears {access : Access ι α μ ω} (free : ∀ fault, fault ≠ .busy → blame fault) (lowers : access.Lowers blame)
    (d : Detached) (ending : Ending) : Clears blame (access.finish d ending) := by
  cases ending with
  | reinsert => exact (lowers.reinsert d).bind fun _ => .pure _
  | release => exact (Clears.edit free (release_inward d)).bind fun _ => .pure _
  | drop => exact (Clears.edit free (drop_inward d)).bind fun _ => .pure _
  | peek =>
    refine Clears.get.bind fun s => (Clears.lift free (s.store.pool.value_looksInside _)).bind fun _ => ?_
    exact (Clears.edit free (drop_inward d)).bind fun _ => .pure _

theorem settle_clears {access : Access ι α μ ω} (free : ∀ fault, fault ≠ .busy → blame fault) (lowers : access.Lowers blame)
    (change : α → α) (ending : Ending) (found : Option Detached) :
    Clears blame (access.settle change ending found) := by
  cases found with
  | none => exact .pure _
  | some d =>
    refine Clears.get.bind fun s => (Clears.lift free (s.store.pool.value_looksInside _)).bind fun was => ?_
    refine (Clears.edit free (.onPool (Pool.modifyValue_inward _ change))).bind fun _ => ?_
    exact (finish_clears free lowers d ending).bind fun _ => .pure _

end Access

variable [Inhabited μ] [Index ι μ] [FittingIndex ι μ]

namespace Store

variable (free : ∀ fault, fault ≠ .busy → blame fault)
include free

theorem take_clears {search : Query (Store ι α μ) ω (Option Handle)} (lowers : search.Lowers blame) :
    Clears blame (take search) := by
  refine (Clears.ask lowers).bind fun found => ?_
  cases found with
  | none => exact .pure _
  | some h => exact .edit free (remove_inward h)

variable [Allocator ω]

theorem resizeSlots_clears (slots : Nat) :
    Clears blame (resizeSlots slots : Update (Store ι α μ) ω (Except CapacityError Unit)) := by
  refine Clears.get.bind fun s => (secure_clears _ _).bind fun granted => ?_
  split
  · refine Clears.get.bind fun s => ?_
    split
    · exact .pure _
    · refine Clears.get.bind fun s => (secure_clears _ _).bind fun granted => ?_
      split
      · exact (Clears.edit free (adopt_inward slots)).bind fun _ => .pure _
      · exact .pure _
  · exact .pure _

theorem resize_clears (capacity : Nat) :
    Clears blame (resize capacity : Update (Store ι α μ) ω (Except CapacityError Unit)) := by
  refine Clears.get.bind fun s => ?_
  dsimp only
  split
  · exact .pure _
  · split
    · exact .pure _
    · refine Clears.get.bind fun s => ?_
      split
      · exact (Clears.edit free reorder_inward).bind fun _ => resizeSlots_clears free _
      · exact resizeSlots_clears free _

theorem reserve_clears (additional : Nat) :
    Clears blame (reserve additional : Update (Store ι α μ) ω (Except CapacityError Unit)) := by
  refine Clears.get.bind fun s => Clears.get.bind fun s => Clears.get.bind fun s => ?_
  dsimp only
  split
  · exact .pure _
  · split
    · exact (Clears.edit free reorder_inward).bind fun _ => .pure _
    · exact Clears.get.bind fun s => resize_clears free _

theorem makeRoom_clears : Clears blame (makeRoom : Update (Store ι α μ) ω (Except CapacityError Bool)) := by
  refine Clears.get.bind fun s => Clears.get.bind fun s => ?_
  split
  · exact .pure _
  · refine Clears.get.bind fun s => (Clears.lift free s.store.pool.tombstones_looksInside).bind fun tombstones => ?_
    refine Clears.get.bind fun s => ?_
    split
    · exact (Clears.edit free compact_inward).bind fun _ => .pure _
    · split
      · exact .pure _
      · exact (resizeSlots_clears free _).bind fun _ => .pure _

end Store

namespace Access

variable {access : Access ι α μ ω} (free : ∀ fault, fault ≠ .busy → blame fault) (lowers : access.Lowers blame)
include free lowers

theorem run_clears [Allocator ω] (action : SetAction α) : Clears blame (access.run action) := by
  cases action with
  | insert value => exact (lowers.insert value).bind fun _ => .pure _
  | tryInsert value =>
    refine (lowers.tryInsert value).bind fun answer => ?_
    cases answer with
    | ok placed => exact .pure _
    | error refused => exact .pure _
  | extend values =>
    exact (Clears.each (fun value => (lowers.insert value).bind fun _ => .pure _) values).bind fun _ => .pure _
  | find value => exact (Clears.ask (lowers.find value)).bind fun _ => .pure _
  | contains value => exact (Clears.ask (lowers.find value)).bind fun _ => .pure _
  | get h => exact Clears.get.bind fun _ => .pure _
  | change h change => exact (Clears.edit free (modifyAt_inward h change)).bind fun _ => .pure _
  | handleOf h =>
    refine Clears.get.bind fun s => ?_
    split
    · exact Clears.get.bind fun s => (Clears.lift free (s.store.handleOf_looksInside _)).bind fun _ => .pure _
    · exact .pure _
  | handleOfOther value =>
    exact Clears.get.bind fun s => (Clears.lift free (s.store.handleOf_looksInside _)).bind fun _ => .pure _
  | remove h => exact (Clears.edit free (remove_inward h)).bind fun _ => .pure _
  | take value => exact (take_clears free (lowers.find value)).bind fun _ => .pure _
  | takeAll values => exact (takeEach_clears (fun value => take_clears free (lowers.find value)) values).bind fun _ => .pure _
  | extract h change ending => exact (Clears.edit free (extract_inward h)).bind (settle_clears free lowers change ending)
  | extractEqual value change ending =>
    refine (Clears.ask (lowers.find value)).bind fun found => ?_
    cases found with
    | none => exact .pure _
    | some h => exact (Clears.edit free (extract_inward h)).bind (settle_clears free lowers change ending)
  | walk strides => exact (lowers.walk strides).bind fun _ => .pure _
  | list => exact (Clears.ask lowers.list).bind fun _ => .pure _
  | isEmpty => exact Clears.get.bind fun _ => .pure _
  | check => exact (Clears.ask lowers.check).bind fun _ => .pure _
  | reorder => exact (Clears.edit free reorder_inward).bind fun _ => .pure _
  | clear => exact fun _ lowered => lowered
  | resize capacity => exact (resize_clears free capacity).bind fun _ => .pure _
  | reserve additional => exact (reserve_clears free additional).bind fun _ => .pure _

theorem ofArray_clears [Allocator ω] (container : Container) (values : List α) : Clears blame (do
    if let .error error := ← Store.reserve values.length then throw (.growth container .ofArray error)
    values.forM fun value => do let _ ← access.insert value : Update (Store ι α μ) ω Unit) := by
  refine (reserve_clears free values.length).bind fun room => ?_
  cases room with
  | error error => exact .throw_bind free (by simp) _
  | ok _ => exact .each (fun value => (lowers.insert value).bind fun _ => .pure _) values

end Access

namespace KeyedAccess

variable {access : KeyedAccess ι κ ν μ ω} (free : ∀ fault, fault ≠ .busy → blame fault)
include free

theorem run_clears [Allocator ω] (lowers : access.entries.Lowers blame) (finds : ∀ key, (access.find key).Lowers blame)
    (action : MapAction (Store ι (Entry κ ν) μ) κ ν ω)
    (fetches : ∀ key make change, action = .fetch key make change → Clears blame (access.getOrInsertWith key make)) :
    Clears blame (access.run action) := by
  have stepwise := Query.lowers_stepwise (κ := Store ι (Entry κ ν) μ) (ω := ω) free
  have index : ∀ key, (Keyed.index (access.find key) access.container).Lowers blame := by
    refine fun key => Keyed.index_alike stepwise _ (access.find key) (finds key) access.container ?_
    exact fun _ _ lowered => Ends.of_error rfl ⟨free _ (by simp), lowered⟩
  cases action with
  | entries action => exact (Access.run_clears free lowers action).bind fun _ => .pure _
  | find key => exact (Clears.ask (finds key)).bind fun _ => .pure _
  | containsKey key => exact (Clears.ask (finds key)).bind fun _ => .pure _
  | get key => exact (Clears.ask (Keyed.get_alike stepwise _ (access.find key) (finds key))).bind fun _ => .pure _
  | getEntry key => exact (Clears.ask (Keyed.getEntry_alike stepwise _ (access.find key) (finds key))).bind fun _ => .pure _
  | index key => exact (Clears.ask (index key)).bind fun _ => .pure _
  | update key change =>
    refine Clears.bind ((Clears.ask (finds key)).bind fun found => ?_) fun _ => .pure _
    cases found with
    | none => exact .pure _
    | some h => exact (Clears.edit free (modifyAt_inward h _)).bind fun _ => .pure _
  | updateAt h change => exact (Clears.edit free (modifyAt_inward h _)).bind fun _ => .pure _
  | replace key value =>
    refine Clears.bind ((Clears.ask (finds key)).bind fun found => ?_) fun _ => .pure _
    cases found with
    | none => exact (lowers.insert _).bind fun _ => .pure _
    | some h => exact Clears.get.bind fun s => (Clears.edit free (modifyAt_inward h _)).bind fun _ => .pure _
  | fetch key make change =>
    refine (fetches key make change rfl).bind fun _ => ?_
    exact (Clears.edit free (modifyAt_inward _ _)).bind fun _ => .pure _
  | remove key => exact ((take_clears free (finds key)).bind fun _ => .pure _).bind fun _ => .pure _
  | removeEntry key => exact (take_clears free (finds key)).bind fun _ => .pure _
  | removeAll keys =>
    refine (Access.takeEach_clears (fun key => ?_) keys).bind fun _ => .pure _
    exact (take_clears free (finds key)).bind fun _ => .pure _
  | extract key change ending =>
    refine Clears.bind ((Clears.ask (finds key)).bind fun found => ?_) fun found =>
      (Access.settle_clears free lowers change ending found).bind fun _ => .pure _
    cases found with
    | none => exact .pure _
    | some h => exact .edit free (extract_inward h)

end KeyedAccess
end Slotted
