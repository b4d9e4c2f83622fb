import Slotted.Proofs.Action.MapResilience
import Slotted.Proofs.HashMap.Refinement
import Slotted.Proofs.HashSet.Resilience
namespace Slotted

variable {κ ν ω : Type}

namespace HashMapAction

def Fair (blame : Fault → Prop) : HashMapAction κ ν ω → Prop
  | .common action => action.Fair blame
  | _ => True

def MayFault : HashMapAction κ ν ω → Fault → Prop
  | .common action, fault => action.MayFault .hashSet .hashMap fault
  | _, _ => False

end HashMapAction

namespace HashMap

open Store HashSet

variable {blame : Fault → Prop} {r : PureHash κ} {rule : HashRule (HashMap κ ν) ω κ} {s : Session (HashMap κ ν) ω}
  {promise : List (Entry κ ν × UInt32) → Prop}

theorem keyHash_follows (follows : rule.Follows blame r) (key : κ) :
    (keyHash rule key).Follows blame (keyHash r.rule key) := (follows.hash key).guarded

theorem find_follows (follows : rule.Follows blame r) (key : κ) :
    (find rule key).Follows blame (find r.rule key) :=
  (keyHash_follows follows key).bind fun _ => findBy_follows fun entry => follows.equal entry.key key

theorem find_calm (follows : rule.Follows blame r) (settled : Settled promise s) (key : κ) :
    (find rule key).Calm blame s.store := by
  obtain ⟨⟨order, proper⟩, _⟩ := settled
  obtain ⟨found, _, answers⟩ := findBy_answers (ω := ω) proper.sound (r.hash key) fun entry => r.equal entry.key key
  have found : (find r.rule key : Query (HashMap κ ν) ω (Option Handle)).Answers s.store found :=
    (keyHash_answers s.store key).bind answers
  exact (find_follows follows key).calm fun _ lowered => ⟨_, found.lowered lowered⟩

theorem sameEntries_calm (follows : rule.Follows blame r) (settled : Settled promise s) (sameValue : ν → ν → Bool)
    (other : HashMap κ ν) : (sameEntries rule sameValue other).Calm blame s.store := by
  refine Query.Calm.read ?_
  split
  · exact Query.calm_pure false
  · exact Query.calm_allM fun item => (Keyed.get?_calm (find_calm follows settled item.2.key)).bind fun _ => Query.calm_pure _

variable [Allocator ω]

theorem getOrInsertWith_resilient {make : Query (HashMap κ ν) ω ν} (follows : rule.Follows blame r)
    (careful : make.Careful blame) (settled : Settled promise s) (key : κ) :
    Ends (getOrInsertWith rule key make) s (fun _ after => Settled unpromised after)
      fun fault after => (blame fault ∨ ∃ error, fault = .growth .hashSet .insertWith error) ∧ Spared (Settled promise) s after := by
  obtain ⟨⟨order, proper⟩, lowered⟩ := id settled
  rw [getOrInsertWith]
  refine (keyHash_follows follows key).asks_then lowered ((keyHash_answers s.store key).lowered lowered) ?_ ?_
  · exact fun _ after blamed same flag => ⟨.inl blamed, .same settled same flag⟩
  intro gate lowered
  refine Keyed.stored_settles ((insertWith_follows (s := ⟨s.store, gate⟩) follows.onKeys
    (fun entry => follows.equal entry.key key) (Keyed.make_careful careful key) proper.sound lowered (r.hash key)).imp ?_ ?_)
  · intro placed after told
    obtain ⟨⟨entry, own, inserts⟩, lowered'⟩ := told
    refine ⟨inserts.held, inserts.settles (s := ⟨s.store, gate⟩) (welcomes_unpromised r.onKeys) ⟨proper.sound, trivial⟩ lowered' ?_⟩
    intro h same
    cases same
    exact own rfl
  · intro fault after told
    obtain ⟨blamed, carries, lowered'⟩ := told
    refine ⟨?_, .carried proper carries lowered'⟩
    rcases blamed with blamed | growth | ⟨entry, store, gate, left, ran, other, _⟩
    · exact .inl blamed
    · exact .inr growth
    · obtain ⟨value, rfl, _⟩ := Keyed.make_run.mp ran
      exact absurd rfl other

theorem access_resilient (follows : rule.Follows blame r) (welcomes : Welcomes r.onKeys promise) :
    (access rule).Resilient blame promise .hashSet where
  entries := HashSet.access_resilient follows.onKeys welcomes
  find _ key settled := find_calm follows settled key
  fetch _ key _ careful settled := getOrInsertWith_resilient follows careful settled key

def Costs (rule : HashRule (HashMap κ ν) ω κ) (holds : Session (HashMap κ ν) ω → Prop)
    (s after : Session (HashMap κ ν) ω) (fault : Fault) : HashMapAction κ ν ω → Prop
  | .common action => (access rule).Costs holds s after fault action
  | .rehash => Worn s.store after.store ∧ after.gate.busy = false
  | .walkChanging _ _ => Spared holds s after

theorem act_resilient (follows : rule.Follows blame r) (welcomes : Welcomes r.onKeys promise) (action : HashMapAction κ ν ω)
    (fair : action.Fair blame) (settled : Settled promise s) :
    Ends (act rule action) s (fun _ after => Settled unpromised after) fun fault after =>
      (blame fault ∨ action.MayFault fault) ∧ Costs rule (Settled promise) s after fault action := by
  cases action with
  | common action => exact KeyedAccess.run_resilient (access_resilient follows welcomes) action fair settled
  | rehash =>
    refine Ends.bind ((rehash_resilient follows.onKeys settled).faulting ?_) fun _ _ settled => settled
    exact fun _ _ told => ⟨.inl told.1, told.2⟩
  | walkChanging change strides =>
    exact (walkChanging_settles settled _ strides).bind fun _ _ settled => settled

theorem Costs.holds {holds : Session (HashMap κ ν) ω → Prop} {after : Session (HashMap κ ν) ω} {fault : Fault}
    {action : HashMapAction κ ν ω} (costs : Costs rule holds s after fault action) (other : action ≠ .rehash) :
    holds after := by
  cases action with
  | common action => exact KeyedAccess.Costs.holds costs
  | rehash => exact absurd rfl other
  | walkChanging change strides => exact Spared.holds costs

theorem Costs.imp {holds holds' : Session (HashMap κ ν) ω → Prop} {after : Session (HashMap κ ν) ω} {fault : Fault}
    {action : HashMapAction κ ν ω} (weaker : ∀ after, holds after → holds' after) (costs : Costs rule holds s after fault action) :
    Costs rule holds' s after fault action := by
  cases action with
  | common action => exact KeyedAccess.Costs.imp weaker costs
  | rehash => exact costs
  | walkChanging change strides => exact Spared.imp weaker costs

theorem act_settles (action : HashMapAction κ ν ω) (fair : action.Fair blame) (settled : Settled unpromised s) :
    Ends (act r.rule action) s (fun _ after => Settled unpromised after) fun fault after =>
      (blame fault ∨ action.MayFault fault) ∧ Settled unpromised after := by
  by_cases rehash : action = .rehash
  · subst rehash
    have silent : (r.onKeys.rule : HashRule (HashMap κ ν) ω (Entry κ ν)).Follows (fun _ => False) r.onKeys :=
      r.onKeys.rule_follows
    exact Ends.bind ((rehash_resilient silent settled).faulting fun _ _ none => none.1.elim) fun _ _ settled => settled
  · refine (act_resilient r.rule_follows (welcomes_unpromised r.onKeys) action fair settled).faulting ?_
    exact fun _ _ told => ⟨told.1, told.2.holds rehash⟩

end HashMap
end Slotted
