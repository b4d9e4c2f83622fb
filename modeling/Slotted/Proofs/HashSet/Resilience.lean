import Slotted.Proofs.Action.Resilience
import Slotted.Proofs.HashSet.Refinement
namespace Slotted

namespace HashSetAction

variable {α ω : Type}

def Fair (blame : Fault → Prop) : HashSetAction α ω → Prop
  | .findBy _ accepts => ∃ accepted : α → Bool, ∀ stored, (accepts stored).Follows blame (pure (accepted stored))
  | .insertWith _ accepts make =>
    (∃ accepted : α → Bool, ∀ stored, (accepts stored).Follows blame (pure (accepted stored))) ∧ make.Careful blame
  | _ => True

-- The faults that an action is documented to have, besides those of the callers' code.
def MayFault (r : PureHash α) : HashSetAction α ω → Fault → Prop
  | .common action, fault => action.mayGrow .hashSet fault
  | .insertWith hash _ make, fault => (∃ error, fault = .growth .hashSet .insertWith error) ∨
    ∃ value store gate left, make store gate = .ok value left ∧ r.hash value ≠ hash ∧
      fault = .disagreement .builtHash (r.hash value).toNat hash.toNat
  | _, _ => False

end HashSetAction

namespace HashSet

open Store

variable {α ω : Type} {blame : Fault → Prop} {r : PureHash α} {rule : HashRule (HashSet α) ω α} {order : List Nat}
  {s : Session (HashSet α) ω} {promise : List (α × UInt32) → Prop}

-- Nothing is remembered but present hashes.
def Fresh (r : PureHash α) (bodies : List (α × UInt32)) : Prop := ∀ body ∈ bodies, body.2 = r.hash body.1

structure Welcomes (r : PureHash α) (promise : List (α × UInt32) → Prop) : Prop where
  inherited : Inherited promise
  takes : ∀ {bodies bodies' body}, promise bodies → body.2 = r.hash body.1 → bodies'.Perm (body :: bodies) → promise bodies'

theorem welcomes_unpromised (r : PureHash α) : Welcomes r unpromised := ⟨fun _ _ => trivial, fun _ _ _ => trivial⟩

theorem welcomes_fresh (r : PureHash α) : Welcomes r (Fresh r) := by
  refine ⟨fun sublist fresh body member => fresh body (sublist.subset member), ?_⟩
  intro bodies bodies' body fresh own perm body' member
  cases List.mem_cons.mp (perm.mem_iff.mp member) with
  | inl same => rw [same, own]
  | inr member => exact fresh body' member

theorem Welcomes.adds {ρ : Nat → Nat} {i : Nat} {value : α} {order' : List Nat} {before after : HashSet α}
    (welcomes : Welcomes r promise) (proper : Proper promise order before) (adds : Adds ρ i value order order' before after)
    (remembered : (after.pool.linkAt i).hash = r.hash value) : Proper promise order' after :=
  ⟨adds.sound, welcomes.takes proper.body remembered adds.bodies_perm⟩

theorem Inserts.settles {hash : UInt32} {accepted : α → Bool} {value : α} {after : Session (HashSet α) ω}
    {answer : Except CapacityError (Handle × Bool)} (inserts : Inserts hash accepted value order s.store after.store answer)
    (welcomes : Welcomes r promise) (proper : Proper promise order s.store) (lowered : after.gate.busy = false)
    (own : ∀ h, answer = .ok (h, true) → r.hash value = hash) : Settled promise after := by
  refine ⟨?_, lowered⟩
  rcases answer with error | ⟨h, fresh⟩
  · obtain ⟨_, same, _⟩ := inserts
    exact ⟨order, same ▸ proper⟩
  · cases fresh with
    | false =>
      obtain ⟨same, _⟩ := inserts
      exact ⟨order, same ▸ proper⟩
    | true =>
      obtain ⟨_, remembered, ρ, order', adds⟩ := inserts
      exact ⟨order', welcomes.adds proper adds (remembered.trans (own h rfl).symm)⟩

theorem Reinserts.settles {i : Nat} {value : α} {placed : Handle × Bool} {after : Session (HashSet α) ω}
    (reinserts : Reinserts (r.hash value) (r.equal · value) i value order s.store after.store placed)
    (welcomes : Welcomes r promise) (proper : Proper promise order s.store) (lowered : after.gate.busy = false) :
    Settled promise after := by
  refine ⟨?_, lowered⟩
  obtain ⟨h, fresh⟩ := placed
  cases fresh with
  | false =>
    obtain ⟨_, sound, same⟩ := reinserts
    exact ⟨order, proper.same_live sound same⟩
  | true =>
    obtain ⟨_, _, remembered, order', adds⟩ := reinserts
    exact ⟨order', welcomes.adds proper adds remembered⟩

theorem Rehashes.proper {before after : HashSet α} (rehashes : Rehashes r order before after) :
    Proper (Fresh r) order after := by
  refine ⟨rehashes.sound, ?_⟩
  intro body member
  obtain ⟨i, held, remembered⟩ := (mem_bodies rehashes.sound).mp member
  exact remembered.symm.trans (rehashes.fresh i body.1 held)

-- The hashes of some elements may be up to date by then, and the chains go by the old ones.
theorem rehash_resilient (follows : rule.Follows blame r) (settled : Settled promise s) :
    Ends (rehash rule) s (fun _ after => Settled unpromised after)
      fun fault after => blame fault ∧ Worn s.store after.store ∧ after.gate.busy = false := by
  obtain ⟨⟨order, proper⟩, lowered⟩ := settled
  refine (rehash_follows follows proper.sound (.refl s.store)).imp ?_ ?_
  · intro _ after told
    obtain ⟨rehashes, flag⟩ := told
    exact ⟨⟨order, rehashes.sound, trivial⟩, flag.trans lowered⟩
  · intro fault after told
    obtain ⟨blamed, worn, flag⟩ := told.resolve_left (Session.not_barred lowered)
    exact ⟨blamed, worn, flag.trans lowered⟩

theorem walkChanging_settles (settled : Settled promise s) (change : Nat → α → α) (strides : List Stride) :
    Returns ((changingWalker change).run strides) s fun _ after => Settled unpromised after := by
  obtain ⟨⟨order, proper⟩, lowered⟩ := settled
  refine (changingWalker_rewalks (amendable_sound order) strides proper.sound proper.sound.cursor_tracks).returning ?_
  exact fun _ after rewalks => ⟨⟨order, rewalks.kept, trivial⟩, rewalks.gate.symm ▸ lowered⟩

theorem find_calm (follows : rule.Follows blame r) (settled : Settled promise s) (value : α) :
    (find rule value).Calm blame s.store := by
  obtain ⟨⟨order, proper⟩, _⟩ := settled
  obtain ⟨found, _, answers⟩ := find_answers (ω := ω) (r := r) proper.sound value
  exact (find_follows follows value).calm fun _ lowered => ⟨_, answers.lowered lowered⟩

theorem check_calm (follows : rule.Follows blame r) (settled : Settled promise s) : (check rule).Calm blame s.store := by
  obtain ⟨⟨order, proper⟩, _⟩ := settled
  refine (check_follows follows).calm fun gate lowered => ?_
  obtain ⟨verdict, ran, _⟩ := check_run (r := r) proper.sound lowered
  exact ⟨verdict, ran⟩

theorem sameElements_calm (follows : rule.Follows blame r) (settled : Settled promise s) (other : HashSet α) :
    (sameElements other rule).Calm blame s.store := by
  refine Query.Calm.read ?_
  split
  · exact Query.calm_pure false
  · exact Query.calm_allM fun item => (find_calm follows settled item.2).bind fun _ => Query.calm_pure _

variable [Allocator ω]

theorem access_resilient (follows : rule.Follows blame r) (welcomes : Welcomes r promise) :
    (access rule).Resilient blame promise .hashSet := by
  refine ⟨welcomes.inherited, ?_, ?_, ?_, ?_, ?_, ?_, ?_⟩
  · exact fun s value settled => find_calm follows settled value
  · intro s value settled
    obtain ⟨⟨order, proper⟩, lowered⟩ := id settled
    refine (insert_follows follows proper.sound lowered value).imp ?_ ?_
    · exact fun _ after told => told.1.settles welcomes proper told.2 fun _ _ => rfl
    · exact fun _ after told => ⟨told.1, .same settled told.2.1 told.2.2⟩
  · intro s value settled
    obtain ⟨⟨order, proper⟩, lowered⟩ := id settled
    refine (tryInsert_follows follows proper.sound lowered value).imp ?_ ?_
    · exact fun _ after told => told.1.settles welcomes proper told.2.2 fun _ _ => rfl
    · exact fun _ after told => ⟨told.1, .same settled told.2.1 told.2.2⟩
  · intro order i value s loose body lowered
    refine (reinsert_follows follows loose lowered).imp ?_ fun _ _ told => told
    exact fun _ after told => told.1.settles welcomes ⟨loose.sound, body⟩ told.2
  · intro s strides settled
    obtain ⟨⟨order, proper⟩, lowered⟩ := settled
    exact Ends.of_ok (walker_run proper.sound strides) rfl
  · exact fun s settled => Ends.of_ok rfl rfl
  · exact fun s settled => check_calm follows settled

def Costs (rule : HashRule (HashSet α) ω α) (holds : Session (HashSet α) ω → Prop) (s after : Session (HashSet α) ω)
    (fault : Fault) : HashSetAction α ω → Prop
  | .common action => (access rule).Costs holds s after fault action
  | .rehash => Worn s.store after.store ∧ after.gate.busy = false
  | _ => Spared holds s after

theorem act_resilient (follows : rule.Follows blame r) (welcomes : Welcomes r promise) (action : HashSetAction α ω)
    (fair : action.Fair blame) (settled : Settled promise s) :
    Ends (act rule action) s (fun _ after => Settled unpromised after) fun fault after =>
      (blame fault ∨ action.MayFault r fault) ∧ Costs rule (Settled promise) s after fault action := by
  obtain ⟨⟨order, proper⟩, lowered⟩ := id settled
  cases action with
  | common action => exact Access.run_resilient (access_resilient follows welcomes) action settled
  | findBy hash accepts =>
    obtain ⟨accepted, accepting⟩ := fair
    obtain ⟨found, _, answers⟩ := findBy_answers (ω := ω) proper.sound hash accepted
    have calm : (findBy hash accepts).Calm blame s.store :=
      (findBy_follows accepting).calm fun _ lowered => ⟨_, answers.lowered lowered⟩
    exact (Access.ask_resilient _ settled calm).faulting fun _ _ told => ⟨.inl told.1, told.2⟩
  | insertWith hash accepts make =>
    obtain ⟨⟨accepted, accepting⟩, careful⟩ := fair
    refine Ends.bind ((insertWith_follows follows accepting careful proper.sound lowered hash).faulting ?_) ?_
    · exact fun _ after told => ⟨told.1, .carried proper told.2.1 told.2.2⟩
    · intro placed after told
      obtain ⟨⟨value, own, inserts⟩, lowered'⟩ := told
      refine inserts.settles (welcomes_unpromised r) ⟨proper.sound, trivial⟩ lowered' ?_
      intro h same
      cases same
      exact own rfl
  | rehash =>
    refine Ends.bind ((rehash_resilient follows settled).faulting ?_) fun _ _ settled => settled
    exact fun _ _ told => ⟨.inl told.1, told.2⟩
  | walkChanging change strides => exact (walkChanging_settles settled change strides).bind fun _ _ settled => settled

theorem Costs.holds {holds : Session (HashSet α) ω → Prop} {after : Session (HashSet α) ω} {fault : Fault}
    {action : HashSetAction α ω} (costs : Costs rule holds s after fault action) (other : action ≠ .rehash) :
    holds after := by
  cases action with
  | common action => exact Access.Costs.holds costs
  | rehash => exact absurd rfl other
  | _ => exact Spared.holds costs

theorem Costs.imp {holds holds' : Session (HashSet α) ω → Prop} {after : Session (HashSet α) ω} {fault : Fault}
    {action : HashSetAction α ω} (weaker : ∀ after, holds after → holds' after) (costs : Costs rule holds s after fault action) :
    Costs rule holds' s after fault action := by
  cases action with
  | common action => exact Access.Costs.imp weaker costs
  | rehash => exact costs
  | _ => exact Spared.imp weaker costs

theorem act_settles (action : HashSetAction α ω) (fair : action.Fair blame) (settled : Settled unpromised s) :
    Ends (act r.rule action) s (fun _ after => Settled unpromised after) fun fault after =>
      (blame fault ∨ action.MayFault r fault) ∧ Settled unpromised after := by
  by_cases rehash : action = .rehash
  · subst rehash
    have silent : (r.rule : HashRule (HashSet α) ω α).Follows (fun _ => False) r := r.rule_follows
    exact Ends.bind ((rehash_resilient silent settled).faulting fun _ _ none => none.1.elim) fun _ _ settled => settled
  · refine (act_resilient r.rule_follows (welcomes_unpromised r) action fair settled).faulting ?_
    exact fun _ _ told => ⟨told.1, told.2.holds rehash⟩

end HashSet
end Slotted
