import Slotted.Proofs.Action.MapResilience
import Slotted.Proofs.TreeMap.Refinement
import Slotted.Proofs.TreeSet.Resilience
namespace Slotted

variable {κ ν ω : Type}

namespace TreeMapAction

def Fair (blame : Fault → Prop) : TreeMapAction κ ν ω → Prop
  | .common action => action.Fair blame
  | _ => True

def MayFault : TreeMapAction κ ν ω → Fault → Prop
  | .common action, fault => action.MayFault .treeSet .treeMap fault
  | _, _ => False

end TreeMapAction

namespace TreeMap

open Store TreeSet

variable {blame : Fault → Prop} {r : PureOrder κ} {rule : OrderRule (TreeMap κ ν) ω κ} {s : Session (TreeMap κ ν) ω}
  {promise : List (Entry κ ν × Unit) → Prop}

theorem probe_follows (follows : rule.Follows blame r) (key : κ) :
    (probe rule key).Follows blame fun entry => r.compare entry.key key := fun entry => follows entry.key key

theorem find_calm (follows : rule.Follows blame r) (settled : Settled promise s) (key : κ) :
    (find rule key).Calm blame s.store := by
  obtain ⟨⟨t, proper⟩, _⟩ := settled
  obtain ⟨found, answers, _⟩ := findBy_answers (ω := ω) proper.sound (fun entry => r.compare entry.key key) 0
  exact (findBy_follows (probe_follows follows key)).calm fun _ lowered => ⟨_, answers.lowered lowered⟩

theorem pop_settles (settled : Settled promise s) (side : Side) :
    Returns (Update.edit (pop side)) s fun _ after => Settled unpromised after := by
  obtain ⟨⟨t, proper⟩, lowered⟩ := settled
  have removed : ∀ h, Ends (Store.remove h) s.store (fun _ after => Settled unpromised ⟨after, s.gate⟩) fun _ _ => False := by
    intro h
    have bare : Settled unpromised s := ⟨⟨t, proper.sound, trivial⟩, lowered⟩
    have removes := Access.remove_settles (fun _ _ => trivial) bare h
    rwa [Returns, Update.ends_edit] at removes
  obtain ⟨c, started, tracks⟩ := Cursor.start_tracks proper.sound
  rw [Returns, Update.ends_edit, pop, ends_bind, ends_get, started, ends_bind, ends_lift]
  cases side with
  | left =>
    obtain ⟨rest, ran, _⟩ := Cursor.next_run proper.sound tracks
    dsimp only
    rw [ran, ends_bind, ends_lift]
    cases (listing t s.store).head? with
    | none => exact ⟨⟨t, proper.sound, trivial⟩, lowered⟩
    | some item => exact removed item.1
  | right =>
    obtain ⟨rest, ran, _⟩ := Cursor.nextBack_run proper.sound tracks
    dsimp only
    rw [ran, ends_bind, ends_lift]
    cases (listing t s.store).getLast? with
    | none => exact ⟨⟨t, proper.sound, trivial⟩, lowered⟩
    | some item => exact removed item.1

variable [Allocator ω]

theorem getOrInsertWith_resilient {make : Query (TreeMap κ ν) ω ν} (follows : rule.Follows blame r)
    (careful : make.Careful blame) (settled : Settled promise s) (key : κ) :
    Ends (getOrInsertWith rule key make) s (fun _ after => Settled unpromised after)
      fun fault after => (blame fault ∨ ∃ error, fault = .growth .treeSet .insertWith error) ∧ Spared (Settled promise) s after := by
  obtain ⟨⟨t, proper⟩, lowered⟩ := settled
  refine Keyed.stored_settles ((insertWith_follows (probe_follows follows key) (Keyed.make_careful careful key)
    proper.sound lowered).imp ?_ ?_)
  · intro placed after told
    obtain ⟨⟨entry, inserts⟩, lowered'⟩ := told
    exact ⟨inserts.held, inserts.settles (fun landed => ⟨landed.adds.sound, trivial⟩) ⟨proper.sound, trivial⟩ lowered'⟩
  · exact fun fault after told => ⟨told.1, .carried proper told.2.1 told.2.2⟩

theorem access_resilient (follows : rule.Follows blame r) (welcomes : Welcomes r.onKeys promise) :
    (access rule).Resilient blame promise .treeSet where
  entries := TreeSet.access_resilient follows.onKeys welcomes
  find _ key settled := find_calm follows settled key
  fetch _ key _ careful settled := getOrInsertWith_resilient follows careful settled key

def Costs (rule : OrderRule (TreeMap κ ν) ω κ) (holds : Session (TreeMap κ ν) ω → Prop)
    (s after : Session (TreeMap κ ν) ω) (fault : Fault) : TreeMapAction κ ν ω → Prop
  | .common action => (access rule).Costs holds s after fault action
  | _ => Spared holds s after

theorem act_resilient (follows : rule.Follows blame r) (welcomes : Welcomes r.onKeys promise) (action : TreeMapAction κ ν ω)
    (fair : action.Fair blame) (settled : Settled promise s) :
    Ends (act rule action) s (fun _ after => Settled unpromised after) fun fault after =>
      (blame fault ∨ action.MayFault fault) ∧ Costs rule (Settled promise) s after fault action := by
  cases action with
  | common action => exact KeyedAccess.run_resilient (access_resilient follows welcomes) action fair settled
  | near wanted inclusive key =>
    exact (Access.ask_resilient _ settled (resolved_calm (probe_follows follows key) settled wanted inclusive)).faulting
      fun _ _ told => ⟨.inl told.1, told.2⟩
  | extreme side =>
    obtain ⟨t, proper⟩ := settled.proper
    rw [act, ends_bind, ends_get, extreme, extremeSlot_eq proper.sound]
    exact settled.sound
  | neighbour side h =>
    obtain ⟨t, proper⟩ := settled.proper
    obtain ⟨found, ran⟩ := neighbourOf_eq proper.sound side h
    rw [act, ends_bind, ends_get, ran]
    exact settled.sound
  | pop side => exact (pop_settles settled side).bind fun _ _ settled => settled
  | updateAll change => exact (updateAll_settles settled _).bind fun _ _ settled => settled

theorem Costs.holds {holds : Session (TreeMap κ ν) ω → Prop} {after : Session (TreeMap κ ν) ω} {fault : Fault}
    {action : TreeMapAction κ ν ω} (costs : Costs rule holds s after fault action) : holds after := by
  cases action with
  | common action => exact KeyedAccess.Costs.holds costs
  | _ => exact Spared.holds costs

theorem Costs.imp {holds holds' : Session (TreeMap κ ν) ω → Prop} {after : Session (TreeMap κ ν) ω} {fault : Fault}
    {action : TreeMapAction κ ν ω} (weaker : ∀ after, holds after → holds' after) (costs : Costs rule holds s after fault action) :
    Costs rule holds' s after fault action := by
  cases action with
  | common action => exact KeyedAccess.Costs.imp weaker costs
  | _ => exact Spared.imp weaker costs

theorem act_settles (follows : rule.Follows blame r) (action : TreeMapAction κ ν ω) (fair : action.Fair blame)
    (settled : Settled unpromised s) :
    Ends (act rule action) s (fun _ after => Settled unpromised after) fun fault after =>
      (blame fault ∨ action.MayFault fault) ∧ Settled unpromised after :=
  (act_resilient follows (welcomes_unpromised r.onKeys) action fair settled).faulting fun _ _ told => ⟨told.1, told.2.holds⟩

end TreeMap
end Slotted
