import Slotted.Proofs.Action.Resilience
import Slotted.Proofs.TreeSet.Refinement
namespace Slotted

namespace TreeSetAction

variable {α ω : Type}

def Fair (blame : Fault → Prop) : TreeSetAction α ω → Prop
  | .findBy probe | .bound _ _ probe => ∃ f, probe.Follows blame f
  | .insertWith probe make => (∃ f, probe.Follows blame f) ∧ make.Careful blame
  | _ => True

-- The faults that an action is documented to have, besides those of the callers' code.
def MayFault : TreeSetAction α ω → Fault → Prop
  | .common action, fault => action.mayGrow .treeSet fault
  | .insertWith .., fault => ∃ error, fault = .growth .treeSet .insertWith error
  | _, _ => False

end TreeSetAction

namespace TreeSet

open Store

variable {α ω : Type} {blame : Fault → Prop} {r : PureOrder α} {rule : OrderRule (TreeSet α) ω α} {t : Tree}
  {s : Session (TreeSet α) ω} {promise : List (α × Unit) → Prop}

structure Welcomes (r : PureOrder α) (promise : List (α × Unit) → Prop) : Prop where
  inherited : Inherited promise
  lands : ∀ {ρ i value t t'} {before after : TreeSet α}, Proper promise t before →
    Lands (r.compare · value) ρ i value t t' before after → Proper promise t' after

theorem welcomes_unpromised (r : PureOrder α) : Welcomes r unpromised :=
  ⟨fun _ _ => trivial, fun _ lands => ⟨lands.adds.sound, trivial⟩⟩

theorem welcomes_ascending (lawful : r.Lawful) : Welcomes r (Ascending r) :=
  ⟨Ascending.inherited r, fun proper lands => lands.proper lawful proper⟩

theorem Inserts.settles {f : α → Ordering} {value : α} {after : Session (TreeSet α) ω}
    {answer : Except CapacityError (Handle × Bool)} (inserts : Inserts f value t s.store after.store answer)
    (lands : ∀ {ρ i t'}, Lands f ρ i value t t' s.store after.store → Proper promise t' after.store)
    (proper : Proper promise t s.store) (lowered : after.gate.busy = false) : Settled promise after := by
  refine ⟨?_, lowered⟩
  rcases answer with error | ⟨h, fresh⟩
  · obtain ⟨_, same, _⟩ := inserts
    exact ⟨t, same ▸ proper⟩
  · cases fresh with
    | false =>
      obtain ⟨same, _⟩ := inserts
      exact ⟨t, same ▸ proper⟩
    | true =>
      obtain ⟨_, ρ, t', landed⟩ := inserts
      exact ⟨t', lands landed⟩

theorem Reinserts.settles {i : Nat} {value : α} {placed : Handle × Bool} {after : Session (TreeSet α) ω}
    (reinserts : Reinserts (r.compare · value) i value t s.store after.store placed) (welcomes : Welcomes r promise)
    (proper : Proper promise t s.store) (lowered : after.gate.busy = false) : Settled promise after := by
  refine ⟨?_, lowered⟩
  obtain ⟨h, fresh⟩ := placed
  cases fresh with
  | false =>
    obtain ⟨_, sound, same⟩ := reinserts
    exact ⟨t, proper.same_live sound same⟩
  | true =>
    obtain ⟨_, _, t', landed⟩ := reinserts
    exact ⟨t', welcomes.lands proper landed⟩

theorem list_run (sound : Sound t s.store) :
    Update.ask (do return (← entries (← read)).map (·.2) : Query (TreeSet α) ω (List α)) s =
      .ok ((listing t s.store).map (·.2)) s := by
  refine Update.ask_ok ?_
  rw [Query.bind_run, Query.read_run]
  dsimp only
  rw [entries_eq sound, Query.bind_run, Query.lift_run]
  rfl

theorem neighbourOf_eq {s : TreeSet α} (sound : Sound t s) (side : Side) (h : Handle) :
    ∃ found, s.neighbourOf side h = .ok found := by
  rw [neighbourOf]
  split
  · rename_i live
    have member : h.index ∈ t.toward side := Tree.mem_toward.mpr ((sound.enumerates.mem _).mpr live)
    obtain ⟨before, after, split⟩ := List.append_of_mem member
    rw [neighbour_eq sound split]
    exact ⟨_, rfl⟩
  · exact ⟨_, rfl⟩

theorem find_calm (follows : rule.Follows blame r) (settled : Settled promise s) (value : α) :
    (find rule value).Calm blame s.store := by
  obtain ⟨⟨t, proper⟩, _⟩ := settled
  obtain ⟨found, answers, _⟩ := findBy_answers (ω := ω) proper.sound (r.compare · value) 0
  exact (find_follows follows value).calm fun _ lowered => ⟨_, answers.lowered lowered⟩

theorem check_calm (follows : rule.Follows blame r) (settled : Settled promise s) : (check rule).Calm blame s.store := by
  obtain ⟨⟨t, proper⟩, _⟩ := settled
  refine (check_follows follows).calm fun gate lowered => ?_
  obtain ⟨verdict, ran, _⟩ := check_run (r := r) proper.sound lowered
  exact ⟨verdict, ran⟩

theorem resolved_calm {probe : Probe (TreeSet α) ω α} {f : α → Ordering} (follows : probe.Follows blame f)
    (settled : Settled promise s) (wanted : Side) (inclusive : Bool) :
    (resolved (bound wanted inclusive probe)).Calm blame s.store := by
  obtain ⟨⟨t, proper⟩, _⟩ := settled
  have answers := resolved_answers (bound_answers (ω := ω) proper.sound f probe.memory wanted inclusive)
  exact (resolved_follows follows wanted inclusive).calm fun _ lowered => ⟨_, answers.lowered lowered⟩

theorem agree_calm {same : α → α → Query (TreeSet α) ω Bool} {s other : TreeSet α} {t t' : Tree}
    (careful : ∀ a b, (same a b).Careful blame) (sound : Sound t s) (sound' : Sound t' other) (n : Nat) {mine theirs : Cursor}
    {items items' : List (Handle × α)} (tracks : Cursor.Tracks t s mine items) (tracks' : Cursor.Tracks t' other theirs items') :
    (agree same other n mine theirs).Calm blame s := by
  induction n generalizing mine theirs items items' with
  | zero => exact Query.calm_pure true
  | succ n ih =>
    obtain ⟨mine', ran, onward⟩ := Cursor.next_run sound tracks
    obtain ⟨theirs', ran', onward'⟩ := Cursor.next_run sound' tracks'
    unfold agree
    refine Query.Calm.read ?_
    rw [ran]
    refine Query.Calm.lifted ?_
    cases items with
    | nil => exact Query.calm_pure true
    | cons item items =>
      dsimp only [List.head?_cons]
      rw [ran']
      refine Query.Calm.lifted ?_
      cases items' with
      | nil => exact Query.calm_pure true
      | cons item' items' =>
        refine ((careful item.2 item'.2).calm s).bind fun answer => ?_
        cases answer with
        | false => exact Query.calm_pure false
        | true => exact ih onward onward'

theorem sameElementsBy_calm {same : α → α → Query (TreeSet α) ω Bool} {other : TreeSet α} {t' : Tree}
    (careful : ∀ a b, (same a b).Careful blame) (settled : Settled promise s) (sound' : Sound t' other) :
    (sameElementsBy same other).Calm blame s.store := by
  obtain ⟨⟨t, proper⟩, _⟩ := settled
  obtain ⟨mine, started, tracks⟩ := Cursor.start_tracks proper.sound
  obtain ⟨theirs, started', tracks'⟩ := Cursor.start_tracks sound'
  unfold sameElementsBy
  refine Query.Calm.read ?_
  split
  · exact Query.calm_pure false
  · rw [started, started']
    exact Query.Calm.lifted (Query.Calm.lifted (agree_calm careful proper.sound sound' _ tracks tracks'))

theorem updateAll_settles (settled : Settled promise s) (change : Nat → α → α) :
    Returns (Update.edit (updateAll change)) s fun _ after => Settled unpromised after := by
  obtain ⟨⟨t, proper⟩, lowered⟩ := settled
  obtain ⟨after, ran, sound, _⟩ := updateAll_run proper.sound change
  rw [Returns, Update.ends_edit]
  exact Ends.of_ok ran ⟨⟨t, sound, trivial⟩, lowered⟩

variable [Allocator ω]

theorem access_resilient (follows : rule.Follows blame r) (welcomes : Welcomes r promise) :
    (access rule).Resilient blame promise .treeSet := by
  refine ⟨welcomes.inherited, ?_, ?_, ?_, ?_, ?_, ?_, ?_⟩
  · exact fun s value settled => find_calm follows settled value
  · intro s value settled
    obtain ⟨⟨t, proper⟩, lowered⟩ := id settled
    refine (insert_follows follows proper.sound lowered value).imp ?_ ?_
    · exact fun _ after told => told.1.settles (welcomes.lands proper) proper told.2
    · exact fun _ after told => ⟨told.1, .carried proper told.2.1 told.2.2⟩
  · intro s value settled
    obtain ⟨⟨t, proper⟩, lowered⟩ := id settled
    refine (tryInsert_follows follows proper.sound lowered value).imp ?_ ?_
    · exact fun _ after told => told.1.settles (welcomes.lands proper) proper told.2.2
    · exact fun _ after told => ⟨told.1, .carried proper told.2.1 told.2.2⟩
  · intro t i value s loose body lowered
    refine (reinsert_follows follows loose lowered).imp ?_ fun _ _ told => told
    exact fun _ after told => told.1.settles welcomes ⟨loose.sound, body⟩ told.2
  · intro s strides settled
    obtain ⟨⟨t, proper⟩, lowered⟩ := settled
    exact Ends.of_ok (walker_run proper.sound strides) rfl
  · intro s settled
    obtain ⟨⟨t, proper⟩, lowered⟩ := settled
    exact Ends.of_ok (list_run proper.sound) rfl
  · exact fun s settled => check_calm follows settled

def Costs (rule : OrderRule (TreeSet α) ω α) (holds : Session (TreeSet α) ω → Prop) (s after : Session (TreeSet α) ω)
    (fault : Fault) : TreeSetAction α ω → Prop
  | .common action => (access rule).Costs holds s after fault action
  | _ => Spared holds s after

theorem act_resilient (follows : rule.Follows blame r) (welcomes : Welcomes r promise) (action : TreeSetAction α ω)
    (fair : action.Fair blame) (settled : Settled promise s) :
    Ends (act rule action) s (fun _ after => Settled unpromised after) fun fault after =>
      (blame fault ∨ action.MayFault fault) ∧ Costs rule (Settled promise) s after fault action := by
  obtain ⟨⟨t, proper⟩, lowered⟩ := id settled
  have asked : ∀ {β : Type} {query : Query (TreeSet α) ω β} (answer : β → Reply α), query.Calm blame s.store →
      Ends (do return answer (← Update.ask query)) s (fun _ after => Settled unpromised after)
        fun fault after => (blame fault ∨ False) ∧ Spared (Settled promise) s after :=
    fun answer calm => (Access.ask_resilient answer settled calm).faulting fun _ _ told => ⟨.inl told.1, told.2⟩
  cases action with
  | common action => exact Access.run_resilient (access_resilient follows welcomes) action settled
  | findBy probe =>
    obtain ⟨f, follows⟩ := fair
    obtain ⟨found, answers, _⟩ := findBy_answers (ω := ω) proper.sound f probe.memory
    exact asked _ ((findBy_follows follows).calm fun _ lowered => ⟨_, answers.lowered lowered⟩)
  | bound wanted inclusive probe =>
    obtain ⟨f, follows⟩ := fair
    exact asked _ ((bound_follows follows wanted inclusive).calm fun _ lowered =>
      ⟨_, (bound_answers proper.sound f _ wanted inclusive).lowered lowered⟩)
  | insertWith probe make =>
    obtain ⟨⟨f, follows⟩, careful⟩ := fair
    refine Ends.bind ((insertWith_follows follows careful proper.sound lowered).faulting ?_) ?_
    · exact fun _ after told => ⟨told.1, .carried proper told.2.1 told.2.2⟩
    · intro placed after told
      obtain ⟨⟨value, inserts⟩, lowered'⟩ := told
      exact inserts.settles (fun landed => ⟨landed.adds.sound, trivial⟩) ⟨proper.sound, trivial⟩ lowered'
  | near wanted inclusive value => exact asked _ (resolved_calm (follows.probe value) settled wanted inclusive)
  | extreme side =>
    rw [act, ends_bind, ends_get, extreme, extremeSlot_eq proper.sound]
    exact settled.sound
  | neighbour side h =>
    obtain ⟨found, ran⟩ := neighbourOf_eq proper.sound side h
    rw [act, ends_bind, ends_get, ran]
    exact settled.sound
  | updateAll change => exact (updateAll_settles settled change).bind fun _ _ settled => settled

theorem Costs.holds {holds : Session (TreeSet α) ω → Prop} {after : Session (TreeSet α) ω} {fault : Fault}
    {action : TreeSetAction α ω} (costs : Costs rule holds s after fault action) : holds after := by
  cases action with
  | common action => exact Access.Costs.holds costs
  | _ => exact Spared.holds costs

theorem Costs.imp {holds holds' : Session (TreeSet α) ω → Prop} {after : Session (TreeSet α) ω} {fault : Fault}
    {action : TreeSetAction α ω} (weaker : ∀ after, holds after → holds' after) (costs : Costs rule holds s after fault action) :
    Costs rule holds' s after fault action := by
  cases action with
  | common action => exact Access.Costs.imp weaker costs
  | _ => exact Spared.imp weaker costs

theorem act_settles (follows : rule.Follows blame r) (action : TreeSetAction α ω) (fair : action.Fair blame)
    (settled : Settled unpromised s) :
    Ends (act rule action) s (fun _ after => Settled unpromised after) fun fault after =>
      (blame fault ∨ action.MayFault fault) ∧ Settled unpromised after :=
  (act_resilient follows (welcomes_unpromised r) action fair settled).faulting fun _ _ told => ⟨told.1, told.2.holds⟩

end TreeSet
end Slotted
