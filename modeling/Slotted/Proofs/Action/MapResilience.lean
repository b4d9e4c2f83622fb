import Slotted.Proofs.Action.MapRefinement
import Slotted.Proofs.Action.Resilience
import Slotted.Proofs.Callers
namespace Slotted

open Store LawfulIndex

namespace MapAction

variable {σ κ ν ω : Type}

def Fair (blame : Fault → Prop) : MapAction σ κ ν ω → Prop
  | .fetch _ make _ => make.Careful blame
  | _ => True

-- The faults that an action is documented to have, besides those of the callers' code. Growth is the set's to report.
def MayFault (blamed container : Container) : MapAction σ κ ν ω → Fault → Prop
  | .entries action, fault => action.mayGrow blamed fault
  | .index _, fault => fault = .keyNotFound container
  | .replace .., fault => ∃ error, fault = .growth blamed .insert error
  | .fetch .., fault => ∃ error, fault = .growth blamed .insertWith error
  | _, _ => False

end MapAction

variable {ι κ ν μ ω : Type} {blame : Fault → Prop} {s : Session (Store ι (Entry κ ν) μ) ω}

namespace Keyed

variable {search : Search ι κ ν μ ω}

theorem make_careful {make : Query (Store ι (Entry κ ν) μ) ω ν} (careful : make.Careful blame) (key : κ) :
    (return ⟨key, ← make⟩ : Query (Store ι (Entry κ ν) μ) ω (Entry κ ν)).Careful blame :=
  careful.bind fun _ => Query.careful_pure _

theorem entry_calm {store : Store ι (Entry κ ν) μ} (calm : search.Calm blame store) :
    Query.Calm blame (Keyed.getEntry? search) store := by
  refine calm.bind fun found => ?_
  cases found with
  | none => exact Query.calm_pure none
  | some h => exact Query.Calm.read (Query.calm_pure _)

theorem get?_calm {store : Store ι (Entry κ ν) μ} (calm : search.Calm blame store) : (get? search).Calm blame store :=
  (entry_calm calm).bind fun _ => Query.calm_pure _

theorem index_calm {store : Store ι (Entry κ ν) μ} (container : Container) (calm : search.Calm blame store) :
    (index search container).Calm (fun fault => blame fault ∨ fault = .keyNotFound container) store := by
  intro gate lowered
  refine Ends.bind ((get?_calm calm gate lowered).faulting fun _ _ told => ⟨.inl told.1, told.2⟩) ?_
  intro value after lowered
  cases value with
  | none => exact ⟨.inr rfl, lowered⟩
  | some value => exact lowered

theorem stored_settles [Inhabited μ] [Index ι μ] [lawful : LawfulIndex ι μ]
    {promise : List (Entry κ ν × lawful.Memory) → Prop} {insertion : Update (Store ι (Entry κ ν) μ) ω (Handle × Bool)}
    {faults : Fault → Session (Store ι (Entry κ ν) μ) ω → Prop} (inserted : Ends insertion s
      (fun placed after => (∃ entry, after.store.get? placed.1 = some entry) ∧ Settled promise after) faults) :
    Ends (stored insertion) s (fun _ after => Settled promise after) faults := by
  rw [stored]
  refine Ends.bind inserted ?_
  intro placed after told
  obtain ⟨h, fresh⟩ := placed
  obtain ⟨⟨entry, held⟩, settled⟩ := told
  dsimp only
  rw [ends_bind, ends_get, Pool.value_of_get? held]
  exact settled

end Keyed

namespace KeyedAccess

variable [Inhabited μ] [Index ι μ] [lawful : LawfulIndex ι μ] {promise : List (Entry κ ν × lawful.Memory) → Prop}
  {blamed : Container} {access : KeyedAccess ι κ ν μ ω} {after : Session (Store ι (Entry κ ν) μ) ω} {fault : Fault}

-- What an index and a rule for keys must bring, beside what they bring to the set of entries.
structure Resilient (blame : Fault → Prop) (promise : List (Entry κ ν × lawful.Memory) → Prop) (blamed : Container)
    (access : KeyedAccess ι κ ν μ ω) : Prop where
  entries : access.entries.Resilient blame promise blamed
  find : ∀ (s : Session (Store ι (Entry κ ν) μ) ω) key, Settled promise s → (access.find key).Calm blame s.store
  fetch : ∀ s key make, make.Careful blame → Settled promise s →
    Ends (access.getOrInsertWith key make) s (fun _ after => Settled unpromised after)
      fun fault after => (blame fault ∨ ∃ error, fault = .growth blamed .insertWith error) ∧ Spared (Settled promise) s after

def Costs [Allocator ω] (access : KeyedAccess ι κ ν μ ω) (holds : Session (Store ι (Entry κ ν) μ) ω → Prop)
    (s after : Session (Store ι (Entry κ ν) μ) ω) (fault : Fault) : MapAction (Store ι (Entry κ ν) μ) κ ν ω → Prop
  | .entries action => access.entries.Costs holds s after fault action
  | .removeAll keys => ∃ done key left n middle, keys = done ++ key :: left ∧
    access.run (.removeAll done) s = .ok (.entries (.count n)) middle ∧
    access.run (.remove key) middle = .error fault after ∧ Spared holds middle after
  | .extract key _ ending => Spared holds s after ∨
    ending = .reinsert ∧ ∃ h found, Update.ask (access.find key) s = .ok (some h) found ∧ Loses holds h s after
  | _ => Spared holds s after

omit lawful in
theorem Costs.holds [Allocator ω] {holds : Session (Store ι (Entry κ ν) μ) ω → Prop}
    {action : MapAction (Store ι (Entry κ ν) μ) κ ν ω} (costs : access.Costs holds s after fault action) :
    holds after := by
  cases action with
  | entries action => exact Access.Costs.holds costs
  | removeAll keys =>
    obtain ⟨_, _, _, _, _, _, _, _, spared⟩ := costs
    exact spared.holds
  | extract key change ending =>
    rcases costs with spared | ⟨_, _, _, _, loses⟩
    · exact spared.holds
    · exact loses.holds
  | _ => exact Spared.holds costs

omit lawful in
theorem Costs.imp [Allocator ω] {holds holds' : Session (Store ι (Entry κ ν) μ) ω → Prop}
    {action : MapAction (Store ι (Entry κ ν) μ) κ ν ω} (weaker : ∀ after, holds after → holds' after)
    (costs : access.Costs holds s after fault action) : access.Costs holds' s after fault action := by
  cases action with
  | entries action => exact Access.Costs.imp weaker costs
  | removeAll keys =>
    obtain ⟨done, key, left, n, middle, split, before, stops, spared⟩ := costs
    exact ⟨done, key, left, n, middle, split, before, stops, spared.imp weaker⟩
  | extract key change ending =>
    rcases costs with spared | ⟨back, h, found, asked, loses⟩
    · exact .inl (spared.imp weaker)
    · exact .inr ⟨back, h, found, asked, loses.imp weaker⟩
  | _ => exact Spared.imp weaker costs

variable (resilient : access.Resilient blame promise blamed)
include resilient

theorem remove_resilient (settled : Settled promise s) (key : κ) :
    Ends (Keyed.remove (access.find key)) s (fun _ after => Settled promise after)
      fun fault after => blame fault ∧ Spared (Settled promise) s after := by
  rw [Keyed.remove, Keyed.removeEntry]
  have took := Access.take_resilient resilient.entries.inherited settled (resilient.find s key settled)
  exact Ends.bind (took.faulting fun _ _ told => told) fun _ _ settled => settled

theorem replace_resilient (settled : Settled promise s) (key : κ) (value : ν) :
    Ends (Keyed.replace (access.find key) (access.entries.insert ⟨key, value⟩) value) s
      (fun _ after => Settled unpromised after)
      fun fault after => (blame fault ∨ ∃ error, fault = .growth blamed .insert error) ∧ Spared (Settled promise) s after := by
  rw [Keyed.replace]
  refine Ends.bind (((resilient.find s key settled).asks settled.lowered).faulting ?_) ?_
  · exact fun _ after told => ⟨.inl told.1, .same settled told.2.1 told.2.2⟩
  · intro found middle told
    obtain ⟨same, lowered⟩ := told
    have settled' := settled.same same lowered
    cases found with
    | some h =>
      dsimp only
      rw [ends_bind, ends_get]
      exact (Access.modifyAt_settles settled' h _).bind fun _ _ settled => settled
    | none =>
      refine Ends.bind ((resilient.entries.insert middle ⟨key, value⟩ settled').faulting ?_) fun _ _ settled => settled.sound
      intro fault after told
      obtain ⟨blamed, settled, contents⟩ := told
      exact ⟨blamed, settled, by rw [contents, same]⟩

theorem extract_resilient [Allocator ω] (settled : Settled promise s) (key : κ) (change : Entry κ ν → Entry κ ν)
    (ending : Ending) :
    Ends (access.run (.extract key change ending)) s (fun _ after => Settled unpromised after)
      fun fault after => blame fault ∧ access.Costs (Settled promise) s after fault (.extract key change ending) := by
  rw [run, Keyed.extract, ends_bind, ends_bind]
  refine ((resilient.find s key settled).asks settled.lowered).known.imp ?_ ?_
  · intro found middle told
    obtain ⟨asked, same, lowered⟩ := told
    have settled' := settled.same same lowered
    cases found with
    | none => exact settled'.sound
    | some h =>
      have extracted := Access.extract_resilient resilient.entries settled' h change ending
      have costs : ∀ fault after, blame fault ∧ ending = .reinsert ∧ Loses (Settled promise) h middle after →
          blame fault ∧ access.Costs (Settled promise) s after fault (.extract key change ending) := by
        intro fault after told
        obtain ⟨blamed, back, loses⟩ := told
        obtain ⟨left, lost, gone, others⟩ := loses
        rw [same] at lost others
        exact ⟨blamed, .inr ⟨back, h, middle, asked, left, lost, gone, others⟩⟩
      rw [ends_bind] at extracted
      refine extracted.imp ?_ costs
      exact fun _ _ settling => Ends.bind (settling.faulting costs) fun _ _ settled => settled.sound
  · exact fun _ after told => ⟨told.1, .inl (.same settled told.2.1 told.2.2)⟩

theorem run_resilient [Allocator ω] (action : MapAction (Store ι (Entry κ ν) μ) κ ν ω) (fair : action.Fair blame)
    (settled : Settled promise s) :
    Ends (access.run action) s (fun _ after => Settled unpromised after) fun fault after =>
      (blame fault ∨ action.MayFault blamed access.container fault) ∧ access.Costs (Settled promise) s after fault action := by
  have asked : ∀ {γ δ : Type} {query : Query (Store ι (Entry κ ν) μ) ω γ} (answer : γ → δ), query.Calm blame s.store →
      Ends (do return answer (← Update.ask query)) s (fun _ after => Settled unpromised after)
        fun fault after => (blame fault ∨ False) ∧ Spared (Settled promise) s after :=
    fun answer calm => (Access.ask_resilient answer settled calm).faulting fun _ _ told => ⟨.inl told.1, told.2⟩
  cases action with
  | entries action =>
    exact Ends.bind ((Access.run_resilient resilient.entries action settled).faulting fun _ _ told => told)
      fun _ _ settled => settled
  | find key => exact asked _ (resilient.find s key settled)
  | containsKey key => exact asked _ (resilient.find s key settled)
  | get key => exact asked _ (Keyed.get?_calm (resilient.find s key settled))
  | getEntry key => exact asked _ (Keyed.entry_calm (resilient.find s key settled))
  | index key =>
    exact Access.ask_resilient _ settled (Keyed.index_calm access.container (resilient.find s key settled))
  | update key change =>
    rw [run, Keyed.update]
    refine Ends.bind (Ends.bind (((resilient.find s key settled).asks settled.lowered).faulting ?_) ?_) fun _ _ settled => settled
    · exact fun _ after told => ⟨.inl told.1, .same settled told.2.1 told.2.2⟩
    · intro found middle told
      have settled' := settled.same told.1 told.2
      cases found with
      | none => exact settled'.sound
      | some h => exact (Access.modifyAt_settles settled' h _).bind fun _ _ settled => settled
  | updateAt h change => exact (Access.modifyAt_settles settled h _).bind fun _ _ settled => settled
  | replace key value =>
    exact Ends.bind ((replace_resilient resilient settled key value).faulting fun _ _ told => told)
      fun _ _ settled => settled
  | fetch key make change =>
    refine Ends.bind ((resilient.fetch s key make fair settled).faulting fun _ _ told => told) ?_
    exact fun placed middle settled => (Access.modifyAt_settles settled placed.1 _).bind fun _ _ settled => settled
  | remove key =>
    refine Ends.bind ((remove_resilient resilient settled key).faulting ?_) fun _ _ settled => settled.sound
    exact fun _ _ told => ⟨.inl told.1, told.2⟩
  | removeEntry key =>
    have took := Access.take_resilient resilient.entries.inherited settled (resilient.find s key settled)
    exact Ends.bind (took.faulting fun _ _ told => ⟨.inl told.1, told.2⟩) fun _ _ settled => settled.sound
  | removeAll keys =>
    refine Ends.bind ((Access.takeEach_resilient (fun s key settled => remove_resilient resilient settled key) keys
      settled).faulting ?_) fun _ _ settled => settled.sound
    intro fault after told
    obtain ⟨blamed, done, key, left, n, middle, split, before, stops, spared⟩ := told
    refine ⟨.inl blamed, done, key, left, n, middle, split, ?_, ?_, spared⟩
    · rw [run, bind_ok before]
      rfl
    · rw [run]
      simp only [bind, EStateM.bind, stops]
  | extract key change ending =>
    exact (extract_resilient resilient settled key change ending).faulting fun _ _ told => ⟨.inl told.1, told.2⟩

end KeyedAccess
end Slotted
