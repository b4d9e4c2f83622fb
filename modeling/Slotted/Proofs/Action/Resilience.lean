import Slotted.Proofs.Action.Refinement
import Slotted.Proofs.Callers
namespace Slotted

open Store LawfulIndex

variable {ι α β γ μ ω : Type} [Inhabited μ] [Index ι μ] [lawful : LawfulIndex ι μ]
  {promise : List (α × lawful.Memory) → Prop}

-- All that is known of elements which callers change as they like.
def unpromised {β : Type} : List β → Prop := fun _ => True

namespace Store

theorem Settled.sound {s : Session (Store ι α μ) ω} (settled : Settled promise s) : Settled unpromised s := by
  obtain ⟨⟨t, proper⟩, lowered⟩ := settled
  exact ⟨⟨t, proper.sound, trivial⟩, lowered⟩

theorem Settled.same {s after : Session (Store ι α μ) ω} (settled : Settled promise s) (same : after.store = s.store)
    (lowered : after.gate.busy = false) : Settled promise after := by
  obtain ⟨proper, _⟩ := settled
  rw [← same] at proper
  exact ⟨proper, lowered⟩

-- No element is lost, none has come in, and what has to hold does.
structure Spared (holds : Session (Store ι α μ) ω → Prop) (s after : Session (Store ι α μ) ω) : Prop where
  holds : holds after
  contents : after.store.pool.contents = s.store.pool.contents

structure Loses (holds : Session (Store ι α μ) ω → Prop) (h : Handle) (s after : Session (Store ι α μ) ω) : Prop where
  holds : holds after
  lost : ∃ was, s.store.get? h = some was ∧ s.store.pool.contents = was ::ₘ after.store.pool.contents
  gone : after.store.get? h = none
  others : ∀ other, other ≠ h → after.store.get? other = s.store.get? other

namespace Spared

variable {s after : Session (Store ι α μ) ω}

theorem same (settled : Settled promise s) (same : after.store = s.store) (lowered : after.gate.busy = false) :
    Spared (Settled promise) s after := ⟨settled.same same lowered, by rw [same]⟩

theorem carried {t : lawful.Shape} (proper : Proper promise t s.store) (carries : ∃ ρ, Carries ρ t s.store after.store)
    (lowered : after.gate.busy = false) : Spared (Settled promise) s after := by
  obtain ⟨ρ, carries⟩ := carries
  exact ⟨⟨⟨_, proper.carries carries⟩, lowered⟩, carries.contents_eq proper.sound⟩

omit [Inhabited μ] [Index ι μ] lawful in
theorem imp {holds holds' : Session (Store ι α μ) ω → Prop} (weaker : ∀ after, holds after → holds' after)
    (spared : Spared holds s after) : Spared holds' s after := ⟨weaker _ spared.holds, spared.contents⟩

end Spared

omit [Inhabited μ] [Index ι μ] lawful in
theorem Loses.imp {holds holds' : Session (Store ι α μ) ω → Prop} {h : Handle} {s after : Session (Store ι α μ) ω}
    (weaker : ∀ after, holds after → holds' after) (loses : Loses holds h s after) : Loses holds' h s after :=
  { loses with holds := weaker _ loses.holds }

end Store

-- Insertions that have no other way to tell that memory was refused.
def SetAction.mayGrow (container : Container) : SetAction α → Fault → Prop
  | .insert _, fault | .extend _, fault => ∃ error, fault = .growth container .insert error
  | _, _ => False

namespace Access

variable {container : Container} {access : Access ι α μ ω} {blame : Fault → Prop} {s after : Session (Store ι α μ) ω}
  {fault : Fault}

-- What an index and a rule must bring: searches that change nothing, and insertions that only add.
structure Resilient (blame : Fault → Prop) (promise : List (α × lawful.Memory) → Prop) (container : Container)
    (access : Access ι α μ ω) : Prop where
  inherited : Inherited promise
  find : ∀ (s : Session (Store ι α μ) ω) value, Settled promise s → (access.find value).Calm blame s.store
  insert : ∀ s value, Settled promise s → Ends (access.insert value) s (fun _ after => Settled promise after)
    fun fault after => (blame fault ∨ ∃ error, fault = .growth container .insert error) ∧ Spared (Settled promise) s after
  tryInsert : ∀ s value, Settled promise s → Ends (access.tryInsert value) s (fun _ after => Settled promise after)
    fun fault after => blame fault ∧ Spared (Settled promise) s after
  reinsert : ∀ t i value s, Loose i value t s.store → promise (bodies t s.store) → s.gate.busy = false →
    Ends (access.reinsert ⟨i⟩) s (fun _ after => Settled promise after)
      fun fault after => blame fault ∧ after.store = s.store ∧ after.gate.busy = false
  walk : ∀ s strides, Settled promise s → Returns (access.walk strides) s fun _ after => after = s
  list : ∀ s, Settled promise s → Returns (Update.ask access.list) s fun _ after => after = s
  check : ∀ s : Session (Store ι α μ) ω, Settled promise s → access.check.Calm blame s.store

-- Actions made of several insertions or removals come to an end between two of them, and one made of a removal and an
-- insertion may end after the removal.
def Costs [Allocator ω] (access : Access ι α μ ω) (holds : Session (Store ι α μ) ω → Prop)
    (s after : Session (Store ι α μ) ω) (fault : Fault) : SetAction α → Prop
  | .extend values => ∃ done value left middle, values = done ++ value :: left ∧
    access.run (.extend done) s = .ok .done middle ∧ access.run (.insert value) middle = .error fault after ∧
    Spared holds middle after
  | .takeAll values => ∃ done value left n middle, values = done ++ value :: left ∧
    access.run (.takeAll done) s = .ok (.count n) middle ∧ access.run (.take value) middle = .error fault after ∧
    Spared holds middle after
  | .extract h _ ending => ending = .reinsert ∧ Loses holds h s after
  | .extractEqual value _ ending => Spared holds s after ∨
    ending = .reinsert ∧ ∃ h found, Update.ask (access.find value) s = .ok (some h) found ∧ Loses holds h s after
  | _ => Spared holds s after

omit lawful in
theorem Costs.holds [Allocator ω] {holds : Session (Store ι α μ) ω → Prop} {action : SetAction α}
    (costs : access.Costs holds s after fault action) : holds after := by
  cases action with
  | extend values =>
    obtain ⟨_, _, _, _, _, _, _, spared⟩ := costs
    exact spared.holds
  | takeAll values =>
    obtain ⟨_, _, _, _, _, _, _, _, spared⟩ := costs
    exact spared.holds
  | extract h change ending => exact costs.2.holds
  | extractEqual value change ending =>
    rcases costs with spared | ⟨_, _, _, _, loses⟩
    · exact spared.holds
    · exact loses.holds
  | _ => exact Spared.holds costs

omit lawful in
theorem Costs.imp [Allocator ω] {holds holds' : Session (Store ι α μ) ω → Prop} {action : SetAction α}
    (weaker : ∀ after, holds after → holds' after) (costs : access.Costs holds s after fault action) :
    access.Costs holds' s after fault action := by
  cases action with
  | extend values =>
    obtain ⟨done, value, left, middle, split, before, stops, spared⟩ := costs
    exact ⟨done, value, left, middle, split, before, stops, spared.imp weaker⟩
  | takeAll values =>
    obtain ⟨done, value, left, n, middle, split, before, stops, spared⟩ := costs
    exact ⟨done, value, left, n, middle, split, before, stops, spared.imp weaker⟩
  | extract h change ending => exact ⟨costs.1, costs.2.imp weaker⟩
  | extractEqual value change ending =>
    rcases costs with spared | ⟨back, h, found, asked, loses⟩
    · exact .inl (spared.imp weaker)
    · exact .inr ⟨back, h, found, asked, loses.imp weaker⟩
  | _ => exact Spared.imp weaker costs

theorem remove_settles (inherited : Inherited promise) (settled : Settled promise s) (h : Handle) :
    Returns (Update.edit (Store.remove h)) s fun _ after => Settled promise after := by
  obtain ⟨⟨t, proper⟩, lowered⟩ := id settled
  rw [Returns, Update.ends_edit]
  cases held : s.store.get? h with
  | none => exact Ends.of_ok (remove_none held proper.sound) settled
  | some value =>
    refine (remove_returns proper.sound held).ends ?_
    intro _ after told
    obtain ⟨_, rest, parts⟩ := told
    exact ⟨⟨rest, proper.parts inherited parts⟩, lowered⟩

theorem take_resilient {search : Query (Store ι α μ) ω (Option Handle)} (inherited : Inherited promise)
    (settled : Settled promise s) (calm : search.Calm blame s.store) :
    Ends (Store.take search) s (fun _ after => Settled promise after)
      fun fault after => blame fault ∧ Spared (Settled promise) s after := by
  rw [Store.take]
  refine Ends.bind ((calm.asks settled.lowered).faulting ?_) ?_
  · exact fun _ after told => ⟨told.1, .same settled told.2.1 told.2.2⟩
  · intro found middle told
    have settled' := settled.same told.1 told.2
    cases found with
    | none => exact settled'
    | some h => exact (remove_settles inherited settled' h).ends fun _ _ left => left

theorem modifyAt_settles (settled : Settled promise s) (h : Handle) (change : α → α) :
    Returns (Update.edit (Store.modifyAt h change)) s fun _ after => Settled unpromised after := by
  obtain ⟨⟨t, proper⟩, lowered⟩ := id settled
  rw [Returns, Update.ends_edit]
  cases held : s.store.get? h with
  | none => exact Ends.of_ok (modifyAt_none held change) settled.sound
  | some value =>
    obtain ⟨after, ran, sound, _⟩ := modifyAt_run proper.sound held fun _ => change
    exact Ends.of_ok ran ⟨⟨t, sound, trivial⟩, lowered⟩

theorem ask_resilient {γ δ : Type} {query : Query (Store ι α μ) ω γ} (answer : γ → δ) (settled : Settled promise s)
    (calm : query.Calm blame s.store) : Ends (do return answer (← Update.ask query)) s (fun _ after => Settled unpromised after)
      fun fault after => blame fault ∧ Spared (Settled promise) s after := by
  refine Ends.bind ((calm.asks settled.lowered).faulting fun _ after told => ?_) ?_
  · exact ⟨told.1, .same settled told.2.1 told.2.2⟩
  · exact fun _ after told => settled.sound.same told.1 told.2

theorem takeEach_resilient {take : β → Update (Store ι α μ) ω (Option γ)}
    (takes : ∀ s value, Settled promise s → Ends (take value) s (fun _ after => Settled promise after)
      fun fault after => blame fault ∧ Spared (Settled promise) s after)
    (values : List β) (settled : Settled promise s) :
    Ends (takeEach take values) s (fun _ after => Settled promise after) fun fault after => blame fault ∧
      ∃ done value left n middle, values = done ++ value :: left ∧ takeEach take done s = .ok n middle ∧
        take value middle = .error fault after ∧ Spared (Settled promise) middle after := by
  induction values generalizing s with
  | nil => exact settled
  | cons value values ih =>
    have first := takes s value settled
    rw [takeEach]
    cases ran : take value s with
    | error fault after =>
      have told := first.faulted ran
      rw [ends_bind]
      exact Ends.of_error ran ⟨told.1, [], value, values, 0, s, rfl, rfl, ran, told.2⟩
    | ok taken middle =>
      rw [ends_bind]
      refine Ends.of_ok ran ?_
      rw [ends_bind]
      refine (ih (first.returned ran)).imp (fun _ _ settled => settled) ?_
      intro fault after told
      obtain ⟨blamed, done, refused, left, n, stopped, rfl, before, stops, spared⟩ := told
      refine ⟨blamed, value :: done, refused, left, (if taken.isSome then 1 else 0) + n, stopped, rfl, ?_, stops, spared⟩
      rw [takeEach, bind_ok ran, bind_ok before]
      rfl

section Resilient

variable (resilient : access.Resilient blame promise container)
include resilient

theorem extend_resilient (values : List α) (settled : Settled promise s) :
    Ends (values.forM fun value => do let _ ← access.insert value) s (fun _ after => Settled promise after)
      fun fault after => (blame fault ∨ ∃ error, fault = .growth container .insert error) ∧
        ∃ done value left middle, values = done ++ value :: left ∧
          (done.forM fun value => do let _ ← access.insert value) s = .ok () middle ∧
          access.insert value middle = .error fault after ∧ Spared (Settled promise) middle after := by
  induction values generalizing s with
  | nil => exact settled
  | cons value values ih =>
    have first := resilient.insert s value settled
    change Ends ((do let _ ← access.insert value) >>= fun _ => values.forM fun value => do
      let _ ← access.insert value) s _ _
    rw [ends_bind, ends_bind]
    cases ran : access.insert value s with
    | error fault after =>
      have told := first.faulted ran
      exact Ends.of_error ran ⟨told.1, [], value, values, s, rfl, rfl, ran, told.2⟩
    | ok placed middle =>
      refine Ends.of_ok ran ?_
      rw [ends_pure]
      refine (ih (first.returned ran)).imp (fun _ _ settled => settled) ?_
      intro fault after told
      obtain ⟨blamed, done, refused, left, stopped, rfl, before, stops, spared⟩ := told
      refine ⟨blamed, value :: done, refused, left, stopped, rfl, ?_, stops, spared⟩
      change ((do let _ ← access.insert value) >>= fun _ => done.forM fun value => do
        let _ ← access.insert value) s = _
      have once : (do let _ ← access.insert value : Update (Store ι α μ) ω Unit) s = .ok () middle := bind_ok ran _
      rw [bind_ok once]
      exact before

-- Only putting the element back asks the callers' code once more.
theorem extract_resilient (settled : Settled promise s) (h : Handle) (change : α → α) (ending : Ending) :
    Ends (do access.settle change ending (← Update.edit (Store.extract h))) s (fun _ after => Settled promise after)
      fun fault after => blame fault ∧ ending = .reinsert ∧ Loses (Settled promise) h s after := by
  obtain ⟨⟨t, proper⟩, lowered⟩ := id settled
  cases held : s.store.get? h with
  | none => exact Ends.of_ok (extract_absent settled held change ending) settled
  | some value =>
    rw [ends_bind, Update.ends_edit]
    refine (extract_returns proper.sound held).ends ?_
    intro _ out told
    obtain ⟨rfl, rest, parts, loose⟩ := told
    obtain ⟨changed, ran, loose', still⟩ := loose.modify_run change
    have left : Proper promise rest changed := (proper.parts resilient.inherited parts).same_live loose'.sound still
    rw [settle, ends_bind, ends_get, loose.value_eq, ends_bind, ends_lift, ends_bind, Update.ends_edit]
    refine Ends.of_ok ran ?_
    rw [ends_bind]
    have stay : ∀ {after : Store ι α μ}, Sound rest after → Pool.SameLive changed.pool after.pool →
        Settled promise ⟨after, s.gate⟩ := fun sound same => ⟨⟨rest, left.same_live sound same⟩, lowered⟩
    cases ending with
    | reinsert =>
      refine Ends.bind ((resilient.reinsert rest h.index (change value) ⟨changed, s.gate⟩ loose' left.body lowered).imp
        (fun _ _ settled => settled) ?_) fun _ _ settled => settled
      intro fault after told
      obtain ⟨blamed, same, lowered'⟩ := told
      refine ⟨blamed, rfl, ⟨⟨rest, same.symm ▸ left⟩, lowered'⟩, ⟨value, held, ?_⟩, ?_, ?_⟩
      · rw [same, parts.contents_eq proper.sound held]
        exact congrArg (fun entries => value ::ₘ (entries.map (·.2) : Multiset α)) still.entries_eq.symm
      · rw [same]
        exact (still.get? h.index).trans (parts.gone proper.sound)
      · intro other apart
        rw [same]
        exact (still.get? other.index).trans (parts.held other.index fun equal => apart (Handle.ext_index equal))
    | release =>
      obtain ⟨after, done, sound, same⟩ := loose'.release_run
      rw [finish, ends_bind, Update.ends_edit]
      exact Ends.of_ok done (stay sound same)
    | drop =>
      obtain ⟨after, done, sound, same⟩ := loose'.drop_run
      rw [finish, ends_bind, Update.ends_edit]
      exact Ends.of_ok done (stay sound same)
    | peek =>
      obtain ⟨after, done, sound, same⟩ := loose'.drop_run
      rw [finish, ends_bind, ends_get, loose'.value_eq, ends_bind, ends_lift, ends_bind, Update.ends_edit]
      exact Ends.of_ok done (stay sound same)

theorem extend_costs [Allocator ω] (values : List α) (settled : Settled promise s) :
    Ends (values.forM fun value => do let _ ← access.insert value) s (fun _ after => Settled promise after)
      fun fault after => (blame fault ∨ ∃ error, fault = .growth container .insert error) ∧
        access.Costs (Settled promise) s after fault (.extend values) := by
  refine (extend_resilient resilient values settled).faulting ?_
  intro fault after told
  obtain ⟨blamed, done, value, left, middle, split, before, stops, spared⟩ := told
  refine ⟨blamed, done, value, left, middle, split, ?_, ?_, spared⟩
  · rw [run, bind_ok before]
    rfl
  · rw [run]
    simp only [bind, EStateM.bind, stops]

theorem run_resilient [Allocator ω] (action : SetAction α) (settled : Settled promise s) :
    Ends (access.run action) s (fun _ after => Settled unpromised after) fun fault after =>
      (blame fault ∨ action.mayGrow container fault) ∧ access.Costs (Settled promise) s after fault action := by
  obtain ⟨⟨t, proper⟩, lowered⟩ := id settled
  have moved : ∀ {after : Session (Store ι α μ) ω} {ρ : Nat → Nat}, Carries ρ t s.store after.store →
      after.gate.busy = s.gate.busy → Settled unpromised after :=
    fun carries flag => (carried proper carries (flag.trans lowered)).2.sound
  cases action with
  | insert value =>
    refine Ends.bind ((resilient.insert s value settled).faulting fun _ _ told => told) ?_
    exact fun _ after settled => settled.sound
  | tryInsert value =>
    refine Ends.bind ((resilient.tryInsert s value settled).faulting fun _ _ told => ⟨.inl told.1, told.2⟩) ?_
    intro answer after settled
    cases answer <;> exact settled.sound
  | extend values =>
    exact Ends.bind ((extend_costs resilient values settled).faulting fun _ _ told => told) fun _ _ settled => settled.sound
  | find value =>
    exact (ask_resilient _ settled (resilient.find s value settled)).faulting fun _ _ told => ⟨.inl told.1, told.2⟩
  | contains value =>
    exact (ask_resilient _ settled (resilient.find s value settled)).faulting fun _ _ told => ⟨.inl told.1, told.2⟩
  | get h => exact settled.sound
  | change h change => exact (modifyAt_settles settled h change).bind fun _ _ settled => settled
  | handleOf h =>
    rw [run, ends_bind, ends_get]
    unfold lend
    cases held : s.store.get? h with
    | none => exact settled.sound
    | some value =>
      dsimp only [Option.map_some]
      rw [ends_bind, ends_get, handleOf_lent held, ends_bind, ends_lift]
      exact settled.sound
  | handleOfOther value => exact settled.sound
  | remove h =>
    exact (remove_settles resilient.inherited settled h).bind fun _ _ settled => settled.sound
  | take value =>
    refine Ends.bind ((take_resilient resilient.inherited settled (resilient.find s value settled)).faulting ?_) fun _ _ settled => settled.sound
    exact fun _ _ told => ⟨.inl told.1, told.2⟩
  | takeAll values =>
    refine Ends.bind ((takeEach_resilient (fun s value settled => take_resilient resilient.inherited settled
      (resilient.find s value settled)) values settled).faulting ?_) fun _ _ settled => settled.sound
    intro fault after told
    obtain ⟨blamed, done, value, left, n, middle, split, before, stops, spared⟩ := told
    refine ⟨.inl blamed, done, value, left, n, middle, split, ?_, ?_, spared⟩
    · rw [run, bind_ok before]
      rfl
    · rw [run]
      simp only [bind, EStateM.bind, stops]
  | extract h change ending =>
    refine (extract_resilient resilient settled h change ending).imp (fun _ _ settled => settled.sound) ?_
    exact fun _ _ told => ⟨.inl told.1, told.2⟩
  | extractEqual value change ending =>
    rw [run]
    refine Ends.bind (((resilient.find s value settled).asks lowered).known.faulting ?_) ?_
    · exact fun _ after told => ⟨.inl told.1, .inl (.same settled told.2.1 told.2.2)⟩
    · intro found middle told
      obtain ⟨ran, same, lowered'⟩ := told
      have settled' := settled.same same lowered'
      cases found with
      | none => exact settled'.sound
      | some h =>
        refine (extract_resilient resilient settled' h change ending).imp (fun _ _ settled => settled.sound) ?_
        intro fault after told
        obtain ⟨blamed, back, loses⟩ := told
        obtain ⟨left, lost, gone, others⟩ := loses
        rw [same] at lost others
        exact ⟨.inl blamed, .inr ⟨back, h, middle, ran, left, lost, gone, others⟩⟩
  | walk strides => exact (resilient.walk s strides settled).bind fun _ after same => by rw [same]; exact settled.sound
  | list => exact (resilient.list s settled).bind fun _ after same => by rw [same]; exact settled.sound
  | isEmpty => exact settled.sound
  | check =>
    exact (ask_resilient _ settled (resilient.check s settled)).faulting fun _ _ told => ⟨.inl told.1, told.2⟩
  | reorder =>
    refine (reorder_edit proper.sound).bind ?_
    intro _ after told
    obtain ⟨⟨ρ, carries⟩, _, _, gate⟩ := told
    exact moved carries (by rw [gate])
  | clear =>
    obtain ⟨bare, _, sound⟩ := proper.sound.clear
    exact ⟨⟨bare, sound, trivial⟩, lowered⟩
  | resize capacity =>
    refine (resize_returns proper.sound capacity).bind ?_
    intro answer after told
    obtain ⟨⟨ρ, carries⟩, _, flag⟩ := told
    exact moved carries flag
  | reserve additional =>
    refine (reserve_returns proper.sound additional).bind ?_
    intro answer after told
    obtain ⟨⟨ρ, carries⟩, flag⟩ := told
    exact moved carries flag

theorem ofArray_resilient [Allocator ω] (collecting : Container) (values : List α) (settled : Settled promise s) :
    Ends (do
        if let .error error := ← Store.reserve values.length then throw (.growth collecting .ofArray error)
        values.forM fun value => do let _ ← access.insert value) s
      (fun _ after => Settled promise after)
      fun fault after => (blame fault ∨ (∃ error, fault = .growth collecting .ofArray error) ∨
          ∃ error, fault = .growth container .insert error) ∧
        ∃ answer middle, Store.reserve values.length s = .ok answer middle ∧ Spared (Settled promise) s middle ∧
          (after = middle ∨ access.Costs (Settled promise) middle after fault (.extend values)) := by
  obtain ⟨⟨t, proper⟩, lowered⟩ := id settled
  refine Ends.bind ((reserve_returns proper.sound values.length).known.faulting fun _ _ => False.elim) ?_
  intro answer middle told
  obtain ⟨ran, carries, flag⟩ := told
  have spared : Spared (Settled promise) s middle := .carried proper carries (flag.trans lowered)
  cases answer with
  | error error => exact ⟨.inr (.inl ⟨error, rfl⟩), _, middle, ran, spared, .inl rfl⟩
  | ok _ =>
    refine (extend_costs resilient values spared.holds).faulting ?_
    intro fault after told
    obtain ⟨blamed, costs⟩ := told
    exact ⟨blamed.imp id .inr, _, middle, ran, spared, .inr costs⟩

end Resilient
end Access
end Slotted
