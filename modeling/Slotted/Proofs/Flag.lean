import Slotted.Proofs.Callers
import Slotted.Proofs.Inward
namespace Slotted

variable {α κ β γ ι μ ω : Type} {blame : Fault → Prop}

theorem Fault.Internal.not_busy {fault : Fault} (internal : fault.Internal) : fault ≠ .busy := by
  intro same
  subst same
  exact internal

namespace Query

-- Code of the callers' own: it is shown the container and has a world to itself.
def own (f : κ → ω → Except Fault β × ω) : Query κ ω β := fun store gate =>
  match f store gate.world with
  | (.ok value, world) => .ok value { gate with world := world }
  | (.error fault, world) => .error fault { gate with world := world }

-- Code that may do so, may look things up in the same container, with such code again for a rule, and may catch faults and
-- go on.
inductive Guest : {β : Type} → Query κ ω β → Prop where
  | own {β : Type} (f : κ → ω → Except Fault β × ω) : Guest (own f)
  | bind {β γ : Type} {first : Query κ ω γ} {rest : γ → Query κ ω β} :
    Guest first → (∀ value, Guest (rest value)) → Guest (first >>= rest)
  | catching {β : Type} {query : Query κ ω β} {handler : Fault → Query κ ω β} :
    Guest query → (∀ fault, Guest (handler fault)) → Guest (tryCatch query handler)
  | guarded {β : Type} {query : Query κ ω β} : Guest query → Guest query.guarded

-- Code that keeps away from the container's lookups.
def Aloof (query : Query κ ω β) : Prop := ∃ f, query = own f ∧ ∀ store world, (f store world).1 ≠ .error .busy

theorem own_run (f : κ → ω → Except Fault β × ω) (store : κ) (gate : Gate ω) :
    Ends (own f store) gate (fun value after => after.busy = gate.busy ∧ (f store gate.world).1 = .ok value)
      fun fault after => after.busy = gate.busy ∧ (f store gate.world).1 = .error fault := by
  unfold Ends own
  obtain ⟨answer, world⟩ := f store gate.world
  cases answer <;> exact ⟨rfl, rfl⟩

theorem tryCatch_run (query : Query κ ω β) (handler : Fault → Query κ ω β) (store : κ) (gate : Gate ω) :
    (tryCatch query handler : Query κ ω β) store gate = match query store gate with
      | .ok value after => .ok value after
      | .error fault after => handler fault store after := by
  change EStateM.tryCatch (query store) (fun fault => handler fault store) gate = _
  unfold EStateM.tryCatch
  cases query store gate <;> rfl

theorem pure_own (value : β) : (pure value : Query κ ω β) = own fun _ world => (.ok value, world) := rfl

theorem read_own : (read : Query κ ω κ) = own fun store world => (.ok store, world) := rfl

theorem throw_own (fault : Fault) : (throw fault : Query κ ω β) = own fun _ world => (.error fault, world) := rfl

theorem guest_stepwise : Stepwise fun (query _ : Query κ ω _) => query.Guest :=
  ⟨fun value => pure_own value ▸ .own _, read_own ▸ .own _, fun _ => throw_own _ ▸ .own _, Guest.bind⟩

theorem guest_encloses : Encloses (fun (query _ : Query κ ω _) => query.Guest) fun query _ => query.Guest :=
  ⟨guest_stepwise, guest_stepwise, Guest.guarded⟩

theorem Careful.catching {query : Query κ ω β} {handler : Fault → Query κ ω β} (careful : query.Careful blame)
    (handled : ∀ fault, (handler fault).Careful blame) : (tryCatch query handler : Query κ ω β).Careful blame := by
  intro store gate
  have ends := careful store gate
  unfold Ends at ends ⊢
  rw [tryCatch_run]
  cases ran : query store gate with
  | ok value after =>
    rw [ran] at ends
    exact ends
  | error fault after =>
    rw [ran] at ends
    have later := handled fault store after
    rw [ends.2] at later
    exact later

theorem Guest.careful {query : Query κ ω β} (guest : query.Guest) : query.Careful fun _ => True := by
  induction guest with
  | own f => exact fun store gate => (own_run f store gate).imp (fun _ _ told => told.1) fun _ _ told => ⟨trivial, told.1⟩
  | bind _ _ first further => exact first.bind further
  | catching _ _ careful handled => exact careful.catching handled
  | guarded _ _ =>
    rename_i query _ _
    intro store gate
    have kept := query.guarded_keeps_flag store gate
    unfold Ends
    split
    · rename_i ran
      rwa [ran] at kept
    · rename_i ran
      rw [ran] at kept
      exact ⟨trivial, kept⟩

theorem Aloof.careful {query : Query κ ω β} (aloof : query.Aloof) : query.Careful (· ≠ .busy) := by
  obtain ⟨f, rfl, apart⟩ := aloof
  intro store gate
  refine (own_run f store gate).imp (fun _ _ told => told.1) ?_
  intro fault after told
  refine ⟨?_, told.1⟩
  rintro rfl
  exact apart store gate.world told.2

theorem Aloof.guest {query : Query κ ω β} (aloof : query.Aloof) : query.Guest := by
  obtain ⟨f, rfl, _⟩ := aloof
  exact .own f

theorem aloof_pure (value : β) : (pure value : Query κ ω β).Aloof :=
  ⟨fun _ world => (.ok value, world), rfl, fun _ _ same => by cases same⟩

abbrev Lowers (blame : Fault → Prop) (query : Query κ ω β) : Prop := ∀ store, query.Calm blame store

theorem Careful.guarded {query : Query κ ω β} (careful : query.Careful blame) : query.guarded.Lowers blame := by
  intro store gate lowered
  have ends := careful store { gate with busy := true }
  unfold Ends at ends ⊢
  unfold Query.guarded
  rw [if_neg (by simp [lowered])]
  cases ran : query store { gate with busy := true } with
  | ok value after => rfl
  | error fault after =>
    rw [ran] at ends
    exact ⟨ends.1, rfl⟩

theorem Careful.lowers {query : Query κ ω β} (careful : query.Careful blame) : query.Lowers blame := careful.calm

section Free

variable (free : ∀ fault, fault ≠ .busy → blame fault)
include free

theorem careful_stepwise : Stepwise fun (query _ : Query κ ω _) => query.Careful blame :=
  ⟨careful_pure, fun _ _ => Ends.of_ok rfl rfl, fun internal _ _ => Ends.of_error rfl ⟨free _ internal.not_busy, rfl⟩,
    Careful.bind⟩

theorem lowers_stepwise : Stepwise fun (query _ : Query κ ω _) => query.Lowers blame :=
  have careful := careful_stepwise free
  ⟨fun value => (careful.pure value).lowers, careful.read.lowers, fun internal => (careful.throw internal).lowers,
    fun lowers further store => (lowers store).bind fun value => further value store⟩

theorem careful_encloses : Encloses (fun (query _ : Query κ ω _) => query.Careful blame) fun query _ => query.Lowers blame :=
  ⟨careful_stepwise free, lowers_stepwise free, Careful.guarded⟩

end Free
end Query

namespace Update

-- Begun while the flag is down, it ends with the flag down, and in no fault but these.
def Clears (blame : Fault → Prop) (update : Update κ ω β) : Prop := ∀ s : Session κ ω, s.gate.busy = false →
  Ends update s (fun _ after => after.gate.busy = false) fun fault after => blame fault ∧ after.gate.busy = false

namespace Clears

theorem pure (value : β) : Clears blame (Pure.pure value : Update κ ω β) := fun _ lowered => lowered

theorem get : Clears blame (MonadState.get : Update κ ω (Session κ ω)) := fun _ lowered => lowered

theorem bind {first : Update κ ω γ} {rest : γ → Update κ ω β} (clears : Clears blame first)
    (further : ∀ value, Clears blame (rest value)) : Clears blame (first >>= rest) :=
  fun s lowered => Ends.bind (clears s lowered) fun value after lowered => further value after lowered

theorem ask {query : Query κ ω β} (lowers : query.Lowers blame) : Clears blame (Update.ask query) := by
  intro s lowered
  exact ((lowers s.store).asks lowered).imp (fun _ _ told => told.2) fun _ _ told => ⟨told.1, told.2.2⟩

theorem each {program : γ → Update κ ω PUnit} (one : ∀ value, Clears blame (program value)) (values : List γ) :
    Clears blame (values.forM program) := by
  induction values with
  | nil => exact .pure _
  | cons value values ih => exact (one value).bind fun _ => ih

theorem guarded {update : Update κ ω β}
    (ends : ∀ s, s.gate.busy = true → Ends update s (fun _ _ => True) fun fault _ => blame fault) :
    Clears blame update.guarded := by
  intro s lowered
  refine ends_guarded update (fun raised => by simp [lowered] at raised) fun _ => ?_
  exact (ends ⟨s.store, { s.gate with busy := true }⟩ rfl).imp (fun _ _ _ => rfl) fun _ _ told => ⟨told, rfl⟩

section Free

variable (free : ∀ fault, fault ≠ .busy → blame fault)
include free

theorem throw {fault : Fault} (apart : fault ≠ .busy) : Clears blame (MonadExcept.throw fault : Update κ ω β) :=
  fun _ lowered => ⟨free fault apart, lowered⟩

theorem throw_bind {fault : Fault} (apart : fault ≠ .busy) (rest : γ → Update κ ω β) :
    Clears blame (MonadExcept.throw fault >>= rest) := fun _ lowered => ⟨free fault apart, lowered⟩

theorem lift {read : Except Fault β} (inside : LooksInside read) : Clears blame (liftM read : Update κ ω β) := by
  intro s lowered
  cases read with
  | ok value => exact lowered
  | error fault => exact ⟨free fault (inside fault rfl).not_busy, lowered⟩

theorem edit {change : Edit κ β} (inward : Inward change) : Clears blame (Update.edit change : Update κ ω β) := by
  intro s lowered
  rw [ends_edit]
  exact (inward s.store).imp (fun _ _ _ => lowered) fun fault _ internal => ⟨free fault internal.not_busy, lowered⟩

theorem ofIndex (i : Nat) (answer : Handle → β) :
    Clears blame (do return answer (← Handle.ofIndex i) : Update κ ω β) :=
  (lift free (Handle.ofIndex_looksInside i)).bind fun _ => .pure _

end Free
end Clears
end Update

end Slotted
