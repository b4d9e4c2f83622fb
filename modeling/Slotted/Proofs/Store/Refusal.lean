import Slotted.Proofs.Stepwise
import Slotted.Proofs.Store.Moves
import Slotted.Proofs.Store.Standing
import Slotted.Proofs.Store.Upkeep
namespace Slotted

variable {σ β γ : Type}

-- A program whose faults are broken promises of the container's own.
def Inward (program : EStateM Fault σ β) : Prop := ∀ s, Ends program s (fun _ _ => True) fun fault _ => fault.Internal

namespace Inward

theorem pure (value : β) : Inward (Pure.pure value : EStateM Fault σ β) := fun _ => trivial

theorem get : Inward (MonadState.get : EStateM Fault σ σ) := fun _ => trivial

theorem modify (f : σ → σ) : Inward (modify f : EStateM Fault σ PUnit) := fun _ => trivial

theorem lift {read : Except Fault β} (inside : LooksInside read) : Inward (liftM read : EStateM Fault σ β) := by
  intro s
  cases read with
  | ok value => trivial
  | error fault => exact inside fault rfl

theorem bind {program : EStateM Fault σ γ} {rest : γ → EStateM Fault σ β} (first : Inward program)
    (second : ∀ value, Inward (rest value)) : Inward (program >>= rest) :=
  fun s => Ends.bind (first s) fun value middle _ => second value middle

theorem edit {κ ω : Type} {change : Edit κ β} (inward : Inward change) : Inward (Update.edit change : Update κ ω β) := by
  intro s
  rw [Update.ends_edit]
  exact inward s.store

theorem avoids {program : EStateM Fault σ β} (inward : Inward program) {fault : Fault} (outer : ¬ fault.Internal) (s : σ)
    {blamed : σ → Prop} : Ends program s (fun _ _ => True) fun raised after => raised = fault → blamed after :=
  (inward s).faulting fun _ _ internal same => absurd (same ▸ internal) outer

end Inward

theorem Handle.ofIndex_looksInside (i : Nat) : LooksInside (Handle.ofIndex i) := by
  unfold Handle.ofIndex
  split
  · exact looksInside_ok _
  · exact looksInside_error trivial

theorem Pool.value_looksInside {α μ : Type} (p : Pool α μ) (i : Nat) : LooksInside (p.value i) := by
  unfold Pool.value
  split
  · exact looksInside_ok _
  · exact looksInside_error trivial
  · exact looksInside_error trivial

theorem Pool.tombstones_looksInside {α μ : Type} (p : Pool α μ) : LooksInside p.tombstones := by
  unfold Pool.tombstones
  split
  · exact looksInside_ok _
  · exact looksInside_error trivial

namespace Query

variable {κ ω : Type} {fault : Fault}

def Never (fault : Fault) (query : Query κ ω β) : Prop := ∀ store gate after, query store gate ≠ .error fault after

theorem never_pure (value : β) : Never fault (pure value : Query κ ω β) := fun _ _ _ ran => by cases ran

theorem never_read : Never fault (read : Query κ ω κ) := fun _ _ _ ran => by cases ran

theorem never_throw {other : Fault} (apart : other ≠ fault) : Never fault (throw other : Query κ ω β) := by
  intro store gate after ran
  cases ran
  exact apart rfl

theorem Never.bind {first : Query κ ω γ} {rest : γ → Query κ ω β} (never : first.Never fault)
    (further : ∀ value, (rest value).Never fault) : (first >>= rest).Never fault := by
  intro store gate after ran
  rw [bind_run] at ran
  cases begun : first store gate with
  | ok value middle =>
    rw [begun] at ran
    exact further value store middle after ran
  | error other middle =>
    rw [begun] at ran
    cases ran
    exact never store gate after begun

theorem Never.guarded {query : Query κ ω β} (never : query.Never fault) (free : fault ≠ .busy) : query.guarded.Never fault := by
  intro store gate after ran
  unfold Query.guarded at ran
  split at ran
  · cases ran
    exact free rfl
  · cases begun : query store { gate with busy := true } with
    | ok value middle =>
      rw [begun] at ran
      cases ran
    | error other middle =>
      rw [begun] at ran
      cases ran
      exact never _ _ _ begun

theorem never_stepwise (outer : ¬ fault.Internal) : Stepwise fun (query _ : Query κ ω _) => query.Never fault :=
  ⟨never_pure, never_read, fun internal => never_throw fun same => outer (same ▸ internal), Never.bind⟩

theorem never_encloses (outer : ¬ fault.Internal) (free : fault ≠ .busy) :
    Encloses (fun (query _ : Query κ ω _) => query.Never fault) fun query _ => query.Never fault :=
  ⟨never_stepwise outer, never_stepwise outer, fun never => never.guarded free⟩

theorem Never.avoids {query : Query κ ω β} (never : query.Never fault) (s : Session κ ω) {blamed : Session κ ω → Prop} :
    Ends (Update.ask query) s (fun value after => Update.ask query s = .ok value after) fun raised after =>
      raised = fault → blamed after := by
  rw [Update.ends_ask]
  unfold Ends
  cases ran : query s.store s.gate with
  | ok value after => simp [Update.ask, ran]
  | error other after =>
    intro same
    subst same
    exact absurd ran (never _ _ _)

end Query

namespace Store

open LawfulIndex

variable {ι α μ ω : Type}

structure Packs (s after : Store ι α μ) : Prop where
  contents : after.pool.contents = s.pool.contents
  count : after.pool.count = s.pool.count
  capacity : after.pool.capacity = s.pool.capacity
  dense : after.pool.next = s.pool.count + 1

theorem Packs.allows {s after : Store ι α μ} (packs : Packs s after) {capacity : Nat} (enough : s.pool.count ≤ capacity)
    (limited : capacity ≤ maxCapacity) : after.pool.refusal (slotsFor capacity) = none := by
  have within : after.pool.slots.size ≤ after.pool.next := Nat.le_max_left _ _
  have count := packs.count
  have dense := packs.dense
  unfold Pool.refusal slotsFor
  split
  · rename_i none
    rw [if_neg (by omega), if_neg (by omega), if_neg]
    simp
    omega
  · rw [if_neg (by omega), if_neg (by omega), if_neg]
    simp
    omega

variable [Inhabited μ]

omit [Inhabited μ] in
theorem push_inward (value : α) (link : μ) : Inward (onPool (Pool.push value link) : Edit (Store ι α μ) Nat) := by
  intro s
  rw [ends_onPool, Ends, Pool.push]
  by_cases bare : s.pool.slots.isEmpty
  · rw [if_pos bare]
    trivial
  · rw [if_neg bare]
    by_cases full : s.pool.isFull
    · rw [if_pos full]
      trivial
    · rw [if_neg full]
      trivial

theorem Relinks.inward {program : Edit (Store ι α μ) β} (relinks : Relinks program) : Inward program :=
  fun s => (relinks s).imp (fun _ _ _ => trivial) fun _ _ told => told.1

variable [Index ι μ] [FittingIndex ι μ]

theorem closeGaps_inward (lo hi : Nat) : Inward (closeGaps Index.moved lo hi : Edit (Store ι α μ) Unit) := by
  have closing : Closing (ι := ι) (α := α) Index.moved (fun _ _ _ => True) fun fault _ => fault.Internal := by
    refine ⟨fun _ _ _ => trivial, fun _ _ _ _ => trivial, fun {lo hi s} _ _ _ _ => ?_⟩
    exact Inward.bind (.modify _) (fun _ => (LinkingIndex.moved hi lo).inward) s
  exact fun s => (closing.ends trivial).returning fun _ _ _ => trivial

theorem compact_inward : Inward (compact : Edit (Store ι α μ) Unit) := by
  refine Inward.bind ?_ fun _ => LinkingIndex.settled.inward
  refine Inward.bind .get fun s => ?_
  dsimp only
  split
  · exact Inward.bind (closeGaps_inward _ _) fun _ => .modify _
  · exact .pure _

theorem adopt_inward (n : Nat) : Inward (adopt n : Edit (Store ι α μ) Unit) :=
  Inward.bind (.modify _) fun _ => (LinkingIndex.resized n).inward

theorem compact_packs {s : Store ι α μ} (booked : Booked s) :
    Ends compact s (fun _ after => Packs s after) fun _ _ => True := by
  obtain ⟨tidy, live, enumerates, counted⟩ := booked.pool.within
  refine (compact_ends tidy.idle (counted.trans enumerates.countP_eq.symm)).imp ?_ fun _ _ _ => trivial
  exact fun _ _ compacted => ⟨compacted.contents, compacted.count, compacted.capacity, compacted.next⟩

theorem reorder_of_gaps {s : Store ι α μ} (booked : Booked s) (gaps : s.pool.count < s.pool.used) : reorder s = compact s := by
  obtain ⟨live, sound⟩ := booked.pool
  have counted : s.pool.tombstones = .ok (s.pool.next - 1 - s.pool.count) := sound.tombstones_run
  unfold Pool.used at gaps
  rw [reorder, get_bind, counted, lift_bind rfl, if_pos (by omega)]

theorem reorder_packs {s : Store ι α μ} (booked : Booked s) :
    Ends reorder s (fun _ after => Packs s after) fun _ _ => True := by
  obtain ⟨live, sound⟩ := booked.pool
  have fewer : s.pool.count < s.pool.next := sound.count_lt
  have counted : s.pool.tombstones = .ok (s.pool.next - 1 - s.pool.count) := sound.tombstones_run
  rw [reorder, ends_bind, ends_get, counted, ends_bind, ends_lift]
  split
  · exact compact_packs booked
  · exact ⟨rfl, rfl, rfl, by omega⟩

variable [Allocator ω]

theorem resizeSlots_refuses (n : Nat) (s : Session (Store ι α μ) ω) :
    Ends (resizeSlots n) s (fun answer after => ∀ error, answer = .error error →
      after.store = s.store ∧ (error = .allocFailed n ∨ s.store.pool.refusal n = some error)) fun fault _ => fault.Internal := by
  rw [resizeSlots, ends_bind, ends_get]
  dsimp only
  refine (secure_returns ..).bind ?_
  intro granted first told
  cases granted with
  | false =>
    intro error same
    cases same
    exact ⟨told.1, .inl rfl⟩
  | true =>
    rw [if_pos rfl, ends_bind, ends_get]
    cases refused : first.store.pool.refusal n with
    | some error =>
      intro _ same
      cases same
      exact ⟨told.1, .inr (told.1 ▸ refused)⟩
    | none =>
      dsimp only
      rw [ends_bind, ends_get]
      refine (secure_returns ..).bind ?_
      intro granted second told'
      cases granted with
      | false =>
        intro error same
        cases same
        exact ⟨told'.1.trans told.1, .inl rfl⟩
      | true =>
        rw [if_pos rfl, ends_bind, Update.ends_edit]
        refine (adopt_inward n second.store).returning fun _ _ _ error same => ?_
        cases same

theorem makeRoom_refuses (s : Session (Store ι α μ) ω) :
    Ends makeRoom s (fun answer after => ∀ error, answer = .error error → after.store = s.store) fun fault _ => fault.Internal := by
  have granted : ∀ {renumbered : Bool} {after : Session (Store ι α μ) ω} (error : CapacityError),
      (.ok renumbered : Except CapacityError Bool) = .error error → after.store = s.store := fun _ same => by cases same
  rw [makeRoom, ends_bind, ends_get]
  dsimp only
  rw [ends_bind, ends_get]
  split
  · exact granted
  · rw [ends_bind, ends_get, ends_bind]
    refine (Inward.lift s.store.pool.tombstones_looksInside s).known.imp ?_ fun _ _ told => told
    intro tombstones middle told
    have same : middle = s := (always_lift s.store.pool.tombstones).returned told.1
    rw [same, ends_bind, ends_get]
    split
    · rw [ends_bind, Update.ends_edit]
      exact (compact_inward s.store).returning fun _ _ _ => granted
    · split
      · exact fun _ _ => rfl
      · refine Ends.bind (resizeSlots_refuses _ s) ?_
        intro answer after told error refused
        cases answer with
        | error error => exact (told error rfl).1
        | ok _ => cases refused

theorem resize_refuses {s : Session (Store ι α μ) ω} (booked : Booked s.store) (capacity : Nat) :
    Ends (resize capacity) s (fun answer after => ∀ error, answer = .error error → after.store = s.store ∨
      error = .allocFailed (slotsFor capacity) ∧ capacity < s.store.pool.used ∧ compact s.store = .ok () after.store)
      fun _ _ => True := by
  rw [resize, ends_bind, ends_get]
  dsimp only
  split
  · exact fun _ _ => .inl rfl
  · rename_i enough
    split
    · exact fun _ _ => .inl rfl
    · rename_i limited
      rw [ends_bind, ends_get]
      split
      · rename_i narrow
        rw [ends_bind, Update.ends_edit]
        refine (Ends.both (reorder_packs booked) (reorder_bounded booked.pool.within.1.bounded)).known.imp ?_ fun _ _ _ => trivial
        intro _ middle told
        obtain ⟨ran, packs, _, idle⟩ := told
        refine (resizeSlots_refuses _ _).imp ?_ fun _ _ _ => trivial
        intro answer after told error same
        obtain ⟨stayed, failed | refused⟩ := told error same
        · by_cases below : capacity < s.store.pool.used
          · unfold Store.len at enough
            rw [reorder_of_gaps booked (by omega)] at ran
            exact .inr ⟨failed, below, stayed ▸ ran⟩
          · refine .inl (stayed.trans (idle ?_))
            unfold slotsFor at narrow
            unfold Pool.used at below ⊢
            split at narrow <;> omega
        · have allowed : middle.pool.refusal (slotsFor capacity) = none := by
            unfold Store.len at enough
            exact packs.allows (by omega) (by omega)
          cases refused.symm.trans allowed
      · refine (resizeSlots_refuses _ _).imp ?_ fun _ _ _ => trivial
        exact fun answer after told error same => .inl (told error same).1

theorem reserve_refuses {s : Session (Store ι α μ) ω} (booked : Booked s.store) (additional : Nat) :
    Ends (reserve additional) s (fun answer after => ∀ error, answer = .error error → after.store = s.store) fun _ _ => True := by
  have fits := booked.pool.within.1.fits
  rw [reserve, ends_bind, ends_get, ends_bind, ends_get, ends_bind, ends_get]
  dsimp only
  split
  · exact fun _ same => by cases same
  · split
    · refine Ends.bind (Upholds.trivial _ s trivial) fun _ after _ error same => ?_
      cases same
    · rename_i more
      rw [ends_bind, ends_get]
      refine (resize_refuses booked _).returning ?_
      intro answer after told error same
      refine (told error same).resolve_right fun compacted => ?_
      have below := compacted.2.1
      unfold Store.capacity at more
      unfold Pool.used Pool.next at below
      omega

end Store
end Slotted
