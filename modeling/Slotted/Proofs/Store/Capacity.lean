import Slotted.Proofs.Store.Compact
namespace Slotted

namespace Pool

variable {α μ : Type} {p : Pool α μ} {slots : Nat}

theorem refusal_none (allowed : p.refusal slots = none) :
    slots ≤ maxCapacity + 1 ∧ p.count ≤ slots - 1 ∧ (p.slots.size ≤ slots ∨ slots = 0 ∧ p.count = 0) := by
  unfold refusal at allowed
  split at allowed
  · cases allowed
  · split at allowed
    · cases allowed
    · split at allowed
      · cases allowed
      · rename_i fits
        simp only [Bool.and_eq_true, decide_eq_true_eq, Bool.not_eq_true', Bool.and_eq_false_iff,
          decide_eq_false_iff_not, not_and_or, not_or, not_not] at fits
        omega

theorem refusal_of_wide (fewer : p.count < p.next) {capacity : Nat} (wide : p.next ≤ slotsFor capacity)
    (limit : capacity ≤ maxCapacity) : p.refusal (slotsFor capacity) = none := by
  unfold next slotsFor at *
  split at wide
  · omega
  · rename_i some
    rw [if_neg some]
    unfold refusal
    rw [if_neg (by omega), if_neg (by omega), if_neg]
    simp only [Bool.and_eq_true, decide_eq_true_eq, not_and_or]
    exact .inl (by omega)

theorem setCapacity_capacity [Inhabited μ] (p : Pool α μ) (slots : Nat) : (p.setCapacity slots).capacity = slots := by
  unfold setCapacity
  split
  · rename_i none
    exact none.symm
  · split <;> rfl

theorem setCapacity_count [Inhabited μ] (p : Pool α μ) (slots : Nat) : (p.setCapacity slots).count = p.count := by
  unfold setCapacity
  split
  · rfl
  · split <;> rfl

theorem setCapacity_next [Inhabited μ] (p : Pool α μ) (slots : Nat) :
    (p.setCapacity slots).next = if slots = 0 then 1 else p.next := by
  unfold setCapacity next
  split
  · rfl
  · split
    · rename_i bare
      have none : p.slots.size = 0 := by simpa using bare
      simp [none]
    · rfl

theorem setCapacity_allocated [Inhabited μ] (p : Pool α μ) (some : 0 < slots) :
    0 < (p.setCapacity slots).slots.size := by
  unfold setCapacity
  rw [if_neg (by omega)]
  split
  · exact Nat.one_pos
  · rename_i filled
    exact Nat.pos_of_ne_zero fun none => filled (by simpa using none)

end Pool

namespace Store

open LawfulIndex

theorem secure_returns {ι α μ ω : Type} [Allocator ω] (needed : Bool) (request : Request)
    (s : Session (Store ι α μ) ω) :
    Returns (secure needed request) s fun _ after => after.store = s.store ∧ after.gate.busy = s.gate.busy := by
  unfold secure
  cases needed
  · exact ⟨rfl, rfl⟩
  · exact ⟨rfl, rfl⟩

variable {ι α μ ω : Type} [Inhabited μ] [Index ι μ] [lawful : LawfulIndex ι μ] [Allocator ω] {t : lawful.Shape}

theorem Ready.same_slots {s : Store ι α μ} (ready : Ready t s) {slots : Nat} (allowed : s.pool.refusal slots = none) :
    (s.pool.setCapacity slots).slots = s.pool.slots ∨
      s.pool.count = 0 ∧ (∀ i, (s.pool.setCapacity slots).isActive i = false) ∧
        (s.pool.setCapacity slots).slots.size = min slots 1 := by
  obtain ⟨_, counted, _⟩ := Pool.refusal_none allowed
  have fewer := ready.count_lt
  unfold Pool.setCapacity
  split
  · rename_i none
    exact .inr ⟨by omega, fun i => by simp [Pool.isActive], by simp [none]⟩
  · rename_i some
    split
    · rename_i bare
      have none : s.pool.slots.size = 0 := by simpa using bare
      rw [Pool.next] at fewer
      refine .inr ⟨by omega, ?_, by simp; omega⟩
      intro i
      cases i <;> simp [Pool.isActive, Slot.sentinel]
    · exact .inl rfl

theorem Ready.setCapacity {s : Store ι α μ} (ready : Ready t s) {n : Nat} (allowed : s.pool.refusal n = none) :
    (s.pool.setCapacity n).Tidy ∧ (s.pool.setCapacity n).Enumerates (slots t) ∧
      (∀ i ∈ slots t, (s.pool.setCapacity n).linkAt i = s.pool.linkAt i) ∧
      Relabels lawful.keep id (slots t) s.pool (s.pool.setCapacity n) := by
  obtain ⟨limit, counted, fits⟩ := Pool.refusal_none allowed
  have capacity := Pool.setCapacity_capacity s.pool n
  have count := Pool.setCapacity_count s.pool n
  rcases ready.same_slots allowed with same | ⟨empty, idle, small⟩
  · have live : (s.pool.setCapacity n).isActive = s.pool.isActive := by
      funext i
      rw [Pool.isActive, same, Pool.isActive]
    have held : (s.pool.setCapacity n).get? = s.pool.get? := by
      funext i
      rw [Pool.get?, same, Pool.get?]
    have linked : (s.pool.setCapacity n).linkAt = s.pool.linkAt := by
      funext i
      rw [Pool.linkAt, same, Pool.linkAt]
    refine ⟨⟨?_, ?_, ?_, ?_, ?_⟩, ⟨ready.enumerates.nodup, ?_⟩, ?_, ⟨count, ?_, ?_⟩⟩
    · rw [live, ready.tidy.idle]
    · rw [live, held]
      exact ready.tidy.filled
    · rw [capacity, same]
      rcases fits with fits | ⟨rfl, _⟩
      · exact fits
      · simp only [Pool.setCapacity, if_true] at same
        simp [← same]
    · rw [capacity]
      exact Pool.setCapacity_allocated _
    · rw [capacity]
      exact limit
    · rw [live]
      exact ready.enumerates.mem
    · intro i _
      rw [linked]
    · intro i _
      rw [held]
      rfl
    · intro i _
      rw [linked]
      rfl
  · have none : slots t = [] := List.length_eq_zero_iff.mp (by rw [← ready.counted, empty])
    refine ⟨⟨idle 0, ?_, ?_, ?_, ?_⟩, ⟨by simp [none], ?_⟩, by simp [none], ⟨count, by simp [none], by simp [none]⟩⟩
    · intro i live
      simp [idle] at live
    · rw [capacity, small]
      omega
    · rw [capacity, small]
      omega
    · rw [capacity]
      exact limit
    · intro i
      simp [none, idle]

theorem adopt_returns {s : Store ι α μ} (sound : Sound t s) {n : Nat} (allowed : s.pool.refusal n = none) :
    Returns (adopt n) s fun _ after => Carries id t s after ∧ after.pool.capacity = n ∧
      after.pool.next = if n = 0 then 1 else s.pool.next := by
  obtain ⟨tidy, enumerates, linked, relabels⟩ := sound.ready.setCapacity allowed
  have capacity := Pool.setCapacity_capacity s.pool n
  have adopted := resized (s := ⟨s.pool.setCapacity n, s.index⟩) sound.threads linked tidy enumerates
  rw [adopt, Returns, ends_bind, ends_modify]
  rw [capacity] at adopted
  refine adopted.returning ?_
  intro _ after ends
  obtain ⟨same, threads⟩ := ends
  refine ⟨⟨?_, relabels.same_bodies same⟩, same.capacity.trans capacity, ?_⟩
  · rw [rename_id]
    refine ⟨same.tidy tidy, threads, same.enumerates enumerates, ?_⟩
    rw [same.count, relabels.count, sound.counted]
  · rw [same.next, Pool.setCapacity_next]

def Resized (t : lawful.Shape) (n : Nat) (s after : Store ι α μ) : Except CapacityError Unit → Prop
  | .ok _ => Carries id t s after ∧ after.pool.capacity = n ∧ after.pool.next = if n = 0 then 1 else s.pool.next
  | .error error => after = s ∧ (error = .allocFailed n ∨ s.pool.refusal n = some error)

theorem resizeSlots_returns {s : Session (Store ι α μ) ω} (sound : Sound t s.store) (n : Nat) :
    Returns (resizeSlots n) s fun answer after =>
      Resized t n s.store after.store answer ∧ after.gate.busy = s.gate.busy := by
  rw [resizeSlots, Returns, ends_bind, ends_get]
  dsimp only
  refine (secure_returns ..).bind ?_
  intro granted first ends
  obtain ⟨firstStore, firstGate⟩ := ends
  split
  · rw [ends_bind, ends_get, firstStore]
    cases refused : s.store.pool.refusal n with
    | some error => exact ⟨⟨firstStore, .inr refused⟩, firstGate⟩
    | none =>
      dsimp only
      rw [ends_bind, ends_get]
      refine (secure_returns ..).bind ?_
      intro granted second ends
      obtain ⟨secondStore, secondGate⟩ := ends
      have store : second.store = s.store := secondStore.trans firstStore
      split
      · rw [ends_bind, Update.ends_edit, store]
        refine (adopt_returns sound refused).ends ?_
        intro _ after adopted
        exact ⟨adopted, secondGate.trans firstGate⟩
      · exact ⟨⟨store, .inl rfl⟩, secondGate.trans firstGate⟩
  · exact ⟨⟨firstStore, .inl rfl⟩, firstGate⟩

theorem Carries.stay {s : Store ι α μ} (sound : Sound t s) : Carries id t s s :=
  ⟨by rwa [rename_id], .refl ..⟩

theorem Relabels.carries {ρ σ : Nat → Nat} {s middle after : Store ι α μ}
    (first : Relabels lawful.keep ρ (slots t) s.pool middle.pool) (second : Carries σ (rename ρ t) middle after) :
    Carries (σ ∘ ρ) t s after := by
  refine ⟨?_, ?_⟩
  · rw [← rename_rename]
    exact second.sound
  · have relabels := second.relabels
    rw [slots_rename] at relabels
    exact first.trans relabels

theorem Carries.trans {ρ σ : Nat → Nat} {s middle after : Store ι α μ} (first : Carries ρ t s middle)
    (second : Carries σ (rename ρ t) middle after) : Carries (σ ∘ ρ) t s after := first.relabels.carries second

theorem Carries.contents_eq {ρ : Nat → Nat} {s after : Store ι α μ} (carries : Carries ρ t s after)
    (sound : Sound t s) : after.pool.contents = s.pool.contents := by
  have enumerates := carries.sound.enumerates
  rw [slots_rename] at enumerates
  exact carries.relabels.contents_eq sound.enumerates enumerates

theorem Resized.carries {n : Nat} {s after : Store ι α μ} {answer : Except CapacityError Unit}
    (resized : Resized t n s after answer) (sound : Sound t s) : Carries id t s after := by
  cases answer with
  | ok _ => exact resized.1
  | error _ =>
    obtain ⟨rfl, _⟩ := resized
    exact .stay sound

omit [Allocator ω] in
theorem reorder_edit {s : Session (Store ι α μ) ω} (sound : Sound t s.store) :
    Returns (Update.edit reorder) s fun _ after => (∃ ρ, Carries ρ t s.store after.store) ∧
      after.store.pool.capacity = s.store.pool.capacity ∧ after.store.pool.next = s.store.pool.count + 1 ∧
      after.gate = s.gate := by
  rw [Returns, Update.ends_edit]
  refine (reorder_returns sound).ends ?_
  intro _ after ends
  obtain ⟨ρ, carries, capacity, next⟩ := ends
  exact ⟨⟨ρ, carries⟩, capacity, next, rfl⟩

-- Whatever becomes of a request for a size, the elements stay; a granted size is taken on exactly.
theorem resize_returns {s : Session (Store ι α μ) ω} (sound : Sound t s.store) (capacity : Nat) :
    Returns (resize capacity) s fun answer after => (∃ ρ, Carries ρ t s.store after.store) ∧
      (answer = .ok () → after.store.pool.capacity = slotsFor capacity) ∧ after.gate.busy = s.gate.busy := by
  have sized : ∀ {ρ : Nat → Nat} {middle : Session (Store ι α μ) ω}, Carries ρ t s.store middle.store →
      middle.gate.busy = s.gate.busy → Returns (resizeSlots (slotsFor capacity)) middle fun answer after =>
        (∃ ρ, Carries ρ t s.store after.store) ∧
          (answer = .ok () → after.store.pool.capacity = slotsFor capacity) ∧ after.gate.busy = s.gate.busy := by
    intro ρ middle carries lowered
    refine (resizeSlots_returns carries.sound _).returning ?_
    intro answer after ends
    obtain ⟨resized, gate⟩ := ends
    refine ⟨⟨_, carries.trans (resized.carries carries.sound)⟩, ?_, gate.trans lowered⟩
    intro same
    subst same
    exact resized.2.1
  have stay : ∃ ρ, Carries ρ t s.store s.store := ⟨id, .stay sound⟩
  rw [resize, Returns, ends_bind, ends_get]
  dsimp only
  split
  · exact ⟨stay, fun told => (by cases told), rfl⟩
  · split
    · exact ⟨stay, fun told => (by cases told), rfl⟩
    · rw [ends_bind, ends_get]
      split
      · refine (reorder_edit sound).bind ?_
        intro _ middle ends
        obtain ⟨⟨ρ, carries⟩, _, _, gate⟩ := ends
        exact sized carries (by rw [gate])
      · exact sized (Carries.stay sound) rfl

theorem reserve_returns {s : Session (Store ι α μ) ω} (sound : Sound t s.store) (additional : Nat) :
    Returns (reserve additional) s fun _ after =>
      (∃ ρ, Carries ρ t s.store after.store) ∧ after.gate.busy = s.gate.busy := by
  have stay : ∃ ρ, Carries ρ t s.store s.store := ⟨id, .stay sound⟩
  rw [reserve, Returns, ends_bind, ends_get, ends_bind, ends_get, ends_bind, ends_get]
  dsimp only
  split
  · exact ⟨stay, rfl⟩
  · split
    · refine (reorder_edit sound).bind ?_
      intro _ middle ends
      obtain ⟨carries, _, _, gate⟩ := ends
      exact ⟨carries, by rw [gate]⟩
    · rw [ends_bind, ends_get]
      refine (resize_returns sound _).returning ?_
      intro answer after ends
      obtain ⟨carries, _, gate⟩ := ends
      exact ⟨carries, gate⟩

-- Why there was no room for one more: the pool was full, and it could not grow.
def NoRoom (s : Store ι α μ) (error : CapacityError) : Prop :=
  s.pool.isFull = true ∧ (error = .allocFailed (grownSlots s.pool.capacity) ∨
    error = .overflow s.pool.capacity ∧ maxCapacity < s.pool.capacity)

-- Room for one element. Unless slots were renumbered, every element kept its number.
def MadeRoom (t : lawful.Shape) (s after : Store ι α μ) : Except CapacityError Bool → Prop
  | .ok renumbered => after.pool.isFull = false ∧ 0 < after.pool.slots.size ∧
      ∃ ρ, Carries ρ t s after ∧ (renumbered = false → ρ = id)
  | .error error => after = s ∧ NoRoom s error

theorem Sound.allocated {s : Store ι α μ} (sound : Sound t s) (room : s.pool.isFull = false) :
    0 < s.pool.slots.size := by
  apply sound.tidy.reserved
  simp only [Pool.isFull, decide_eq_false_iff_not, Nat.not_le] at room
  exact Nat.lt_of_le_of_lt (Nat.zero_le _) room

theorem Sound.grows {s : Store ι α μ} (sound : Sound t s)
    (growing : s.pool.capacity < grownSlots s.pool.capacity) : s.pool.refusal (grownSlots s.pool.capacity) = none := by
  have limit := grownSlots_le s.pool.capacity
  have fits := sound.tidy.fits
  have fewer := sound.count_lt
  have positive : 1 < grownSlots s.pool.capacity := by
    unfold grownSlots minCapacity maxCapacity
    omega
  simp only [Pool.next] at fewer
  unfold Pool.refusal
  rw [if_neg (by omega), if_neg (by omega), if_neg]
  simp only [Bool.and_eq_true, decide_eq_true_eq, not_and_or]
  exact .inl (by omega)

theorem makeRoom_returns {s : Session (Store ι α μ) ω} (sound : Sound t s.store) :
    Returns makeRoom s fun answer after =>
      MadeRoom t s.store after.store answer ∧ after.gate.busy = s.gate.busy := by
  have fewer := sound.count_lt
  have fits := sound.tidy.fits
  rw [makeRoom, Returns, ends_bind, ends_get]
  dsimp only
  rw [ends_bind, ends_get]
  split
  · rename_i room
    have room : s.store.pool.isFull = false := by simpa using room
    exact ⟨⟨room, sound.allocated room, id, .stay sound, fun _ => rfl⟩, rfl⟩
  · rename_i full
    have full : s.store.pool.isFull = true := by simpa using full
    rw [ends_bind, ends_get, sound.tombstones_run, ends_bind, ends_lift, ends_bind, ends_get]
    split
    · rename_i gaps
      simp only [Bool.and_eq_true, decide_eq_true_eq] at gaps
      rw [ends_bind, Update.ends_edit]
      refine (compact_returns sound).ends ?_
      intro _ after ends
      obtain ⟨ρ, carries, capacity, next⟩ := ends
      have room : after.pool.isFull = false := by
        simp only [Pool.isFull, decide_eq_true_eq, decide_eq_false_iff_not, capacity, next] at full ⊢
        simp only [Pool.next] at gaps fewer full
        omega
      exact ⟨⟨room, carries.sound.allocated room, ρ, carries, fun kept => by cases kept⟩, rfl⟩
    · split
      · rename_i stuck
        refine ⟨⟨rfl, full, .inr ⟨rfl, ?_⟩⟩, rfl⟩
        by_contra below
        have growing : s.store.pool.capacity < grownSlots s.store.pool.capacity := lt_grownSlots (by omega)
        omega
      · rename_i growing
        have growing : s.store.pool.capacity < grownSlots s.store.pool.capacity := by omega
        refine (resizeSlots_returns sound _).bind ?_
        intro answer after ends
        obtain ⟨resized, gate⟩ := ends
        refine ⟨?_, gate⟩
        cases answer with
        | error error =>
          obtain ⟨same, allocFailed | refused⟩ := resized
          · exact ⟨same, full, .inl allocFailed⟩
          · simp [sound.grows growing] at refused
        | ok done =>
          obtain ⟨carries, capacity, next⟩ := resized
          have room : after.store.pool.isFull = false := by
            have positive : grownSlots s.store.pool.capacity ≠ 0 := by omega
            rw [if_neg positive] at next
            have least : minCapacity + 1 ≤ grownSlots s.store.pool.capacity := by
              unfold grownSlots minCapacity maxCapacity
              omega
            rw [Pool.isFull, capacity, next]
            apply decide_eq_false
            simp only [Pool.next, minCapacity] at least ⊢
            omega
          exact ⟨room, carries.sound.allocated room, id, carries, fun _ => rfl⟩

end Store
end Slotted
