import Slotted.Proofs.BareSet.Shared
import Slotted.Proofs.Store.Room
namespace Slotted.Store

variable {ι α μ ω : Type} [Allocator ω] (generous : Generous ω)
include generous

theorem secure_granted (needed : Bool) (request : Request) (s : Session (Store ι α μ) ω) :
    Returns (secure needed request) s fun granted after =>
      granted = true ∧ after.store = s.store ∧ after.gate.busy = s.gate.busy := by
  cases needed with
  | false => exact ⟨rfl, rfl, rfl⟩
  | true => exact ⟨generous request s.gate.world, rfl, rfl⟩

variable [Inhabited μ] [Index ι μ]

theorem resizeSlots_adopts {s : Session (Store ι α μ) ω} {n : Nat} {done : Store ι α μ → Prop} {blames : Fault → Prop}
    (allowed : s.store.pool.refusal n = none)
    (adopts : Ends (adopt n) s.store (fun _ after => done after) fun fault _ => blames fault) :
    Ends (resizeSlots n) s (fun answer after => answer = .ok () ∧ done after.store ∧ after.gate.busy = s.gate.busy)
      fun fault _ => blames fault := by
  rw [resizeSlots, ends_bind, ends_get]
  dsimp only
  refine (secure_granted generous ..).bind ?_
  intro granted first told
  obtain ⟨granted, same, flag⟩ := told
  rw [if_pos granted, ends_bind, ends_get, same, allowed]
  dsimp only
  rw [ends_bind, ends_get]
  refine (secure_granted generous ..).bind ?_
  intro granted second told
  obtain ⟨granted, same', flag'⟩ := told
  rw [if_pos granted, ends_bind, Update.ends_edit, same'.trans same]
  exact adopts.imp (fun _ _ did => ⟨rfl, did, flag'.trans flag⟩) fun _ _ blamed => blamed

variable [lawful : LawfulIndex ι μ] {t : lawful.Shape} {s : Session (Store ι α μ) ω}

-- With memory for everything there is room for one more unless the numbers have run out and compaction is not tried.
theorem makeRoom_unless_packed (sound : Sound t s.store) :
    Returns makeRoom s fun answer _ => match answer with
      | .ok _ => ¬ s.store.pool.Packed
      | .error error => error = .overflow (maxCapacity + 1) ∧ s.store.pool.Packed := by
  have fits := sound.tidy.fits
  have limit := sound.tidy.limit
  rw [makeRoom, Returns, ends_bind, ends_get]
  dsimp only
  rw [ends_bind, ends_get]
  split
  · rename_i room
    have room : s.store.pool.next < s.store.pool.capacity := by simpa [Pool.isFull] using room
    intro packed
    have numbered := packed.numbered
    unfold Pool.used maxCapacity at *
    omega
  · rename_i full
    have full : s.store.pool.capacity ≤ s.store.pool.next := by simpa [Pool.isFull] using full
    rw [ends_bind, ends_get, sound.tombstones_run, ends_bind, ends_lift, ends_bind, ends_get]
    split
    · rename_i gaps
      simp only [Bool.and_eq_true, decide_eq_true_eq] at gaps
      rw [ends_bind, Update.ends_edit]
      refine (compact_returns sound).ends fun _ _ _ packed => ?_
      obtain ⟨numbered, crowded⟩ := packed
      unfold Store.len Pool.used at *
      omega
    · rename_i dense
      simp only [Bool.and_eq_true, decide_eq_true_eq] at dense
      split
      · rename_i stuck
        have last : s.store.pool.capacity = maxCapacity + 1 := by
          have growing : s.store.pool.capacity < maxCapacity + 1 → s.store.pool.capacity < grownSlots s.store.pool.capacity :=
            lt_grownSlots
          omega
        have fewer := sound.count_lt
        have sparse : s.store.len = s.store.pool.count := rfl
        have next : s.store.pool.next = maxCapacity + 1 := by
          rw [Pool.next, maxCapacity] at *
          omega
        refine ⟨by rw [last], by rw [Pool.used, next, Nat.add_sub_cancel], ?_⟩
        omega
      · rename_i growing
        have growing : s.store.pool.capacity < grownSlots s.store.pool.capacity := by omega
        have adopts := (adopt_returns sound (sound.grows growing)).returning fun _ _ _ => trivial
        refine Ends.bind (resizeSlots_adopts generous (sound.grows growing) adopts) ?_
        intro answer _ told
        rw [told.1]
        intro packed
        have numbered := packed.numbered
        have most := grownSlots_le s.store.pool.capacity
        unfold Pool.used Pool.next maxCapacity at *
        omega

theorem makeRoom_grants (sound : Sound t s.store)
    (few : s.store.len < maxCapacity / 2) : Returns makeRoom s fun answer _ => ∃ renumbered, answer = .ok renumbered := by
  refine (makeRoom_unless_packed generous sound).returning fun answer _ told => ?_
  cases answer with
  | ok renumbered => exact ⟨renumbered, rfl⟩
  | error error =>
    have crowded := told.2.crowded
    unfold Store.len maxCapacity at *
    omega

theorem resize_grants (sound : Sound t s.store) {capacity : Nat} (wide : s.store.pool.next ≤ slotsFor capacity)
    (limit : capacity ≤ maxCapacity) : Returns (resize capacity) s fun answer after => answer = .ok () ∧
      (Carries id t s.store after.store ∧ after.store.pool.capacity = slotsFor capacity ∧
        after.store.pool.next = s.store.pool.next) ∧ after.gate.busy = s.gate.busy := by
  have fewer := sound.count_lt
  have some : slotsFor capacity ≠ 0 := by
    unfold Pool.next at wide
    omega
  have enough : ¬ capacity < s.store.len := by
    unfold Store.len
    unfold slotsFor at wide
    split at wide <;> omega
  have allowed := Pool.refusal_of_wide fewer wide limit
  rw [resize, Returns, ends_bind, ends_get]
  dsimp only
  rw [if_neg enough, if_neg (Nat.not_lt.mpr limit), ends_bind, ends_get, if_neg (Nat.not_lt.mpr wide)]
  have adopts := adopt_returns sound allowed
  rw [if_neg some] at adopts
  exact resizeSlots_adopts generous allowed adopts

end Slotted.Store
