import Slotted.Proofs.Store.Addition
import Slotted.Proofs.Store.Relinking
import Slotted.Proofs.Upholds
namespace Slotted

open Store LawfulIndex

variable {ι α β μ ω : Type}

-- No index at all. The links are what another index left there.
structure Unindexed (μ : Type) where

instance [Inhabited μ] : Index (Unindexed μ) μ where
  width _ _ := 0
  moved _ _ := pure ()
  settled := pure ()
  resized _ := pure ()
  unlink _ := pure ()
  cleared index := index

instance [Inhabited μ] : LawfulIndex (Unindexed μ) μ where
  Memory := Unit
  keep _ := ()
  Shape := List Nat
  slots := id
  rename := List.map
  slots_rename _ _ := rfl
  rename_same same := (List.map_congr_left same).trans (List.map_id' _)
  rename_rename _ _ _ := List.map_map
  Threads _ _ _ := True
  frame _ _ _ := trivial
  Moving _ _ _ := True
  moving _ := trivial
  movingFrame _ _ _ := trivial
  moved _ _ _ _ _ _ := ⟨.refl _, trivial⟩
  settled _ _ _ := ⟨.refl _, trivial⟩
  resized _ _ _ _ := ⟨.refl _, trivial⟩
  unlink := by
    intro α live s i _ _ _
    exact ⟨.refl _, live.erase i, rfl, trivial⟩
  cleared _ := ⟨[], rfl, trivial⟩

namespace Pool

variable [Inhabited μ] {p q : Pool α μ} {live : List Nat} {i : Nat}

def alone (p : Pool α μ) : Store (Unindexed μ) α μ := ⟨p, ⟨⟩⟩

def Booked (p : Pool α μ) : Prop := ∃ live : List Nat, Sound live p.alone

theorem booked_of (tidy : p.Tidy) (enumerates : p.Enumerates live) (counted : p.count = live.length) : p.Booked :=
  ⟨live, tidy, trivial, enumerates, counted⟩

theorem Booked.within (booked : p.Booked) : p.Tidy ∧ ∃ live, p.Enumerates live ∧ p.count = live.length := by
  obtain ⟨live, sound⟩ := booked
  exact ⟨sound.tidy, live, sound.enumerates, sound.counted⟩

namespace Booked

theorem same_bodies {δ : Type} {keep : μ → δ} (booked : p.Booked) (same : SameBodies keep p q) : q.Booked := by
  obtain ⟨live, sound⟩ := booked
  exact booked_of (same.tidy sound.tidy) (same.enumerates sound.enumerates) (same.count.trans sound.counted)

theorem same_live (booked : p.Booked) (same : SameLive p q) : q.Booked := by
  obtain ⟨live, sound⟩ := booked
  have same : SameLive p.alone.pool q.alone.pool := same
  exact ⟨live, sound.same_live same rfl⟩

theorem retire (booked : p.Booked) (active : p.isActive i = true) {f : Slot α μ → Slot α μ}
    (idle : ∀ slot, (f slot).active = false) (links : ∀ slot, (f slot).link = slot.link) :
    (p.revise i f (p.count - 1)).Booked := by
  obtain ⟨live, sound⟩ := booked
  have parts : Parts i live (live.erase i) p.alone ⟨p.alone.pool.revise i f (p.alone.pool.count - 1), p.alone.index⟩ :=
    sound.retire ((sound.enumerates.mem i).mpr active) (.refl _) rfl trivial idle links
  exact ⟨_, parts.sound⟩

theorem enlist {value : α} (booked : p.Booked) (enlists : Enlists i value p q) : q.Booked := by
  obtain ⟨live, sound⟩ := booked
  have adds : Adds id i value live (i :: live) p.alone q.alone :=
    sound.enlist enlists (.refl _) (fun _ _ => rfl) (.refl _) trivial
  exact ⟨_, adds.sound⟩

theorem changeAt {value : α} (booked : p.Booked) (stored : p.storedAt i = some value) (change : α → α) :
    (p.changeAt i change).Booked := by
  cases active : p.isActive i with
  | false => exact booked.same_live (.revise active (fun _ => rfl) fun _ => rfl)
  | true =>
    obtain ⟨live, sound⟩ := booked
    have held : p.alone.pool.get? i = some value := (get?_eq p i).trans ((if_pos active).trans stored)
    obtain ⟨after, ran, sound', _⟩ := Store.modifyValue_run sound held fun _ => change
    have same : onPool (modifyValue i change) p.alone = .ok () (p.changeAt i change).alone :=
      onPool_ok (Pool.modifyValue_run stored change)
    cases same.symm.trans ran
    exact ⟨live, sound'⟩

theorem setCapacity (booked : p.Booked) {n : Nat} (allowed : p.refusal n = none) : (p.setCapacity n).Booked := by
  obtain ⟨live, sound⟩ := booked
  obtain ⟨tidy, enumerates, _, relabels⟩ := sound.ready.setCapacity allowed
  exact booked_of tidy enumerates (relabels.count.trans sound.counted)

theorem clear (booked : p.Booked) : p.clear.Booked := by
  obtain ⟨live, sound⟩ := booked
  obtain ⟨bare, _, sound'⟩ := sound.clear
  exact ⟨bare, sound'⟩

theorem count_pos (booked : p.Booked) (active : p.isActive i = true) : 0 < p.count := by
  obtain ⟨live, sound⟩ := booked
  exact sound.count_pos ((sound.enumerates.mem i).mpr active)

end Booked

omit [Inhabited μ] in
theorem value_error (absent : p.storedAt i = none) : ∃ fault, p.value i = .error fault := by
  unfold storedAt at absent
  unfold Pool.value
  cases found : p.slots[i]? with
  | none => exact ⟨_, rfl⟩
  | some slot =>
    obtain ⟨active, link, stored⟩ := slot
    rw [found] at absent
    cases absent
    exact ⟨_, rfl⟩

def BookedAt (n : Nat) (p : Pool α μ) : Prop := p.Booked ∧ p.capacity = n

section Edits

variable {n : Nat}

theorem push_upholds (value : α) (link : μ) : Upholds (BookedAt n) (push value link) := by
  intro p booked
  unfold push
  by_cases bare : p.slots.isEmpty = true
  · simp only [Always, Ends, bare, if_true]
    exact booked
  · by_cases full : p.isFull = true
    · simp only [Always, Ends, bare, full, if_true]
      exact booked
    · have allocated : 0 < p.slots.size := Nat.pos_of_ne_zero fun none => bare (by simpa using none)
      obtain ⟨q, ran, enlists⟩ := push_enlists link allocated (by simpa using full) value
      exact Ends.of_ok ran ⟨booked.1.enlist enlists, enlists.capacity.trans booked.2⟩

theorem take_upholds (i : Nat) : Upholds (BookedAt n) (take i : Edit (Pool α μ) (Option α)) := by
  intro p booked
  by_cases active : p.isActive i = true
  · exact Ends.of_ok (take_run active (booked.1.count_pos active))
      ⟨booked.1.retire active (fun _ => rfl) fun _ => rfl, booked.2⟩
  · rw [Always, take, ends_bind, ends_get, if_neg active]
    exact booked

theorem detach_upholds (i : Nat) : Upholds (BookedAt n) (detach i : Edit (Pool α μ) Unit) := by
  intro p booked
  cases held : p.get? i with
  | some value =>
    have active := isActive_of_get? held
    exact Ends.of_ok (detach_run held (booked.1.count_pos active))
      ⟨booked.1.retire active (fun _ => rfl) fun _ => rfl, booked.2⟩
  | none =>
    rw [Always, detach, ends_bind, ends_get]
    cases found : p.slots[i]? with
    | none => exact booked
    | some slot =>
      have idle : (slot.active && slot.value.isSome) = false := by
        unfold get? at held
        rw [found] at held
        obtain ⟨active, link, value⟩ := slot
        cases active <;> simp_all
      dsimp only
      rw [idle]
      exact booked

theorem discard_upholds (i : Nat) : Upholds (BookedAt n) (discard i : Edit (Pool α μ) (Option α)) := by
  intro p booked
  cases found : p.slots[i]? with
  | none =>
    rw [Always, discard, ends_bind, ends_get, found]
    exact booked
  | some slot =>
    cases active : slot.active with
    | true =>
      rw [Always, discard, ends_bind, ends_get, found]
      dsimp only
      rw [active]
      exact booked
    | false =>
      have inside : i < p.slots.size := (Array.getElem?_eq_some_iff.mp found).1
      have idle : p.isActive i = false := by rw [isActive, found]; exact active
      exact Ends.of_ok (discard_run inside idle) ⟨booked.1.same_live (.revise idle (fun _ => rfl) fun _ => rfl), booked.2⟩

theorem modifyValue_upholds (i : Nat) (change : α → α) : Upholds (BookedAt n) (modifyValue i change : Edit (Pool α μ) Unit) := by
  intro p booked
  cases stored : p.storedAt i with
  | some value => exact Ends.of_ok (Pool.modifyValue_run stored change) ⟨booked.1.changeAt stored change, booked.2⟩
  | none =>
    obtain ⟨fault, nothing⟩ := value_error stored
    rw [Always, modifyValue, ends_bind, ends_get, nothing]
    exact booked

theorem reattach_upholds {i : Nat} (positive : 0 < i) : Upholds (BookedAt n) (reattach i : Edit (Pool α μ) Unit) := by
  intro p booked
  cases found : p.slots[i]? with
  | none =>
    rw [Always, reattach, ends_bind, ends_get, found]
    exact booked
  | some slot =>
    obtain ⟨active, link, stored⟩ := slot
    cases active with
    | true =>
      rw [Always, reattach, ends_bind, ends_get, found]
      exact booked
    | false =>
      cases stored with
      | none =>
        rw [Always, reattach, ends_bind, ends_get, found]
        exact booked
      | some value =>
        have idle : p.isActive i = false := by rw [isActive, found]; rfl
        have holds : p.storedAt i = some value := by rw [storedAt, found]; rfl
        obtain ⟨q, ran, enlists, _⟩ := reattach_enlists idle holds positive booked.1.within.1.fits
        exact Ends.of_ok ran ⟨booked.1.enlist enlists, enlists.capacity.trans booked.2⟩

end Edits
end Pool
end Slotted
