import Slotted.Proofs.Store.Standing
import Slotted.Proofs.Store.Addition
namespace Slotted

variable {ι α μ β ω : Type}

namespace Pool

def Gapless (p : Pool α μ) : Prop := p.next = p.count + 1

def Dense (p : Pool α μ) : Prop := ∀ i, p.isActive i = true ↔ 0 < i ∧ i ≤ p.count

-- All slot numbers are taken, and either no tombstone is left or there are too few to close them up.
structure Packed (p : Pool α μ) : Prop where
  numbered : p.used = maxCapacity
  crowded : p.count = maxCapacity ∨ maxCapacity + 1 < 2 * p.count

-- How the sizes of a pool change when room is made for one element.
inductive Roomed (p : Pool α μ) : Pool α μ → Except CapacityError Bool → Prop where
  | free : p.isFull = false → Roomed p p (.ok false)
  | closed {q : Pool α μ} : p.Slack → q.capacity = p.capacity → q.next = p.count + 1 → q.count = p.count →
    Roomed p q (.ok true)
  | grown {q : Pool α μ} : p.isFull = true → ¬ p.Slack → p.capacity < q.capacity → Roomed p q (.ok false)
  | refused {q : Pool α μ} {error : CapacityError} : p.isFull = true → ¬ p.Slack → Roomed p q (.error error)

theorem Roomed.gapless {p q : Pool α μ} {renumbered : Bool} (roomed : Roomed p q (.ok renumbered)) (slack : p.Slack) :
    q.Gapless := by
  cases roomed with
  | free room => exact absurd slack.full (by simp [room])
  | closed _ _ next count => exact next.trans (congrArg (· + 1) count.symm)
  | grown _ tight _ => exact absurd slack tight

theorem Roomed.not_packed {p q : Pool α μ} {renumbered : Bool} (roomed : Roomed p q (.ok renumbered)) (tidy : p.Tidy)
    (limit : q.capacity ≤ maxCapacity + 1) : ¬ p.Packed := by
  have fits := tidy.fits
  have below := tidy.limit
  intro packed
  obtain ⟨numbered, crowded⟩ := packed
  cases roomed with
  | free room =>
    have room : p.next < p.capacity := Nat.lt_of_not_le (of_decide_eq_false room)
    unfold used next maxCapacity at *
    omega
  | closed slack _ _ _ =>
    have tombstone := slack.tombstone
    have sparse := slack.sparse
    omega
  | grown _ _ more =>
    unfold used next maxCapacity at *
    omega

structure Longer (p q : Pool α μ) : Prop where
  capacity : q.capacity = p.capacity
  next : q.next = p.next + 1
  count : q.count = p.count + 1

-- So many more elements come in without growth: in slots that were never used, or because the pool will be sparse
-- when those have run out.
def Spare (n : Nat) (p : Pool α μ) : Prop :=
  p.next + n ≤ p.capacity ∨ 2 * (p.count + (p.capacity - p.next)) ≤ p.capacity

instance (n : Nat) (p : Pool α μ) : Decidable (p.Spare n) := inferInstanceAs (Decidable (_ ∨ _))

-- Each way of making room either leaves the count of spare places right or shows that there are too few.
theorem spare_of_free {p q : Pool α μ} {n : Nat} (room : p.isFull = false) (longer : Longer p q) :
    q.Spare n ↔ p.Spare (n + 1) := by
  have below : p.next < p.capacity := Nat.lt_of_not_le (of_decide_eq_false room)
  have next := longer.next
  have count := longer.count
  have capacity := longer.capacity
  unfold Spare
  omega

theorem spare_of_slack {p q r : Pool α μ} {n : Nat} (slack : p.Slack) (capacity : q.capacity = p.capacity)
    (next : q.next = p.count + 1) (longer : Longer q r) (fits : p.count + (n + 1) ≤ p.capacity - 1) :
    r.Spare n ∧ p.Spare (n + 1) := by
  have full : p.capacity ≤ p.next := of_decide_eq_true slack.full
  have sparse := slack.sparse
  have next' := longer.next
  have capacity' := longer.capacity
  unfold Spare
  omega

theorem not_spare {p : Pool α μ} {n : Nat} (full : p.isFull = true) (tight : ¬ p.Slack)
    (fits : p.count + (n + 1) ≤ p.capacity - 1) : ¬ p.Spare (n + 1) := by
  have past : p.capacity ≤ p.next := of_decide_eq_true full
  intro spare
  have sparse : 2 * p.count ≤ p.capacity := by
    unfold Spare at spare
    omega
  refine tight ⟨full, ?_, sparse⟩
  unfold used
  omega

theorem push_longer {p q : Pool α μ} {value : α} {link : μ} {i : Nat} (allocated : 0 < p.slots.size)
    (room : p.isFull = false) (ran : push value link p = .ok i q) : Longer p q := by
  rw [push_run allocated room value link] at ran
  cases ran
  refine ⟨rfl, ?_, rfl⟩
  unfold next
  simp only [Array.size_push]
  omega

end Pool

namespace Store

open Pool LawfulIndex

theorem added_longer [Inhabited μ] {s : Store ι α μ} {link : Nat → Edit (Store ι α μ) Unit} (relinks : ∀ i, Relinks (link i))
    (allocated : 0 < s.pool.slots.size) (room : s.pool.isFull = false) (value : α) (blank : μ) :
    Ends (do
        let i ← onPool (Pool.push value blank)
        link i
        return i) s (fun _ after => Longer s.pool after.pool) fun _ _ => True := by
  have ran := Pool.push_run allocated room value blank
  rw [ends_bind]
  refine Ends.of_ok (onPool_ok ran) ?_
  have longer := push_longer allocated room ran
  refine Ends.bind (Ends.faulting (relinks _ _) fun _ _ _ => trivial) ?_
  intro _ after same
  exact ⟨same.capacity.trans longer.capacity, same.next.trans longer.next, same.count.trans longer.count⟩

variable [Inhabited μ] [Index ι μ] [lawful : LawfulIndex ι μ] {t : lawful.Shape}

variable [Allocator ω] {s : Session (Store ι α μ) ω}

theorem makeRoom_sizes (sound : Sound t s.store) :
    Returns makeRoom s fun answer after => Roomed s.store.pool after.store.pool answer := by
  rw [makeRoom, Returns, ends_bind, ends_get]
  dsimp only
  rw [ends_bind, ends_get]
  split
  · rename_i room
    exact .free (by simpa using room)
  · rename_i full
    have full : s.store.pool.isFull = true := by simpa using full
    rw [ends_bind, ends_get, sound.tombstones_run, ends_bind, ends_lift, ends_bind, ends_get]
    split
    · rename_i gaps
      simp only [Bool.and_eq_true, decide_eq_true_eq] at gaps
      have sparse : s.store.pool.count * 2 ≤ s.store.pool.capacity := gaps.2
      have slack : s.store.pool.Slack := by
        refine ⟨full, ?_, ?_⟩
        · unfold Pool.used
          omega
        · omega
      rw [ends_bind, Update.ends_edit]
      refine (compact_returns sound).ends ?_
      intro _ after ends
      obtain ⟨ρ, carries, capacity, next⟩ := ends
      exact .closed slack capacity next carries.relabels.count
    · rename_i dense
      simp only [Bool.and_eq_true, decide_eq_true_eq] at dense
      have tight : ¬ s.store.pool.Slack := by
        intro slack
        have tombstone := slack.tombstone
        have sparse : s.store.len * 2 ≤ s.store.pool.capacity := by
          rw [Nat.mul_comm]
          exact slack.sparse
        unfold Pool.used at tombstone
        exact dense ⟨by omega, sparse⟩
      split
      · exact .refused full tight
      · rename_i growing
        refine (resizeSlots_returns sound _).bind ?_
        intro answer after ends
        obtain ⟨resized, _⟩ := ends
        cases answer with
        | error error => exact .refused full tight
        | ok done =>
          refine .grown full tight ?_
          rw [resized.2.1]
          omega

theorem Sound.dense {s : Store ι α μ} (sound : Sound t s) (gapless : s.pool.Gapless) : s.pool.Dense := by
  have inside : ∀ i ∈ slots t, i ∈ List.range' 1 s.pool.count := by
    intro i member
    obtain ⟨positive, bound⟩ := sound.linkable.inside i member
    unfold Gapless Pool.next at gapless
    rw [List.mem_range'_1]
    omega
  have length : (List.range' 1 s.pool.count).length ≤ (slots t).length := by
    rw [List.length_range', sound.counted]
  have same : (slots t).Perm (List.range' 1 s.pool.count) :=
    (sound.enumerates.nodup.subperm inside).perm_of_length_le length
  intro i
  rw [← sound.enumerates.mem, same.mem_iff, List.mem_range'_1]
  omega

theorem resize_closes (sound : Sound t s.store) (capacity : Nat) :
    Returns (resize capacity) s fun _ after => s.store.len ≤ capacity → capacity ≤ maxCapacity →
      capacity < s.store.pool.used → after.store.pool.Gapless := by
  rw [resize, Returns, ends_bind, ends_get]
  dsimp only
  split
  · intro enough
    omega
  · split
    · intro _ limit
      omega
    · rw [ends_bind, ends_get]
      split
      · refine (reorder_edit sound).bind ?_
        intro _ middle ends
        obtain ⟨⟨ρ, carries⟩, _, next, _⟩ := ends
        rw [← carries.relabels.count] at next
        refine (resizeSlots_returns carries.sound _).returning ?_
        intro answer after ends enough _ _
        obtain ⟨resized, _⟩ := ends
        cases answer with
        | error error => exact resized.1.symm ▸ next
        | ok done =>
          obtain ⟨carries', _, next'⟩ := resized
          have count := carries.relabels.count
          have count' := carries'.relabels.count
          unfold Gapless slotsFor Store.len at *
          split at next' <;> split at next' <;> omega
      · rename_i wide
        refine Ends.imp (resizeSlots_returns sound _) ?_ fun _ _ => False.elim
        intro _ _ _ _ _ narrow
        unfold used slotsFor at *
        split at wide <;> omega

theorem reserve_closes (sound : Sound t s.store) (additional : Nat) :
    Returns (reserve additional) s fun _ after => s.store.capacity < s.store.pool.used + additional →
      s.store.len + additional ≤ s.store.capacity → after.store.pool.Gapless := by
  have limit := sound.tidy.limit
  rw [reserve, Returns, ends_bind, ends_get, ends_bind, ends_get, ends_bind, ends_get]
  dsimp only
  split
  · intro short _
    unfold saturatingAdd maxRequest Store.capacity maxCapacity used at *
    omega
  · split
    · refine (reorder_edit sound).bind ?_
      intro _ after ends _ _
      obtain ⟨⟨ρ, carries⟩, _, next, _⟩ := ends
      rw [← carries.relabels.count] at next
      exact next
    · rename_i dense
      rw [ends_bind, ends_get]
      refine (resize_returns sound _).returning ?_
      intro _ _ _ _ sparse
      unfold saturatingAdd maxRequest Store.capacity Store.len maxCapacity at *
      omega

-- A request for room that is granted leaves room, though not only in slots that were never used.
theorem reserve_fits (sound : Sound t s.store) (additional : Nat) :
    Returns (reserve additional) s fun answer after => answer = .ok () →
      after.store.len + additional ≤ after.store.capacity := by
  have fewer := sound.count_lt
  have limit := sound.tidy.limit
  rw [reserve, Returns, ends_bind, ends_get, ends_bind, ends_get, ends_bind, ends_get]
  dsimp only
  split
  · rename_i free
    intro _
    unfold Store.len Store.capacity saturatingAdd maxRequest maxCapacity at *
    omega
  · split
    · rename_i sparse
      refine (reorder_edit sound).bind ?_
      intro _ after ends _
      obtain ⟨⟨ρ, carries⟩, capacity, _, _⟩ := ends
      have count := carries.relabels.count
      unfold Store.len Store.capacity saturatingAdd maxRequest maxCapacity at *
      omega
    · rw [ends_bind, ends_get]
      refine (resize_returns sound _).returning ?_
      intro answer after ends told
      obtain ⟨⟨ρ, carries⟩, sized, _⟩ := ends
      have count := carries.relabels.count
      have sized := sized told
      have limit' := carries.sound.tidy.limit
      unfold Store.len Store.capacity saturatingAdd maxRequest maxCapacity slotsFor at *
      split at sized <;> omega

end Store
end Slotted
