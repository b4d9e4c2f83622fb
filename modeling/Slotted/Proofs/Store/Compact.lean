import Mathlib.Order.Interval.Finset.Nat
import Slotted.Proofs.Store.Gaps
import Slotted.Proofs.Store.Lawful
namespace Slotted

namespace Pool

variable {α μ δ : Type} {p : Pool α μ} {lo hi : Nat}

theorem slots_swap (below : lo < p.slots.size) (above : hi < p.slots.size) (k : Nat) :
    (p.swap lo hi).slots[k]? =
      if k = hi then p.slots[lo]? else if k = lo then p.slots[hi]? else p.slots[k]? := by
  simp only [swap, Array.swapIfInBounds, below, above, dif_pos, Array.getElem?_swap]
  by_cases atHi : k = hi
  · simp [atHi, Array.getElem?_eq_getElem below]
  · by_cases atLo : k = lo
    · subst atLo
      simp [atHi, Array.getElem?_eq_getElem above, Ne.symm atHi]
    · simp [atHi, atLo, Ne.symm atHi, Ne.symm atLo]

@[simp] theorem size_swap (p : Pool α μ) (lo hi : Nat) : (p.swap lo hi).slots.size = p.slots.size := by
  simp [swap]

theorem isActive_swap (below : lo < p.slots.size) (above : hi < p.slots.size) (k : Nat) :
    (p.swap lo hi).isActive k =
      if k = hi then p.isActive lo else if k = lo then p.isActive hi else p.isActive k := by
  simp only [isActive, slots_swap below above]
  split
  · rfl
  · split <;> rfl

theorem get?_swap (below : lo < p.slots.size) (above : hi < p.slots.size) (k : Nat) :
    (p.swap lo hi).get? k = if k = hi then p.get? lo else if k = lo then p.get? hi else p.get? k := by
  unfold get?
  rw [slots_swap below above]
  by_cases atHi : k = hi
  · rw [if_pos atHi, if_pos atHi]
  · rw [if_neg atHi, if_neg atHi]
    by_cases atLo : k = lo
    · rw [if_pos atLo, if_pos atLo]
    · rw [if_neg atLo, if_neg atLo]

theorem linkAt_swap [Inhabited μ] (below : lo < p.slots.size) (above : hi < p.slots.size) (k : Nat) :
    (p.swap lo hi).linkAt k = if k = hi then p.linkAt lo else if k = lo then p.linkAt hi else p.linkAt k := by
  simp only [linkAt, slots_swap below above]
  split
  · rfl
  · split <;> rfl

theorem slots_dropTail (p : Pool α μ) (k : Nat) :
    p.dropTail.slots[k]? = if k < p.count + 1 then p.slots[k]? else none := by
  simp only [dropTail, Array.take_eq_extract, Array.getElem?_extract]
  by_cases inside : k < p.count + 1 <;> by_cases bound : k < p.slots.size <;> simp [inside, bound]

theorem size_dropTail (p : Pool α μ) : p.dropTail.slots.size = min (p.count + 1) p.slots.size := by
  simp [dropTail, Array.take_eq_extract]

theorem isActive_dropTail (p : Pool α μ) (k : Nat) :
    p.dropTail.isActive k = (decide (k < p.count + 1) && p.isActive k) := by
  unfold isActive
  rw [slots_dropTail]
  by_cases inside : k < p.count + 1 <;> simp [inside]

theorem get?_dropTail {k : Nat} (inside : k < p.count + 1) : p.dropTail.get? k = p.get? k := by
  unfold get?
  rw [slots_dropTail, if_pos inside]

theorem linkAt_dropTail [Inhabited μ] {k : Nat} (inside : k < p.count + 1) :
    p.dropTail.linkAt k = p.linkAt k := by
  unfold linkAt
  rw [slots_dropTail, if_pos inside]

-- The number a slot has after the live slot `hi` took the place of the idle slot `lo`.
def moveTo (lo hi i : Nat) : Nat := if i = hi then lo else i

theorem Enumerates.swap {order : List Nat} (enumerates : p.Enumerates order) (below : lo < p.slots.size)
    (gap : p.isActive lo = false) (live : p.isActive hi = true) :
    (p.swap lo hi).Enumerates (order.map (moveTo lo hi)) := by
  have above := isActive_lt live
  have apart : lo ≠ hi := by
    intro equal
    subst equal
    simp [gap] at live
  have absent : lo ∉ order := by
    intro member
    simp [(enumerates.mem lo).mp member] at gap
  refine ⟨?_, ?_⟩
  · refine enumerates.nodup.map_on ?_
    intro i iMember j jMember same
    unfold moveTo at same
    split at same <;> split at same
    · simp_all
    · exact absurd (same ▸ jMember) absent
    · exact absurd (same ▸ iMember) absent
    · exact same
  · intro i
    rw [isActive_swap below above, List.mem_map]
    constructor
    · intro given
      obtain ⟨j, member, rfl⟩ := given
      have jLive := (enumerates.mem j).mp member
      unfold moveTo
      split
      · simp [live]
      · rename_i other
        have off : j ≠ lo := fun same => absent (same ▸ member)
        simp [off, jLive]
    · intro iLive
      split at iLive
      · simp [gap] at iLive
      · rename_i other
        split at iLive
        · rename_i same
          exact ⟨hi, (enumerates.mem hi).mpr live, by simp [moveTo, same]⟩
        · exact ⟨i, (enumerates.mem i).mpr iLive, by simp [moveTo, other]⟩

end Pool

namespace Store

open LawfulIndex

variable {ι α μ : Type} [Inhabited μ] [Index ι μ] [lawful : LawfulIndex ι μ]

-- The loop's state: live below `lo`, idle above `hi`, anything between.
structure Gapped (t : lawful.Shape) (lo hi : Nat) (s : Store ι α μ) : Prop where
  moving : Moving t s.pool s.index
  enumerates : s.pool.Enumerates (slots t)
  idle : s.pool.isActive 0 = false
  live : ∀ i, 0 < i → i < lo → s.pool.isActive i = true
  dead : ∀ i, hi < i → s.pool.isActive i = false
  bottom : 0 < lo
  met : lo ≤ hi + 1
  top : hi < s.pool.slots.size

-- The loop's outcome: the live slots are 1 up to but excluding some number.
structure Gathered (t : lawful.Shape) (s after : Store ι α μ) : Prop where
  moving : Moving t after.pool after.index
  enumerates : after.pool.Enumerates (slots t)
  size : after.pool.slots.size = s.pool.slots.size
  capacity : after.pool.capacity = s.pool.capacity
  dense : ∃ stop, 0 < stop ∧ ∀ i, after.pool.isActive i = true ↔ 0 < i ∧ i < stop

theorem Gapped.gathered {t : lawful.Shape} {lo hi : Nat} {s : Store ι α μ} (gapped : Gapped t lo hi s)
    (done : ¬ lo < hi) : Gathered t s s := by
  have bottom := gapped.bottom
  have met := gapped.met
  refine ⟨gapped.moving, gapped.enumerates, rfl, rfl, ?_⟩
  by_cases last : s.pool.isActive lo = true
  · refine ⟨lo + 1, by omega, ?_⟩
    intro i
    constructor
    · intro live
      constructor
      · apply Nat.pos_of_ne_zero
        intro equal
        subst equal
        simp [gapped.idle] at live
      · by_contra far
        simp [gapped.dead i (by omega)] at live
    · intro given
      obtain ⟨positive, bound⟩ := given
      by_cases same : i = lo
      · rw [same, last]
      · exact gapped.live i positive (by omega)
  · refine ⟨lo, bottom, ?_⟩
    intro i
    constructor
    · intro live
      constructor
      · apply Nat.pos_of_ne_zero
        intro equal
        subst equal
        simp [gapped.idle] at live
      · by_contra far
        by_cases same : i = lo
        · exact last (same ▸ live)
        · simp [gapped.dead i (by omega)] at live
    · intro given
      obtain ⟨positive, bound⟩ := given
      exact gapped.live i positive bound

theorem Gapped.up {t : lawful.Shape} {lo hi : Nat} {s : Store ι α μ} (gapped : Gapped t lo hi s) (apart : lo < hi)
    (live : s.pool.isActive lo = true) : Gapped t (lo + 1) hi s := by
  refine { gapped with live := ?_, bottom := Nat.succ_pos lo, met := by omega }
  intro i positive bound
  by_cases same : i = lo
  · exact same ▸ live
  · exact gapped.live i positive (by omega)

theorem Gapped.down {t : lawful.Shape} {lo hi : Nat} {s : Store ι α μ} (gapped : Gapped t lo hi s) (apart : lo < hi)
    (idle : s.pool.isActive hi = false) : Gapped t lo (hi - 1) s := by
  have top := gapped.top
  refine { gapped with dead := ?_, met := by omega, top := by omega }
  intro i far
  by_cases same : i = hi
  · exact same ▸ idle
  · exact gapped.dead i (by omega)

theorem Gapped.move {t : lawful.Shape} {lo hi : Nat} {s : Store ι α μ} (gapped : Gapped t lo hi s)
    (open_ : lo < hi) (gap : s.pool.isActive lo = false) (last : s.pool.isActive hi = true) :
    Returns (Index.moved hi lo) { s with pool := s.pool.swap lo hi } fun _ after =>
      Gapped (rename (Pool.moveTo lo hi) t) (lo + 1) (hi - 1) after ∧
        Relabels lawful.keep (Pool.moveTo lo hi) (slots t) s.pool after.pool ∧
        after.pool.slots.size = s.pool.slots.size ∧ after.pool.capacity = s.pool.capacity := by
  have above := gapped.top
  have below : lo < s.pool.slots.size := Nat.lt_trans open_ above
  have bottom := gapped.bottom
  have absent : lo ∉ slots t := by
    intro member
    simp [(gapped.enumerates.mem lo).mp member] at gap
  have linkable : s.pool.Linkable (slots t) := by
    refine ⟨gapped.enumerates.nodup, ?_⟩
    intro i member
    have live := (gapped.enumerates.mem i).mp member
    refine ⟨Nat.pos_of_ne_zero ?_, Pool.isActive_lt live⟩
    intro agrees
    subst agrees
    simp [gapped.idle] at live
  refine (LawfulIndex.moved gapped.moving linkable ((gapped.enumerates.mem hi).mpr last) absent bottom below).returning ?_
  intro _ after ends
  obtain ⟨same, moving⟩ := ends
  have swapped : ∀ i, after.pool.isActive i =
      if i = hi then s.pool.isActive lo else if i = lo then s.pool.isActive hi else s.pool.isActive i := by
    intro i
    rw [same.isActive, Pool.isActive_swap below above]
  refine ⟨⟨moving, ?_, ?_, ?_, ?_, by omega, by omega, ?_⟩, ⟨same.count, ?_, ?_⟩, by simpa using same.size, same.capacity⟩
  · rw [slots_rename]
    exact same.enumerates (gapped.enumerates.swap below gap last)
  · have apart : ¬ 0 = hi ∧ ¬ 0 = lo := by omega
    rw [swapped, if_neg apart.1, if_neg apart.2]
    exact gapped.idle
  · intro i positive bound
    rw [swapped]
    by_cases same : i = lo
    · have apart : ¬ i = hi := by omega
      rw [if_neg apart, if_pos same, last]
    · have apart : ¬ i = hi := by omega
      rw [if_neg apart, if_neg same]
      exact gapped.live i positive (by omega)
  · intro i far
    rw [swapped]
    by_cases same : i = hi
    · rw [if_pos same, gap]
    · have apart : ¬ i = lo := by omega
      rw [if_neg same, if_neg apart]
      exact gapped.dead i (by omega)
  · rw [same.size, Pool.size_swap]
    omega
  · intro i member
    have off : i ≠ lo := fun equal => absent (equal ▸ member)
    rw [same.get?, Pool.get?_swap below above, Pool.moveTo]
    by_cases equal : i = hi
    · have apart : ¬ lo = hi := by omega
      simp [equal, apart]
    · simp [equal, off]
  · intro i member
    have off : i ≠ lo := fun equal => absent (equal ▸ member)
    rw [same.kept, Pool.linkAt_swap below above, Pool.moveTo]
    by_cases equal : i = hi
    · have apart : ¬ lo = hi := by omega
      simp [equal, apart]
    · simp [equal, off]

theorem closeGaps_returns {t : lawful.Shape} {lo hi : Nat} {s : Store ι α μ} (gapped : Gapped t lo hi s) :
    Returns (closeGaps Index.moved lo hi) s fun _ after => ∃ ρ, Gathered (rename ρ t) s after ∧
      Relabels lawful.keep ρ (slots t) s.pool after.pool := by
  have closing : Closing Index.moved (fun lo hi after => ∃ ρ, Gapped (rename ρ t) lo hi after ∧
      Relabels lawful.keep ρ (slots t) s.pool after.pool ∧ after.pool.slots.size = s.pool.slots.size ∧
        after.pool.capacity = s.pool.capacity) fun _ _ => False := by
    refine ⟨?_, ?_, ?_⟩
    · intro lo hi after now apart live
      obtain ⟨ρ, gapped, rest⟩ := now
      exact ⟨ρ, gapped.up apart live, rest⟩
    · intro lo hi after now apart _ idle
      obtain ⟨ρ, gapped, rest⟩ := now
      exact ⟨ρ, gapped.down apart idle, rest⟩
    · intro lo hi middle now apart gap live
      obtain ⟨ρ, gapped, relabels, size, capacity⟩ := now
      rw [move, ends_bind, ends_modify]
      refine (gapped.move apart gap live).returning ?_
      intro _ after told
      obtain ⟨moved, relabelled, size', capacity'⟩ := told
      rw [rename_rename] at moved
      rw [slots_rename] at relabelled
      exact ⟨_, moved, relabels.trans relabelled, size'.trans size, capacity'.trans capacity⟩
  have start : Gapped (rename id t) lo hi s := (rename_id t).symm ▸ gapped
  refine (closing.ends ⟨id, start, .refl .., rfl, rfl⟩).returning ?_
  intro _ after told
  obtain ⟨lo, hi, met, ρ, gapped, relabels, size, capacity⟩ := told
  exact ⟨ρ, { gapped.gathered met with size := size, capacity := capacity }, relabels⟩

theorem Gathered.stop_eq {t : lawful.Shape} {s after : Store ι α μ} (gathered : Gathered t s after)
    (counted : after.pool.count = (slots t).length) (i : Nat) :
    after.pool.isActive i = true ↔ 0 < i ∧ i < after.pool.count + 1 := by
  obtain ⟨stop, positive, dense⟩ := gathered.dense
  have same : (slots t).Perm (List.range' 1 (stop - 1)) := by
    rw [List.perm_ext_iff_of_nodup gathered.enumerates.nodup List.nodup_range']
    intro j
    rw [gathered.enumerates.mem, dense, List.mem_range'_1]
    omega
  have length : after.pool.count = stop - 1 := by rw [counted, same.length_eq, List.length_range']
  rw [dense]
  omega

variable {t : lawful.Shape} {s : Store ι α μ}

-- All that compaction has to find: the books are right, and the index can be mended.
structure Ready (t : lawful.Shape) (s : Store ι α μ) : Prop where
  tidy : s.pool.Tidy
  moving : Moving t s.pool s.index
  enumerates : s.pool.Enumerates (slots t)
  counted : s.pool.count = (slots t).length

theorem Sound.ready (sound : Sound t s) : Ready t s :=
  ⟨sound.tidy, moving sound.threads, sound.enumerates, sound.counted⟩

theorem Ready.count_lt (ready : Ready t s) : s.pool.count < s.pool.next :=
  ready.tidy.count_lt ready.enumerates ready.counted

theorem Ready.gapped (ready : Ready t s) (several : 1 < s.pool.slots.size) :
    Gapped t 1 (s.pool.slots.size - 1) s := by
  refine ⟨ready.moving, ready.enumerates, ready.tidy.idle, fun i _ _ => by omega, ?_, by omega, by omega, by omega⟩
  intro i far
  by_contra live
  have inside := Pool.isActive_lt (by simpa using live)
  omega

theorem Gathered.cut {ρ : Nat → Nat} {after : Store ι α μ} (ready : Ready t s)
    (gathered : Gathered (rename ρ t) s after) (relabels : Relabels lawful.keep ρ (slots t) s.pool after.pool)
    (several : 1 < s.pool.slots.size) :
    after.pool.dropTail.Tidy ∧ after.pool.dropTail.Enumerates (slots (rename ρ t)) ∧
      Moving (rename ρ t) after.pool.dropTail after.index ∧
      Relabels lawful.keep ρ (slots t) s.pool after.pool.dropTail := by
  have counted : after.pool.count = (slots (rename ρ t)).length := by
    rw [relabels.count, ready.counted, slots_rename, List.length_map]
  have dense := gathered.stop_eq counted
  have low : ∀ i ∈ slots (rename ρ t), i < after.pool.count + 1 := by
    intro i member
    exact ((dense i).mp ((gathered.enumerates.mem i).mp member)).2
  have lowImage : ∀ i ∈ slots t, ρ i < after.pool.count + 1 := by
    intro i member
    apply low
    rw [slots_rename]
    exact List.mem_map_of_mem member
  have live : ∀ i, after.pool.dropTail.isActive i = after.pool.isActive i := by
    intro i
    rw [Pool.isActive_dropTail]
    by_cases active : after.pool.isActive i = true
    · simp [active, ((dense i).mp active).2]
    · simp [active]
  have enumerates : after.pool.dropTail.Enumerates (slots (rename ρ t)) :=
    ⟨gathered.enumerates.nodup, fun i => by rw [gathered.enumerates.mem, live]⟩
  have dropped : Relabels lawful.keep ρ (slots t) s.pool after.pool.dropTail := by
    refine ⟨relabels.count, ?_, ?_⟩
    · intro i member
      rw [Pool.get?_dropTail (lowImage i member), relabels.held i member]
    · intro i member
      rw [Pool.linkAt_dropTail (lowImage i member), relabels.kept i member]
  refine ⟨⟨?_, ?_, ?_, ?_, ?_⟩, enumerates, ?_, dropped⟩
  · rw [live]
    by_contra active
    have positive := (dense 0).mp (by simpa using active)
    omega
  · intro j jLive
    rw [live, ← gathered.enumerates.mem, slots_rename, List.mem_map] at jLive
    obtain ⟨i, member, rfl⟩ := jLive
    rw [dropped.held i member]
    exact ready.tidy.filled i ((ready.enumerates.mem i).mp member)
  · have fits := ready.tidy.fits
    rw [Pool.size_dropTail, gathered.size]
    change _ ≤ after.pool.capacity
    rw [gathered.capacity]
    omega
  · intro _
    rw [Pool.size_dropTail, gathered.size]
    omega
  · change after.pool.capacity ≤ _
    rw [gathered.capacity]
    exact ready.tidy.limit
  · exact movingFrame gathered.moving (fun i member => Pool.linkAt_dropTail (low i member)) rfl

-- Compaction leaves every element under a new number, and the numbers are 1 to the length.
theorem compact_mends (ready : Ready t s) :
    Returns compact s fun _ after => ∃ ρ, Carries ρ t s after ∧ after.pool.capacity = s.pool.capacity ∧
      after.pool.next = s.pool.count + 1 := by
  have fewer := ready.count_lt
  rw [compact, compactWith, Returns, ends_bind, ends_bind, ends_get]
  dsimp only
  split
  · rename_i several
    rw [ends_bind]
    refine (closeGaps_returns (ready.gapped several)).returning ?_
    intro _ middle ends
    obtain ⟨ρ, gathered, relabels⟩ := ends
    obtain ⟨tidy, enumerates, moving, dropped⟩ := gathered.cut ready relabels several
    rw [ends_modify]
    refine (settled (s := ⟨middle.pool.dropTail, middle.index⟩) moving tidy enumerates).returning ?_
    intro _ after ends
    obtain ⟨same, threads⟩ := ends
    refine ⟨ρ, ⟨⟨same.tidy tidy, threads, same.enumerates enumerates, ?_⟩, dropped.same_bodies same⟩, ?_, ?_⟩
    · rw [same.count, dropped.count, ready.counted, slots_rename, List.length_map]
    · exact same.capacity.trans gathered.capacity
    · rw [Pool.next] at fewer
      rw [same.next, Pool.next, Pool.size_dropTail, relabels.count, gathered.size]
      omega
  · rename_i single
    rw [ends_pure]
    refine (settled ready.moving ready.tidy ready.enumerates).returning ?_
    intro _ after ends
    obtain ⟨same, threads⟩ := ends
    refine ⟨id, ⟨⟨same.tidy ready.tidy, ?_, ?_, ?_⟩, (Relabels.refl ..).same_bodies same⟩, same.capacity, ?_⟩
    · rwa [rename_id]
    · rw [rename_id]
      exact same.enumerates ready.enumerates
    · rw [rename_id, same.count, ready.counted]
    · rw [Pool.next] at fewer
      rw [same.next, Pool.next]
      omega

theorem compact_returns (sound : Sound t s) :
    Returns compact s fun _ after => ∃ ρ, Carries ρ t s after ∧ after.pool.capacity = s.pool.capacity ∧
      after.pool.next = s.pool.count + 1 := compact_mends sound.ready

theorem reorder_returns (sound : Sound t s) :
    Returns reorder s fun _ after => ∃ ρ, Carries ρ t s after ∧ after.pool.capacity = s.pool.capacity ∧
      after.pool.next = s.pool.count + 1 := by
  have fewer := sound.count_lt
  rw [reorder, Returns, ends_bind, ends_get, sound.tombstones_run, ends_bind, ends_lift]
  split
  · exact compact_returns sound
  · rename_i none
    rw [ends_pure]
    refine ⟨id, ⟨?_, .refl ..⟩, rfl, by omega⟩
    rwa [rename_id]

theorem reorder_mends (ready : Ready t s) :
    Returns reorder s fun _ after => ∃ ρ, Ready (rename ρ t) after ∧ Relabels lawful.keep ρ (slots t) s.pool after.pool := by
  rw [reorder, Returns, ends_bind, ends_get, Pool.tombstones_run ready.count_lt, ends_bind, ends_lift]
  split
  · refine (compact_mends ready).returning fun _ after told => ?_
    obtain ⟨ρ, carries, _⟩ := told
    exact ⟨ρ, carries.sound.ready, carries.relabels⟩
  · exact ⟨id, by rwa [rename_id], .refl ..⟩

end Store
end Slotted
