import Slotted.Proofs.Store.Compact
import Slotted.Proofs.Store.Relinking
namespace Slotted

namespace Pool

variable {α μ δ : Type} {p q r : Pool α μ} {i lo hi : Nat}

-- The live slots above the number of elements and up to `hi`, the highest first.
def stragglers (p : Pool α μ) (hi : Nat) : List Nat :=
  (List.range' (p.count + 1) (hi - p.count)).reverse.filter p.isActive

-- The idle slots from `lo` up to the number of elements, the lowest first.
def gaps (p : Pool α μ) (lo : Nat) : List Nat := (List.range' lo (p.count + 1 - lo)).filter fun i => !p.isActive i

-- The moves that close the gaps, each from where a slot stands to where it goes.
def moves (p : Pool α μ) : List (Nat × Nat) := (p.stragglers (p.slots.size - 1)).zip (p.gaps 1)

theorem mem_stragglers : i ∈ p.stragglers hi ↔ (p.count < i ∧ i ≤ hi) ∧ p.isActive i = true := by
  rw [stragglers, List.mem_filter, List.mem_reverse, List.mem_range'_1]
  refine and_congr_left' ?_
  omega

theorem mem_gaps : i ∈ p.gaps lo ↔ (lo ≤ i ∧ i ≤ p.count) ∧ p.isActive i = false := by
  rw [gaps, List.mem_filter, List.mem_range'_1, Bool.not_eq_true']
  refine and_congr_left' ?_
  omega

theorem nodup_stragglers : (p.stragglers hi).Nodup :=
  (List.nodup_reverse.mpr List.nodup_range').filter _

theorem nodup_gaps : (p.gaps lo).Nodup := List.Nodup.filter _ List.nodup_range'

theorem stragglers_above (above : p.count < hi) :
    p.stragglers hi = if p.isActive hi then hi :: p.stragglers (hi - 1) else p.stragglers (hi - 1) := by
  have steps : hi - p.count = hi - 1 - p.count + 1 := by omega
  have last : p.count + 1 + (hi - 1 - p.count) = hi := by omega
  rw [stragglers, steps, List.range'_1_concat, List.reverse_append, last, List.reverse_singleton, List.singleton_append,
    List.filter_cons]
  rfl

theorem stragglers_below (below : hi ≤ p.count) : p.stragglers hi = [] := by
  rw [stragglers, Nat.sub_eq_zero_of_le below]
  rfl

theorem gaps_below (below : lo ≤ p.count) :
    p.gaps lo = if p.isActive lo then p.gaps (lo + 1) else lo :: p.gaps (lo + 1) := by
  have steps : p.count + 1 - lo = p.count + 1 - (lo + 1) + 1 := by omega
  rw [gaps, steps, List.range'_succ, List.filter_cons]
  cases p.isActive lo <;> rfl

theorem gaps_above (above : p.count < lo) : p.gaps lo = [] := by
  rw [gaps, Nat.sub_eq_zero_of_le above]
  rfl

theorem stragglers_of_idle (idle : p.isActive hi = false) : p.stragglers hi = p.stragglers (hi - 1) := by
  by_cases above : p.count < hi
  · rw [stragglers_above above, idle, if_neg Bool.false_ne_true]
  · rw [stragglers_below (by omega), stragglers_below (by omega)]

theorem gaps_of_live (live : p.isActive lo = true) : p.gaps lo = p.gaps (lo + 1) := by
  by_cases below : lo ≤ p.count
  · rw [gaps_below below, live, if_pos rfl]
  · rw [gaps_above (by omega), gaps_above (by omega)]

-- Where there are as many of both, an idle slot below a live one is a gap that calls for it.
theorem parted_of_even (even : (p.stragglers hi).length = (p.gaps lo).length) (idle : p.isActive lo = false)
    (live : p.isActive hi = true) (ordered : lo < hi) : lo ≤ p.count ∧ p.count < hi := by
  constructor
  · by_contra high
    have straggler : hi ∈ p.stragglers hi := mem_stragglers.mpr ⟨by omega, live⟩
    rw [gaps_above (by omega)] at even
    exact List.ne_nil_of_mem straggler (List.length_eq_zero_iff.mp even)
  · by_contra low
    have gap : lo ∈ p.gaps lo := mem_gaps.mpr ⟨by omega, idle⟩
    rw [stragglers_below (by omega)] at even
    exact List.ne_nil_of_mem gap (List.length_eq_zero_iff.mp even.symm)

theorem stragglers_congr (count : q.count = p.count) (same : ∀ i, p.count < i → i ≤ hi → q.isActive i = p.isActive i) :
    q.stragglers hi = p.stragglers hi := by
  rw [stragglers, stragglers, count]
  refine List.filter_congr fun i member => same i ?_ ?_
  all_goals
    rw [List.mem_reverse, List.mem_range'_1] at member
    omega

theorem gaps_congr (count : q.count = p.count) (same : ∀ i, lo ≤ i → i ≤ p.count → q.isActive i = p.isActive i) :
    q.gaps lo = p.gaps lo := by
  rw [gaps, gaps, count]
  refine List.filter_congr fun i member => ?_
  rw [List.mem_range'_1] at member
  rw [same i member.1 (by omega)]

theorem length_gaps : ((List.range' 1 p.count).filter p.isActive).length + (p.gaps 1).length = p.count := by
  have parted := List.length_eq_length_filter_add p.isActive (l := List.range' 1 p.count)
  rw [List.length_range'] at parted
  exact parted.symm

theorem enumerates_settled (idle : p.isActive 0 = false) :
    p.Enumerates ((List.range' 1 p.count).filter p.isActive ++ p.stragglers (p.slots.size - 1)) := by
  refine ⟨List.nodup_append.mpr ⟨List.Nodup.filter _ List.nodup_range', nodup_stragglers, ?_⟩, fun i => ?_⟩
  · intro i low j high same
    rw [List.mem_filter, List.mem_range'_1] at low
    rw [mem_stragglers] at high
    omega
  · rw [List.mem_append, List.mem_filter, List.mem_range'_1, mem_stragglers, ← or_and_right]
    refine and_iff_right_of_imp fun live => ?_
    have inside := isActive_lt live
    have positive : i ≠ 0 := fun same => by simp [same, idle] at live
    omega

theorem even_moves (idle : p.isActive 0 = false) (counted : p.count = p.slots.countP (·.active)) :
    (p.stragglers (p.slots.size - 1)).length = (p.gaps 1).length := by
  have all := (enumerates_settled idle).countP_eq
  rw [← counted, List.length_append] at all
  have low := length_gaps (p := p)
  omega

theorem count_fits (idle : p.isActive 0 = false) (counted : p.count = p.slots.countP (·.active)) :
    p.count < p.slots.size ∨ p.slots.size = 0 ∧ p.count = 0 := by
  have settled := enumerates_settled idle
  rw [counted, settled.countP_eq]
  by_cases allocated : 0 < p.slots.size
  · exact .inl (settled.length_lt idle allocated)
  · have none : p.slots.size = 0 := Nat.eq_zero_of_not_pos allocated
    refine .inr ⟨none, ?_⟩
    rw [← settled.countP_eq, Array.eq_empty_of_size_eq_zero none]
    rfl

-- What one slot shows in a later pool is what another one showed before.
structure Carried [Inhabited μ] (keep : μ → δ) (p : Pool α μ) (i : Nat) (q : Pool α μ) (j : Nat) : Prop where
  isActive : q.isActive j = p.isActive i
  storedAt : q.storedAt j = p.storedAt i
  kept : keep (q.linkAt j) = keep (p.linkAt i)

section Carried

variable [Inhabited μ] {keep : μ → δ} {j k : Nat}

theorem Carried.trans (first : Carried keep p i q j) (second : Carried keep q j r k) : Carried keep p i r k :=
  ⟨second.isActive.trans first.isActive, second.storedAt.trans first.storedAt, second.kept.trans first.kept⟩

theorem Carried.of_slot (same : q.slots[j]? = p.slots[i]?) : Carried keep p i q j := by
  refine ⟨?_, ?_, ?_⟩
  · simp only [Pool.isActive, same]
  · simp only [Pool.storedAt, same]
  · simp only [linkAt, same]

theorem SameBodies.carried (same : SameBodies keep p q) (i : Nat) : Carried keep p i q i :=
  ⟨same.isActive i, same.storedAt i, same.kept i⟩

theorem Carried.get? (carried : Carried keep p i q j) : q.get? j = p.get? i := by
  rw [get?_eq, get?_eq, carried.isActive, carried.storedAt]

theorem carried_dropTail (inside : i ≤ p.count) : Carried keep p i p.dropTail i :=
  .of_slot (by rw [slots_dropTail, if_pos (by omega)])

end Carried

structure Apart (steps : List (Nat × Nat)) : Prop where
  sources : (steps.map (·.1)).Nodup
  targets : (steps.map (·.2)).Nodup
  between : ∀ step ∈ steps, ∀ other ∈ steps, step.1 ≠ other.2

namespace Apart

variable {step : Nat × Nat} {steps rest : List (Nat × Nat)}

theorem first (apart : Apart (steps ++ rest)) : Apart steps := by
  obtain ⟨sources, targets, between⟩ := apart
  rw [List.map_append, List.nodup_append] at sources targets
  exact ⟨sources.1, targets.1, fun one member other member' =>
    between one (List.mem_append_left _ member) other (List.mem_append_left _ member')⟩

theorem perm (apart : Apart steps) (same : steps.Perm rest) : Apart rest :=
  ⟨(same.map _).nodup_iff.mp apart.sources, (same.map _).nodup_iff.mp apart.targets, fun one member other member' =>
    apart.between one (same.mem_iff.mpr member) other (same.mem_iff.mpr member')⟩

theorem tail (apart : Apart (step :: steps)) : Apart steps :=
  ⟨(List.nodup_cons.mp apart.sources).2, (List.nodup_cons.mp apart.targets).2,
    fun one member other member' => apart.between one (.tail _ member) other (.tail _ member')⟩

theorem head (apart : Apart (step :: steps)) {other : Nat × Nat} (member : other ∈ steps) :
    (step.1 ≠ other.1 ∧ step.1 ≠ other.2) ∧ step.2 ≠ other.1 ∧ step.2 ≠ other.2 := by
  refine ⟨⟨fun same => ?_, apart.between step (.head _) other (.tail _ member)⟩,
    Ne.symm (apart.between other (.tail _ member) step (.head _)), fun same => ?_⟩
  · exact (List.nodup_cons.mp apart.sources).1 (List.mem_map.mpr ⟨other, member, same.symm⟩)
  · exact (List.nodup_cons.mp apart.targets).1 (List.mem_map.mpr ⟨other, member, same.symm⟩)

end Apart

theorem sources_moves (even : (p.stragglers (p.slots.size - 1)).length = (p.gaps 1).length) :
    p.moves.map (·.1) = p.stragglers (p.slots.size - 1) := List.map_fst_zip (Nat.le_of_eq even)

theorem targets_moves (even : (p.stragglers (p.slots.size - 1)).length = (p.gaps 1).length) :
    p.moves.map (·.2) = p.gaps 1 := List.map_snd_zip (Nat.le_of_eq even.symm)

theorem of_mem_moves {step : Nat × Nat} (member : step ∈ p.moves) :
    step.1 ∈ p.stragglers (p.slots.size - 1) ∧ step.2 ∈ p.gaps 1 := List.of_mem_zip member

theorem gap_of_mem_moves {step : Nat × Nat} (member : step ∈ p.moves) :
    p.isActive step.2 = false ∧ step.2 < p.slots.size := by
  have high := mem_stragglers.mp (of_mem_moves member).1
  have low := mem_gaps.mp (of_mem_moves member).2
  have inside := isActive_lt high.2
  exact ⟨low.2, by omega⟩

theorem live_of_mem_moves {step : Nat × Nat} (member : step ∈ p.moves) : p.isActive step.1 = true :=
  (mem_stragglers.mp (of_mem_moves member).1).2

theorem apart_moves (even : (p.stragglers (p.slots.size - 1)).length = (p.gaps 1).length) : Apart p.moves := by
  refine ⟨?_, ?_, fun step member other member' => ?_⟩
  · rw [sources_moves even]
    exact nodup_stragglers
  · rw [targets_moves even]
    exact nodup_gaps
  · have high := mem_stragglers.mp (of_mem_moves member).1
    have low := mem_gaps.mp (of_mem_moves member').2
    omega

-- What a list of moves has made of a pool.
structure Exchanged [Inhabited μ] (keep : μ → δ) (steps : List (Nat × Nat)) (p q : Pool α μ) : Prop where
  size : q.slots.size = p.slots.size
  capacity : q.capacity = p.capacity
  count : q.count = p.count
  moved : ∀ step ∈ steps, Carried keep p step.1 q step.2
  vacated : ∀ step ∈ steps, Carried keep p step.2 q step.1
  others : ∀ i, (∀ step ∈ steps, i ≠ step.1 ∧ i ≠ step.2) → Carried keep p i q i

theorem Exchanged.refl [Inhabited μ] {keep : μ → δ} : Exchanged keep [] p p :=
  ⟨rfl, rfl, rfl, fun _ member => absurd member List.not_mem_nil, fun _ member => absurd member List.not_mem_nil,
    fun _ _ => .of_slot rfl⟩

theorem Exchanged.cons [Inhabited μ] {keep : μ → δ} {source target : Nat} {steps : List (Nat × Nat)}
    (apart : Apart ((source, target) :: steps)) (below : target < p.slots.size) (above : source < p.slots.size)
    (same : SameBodies keep (p.swap target source) q) (rest : Exchanged keep steps q r) :
    Exchanged keep ((source, target) :: steps) p r := by
  have ne := apart.between _ (.head _) _ (.head _)
  have slots := slots_swap below above
  have up : Carried keep p source q target :=
    (Carried.of_slot (by rw [slots, if_neg (Ne.symm ne), if_pos rfl])).trans (same.carried target)
  have down : Carried keep p target q source :=
    (Carried.of_slot (by rw [slots, if_pos rfl])).trans (same.carried source)
  have beside : ∀ i, i ≠ source → i ≠ target → Carried keep p i q i := fun i apartS apartT =>
    (Carried.of_slot (by rw [slots, if_neg apartS, if_neg apartT])).trans (same.carried i)
  refine ⟨?_, rest.capacity.trans same.capacity, rest.count.trans same.count, ?_, ?_, ?_⟩
  · rw [rest.size, same.size, size_swap]
  · intro step member
    rcases List.mem_cons.mp member with rfl | member
    · exact up.trans (rest.others target fun step member => (apart.head member).2)
    · have head := apart.head member
      exact (beside _ (Ne.symm head.1.1) (Ne.symm head.2.1)).trans (rest.moved step member)
  · intro step member
    rcases List.mem_cons.mp member with rfl | member
    · exact down.trans (rest.others source fun step member => (apart.head member).1)
    · have head := apart.head member
      exact (beside _ (Ne.symm head.1.2) (Ne.symm head.2.2)).trans (rest.vacated step member)
  · intro i outside
    obtain ⟨apartS, apartT⟩ := outside (source, target) (.head _)
    exact (beside i apartS apartT).trans (rest.others i fun step member => outside step (.tail _ member))

-- A pool whose elements have the numbers from 1 to their number. Those that had such a number keep it, the others went
-- where the moves sent them, and nothing else of the pool has changed.
structure Compacted [Inhabited μ] (keep : μ → δ) (p q : Pool α μ) : Prop where
  next : q.next = p.count + 1
  capacity : q.capacity = p.capacity
  count : q.count = p.count
  live : ∀ i, q.isActive i = true ↔ 1 ≤ i ∧ i ≤ p.count
  stayed : ∀ i ≤ p.count, i = 0 ∨ p.isActive i = true → Carried keep p i q i
  moved : ∀ step ∈ p.moves, Carried keep p step.1 q step.2
  contents : q.contents = p.contents

theorem Exchanged.compacted [Inhabited μ] {keep : μ → δ} (idle : p.isActive 0 = false)
    (counted : p.count = p.slots.countP (·.active)) (exchanged : Exchanged keep p.moves p q) :
    Compacted keep p q.dropTail := by
  have even := even_moves idle counted
  have cut : ∀ i ≤ p.count, Carried keep q i q.dropTail i := fun i inside =>
    carried_dropTail (by rwa [exchanged.count])
  have moved : ∀ step ∈ p.moves, Carried keep p step.1 q.dropTail step.2 := fun step member =>
    (exchanged.moved step member).trans (cut _ (mem_gaps.mp (of_mem_moves member).2).1.2)
  have stayed : ∀ i ≤ p.count, i = 0 ∨ p.isActive i = true → Carried keep p i q.dropTail i := by
    intro i inside held
    refine (exchanged.others i fun step member => ?_).trans (cut i inside)
    have high := mem_stragglers.mp (of_mem_moves member).1
    have low := mem_gaps.mp (of_mem_moves member).2
    refine ⟨by omega, fun same => ?_⟩
    rcases held with rfl | held
    · omega
    · rw [same, low.2] at held
      cases held
  have live : ∀ i, q.dropTail.isActive i = true ↔ 1 ≤ i ∧ i ≤ p.count := by
    intro i
    constructor
    · intro active
      rw [isActive_dropTail, Bool.and_eq_true, decide_eq_true_eq, exchanged.count] at active
      refine ⟨Nat.pos_of_ne_zero fun none => ?_, by omega⟩
      subst none
      have bottom := (stayed 0 (Nat.zero_le _) (.inl rfl)).isActive
      rw [isActive_dropTail, active.2, idle] at bottom
      simp at bottom
    · intro inside
      cases active : p.isActive i with
      | true => rw [(stayed i inside.2 (.inr active)).isActive, active]
      | false =>
        have gap : i ∈ p.gaps 1 := mem_gaps.mpr ⟨inside, active⟩
        rw [← targets_moves even, List.mem_map] at gap
        obtain ⟨step, member, rfl⟩ := gap
        rw [(moved step member).isActive]
        exact (mem_stragglers.mp (of_mem_moves member).1).2
  have enumerates : q.dropTail.Enumerates ((List.range' 1 p.count).filter p.isActive ++ p.gaps 1) := by
    refine ⟨List.nodup_append.mpr ⟨List.Nodup.filter _ List.nodup_range', nodup_gaps, ?_⟩, fun i => ?_⟩
    · intro i active j gap same
      have active := (List.mem_filter.mp active).2
      rw [same, (mem_gaps.mp gap).2] at active
      cases active
    · rw [List.mem_append, List.mem_filter, List.mem_range'_1, mem_gaps, live]
      cases p.isActive i with
      | true =>
        simp
        omega
      | false => simp
  refine ⟨?_, exchanged.capacity, exchanged.count, live, stayed, moved, ?_⟩
  · have fits := count_fits idle counted
    rw [Pool.next, size_dropTail, exchanged.count, exchanged.size]
    omega
  · rw [enumerates.contents_eq, (enumerates_settled idle).contents_eq, List.filterMap_append, List.filterMap_append,
      ← sources_moves even, ← targets_moves even, List.filterMap_map, List.filterMap_map]
    congr 2
    · refine List.filterMap_congr fun i member => ?_
      obtain ⟨inside, active⟩ := List.mem_filter.mp member
      rw [List.mem_range'_1] at inside
      exact (stayed i (by omega) (.inr active)).get?
    · exact List.filterMap_congr fun step member => (moved step member).get?

theorem Compacted.same_bodies [Inhabited μ] {keep : μ → δ} (compacted : Compacted keep p q) (same : SameBodies keep q r) :
    Compacted keep p r := by
  refine ⟨same.next.trans compacted.next, same.capacity.trans compacted.capacity, same.count.trans compacted.count, ?_,
    ?_, ?_, ?_⟩
  · intro i
    rw [same.isActive]
    exact compacted.live i
  · exact fun i inside held => (compacted.stayed i inside held).trans (same.carried i)
  · exact fun step member => (compacted.moved step member).trans (same.carried step.2)
  · rw [Pool.contents, same.entries_eq]
    exact compacted.contents

end Pool

namespace Store

open Pool

variable {ι α μ δ : Type} [Inhabited μ] {keep : μ → δ} {relocate : Nat → Nat → Edit (Store ι α μ) Unit} {s : Store ι α μ}
  {lo hi : Nat}

-- A hook that may write the index and what is not kept of the links, and may fault. It is asked about a live slot and the
-- number that slot had.
def Relocates (keep : μ → δ) (relocate : Nat → Nat → Edit (Store ι α μ) Unit) : Prop :=
  ∀ source target s, s.pool.isActive target = true → s.pool.isActive source = false →
    Ends (relocate source target) s (fun _ after => SameBodies keep s.pool after.pool) fun _ _ => True

theorem Relocates.moves (mild : Relocates keep relocate) (step : Nat × Nat)
    (gap : s.pool.isActive step.2 = false ∧ step.2 < s.pool.slots.size) (live : s.pool.isActive step.1 = true) :
    Ends (move relocate step) s (fun _ after => SameBodies keep (s.pool.swap step.2 step.1) after.pool) fun fault _ =>
      ∃ m m', relocate step.1 step.2 m = .error fault m' := by
  obtain ⟨idle, below⟩ := gap
  have above := isActive_lt live
  have apart : step.2 ≠ step.1 := fun same => by simp [← same, idle] at live
  have hook := mild step.1 step.2 { s with pool := s.pool.swap step.2 step.1 }
    (by simp [isActive_swap below above, apart, live]) (by simp [isActive_swap below above, idle])
  rw [move, ends_bind, ends_modify]
  unfold Ends at hook ⊢
  cases ran : relocate step.1 step.2 { s with pool := s.pool.swap step.2 step.1 } with
  | ok _ after => simpa only [ran] using hook
  | error fault after => exact ⟨_, _, ran⟩

omit [Inhabited μ] in
theorem moves_met (met : ¬ lo < hi) : (s.pool.stragglers hi).zip (s.pool.gaps lo) = [] := by
  by_contra some
  obtain ⟨step, member⟩ := List.exists_mem_of_ne_nil _ some
  have parts := List.of_mem_zip member
  have high := mem_stragglers.mp parts.1
  have low := mem_gaps.mp parts.2
  omega

-- The loop makes the moves that the slots from `lo` to `hi` call for. As long as there are as many slots to be moved as
-- gaps, it passes over all others and comes to the first of both, or there is neither.
theorem closeGaps_eq (mild : Relocates keep relocate) (even : (s.pool.stragglers hi).length = (s.pool.gaps lo).length)
    (top : hi < s.pool.slots.size) :
    closeGaps relocate lo hi s = ((s.pool.stragglers hi).zip (s.pool.gaps lo)).forM (move relocate) s := by
  set result := ((s.pool.stragglers hi).zip (s.pool.gaps lo)).forM (move relocate) s with whole
  have closing : Closing relocate (fun lo hi after => (after.pool.stragglers hi).length = (after.pool.gaps lo).length ∧
      hi < after.pool.slots.size ∧ result = ((after.pool.stragglers hi).zip (after.pool.gaps lo)).forM (move relocate) after)
      fun fault after => result = .error fault after := by
    refine ⟨?_, ?_, ?_⟩
    · intro lo hi after now _ live
      rwa [gaps_of_live live] at now
    · intro lo hi after now _ _ idle
      rw [stragglers_of_idle idle] at now
      exact ⟨now.1, by omega, now.2.2⟩
    · intro lo hi middle now apart gap live
      obtain ⟨even, top, same⟩ := now
      obtain ⟨below, above⟩ := parted_of_even even gap live apart
      rw [stragglers_above above, gaps_below below, live, gap, if_pos rfl, if_neg Bool.false_ne_true] at even same
      have moved := mild.moves (hi, lo) ⟨gap, Nat.lt_trans apart top⟩ live
      change result = (move relocate (hi, lo) >>= fun _ => List.forM _ (move relocate)) middle at same
      unfold Ends at moved ⊢
      cases ran : move relocate (hi, lo) middle with
      | error fault after =>
        rw [same]
        simp only [bind, EStateM.bind, ran]
      | ok _ after =>
        rw [ran] at moved
        have swapped := isActive_swap (Nat.lt_trans apart top) top
        have stragglers : after.pool.stragglers (hi - 1) = middle.pool.stragglers (hi - 1) := by
          refine stragglers_congr moved.count fun i high low => ?_
          rw [moved.isActive, swapped, if_neg (by omega), if_neg (by omega)]
        have gaps : after.pool.gaps (lo + 1) = middle.pool.gaps (lo + 1) := by
          refine gaps_congr moved.count fun i low high => ?_
          rw [moved.isActive, swapped, if_neg (by omega), if_neg (by omega)]
        dsimp only
        rw [stragglers, gaps, moved.size, size_swap]
        rw [bind_ok ran] at same
        exact ⟨Nat.succ_injective even, by omega, same⟩
  have run := closing.ends ⟨even, top, whole⟩
  unfold Ends at run
  cases ran : closeGaps relocate lo hi s with
  | error fault after =>
    rw [ran] at run
    exact run.symm
  | ok _ after =>
    rw [ran] at run
    obtain ⟨lo, hi, met, _, _, same⟩ := run
    rw [same, moves_met met]
    rfl

-- What a list of moves makes of the pool, move by move. Only a hook can stop them.
theorem moves_exchange (mild : Relocates keep relocate) {steps : List (Nat × Nat)} (apart : Apart steps)
    (gap : ∀ step ∈ steps, s.pool.isActive step.2 = false ∧ step.2 < s.pool.slots.size)
    (live : ∀ step ∈ steps, s.pool.isActive step.1 = true) :
    Ends (steps.forM (move relocate)) s (fun _ after => Exchanged keep steps s.pool after.pool) fun fault _ =>
      ∃ step ∈ steps, ∃ m m', relocate step.1 step.2 m = .error fault m' := by
  induction steps generalizing s with
  | nil => exact .refl
  | cons step steps ih =>
    have below := (gap step (.head _)).2
    have above := isActive_lt (live step (.head _))
    change Ends (move relocate step >>= fun _ => steps.forM (move relocate)) s _ _
    refine Ends.bind ((mild.moves step (gap step (.head _)) (live step (.head _))).faulting fun fault _ faulted =>
      ⟨step, .head _, faulted⟩) ?_
    intro _ m same
    have beside : ∀ i, i ≠ step.1 → i ≠ step.2 → m.pool.isActive i = s.pool.isActive i := fun i apartS apartT => by
      rw [same.isActive, isActive_swap below above, if_neg apartS, if_neg apartT]
    refine (ih apart.tail ?_ ?_).imp (fun _ after rest => rest.cons apart below above same) ?_
    · intro other member
      have head := apart.head member
      rw [beside _ (Ne.symm head.1.2) (Ne.symm head.2.2), same.size, size_swap]
      exact gap other (.tail _ member)
    · intro other member
      have head := apart.head member
      rw [beside _ (Ne.symm head.1.1) (Ne.symm head.2.1)]
      exact live other (.tail _ member)
    · exact fun fault _ faulted => faulted.imp fun other told => ⟨.tail _ told.1, told.2⟩

-- Compaction is nothing but those moves in that order and the cut behind them.
theorem compactWith_eq (mild : Relocates keep relocate) (idle : s.pool.isActive 0 = false)
    (counted : s.pool.count = s.pool.slots.countP (·.active)) :
    compactWith relocate s =
      (do s.pool.moves.forM (move relocate); modify fun s => { s with pool := s.pool.dropTail } :
        Edit (Store ι α μ) Unit) s := by
  have even := even_moves idle counted
  rw [compactWith, get_bind]
  split
  · simp only [bind, EStateM.bind]
    rw [closeGaps_eq mild even (by omega)]
    rfl
  · have fits := count_fits idle counted
    have none : s.pool.moves = [] := by
      rw [Pool.moves, stragglers_below (by omega)]
      rfl
    have whole : s.pool.dropTail = s.pool := by
      unfold dropTail
      rw [Array.take_eq_extract, Array.extract_eq_self_of_le (by omega)]
    rw [none]
    change EStateM.Result.ok () s = .ok () { s with pool := s.pool.dropTail }
    rw [whole]

theorem compactWith_ends (mild : Relocates keep relocate) (idle : s.pool.isActive 0 = false)
    (counted : s.pool.count = s.pool.slots.countP (·.active)) :
    Ends (compactWith relocate) s (fun _ after => Compacted keep s.pool after.pool) fun fault _ =>
      ∃ step ∈ s.pool.moves, ∃ m m', relocate step.1 step.2 m = .error fault m' := by
  have moved := moves_exchange mild (apart_moves (even_moves idle counted)) (fun _ => gap_of_mem_moves)
    fun _ => live_of_mem_moves
  rw [Ends, compactWith_eq mild idle counted]
  change Ends (s.pool.moves.forM (move relocate) >>= fun _ => modify fun s => { s with pool := s.pool.dropTail }) s _ _
  refine Ends.bind moved ?_
  intro _ m exchanged
  exact exchanged.compacted idle counted

-- The hooks of the containers are mild, and so compaction of a container places its elements whatever its links are. Only
-- what it finds wrong with those can stop it.
theorem compact_ends [Index ι μ] [linking : LinkingIndex ι μ] (idle : s.pool.isActive 0 = false)
    (counted : s.pool.count = s.pool.slots.countP (·.active)) :
    Ends compact s (fun _ after => Compacted (fun _ => ()) s.pool after.pool) fun fault _ => fault.Internal := by
  have mild : Relocates (fun _ => ()) (Index.moved : Nat → Nat → Edit (Store ι α μ) Unit) := fun source target s _ _ =>
    (linking.moved source target s).faulting fun _ _ _ => trivial
  rw [compact]
  refine Ends.bind ((compactWith_ends mild idle counted).faulting ?_) ?_
  · intro fault _ faulted
    obtain ⟨step, _, m, m', ran⟩ := faulted
    exact ((linking.moved step.1 step.2 m).faulted ran).1
  · intro _ middle compacted
    exact (linking.settled middle).imp (fun _ _ same => compacted.same_bodies same) fun _ _ told => told.1

-- Compaction of any pool with right books and any hook that keeps to the index. The k-th highest live slot above the
-- number of elements goes into the k-th lowest gap; the hook is called once for each move, in that order, and finds the
-- slot at its new number as it was at the old one, which is idle by then. If no call faults, the elements have the numbers
-- from 1 to their number, and all of them are there.
theorem compaction_places (mild : Relocates keep relocate) (idle : s.pool.isActive 0 = false)
    (counted : s.pool.count = s.pool.slots.countP (·.active)) :
    (s.pool.stragglers (s.pool.slots.size - 1)).length = (s.pool.gaps 1).length ∧
      compactWith relocate s =
        (do s.pool.moves.forM (move relocate); modify fun s => { s with pool := s.pool.dropTail } :
          Edit (Store ι α μ) Unit) s ∧
      (∀ done step rest m, s.pool.moves = done ++ step :: rest → done.forM (move relocate) s = .ok () m →
        (m.pool.swap step.2 step.1).isActive step.2 = true ∧ (m.pool.swap step.2 step.1).isActive step.1 = false ∧
          (m.pool.swap step.2 step.1).slots[step.2]? = m.pool.slots[step.1]? ∧
          Carried keep s.pool step.1 (m.pool.swap step.2 step.1) step.2) ∧
      Ends (compactWith relocate) s (fun _ after => Compacted keep s.pool after.pool) fun fault _ =>
        ∃ step ∈ s.pool.moves, ∃ m m', relocate step.1 step.2 m = .error fault m' := by
  have even := even_moves idle counted
  have apart := apart_moves even
  have gap := fun step (member : step ∈ s.pool.moves) => gap_of_mem_moves member
  have live := fun step (member : step ∈ s.pool.moves) => live_of_mem_moves member
  refine ⟨even, compactWith_eq mild idle counted, ?_, compactWith_ends mild idle counted⟩
  intro done step rest m split ran
  rw [split] at apart gap live
  have before : ∀ {other : Nat × Nat}, other ∈ done → other ∈ done ++ step :: rest := List.mem_append_left _
  have here : step ∈ done ++ step :: rest := List.mem_append_right _ (.head _)
  have exchanged := (moves_exchange mild apart.first (fun other member => gap other (before member))
    fun other member => live other (before member)).returned ran
  have others := fun other (member : other ∈ done) =>
    (apart.perm List.perm_middle).head (List.mem_append_left rest member)
  have source := exchanged.others step.1 fun other member => (others other member).1
  have target := exchanged.others step.2 fun other member => (others other member).2
  have above : step.1 < m.pool.slots.size := isActive_lt (source.isActive.trans (live step here))
  have below : step.2 < m.pool.slots.size := by
    rw [exchanged.size]
    exact (gap step here).2
  have ne : step.2 ≠ step.1 := Ne.symm (apart.between step here step here)
  have arrived : (m.pool.swap step.2 step.1).slots[step.2]? = m.pool.slots[step.1]? := by
    rw [slots_swap below above, if_neg ne, if_pos rfl]
  have carried := source.trans (.of_slot arrived)
  refine ⟨carried.isActive.trans (live step here), ?_, arrived, carried⟩
  rw [isActive_swap below above, if_pos rfl, target.isActive]
  exact (gap step here).1

-- Six elements of which the second, the third and the fifth are gone, with a hook that writes down what it is told.
theorem compaction_places_of_numbers :
    let told : Nat → Nat → Edit (Store (List (Nat × Nat)) Nat Nat) Unit := fun source target =>
      modify fun s => { s with index := s.index ++ [(source, target)] }
    let slot : Nat → Slot Nat Nat := fun n => ⟨n = 1 || n = 4 || n = 6, 10 * n, some n⟩
    let s : Store (List (Nat × Nat)) Nat Nat := ⟨⟨(Array.range 7).map slot, 8, 3⟩, []⟩
    s.pool.moves = [(6, 2), (4, 3)] ∧
      ∃ after, compactWith told s = .ok () after ∧ Compacted id s.pool after.pool ∧ after.index = [(6, 2), (4, 3)] ∧
        after.pool.entries = [(1, 1), (2, 6), (3, 4)] := by
  intro told slot s
  have mild : Relocates id told := fun source target s _ _ => .refl _
  have places := compaction_places mild (show s.pool.isActive 0 = false by decide +kernel)
    (show s.pool.count = s.pool.slots.countP (·.active) by decide +kernel)
  obtain ⟨_, run, _, ends⟩ := places
  have returns : Returns (compactWith told) s fun _ after => Compacted id s.pool after.pool :=
    ends.faulting fun _ _ ⟨_, _, _, _, faulted⟩ => by cases faulted
  obtain ⟨_, after, ran, compacted⟩ := returns.exists
  have moves : s.pool.moves = [(6, 2), (4, 3)] := by decide +kernel
  rw [moves, ran] at run
  change EStateM.Result.ok () after = .ok () ⟨((s.pool.swap 2 6).swap 3 4).dropTail, _⟩ at run
  injection run with _ same
  subst same
  exact ⟨moves, _, ran, compacted, rfl, by decide +kernel⟩

end Store
end Slotted
