import Slotted.Proofs.Limit
import Slotted.Proofs.Refusal
import Slotted.Proofs.Store.Sizes
import Slotted.Proofs.TreeSet.Passed
import Slotted.Proofs.TreeSet.Renaming
namespace Slotted

open Store Session

variable {α ω : Type} {ρ : Nat → Nat} {capacity : Nat}

namespace HashSet

variable {order : List Nat} {s after : HashSet α} {r : PureHash α}

theorem adopt_mends (ready : Ready order s) {n : Nat} (allowed : s.pool.refusal n = none) :
    Returns (adopt n) s fun _ after => Carries id order s after := by
  obtain ⟨tidy, enumerates, _, relabels⟩ := ready.setCapacity allowed
  have width : (s.index.sized n).heads.size = Slotted.bucketCount s.index.loadFactor (s.pool.setCapacity n).capacity := by
    rw [Pool.setCapacity_capacity]
    simp [Buckets.sized]
  rw [adopt, Returns, ends_bind, ends_modify]
  refine Ends.imp (rebucket_returns (s := ⟨s.pool.setCapacity n, s.index.sized n⟩) width tidy enumerates) ?_ fun _ _ none => none
  intro _ after told
  obtain ⟨same, threads⟩ := told
  refine ⟨?_, relabels.same_bodies same⟩
  rw [rename_id]
  exact ⟨same.tidy tidy, threads, same.enumerates enumerates, same.count.trans (relabels.count.trans ready.counted)⟩

theorem stale_iff (carries : Carries ρ order s after) (enumerates : s.pool.Enumerates order) :
    (∀ i, ¬ Stale r after.pool i) ↔ ∀ i, ¬ Stale r s.pool i := by
  have moved {i : Nat} (member : i ∈ order) : Stale r after.pool (ρ i) ↔ Stale r s.pool i := by
    have held : after.pool.get? (ρ i) = s.pool.get? i := carries.relabels.held i member
    have kept : (after.pool.linkAt (ρ i)).hash = (s.pool.linkAt i).hash := carries.relabels.kept i member
    rw [Stale, Stale, held, kept]
  constructor
  · intro fresh i stale
    obtain ⟨value, held, _⟩ := id stale
    exact fresh (ρ i) ((moved ((enumerates.mem i).mpr (Pool.isActive_of_get? held))).mpr stale)
  · intro fresh j stale
    obtain ⟨value, held, _⟩ := id stale
    have image : j ∈ order.map ρ := (carries.sound.enumerates.mem j).mpr (Pool.isActive_of_get? held)
    obtain ⟨i, member, rfl⟩ := List.mem_map.mp image
    exact fresh i ((moved member).mp stale)

-- A set of this size, over which a check has nothing new to complain about, and which takes more elements in.
structure SizedTo [Allocator ω] (capacity : Nat) (s after : Session (HashSet α) ω) : Prop where
  fitted : Fitted capacity s.store after.store
  chained : WellChained after.store
  judged : ∀ (r : PureHash α) (gate : Gate ω), gate.busy = false →
    (check r.rule after.store gate = .ok (.ok ()) gate ↔ ∀ i, ¬ Stale r s.store.pool i)
  admits : ∀ (r : PureHash α) value, s.gate.busy = false → Missing (r.equal · · = true) value s.store →
    GoesIn (tryInsert r.rule) value after

variable [Allocator ω] {s : Session (HashSet α) ω}

theorem resize_mends (generous : Generous ω) (booked : Booked s.store) (ready : Ready order s.store)
    (enough : s.store.len ≤ capacity) (limited : capacity ≤ maxCapacity) :
    Returns (resize capacity) s fun answer after =>
      answer = .ok () ∧ (∃ ρ, Carries ρ order s.store after.store) ∧ after.gate.busy = s.gate.busy := by
  refine resize_adopts generous booked enough limited
    (fun middle => ∃ ρ : Nat → Nat, Ready (order.map ρ) middle ∧ Relabels ChainLink.hash ρ order s.store.pool middle.pool)
    (fun after => ∃ ρ, Carries ρ order s.store after) ⟨id, by rwa [List.map_id], .refl ..⟩ (fun _ => reorder_mends ready) ?_
  intro middle held allowed
  obtain ⟨ρ, ready, relabels⟩ := held
  exact (adopt_mends ready allowed).returning fun _ after carries => ⟨_, Relabels.carries relabels carries⟩

theorem resize_sizes (generous : Generous ω) (booked : Booked s.store) (enough : s.store.len ≤ capacity)
    (limited : capacity ≤ maxCapacity) : ∃ after, resize capacity s = .ok (.ok ()) after ∧ SizedTo capacity s after := by
  obtain ⟨order, ready⟩ := ready_of_booked booked
  obtain ⟨_, after, ran, rfl, ⟨ρ, carries⟩, flag⟩ := (resize_mends generous booked ready enough limited).exists
  obtain ⟨_, fitted, _⟩ := (resize_fits generous booked enough limited).returned ran
  refine ⟨after, ran, fitted, wellChained carries.sound, fun r gate lowered => ?_, fun r value lowered missing => ?_⟩
  · rw [check_ok_iff carries.sound lowered, stale_iff carries ready.enumerates]
  · exact tryInsert_decides generous r _ after value carries.sound (flag.trans lowered)
      fun stored inside => missing stored (fitted.contents ▸ inside)

end HashSet

namespace TreeSet

variable {t : Tree} {s after : TreeSet α} {r : PureOrder α} {gate : Gate ω}

theorem check_iff (carries : Carries ρ t s after) (sound : Sound t s) (lowered : gate.busy = false) :
    check r.rule after gate = .ok (.ok ()) gate ↔ check r.rule s gate = .ok (.ok ()) gate := by
  have values : (t.map ρ).slots.filterMap after.pool.get? = t.slots.filterMap s.pool.get? := by
    rw [Tree.slots_map, List.filterMap_map]
    exact List.filterMap_congr carries.relabels.held
  rw [check_ok_iff carries.sound lowered, check_ok_iff sound lowered, ← chain_iff_ordered carries.sound,
    ← chain_iff_ordered sound]
  exact Iff.of_eq (congrArg (List.IsChain _) values)

theorem compact_idle (idle : ∀ i, s.pool.isActive i = false) : Returns compact s fun _ _ => True := by
  have closing : Closing Index.moved (fun _ _ (s : TreeSet α) => ∀ i, s.pool.isActive i = false) fun _ _ => False := by
    refine ⟨fun idle _ _ => idle, fun idle _ _ _ => idle, fun idle _ _ live => ?_⟩
    exact absurd live (by rw [idle]; exact Bool.false_ne_true)
  rw [compact, compactWith, Returns, ends_bind, ends_bind, ends_get]
  dsimp only
  split
  · rw [ends_bind]
    exact (closing.ends idle).returning fun _ _ _ => trivial
  · trivial

-- The same tree in a set of this size, over which a check comes to the same end, and which takes more elements in.
structure SizedTo [Allocator ω] (capacity : Nat) (s after : Session (TreeSet α) ω) : Prop where
  fitted : Fitted capacity s.store after.store
  grown : WellGrown after.store
  renamed : Renamed s.store after.store
  judged : ∀ (r : PureOrder α) (gate : Gate ω), gate.busy = false →
    (check r.rule after.store gate = .ok (.ok ()) gate ↔ check r.rule s.store gate = .ok (.ok ()) gate)
  admits : ∀ (r : PureOrder α) value, s.gate.busy = false → Missing (r.compare · · = .eq) value s.store →
    GoesIn (tryInsert r.rule) value after

variable [Allocator ω] {s : Session (TreeSet α) ω}

theorem resize_sizes (generous : Generous ω) (booked : Booked s.store) (sound : Sound t s.store)
    (enough : s.store.len ≤ capacity) (limited : capacity ≤ maxCapacity) :
    ∃ after, resize capacity s = .ok (.ok ()) after ∧ SizedTo capacity s after := by
  obtain ⟨answer, after, ran, ⟨ρ, carries⟩, _, flag⟩ := (resize_returns sound capacity).exists
  obtain ⟨rfl, fitted, _⟩ := (resize_fits generous booked enough limited).returned ran
  refine ⟨after, ran, fitted, wellGrown carries.sound, Carries.renamed carries sound,
    fun r gate lowered => check_iff carries sound lowered, fun r value lowered missing => ?_⟩
  exact tryInsert_decides generous r _ after value carries.sound (flag.trans lowered)
    fun stored inside => missing stored (fitted.contents ▸ inside)

-- Where no slot has to be moved a size is taken on even if the tree does not stand.
theorem resize_unmoved (generous : Generous ω) (booked : Booked s.store) (enough : s.store.len ≤ capacity)
    (limited : capacity ≤ maxCapacity) (unmoved : s.store.len = 0 ∨ s.store.pool.used ≤ capacity) :
    ∃ after, resize capacity s = .ok (.ok ()) after := by
  obtain ⟨live, sound⟩ := booked.pool
  have fewer : s.store.pool.count < s.store.pool.next := sound.count_lt
  have returns : Returns (resize capacity) s fun answer after => answer = .ok () ∧ True ∧ after.gate.busy = s.gate.busy := by
    refine resize_adopts generous booked enough limited (fun _ => True) (fun _ => True) trivial (fun narrow => ?_)
      fun _ _ _ => trivial
    have empty : s.store.pool.count = 0 := by
      unfold slotsFor at narrow
      unfold Store.len Pool.used at unmoved
      split at narrow <;> omega
    have idle (i : Nat) : s.store.pool.isActive i = false :=
      Bool.eq_false_iff.mpr fun active => Nat.ne_of_gt (booked.pool.count_pos active) empty
    rw [reorder, ends_bind, ends_get, Pool.tombstones_run fewer, ends_bind, ends_lift]
    split
    · exact compact_idle idle
    · trivial
  obtain ⟨_, after, ran, rfl, _⟩ := returns.exists
  exact ⟨after, ran⟩

end TreeSet

variable [Allocator ω]

-- Under any rule and after any history. Nodes of a tree can be moved where the tree stands, and it does unless an insertion
-- was misplaced; nothing else depends on that.
theorem sizes_are_decided (generous : Generous ω) :
    (∀ (rule : HashRule (HashSet α) ω α) (s : Session (HashSet α) ω) (capacity : Nat),
      HashSet.Reached (HashSet.act rule) (fun _ => True) s → Declines capacity s ∧
        (s.store.len ≤ capacity → capacity ≤ maxCapacity →
          ∃ after, resize capacity s = .ok (.ok ()) after ∧ HashSet.SizedTo capacity s after)) ∧
    ∀ (rule : OrderRule (TreeSet α) ω α) (s : Session (TreeSet α) ω) (capacity : Nat),
      TreeSet.Reached (TreeSet.act rule) (fun _ => True) s → Declines capacity s ∧
        (s.store.len ≤ capacity → capacity ≤ maxCapacity →
          (TreeSet.WellGrown s.store → ∃ after, resize capacity s = .ok (.ok ()) after ∧ TreeSet.SizedTo capacity s after) ∧
          (s.store.len = 0 ∨ s.store.pool.used ≤ capacity → ∃ after, resize capacity s = .ok (.ok ()) after) ∧
          ∀ answer after, resize capacity s = .ok answer after → answer = .ok () ∧ Fitted capacity s.store after.store) ∧
        ∀ r : PureOrder α, rule.Follows (fun _ => True) r → TreeSet.Tended rule s → TreeSet.WellGrown s.store := by
  refine ⟨fun rule s capacity reached => ?_, fun rule s capacity reached => ?_⟩
  · exact ⟨declines capacity s, HashSet.resize_sizes generous reached.booked⟩
  · refine ⟨declines capacity s, fun enough limited => ⟨fun grown => ?_, ?_, fun answer after ran => ?_⟩, ?_⟩
    · obtain ⟨t, sound⟩ := reached.sound grown
      exact TreeSet.resize_sizes generous reached.booked sound enough limited
    · exact TreeSet.resize_unmoved generous reached.booked enough limited
    · obtain ⟨granted, fitted, _⟩ := (resize_fits generous reached.booked enough limited).returned ran
      exact ⟨granted, fitted⟩
    · exact fun r follows tended => tended.grown follows

-- A hash set gives up all its room while there are three tombstones in it and takes in another number; a tree is cut down to
-- the three numbers that are left of five.
theorem sizes_are_decided_of_numbers :
    let hashing : PureHash Nat := ⟨fun n => UInt32.ofNat n, fun a b => a == b⟩
    let ordering : PureOrder Nat := ⟨compare⟩
    let chained : Session (HashSet Nat) Boundless := ⟨HashSet.empty 60, false, ⟨⟩⟩
    let sorted : Session (TreeSet Nat) Boundless := ⟨TreeSet.empty, false, ⟨⟩⟩
    let s := performed (HashSet.act hashing.rule) [.common (.extend [3, 1, 2]), .common (.takeAll [3, 1, 2])] chained
    let s' := performed (TreeSet.act ordering.rule) [.common (.extend [6, 3, 9, 1, 4]), .common (.takeAll [6, 1])] sorted
    Generous Boundless ∧
      (HashSet.Reached (HashSet.act hashing.rule) (fun _ => True) s ∧ s.store.len = 0 ∧ s.store.pool.used = 3 ∧
        ∃ after, resize 0 s = .ok (.ok ()) after ∧ after.store.capacity = 0 ∧ HashSet.WellChained after.store ∧
          ∃ h last, HashSet.tryInsert hashing.rule 4 after = .ok (.ok (h, true)) last ∧ last.store.get? h = some 4) ∧
      TreeSet.Tended ordering.rule s' ∧ s'.store.len = 3 ∧ s'.store.pool.used = 5 ∧
        ∃ after, resize 3 s' = .ok (.ok ()) after ∧ after.store.capacity = 3 ∧ after.store.len = 3 ∧
          TreeSet.Renamed s'.store after.store := by
  intro hashing ordering chained sorted s s'
  have reached : HashSet.Reached (HashSet.act hashing.rule) (fun _ => True) s :=
    ⟨⟨0, 60⟩, chained, chained, [.common (.extend [3, 1, 2]), .common (.takeAll [3, 1, 2])], rfl, by with_unfolding_all rfl,
      fun _ _ => trivial, rfl⟩
  have tended : TreeSet.Tended ordering.rule s' :=
    ⟨⟨0⟩, sorted, sorted, [.common (.extend [6, 3, 9, 1, 4]), .common (.takeAll [6, 1])], rfl, rfl,
      ⟨trivial, trivial, trivial⟩, rfl⟩
  have hollow : s.store.len = 0 ∧ s.store.pool.used = 3 := by decide +kernel
  have lowered : s.gate.busy = false := by decide +kernel
  have sparse : s'.store.len = 3 ∧ s'.store.pool.used = 5 := by decide +kernel
  have missing : Missing (hashing.equal · · = true) 4 s.store := by
    change ∀ stored ∈ s.store.pool.contents, ¬ _
    decide +kernel
  -- how the sets came about does not matter any more
  clear_value s s'
  have sets := ((sizes_are_decided Boundless.generous).1 hashing.rule s 0 reached).2
  obtain ⟨_, trees, stands⟩ := (sizes_are_decided Boundless.generous).2 ordering.rule s' 3 tended.reached
  have grown := stands ordering ordering.rule_follows tended
  obtain ⟨after, ran, sized⟩ := sets (Nat.le_of_eq hollow.1) (by decide)
  obtain ⟨after', ran', sized'⟩ := (trees (Nat.le_of_eq sparse.1) (by decide)).1 grown
  obtain ⟨h, last, inserted, here, _⟩ := (sized.admits hashing 4 lowered missing).enters (sized.fitted.loose (by decide))
  exact ⟨Boundless.generous,
    ⟨reached, hollow.1, hollow.2, after, ran, sized.fitted.sized, sized.chained, h, last, inserted, here⟩, tended, sparse.1,
    sparse.2, after', ran', sized'.fitted.sized, sized'.fitted.len.trans sparse.1, sized'.renamed⟩

-- An insertion was misplaced, and its element hangs below itself. The only element that is left would fit, but the gap before
-- it cannot be closed.
theorem TreeSet.resize_stuck :
    let r : PureOrder Nat := ⟨compare⟩
    let start : Session (TreeSet Nat) Script := ⟨⟨⟨#[.sentinel], 3, 0⟩, ⟨0⟩⟩, false, ⟨[.lt, .eq]⟩⟩
    let actions : List (TreeSetAction Nat Script) := [.common (.insert 1), .common (.insert 2), .common (.take 1),
      .insertWith (Script.probe 2) (pure 3), .common (.take 2)]
    let s := performed (act r.rule) actions start
    Generous Script ∧ TreeSet.Reached (act r.rule) (fun _ => True) s ∧ s.store.len = 1 ∧ 1 ≤ maxCapacity ∧
      (s.perform (resize 1)).1 = .error (.disagreement .movedChild 0 2) := by
  intro r start actions s
  exact ⟨Script.generous, ⟨⟨2⟩, ⟨empty, false, ⟨[.lt, .eq]⟩⟩, start, actions, rfl, rfl, fun _ _ => trivial, rfl⟩,
    by decide +kernel, by decide, by decide +kernel⟩

end Slotted
