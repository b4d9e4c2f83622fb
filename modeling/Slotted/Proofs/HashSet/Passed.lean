import Slotted.Proofs.HashSet.Check
import Slotted.Proofs.HashSet.Resilience
import Slotted.Proofs.Store.Upkeep
namespace Slotted.HashSet

open Audit Store

variable {α ω : Type} {rule : HashRule (HashSet α) ω α} {s : HashSet α}

structure InChain (s : HashSet α) (bucket prev i : Nat) : Prop where
  live : s.pool.isActive i = true
  back : (s.pool.linkAt i).prev = prev
  selects : (s.pool.linkAt i).hash.toNat % s.index.heads.size = bucket

theorem select_mod {b : Buckets} {hash : UInt32} {bucket : Nat} (selected : b.select hash = .ok bucket) :
    hash.toNat % b.heads.size = bucket := by
  unfold Buckets.select at selected
  split at selected
  · cases selected
  · exact Except.ok.inj selected

theorem checkLinked_vouches (bucket prev i : Nat) (seen : Array Bool) :
    Vouches (checkLinked rule bucket prev i seen) s fun next =>
      InChain s bucket prev i ∧ seen.getD i false = false ∧ next = (s.pool.linkAt i).next := by
  refine Vouches.read ?_
  cases there : s.pool.slots[i]? with
  | none => exact vouches_throw _
  | some slot =>
    have linked : s.pool.linkAt i = slot.link := by simp [Pool.linkAt, there]
    refine vouches_unless fun active => vouches_unless fun unseen => vouches_unless fun back => ?_
    refine Vouches.read ((vouches_lift _).bind fun expected selected => vouches_unless fun own => ?_)
    refine Vouches.read ((vouches_lift _).bind fun value _ => (vouches_query _).bind fun hash _ => vouches_unless fun _ => ?_)
    refine vouches_pure ⟨⟨?_, ?_, ?_⟩, by simpa using unseen, by rw [linked]⟩
    · simpa [Pool.isActive, there] using active
    · rw [linked]
      exact not_not.mp back
    · rw [linked, select_mod selected]
      exact not_not.mp own

theorem Followed.cons {bucket prev head : Nat} {chain : List Nat} (some : head ≠ 0) (here : InChain s bucket prev head)
    (apart : head ∉ chain) (followed : Followed s bucket head (s.pool.linkAt head).next chain) :
    Followed s bucket prev head (head :: chain) where
  chained := ⟨rfl, some, here.back, followed.chained⟩
  nodup := List.nodup_cons.mpr ⟨apart, followed.nodup⟩
  live := List.forall_mem_cons.mpr ⟨here.live, followed.live⟩
  selects := List.forall_mem_cons.mpr ⟨here.selects, followed.selects⟩

-- A walk from `head` on that came to its end, over slots not walked before.
def WalksThrough (s : HashSet α) (bucket prev head : Nat) (visited : Nat → Prop) (seen : Array Bool) : Prop :=
  ∃ chain, Followed s bucket prev head chain ∧ (∀ i ∈ chain, ¬ visited i) ∧
    Marks (fun i => visited i ∨ i ∈ chain) s.pool.slots.size seen

theorem WalksThrough.of_empty {seen : Array Bool} {visited : Nat → Prop} (marks : Marks visited s.pool.slots.size seen)
    (bucket prev : Nat) : WalksThrough s bucket prev 0 visited seen := by
  refine ⟨[], ⟨rfl, List.nodup_nil, ?_, ?_⟩, ?_, marks.congr fun i => by simp⟩
  · exact fun _ none => absurd none List.not_mem_nil
  · exact fun _ none => absurd none List.not_mem_nil
  · exact fun _ none => absurd none List.not_mem_nil

theorem checkChain_vouches (bucket fuel prev head : Nat) {seen : Array Bool} {visited : Nat → Prop}
    (marks : Marks visited s.pool.slots.size seen) :
    Vouches (checkChain rule bucket fuel prev head seen) s (WalksThrough s bucket prev head visited) := by
  induction fuel generalizing prev head seen visited with
  | zero =>
    unfold checkChain
    split
    · rename_i none
      exact none ▸ vouches_pure (.of_empty marks bucket prev)
    · exact vouches_throw _
  | succ fuel ih =>
    unfold checkChain
    split
    · rename_i none
      exact none ▸ vouches_pure (.of_empty marks bucket prev)
    · rename_i some
      refine (checkLinked_vouches bucket prev head seen).bind fun next told => ?_
      obtain ⟨here, unseen, rfl⟩ := told
      have fresh : ¬ visited head := by
        rw [← marks.marked head (Pool.isActive_lt here.live), unseen]
        exact Bool.false_ne_true
      refine (ih head (s.pool.linkAt head).next (marks.mark head)).imp ?_
      intro seen told
      obtain ⟨chain, followed, apart, marks'⟩ := told
      have absent : head ∉ chain := fun member => apart head member (.inl rfl)
      refine ⟨head :: chain, .cons some here absent followed, ?_, marks'.congr fun i => ?_⟩
      · exact List.forall_mem_cons.mpr ⟨fresh, fun i member old => apart i member (.inr old)⟩
      · rw [List.mem_cons]
        tauto

theorem checkChains_vouches (heads : List Nat) (k : Nat) (all : k + heads.length = s.index.heads.size)
    (same : ∀ j (inside : j < heads.length), heads[j] = s.index.head (k + j)) {seen : Array Bool}
    (chains : Nat → List Nat) (marks : Marks (fun i => ∃ l < k, i ∈ chains l) s.pool.slots.size seen)
    (before : ∀ l < k, Followed s l 0 (s.index.head l) (chains l)) :
    Vouches ((heads.zipIdx k).foldlM (fun seen (head, bucket) =>
        checkChain rule bucket s.pool.walkLimit 0 head seen) seen) s fun seen => ∃ chains : Nat → List Nat,
      (∀ l < s.index.heads.size, Followed s l 0 (s.index.head l) (chains l)) ∧
        Marks (fun i => ∃ l < s.index.heads.size, i ∈ chains l) s.pool.slots.size seen := by
  induction heads generalizing k seen chains with
  | nil =>
    rw [List.length_nil, Nat.add_zero] at all
    subst all
    exact vouches_pure ⟨chains, before, marks⟩
  | cons head heads ih =>
    rw [List.length_cons] at all
    have first : head = s.index.head k := same 0 (by simp)
    rw [List.zipIdx_cons, List.foldlM_cons]
    refine (checkChain_vouches k s.pool.walkLimit 0 head marks).bind fun seen told => ?_
    obtain ⟨chain, followed, _, marks'⟩ := told
    rw [first] at followed
    refine ih (k + 1) (by omega) ?_ (Function.update chains k chain) (marks'.congr fun i => ?_) ?_
    · intro j inside
      have next := same (j + 1) (by simpa using inside)
      rw [List.getElem_cons_succ] at next
      rw [next]
      congr 1
      omega
    · constructor
      · intro given
        obtain ⟨l, below, member⟩ := given
        by_cases last : l = k
        · subst last
          exact .inr (by simpa using member)
        · exact .inl ⟨l, by omega, by simpa [last] using member⟩
      · intro given
        rcases given with ⟨l, below, member⟩ | member
        · exact ⟨l, by omega, by simpa [Nat.ne_of_lt below] using member⟩
        · exact ⟨k, by omega, by simpa using member⟩
    · intro l below
      by_cases last : l = k
      · subst last
        simpa using followed
      · simpa [last] using before l (by omega)

theorem audit_vouches : Vouches (audit rule) s fun _ => ∃ chains, Strung chains s := by
  refine Vouches.read ((vouches_verdict _).bind fun _ counts => ?_)
  obtain ⟨idle, counted⟩ := Pool.checkCount_ok_iff.mp counts
  refine (checkChains_vouches s.index.heads.toList 0 (by simp) ?_ (fun _ => []) ((Marks.none _).congr fun i => by simp)
    fun l below => absurd below (Nat.not_lt_zero l)).bind fun seen told => ?_
  · intro j inside
    simp [Buckets.head, Array.getD_eq_getD_getElem?, Array.length_toList ▸ inside]
  · obtain ⟨chains, followed, marks⟩ := told
    refine (vouches_verdict _).imp fun _ passed => ⟨chains, idle, counted, followed, ?_⟩
    refine Pool.reached_of_check marks (fun i given => ?_) passed
    obtain ⟨l, inside, member⟩ := given
    exact (followed l inside).live i member

theorem Strung.sound {chains : Nat → List Nat} (strung : Strung chains s) (booked : Booked s) : ∃ order, Sound order s := by
  obtain ⟨tidy, live, enumerates, counted⟩ := booked.pool.within
  have followed := strung.followed
  exact ⟨live, tidy, ⟨chains, booked.fits, fun k inside => (followed k inside).chained, fun k inside => (followed k inside).nodup,
    fun k inside => (followed k inside).selects, fun i => (enumerates.mem i).trans (strung.covers i)⟩, enumerates, counted⟩

theorem sound_of_check (booked : Booked s) {gate left : Gate ω} (passed : check rule s gate = .ok (.ok ()) left) :
    ∃ order, Sound order s := by
  obtain ⟨chains, strung⟩ := audit_vouches gate () left passed
  exact strung.sound booked

-- Nobody looks at the set, and whoever checks it finds nothing to complain about.
structure Valid (r : PureHash α) (s : Session (HashSet α) ω) : Prop where
  lowered : s.gate.busy = false
  passes : ∀ gate : Gate ω, gate.busy = false → check r.rule s.store gate = .ok (.ok ()) gate

variable {r : PureHash α} {order : List Nat}

theorem fresh_iff (sound : Sound order s) : Fresh r (bodies order s) ↔ ∀ i, ¬ Stale r s.pool i := by
  constructor
  · intro fresh i stale
    obtain ⟨value, held, differs⟩ := stale
    exact differs (fresh (value, _) ((mem_bodies sound).mpr ⟨i, held, rfl⟩))
  · intro current body member
    obtain ⟨i, held, remembered⟩ := (mem_bodies sound).mp member
    by_contra differs
    exact current i ⟨body.1, held, fun same => differs (remembered.symm.trans same)⟩

theorem settled_of_check {s : Session (HashSet α) ω} (booked : Booked s.store) (lowered : s.gate.busy = false)
    {left : Gate ω} (passed : check r.rule s.store s.gate = .ok (.ok ()) left) : Settled (Fresh r) s := by
  obtain ⟨order, sound⟩ := sound_of_check booked passed
  obtain ⟨verdict, ran, _⟩ := check_run (r := r) sound lowered
  cases passed.symm.trans ran
  exact ⟨⟨order, sound, (fresh_iff sound).mpr ((check_ok_iff sound lowered).mp ran)⟩, lowered⟩

theorem Valid.settled {s : Session (HashSet α) ω} (valid : Valid r s) (booked : Booked s.store) : Settled (Fresh r) s :=
  settled_of_check booked valid.lowered (valid.passes s.gate valid.lowered)

theorem valid_of_settled {s : Session (HashSet α) ω} (settled : Settled (Fresh r) s) : Valid r s := by
  obtain ⟨⟨order, proper⟩, lowered⟩ := settled
  exact ⟨lowered, fun gate down => (check_ok_iff proper.sound down).mpr ((fresh_iff proper.sound).mp proper.body)⟩

theorem valid_of_check {s : Session (HashSet α) ω} (booked : Booked s.store) (lowered : s.gate.busy = false)
    {left : Gate ω} (passed : check r.rule s.store s.gate = .ok (.ok ()) left) : Valid r s :=
  valid_of_settled (settled_of_check booked lowered passed)

end Slotted.HashSet
