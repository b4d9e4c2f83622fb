import Slotted.Proofs.HashSet.Rebucket
import Slotted.Proofs.Store.Audit
import Slotted.HashSet.Check
namespace Slotted.HashSet

open Audit

variable {α ω : Type} {r : PureHash α} {s : HashSet α} {gate : Gate ω} {order : List Nat}

-- The element does not hash to what is remembered of it.
def Stale (r : PureHash α) (p : Pool α ChainLink) (i : Nat) : Prop :=
  ∃ value, p.get? i = some value ∧ (p.linkAt i).hash ≠ r.hash value

def Blames (r : PureHash α) (p : Pool α ChainLink) (error : CheckError) : Prop := ∃ i, error = .staleHash i ∧ Stale r p i

theorem checkLinked_judges {bucket prev i : Nat} {seen : Array Bool} (lowered : gate.busy = false)
    (live : ∃ value, s.pool.get? i = some value) (unseen : seen.getD i false = false)
    (back : (s.pool.linkAt i).prev = prev) (wide : 0 < s.index.heads.size)
    (own : (s.pool.linkAt i).hash.toNat % s.index.heads.size = bucket) :
    Judges (checkLinked r.rule bucket prev i seen) s gate
      (fun next => next = (s.pool.linkAt i).next ∧ ¬ Stale r s.pool i) (Blames r s.pool) := by
  obtain ⟨value, held⟩ := live
  have active := Pool.isActive_of_get? held
  have inside := Pool.isActive_lt active
  have slot : s.pool.slots[i]? = some s.pool.slots[i] := Array.getElem?_eq_getElem inside
  have linked : s.pool.linkAt i = s.pool.slots[i].link := by simp [Pool.linkAt, slot]
  have used : s.pool.slots[i].active = true := by simpa [Pool.isActive, slot] using active
  have hashed : (hashOf (ω := ω) r.rule value) s gate = .ok (r.hash value) gate :=
    Query.Answers.lowered (Query.answers_guarded fun _ => rfl) lowered
  rw [linked] at back own
  rw [checkLinked, judges_read, slot]
  dsimp only
  rw [if_neg (by simp [used]), if_neg (by simp [unseen]), if_neg (by simp [back]), judges_read, select_run wide,
    judges_lift, own, if_neg (by simp), judges_read, Pool.value_of_get? held, judges_lift, judges_query hashed]
  by_cases same : r.hash value = s.pool.slots[i].link.hash
  · rw [if_neg (by simp [same])]
    refine judges_pure ⟨by rw [linked], fun stale => ?_⟩
    obtain ⟨other, there, differs⟩ := stale
    cases held.symm.trans there
    exact differs (by rw [linked, same])
  · rw [if_pos same]
    refine judges_throw_bind ⟨i, rfl, value, held, ?_⟩
    rw [linked]
    exact fun equal => same equal.symm

-- A chain that comes to its end, over live slots of its bucket alone.
structure Followed (s : HashSet α) (bucket prev head : Nat) (chain : List Nat) : Prop where
  chained : Chained s.pool.linkAt prev head chain
  nodup : chain.Nodup
  live : ∀ i ∈ chain, s.pool.isActive i = true
  selects : ∀ i ∈ chain, (s.pool.linkAt i).hash.toNat % s.index.heads.size = bucket

theorem Followed.length_le {bucket prev head : Nat} {chain : List Nat} (followed : Followed s bucket prev head chain) :
    chain.length ≤ s.pool.slots.size := by
  rw [← List.length_range (n := s.pool.slots.size)]
  apply (followed.nodup.subperm _).length_le
  exact fun i member => List.mem_range.mpr (Pool.isActive_lt (followed.live i member))

theorem Followed.tail {bucket prev head i : Nat} {chain : List Nat} (followed : Followed s bucket prev head (i :: chain)) :
    Followed s bucket i (s.pool.linkAt i).next chain where
  chained := followed.chained.2.2.2
  nodup := (List.nodup_cons.mp followed.nodup).2
  live j member := followed.live j (List.mem_cons_of_mem _ member)
  selects j member := followed.selects j (List.mem_cons_of_mem _ member)

theorem checkChain_judges {bucket fuel prev head : Nat} {chain : List Nat} {seen : Array Bool} {visited : Nat → Prop}
    (lowered : gate.busy = false) (followed : Followed s bucket prev head chain)
    (filled : s.pool.Filled) (fresh : ∀ i ∈ chain, ¬ visited i)
    (wide : 0 < s.index.heads.size) (enough : chain.length ≤ fuel) (marks : Marks visited s.pool.slots.size seen) :
    Judges (checkChain r.rule bucket fuel prev head seen) s gate
      (fun seen => Marks (fun i => visited i ∨ i ∈ chain) s.pool.slots.size seen ∧ ∀ i ∈ chain, ¬ Stale r s.pool i)
      (Blames r s.pool) := by
  induction chain generalizing fuel prev head seen visited with
  | nil =>
    have last : head = 0 := followed.chained
    unfold checkChain
    rw [if_pos last]
    exact judges_pure ⟨marks.congr fun i => by simp, fun _ none => absurd none List.not_mem_nil⟩
  | cons i chain ih =>
    obtain ⟨rfl, some, back, _⟩ := followed.chained
    have apart := (List.nodup_cons.mp followed.nodup).1
    have mine := followed.live head List.mem_cons_self
    have unseen : seen.getD head false = false := by
      have absent := fresh head List.mem_cons_self
      rw [← marks.marked head (Pool.isActive_lt mine)] at absent
      simpa using absent
    cases fuel with
    | zero => simp at enough
    | succ fuel =>
      unfold checkChain
      rw [if_neg some]
      refine (checkLinked_judges lowered (filled head mine) unseen back wide (followed.selects head List.mem_cons_self)).bind ?_
      intro _ told
      obtain ⟨same, current⟩ := told
      subst same
      refine (ih followed.tail ?_ (by simpa using enough) (marks.mark head)).imp ?_ fun _ blames => blames
      · intro i member ends
        rcases ends with rfl | old
        · exact apart member
        · exact fresh i (List.mem_cons_of_mem _ member) old
      · intro seen told
        obtain ⟨marks, others⟩ := told
        refine ⟨marks.congr fun i => ?_, fun i member => ?_⟩
        · rw [List.mem_cons]
          tauto
        · cases List.mem_cons.mp member with
          | inl same => exact same ▸ current
          | inr later => exact others i later

-- The chains are taken in turn. The induction is on the heads that are left, from bucket `k` on.
theorem checkChains_judges {chains : Nat → List Nat} (lowered : gate.busy = false)
    (followed : ∀ k < s.index.heads.size, Followed s k 0 (s.index.head k) (chains k))
    (filled : s.pool.Filled) (heads : List Nat) (k : Nat) (all : k + heads.length = s.index.heads.size)
    (same : ∀ j (inside : j < heads.length), heads[j] = s.index.head (k + j)) {seen : Array Bool}
    (marks : Marks (fun i => ∃ l < k, i ∈ chains l) s.pool.slots.size seen)
    (current : ∀ l < k, ∀ i ∈ chains l, ¬ Stale r s.pool i) :
    Judges ((heads.zipIdx k).foldlM (fun seen (head, bucket) =>
        checkChain r.rule bucket s.pool.walkLimit 0 head seen) seen) s gate
      (fun seen => Marks (fun i => ∃ l < s.index.heads.size, i ∈ chains l) s.pool.slots.size seen ∧
        ∀ l < s.index.heads.size, ∀ i ∈ chains l, ¬ Stale r s.pool i) (Blames r s.pool) := by
  induction heads generalizing k seen with
  | nil =>
    rw [List.length_nil, Nat.add_zero] at all
    subst all
    exact judges_pure ⟨marks, current⟩
  | cons head heads ih =>
    rw [List.length_cons] at all
    have bound : k < s.index.heads.size := by omega
    have here := followed k bound
    have enough : (chains k).length ≤ s.pool.walkLimit := here.length_le.trans (Nat.le_succ _)
    have first : head = s.index.head k := same 0 (by simp)
    rw [← first] at here
    rw [List.zipIdx_cons, List.foldlM_cons]
    refine (checkChain_judges lowered here filled ?_ (Nat.lt_of_le_of_lt (Nat.zero_le _) bound) enough marks).bind ?_
    · intro i member ends
      obtain ⟨l, below, other⟩ := ends
      have first := (followed l (by omega)).selects i other
      have second := here.selects i member
      omega
    · intro seen told
      obtain ⟨marks, here⟩ := told
      refine ih (k + 1) (by omega) ?_ (marks.congr fun i => ?_) fun l below => ?_
      · intro j inside
        have next := same (j + 1) (by simpa using inside)
        rw [List.getElem_cons_succ] at next
        rw [next]
        congr 1
        omega
      · constructor
        · intro given
          obtain ⟨l, below, member⟩ := given
          by_cases last : l = k
          · exact .inr (last ▸ member)
          · exact .inl ⟨l, by omega, member⟩
        · intro given
          rcases given with ⟨l, below, member⟩ | member
          · exact ⟨l, by omega, member⟩
          · exact ⟨k, by omega, member⟩
      · by_cases last : l = k
        · exact last ▸ here
        · exact current l (by omega)

-- Every live slot hangs in one chain, whatever else is wrong with the set.
structure Strung (chains : Nat → List Nat) (s : HashSet α) : Prop where
  idle : s.pool.isActive 0 = false
  counted : s.pool.count = s.pool.slots.countP (·.active)
  followed : ∀ k < s.index.heads.size, Followed s k 0 (s.index.head k) (chains k)
  covers : ∀ i, s.pool.isActive i = true ↔ ∃ k < s.index.heads.size, i ∈ chains k

theorem strung (sound : Store.Sound order s) : ∃ chains, Strung chains s := by
  obtain ⟨chains, linked⟩ := sound.threads
  have covers (i : Nat) : s.pool.isActive i = true ↔ ∃ k < s.index.heads.size, i ∈ chains k :=
    (sound.enumerates.mem i).symm.trans (linked.covers i)
  refine ⟨chains, sound.tidy.idle, sound.counted.trans sound.enumerates.countP_eq.symm, fun k inside => ?_, covers⟩
  exact ⟨linked.chained k inside, linked.nodup k inside, fun i member => (covers i).mpr ⟨k, inside, member⟩,
    linked.selected k inside⟩

theorem audit_judges {chains : Nat → List Nat} (strung : Strung chains s) (filled : s.pool.Filled)
    (lowered : gate.busy = false) :
    Judges (audit r.rule) s gate (fun _ => ∀ i, ¬ Stale r s.pool i) (Blames r s.pool) := by
  rw [audit, judges_read, Pool.checkCount_ok_iff.mpr ⟨strung.idle, strung.counted⟩, judges_verdict]
  refine (checkChains_judges lowered strung.followed filled s.index.heads.toList 0 (by simp) ?_
    ((Marks.none _).congr fun i => by simp) fun l below => absurd below (Nat.not_lt_zero l)).bind ?_
  · intro j inside
    simp [Buckets.head, Array.getD_eq_getD_getElem?, Array.length_toList ▸ inside]
  · intro seen told
    obtain ⟨marks, current⟩ := told
    rw [Pool.checkReached_ok (marks.congr strung.covers)]
    refine judges_pure fun i stale => ?_
    obtain ⟨value, held, _⟩ := id stale
    obtain ⟨k, inside, member⟩ := (strung.covers i).mp (Pool.isActive_of_get? held)
    exact current k inside i member stale

theorem check_run (sound : Store.Sound order s) (lowered : gate.busy = false) :
    ∃ verdict, check r.rule s gate = .ok verdict gate ∧
      (verdict = .ok () ∨ ∃ i, verdict = .error (.staleHash i) ∧ Stale r s.pool i) := by
  obtain ⟨chains, strung⟩ := strung sound
  rcases audit_judges (r := r) strung sound.tidy.filled lowered with ⟨_, ran, _⟩ | ⟨error, ran, i, blamed, stale⟩
  · exact ⟨_, ran, .inl rfl⟩
  · exact ⟨_, ran, .inr ⟨i, by rw [blamed], stale⟩⟩

-- A check says that all is well exactly when every remembered hash is the element's.
theorem Strung.check_ok_iff {chains : Nat → List Nat} (strung : Strung chains s) (filled : s.pool.Filled)
    (lowered : gate.busy = false) : check r.rule s gate = .ok (.ok ()) gate ↔ ∀ i, ¬ Stale r s.pool i := by
  rcases audit_judges (r := r) strung filled lowered with ⟨_, ran, current⟩ | ⟨error, ran, i, _, stale⟩
  · exact ⟨fun _ => current, fun _ => ran⟩
  · refine ⟨fun passed => ?_, fun current => absurd stale (current i)⟩
    cases passed.symm.trans ran

theorem check_ok_iff (sound : Store.Sound order s) (lowered : gate.busy = false) :
    check r.rule s gate = .ok (.ok ()) gate ↔ ∀ i, ¬ Stale r s.pool i := by
  obtain ⟨chains, strung⟩ := strung sound
  exact strung.check_ok_iff sound.tidy.filled lowered

end Slotted.HashSet
