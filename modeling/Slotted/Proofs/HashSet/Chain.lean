import Mathlib.Logic.Function.Basic
import Slotted.Proofs.Store.Lawful
import Slotted.HashSet.Chain
namespace Slotted

-- The links lead from `head`, behind `prev`, through the slots of the list and to its end.
def Chained (link : Nat → ChainLink) : Nat → Nat → List Nat → Prop
  | _, head, [] => head = 0
  | prev, head, i :: rest => head = i ∧ i ≠ 0 ∧ (link i).prev = prev ∧ Chained link i (link i).next rest

namespace Chained

variable {link link' : Nat → ChainLink} {prev head i : Nat} {chain before rest : List Nat}

theorem frame (chained : Chained link prev head chain)
    (same : ∀ j ∈ chain, (link' j).prev = (link j).prev ∧ (link' j).next = (link j).next) :
    Chained link' prev head chain := by
  induction chain generalizing prev head with
  | nil => exact chained
  | cons j rest ih =>
    obtain ⟨rfl, some, back, tail⟩ := chained
    obtain ⟨samePrev, sameNext⟩ := same head List.mem_cons_self
    refine ⟨rfl, some, samePrev.trans back, ?_⟩
    rw [sameNext]
    exact ih tail fun j member => same j (List.mem_cons_of_mem _ member)

theorem zero_notMem (chained : Chained link prev head chain) : 0 ∉ chain := by
  induction chain generalizing prev head with
  | nil => exact List.not_mem_nil
  | cons j rest ih =>
    obtain ⟨_, some, _, tail⟩ := chained
    simp only [List.mem_cons, not_or]
    exact ⟨Ne.symm some, ih tail⟩

theorem head_mem (chained : Chained link prev head chain) (some : head ≠ 0) : head ∈ chain := by
  cases chain with
  | nil => exact absurd chained some
  | cons j rest =>
    rw [chained.1]
    exact List.mem_cons_self

theorem behind (chained : Chained link prev head chain) (nodup : chain.Nodup) {prev' : Nat}
    (prevs : ∀ j ∈ chain, (link' j).prev = if j = head then prev' else (link j).prev)
    (nexts : ∀ j ∈ chain, (link' j).next = (link j).next) : Chained link' prev' head chain := by
  cases chain with
  | nil => exact chained
  | cons j rest =>
    obtain ⟨rfl, some, _, tail⟩ := chained
    have first := prevs head List.mem_cons_self
    rw [if_pos rfl] at first
    refine ⟨rfl, some, first, ?_⟩
    rw [nexts head List.mem_cons_self]
    refine tail.frame fun j member => ⟨?_, nexts j (List.mem_cons_of_mem _ member)⟩
    rw [prevs j (List.mem_cons_of_mem _ member), if_neg]
    intro same
    subst same
    exact (List.nodup_cons.mp nodup).1 member

theorem next_eq (chained : Chained link prev head (before ++ i :: rest)) : (link i).next = rest.head?.getD 0 := by
  induction before generalizing prev head with
  | nil =>
    obtain ⟨_, _, _, tail⟩ := chained
    cases rest with
    | nil => exact tail
    | cons j rest => exact tail.1
  | cons j before ih => exact ih chained.2.2.2

theorem prev_eq (chained : Chained link prev head (before ++ i :: rest)) :
    (link i).prev = before.getLast?.getD prev := by
  induction before generalizing prev head with
  | nil => exact chained.2.2.1
  | cons j before ih =>
    rw [ih chained.2.2.2]
    cases before <;> simp [List.getLast?_cons]

theorem prev_zero (chained : Chained link 0 head (before ++ i :: rest)) : (link i).prev = 0 ↔ before = [] := by
  rw [chained.prev_eq]
  cases last : before.getLast? with
  | none => simpa using last
  | some j =>
    have member := List.mem_of_getLast? last
    constructor
    · intro same
      subst same
      exact absurd (List.mem_append_left _ member) chained.zero_notMem
    · intro same
      subst same
      cases member

theorem head_of_prev (chained : Chained link 0 head chain) (member : i ∈ chain) (first : (link i).prev = 0) :
    head = i := by
  obtain ⟨before, rest, rfl⟩ := List.append_of_mem member
  have none := chained.prev_zero.mp first
  subst none
  exact chained.1

theorem prev_mem (chained : Chained link 0 head chain) (member : i ∈ chain) (some : (link i).prev ≠ 0) :
    (link i).prev ∈ chain := by
  obtain ⟨before, rest, rfl⟩ := List.append_of_mem member
  rw [chained.prev_eq] at some ⊢
  cases last : before.getLast? with
  | none => simp [last] at some
  | some j => exact List.mem_append_left _ (List.mem_of_getLast? last)

theorem next_mem (chained : Chained link prev head chain) (member : i ∈ chain) (some : (link i).next ≠ 0) :
    (link i).next ∈ chain := by
  obtain ⟨before, rest, rfl⟩ := List.append_of_mem member
  rw [chained.next_eq] at some ⊢
  cases rest with
  | nil => exact absurd rfl some
  | cons j rest => simp

-- A slot is taken out by joining its neighbours. The induction is on what comes before it.
theorem without (chained : Chained link prev head (before ++ i :: rest)) (nodup : (prev :: (before ++ i :: rest)).Nodup)
    (prevs : ∀ j ∈ before ++ rest, (link' j).prev = if j = (link i).next then (link i).prev else (link j).prev)
    (nexts : ∀ j ∈ before ++ rest, (link' j).next = if j = (link i).prev then (link i).next else (link j).next) :
    Chained link' prev (if before = [] then (link i).next else head) (before ++ rest) := by
  have next := chained.next_eq
  have prior := chained.prev_eq
  induction before generalizing prev head with
  | nil =>
    obtain ⟨_, _, back, tail⟩ := chained
    rw [if_pos rfl]
    refine tail.behind ?_ ?_ ?_
    · exact (List.nodup_cons.mp (List.nodup_cons.mp nodup).2).2
    · intro j member
      rw [prevs j member, back]
    · intro j member
      rw [nexts j member, back, if_neg]
      intro equal
      subst equal
      exact (List.nodup_cons.mp nodup).1 (List.mem_cons_of_mem _ member)
  | cons b before ih =>
    obtain ⟨rfl, some, back, tail⟩ := chained
    have inner : (head :: (before ++ i :: rest)).Nodup := (List.nodup_cons.mp nodup).2
    have apart := (List.nodup_cons.mp inner).1
    simp only [List.mem_append, List.mem_cons, not_or] at apart
    rw [if_neg (List.cons_ne_nil _ _)]
    refine ⟨rfl, some, ?_, ?_⟩
    · rw [prevs head (by simp), if_neg, back]
      intro same
      rw [next] at same
      cases rest with
      | nil => exact some same
      | cons j rest => exact apart.2.2 (by simpa using Or.inl same)
    · have joined := ih tail inner (fun j member => prevs j (List.mem_cons_of_mem _ member))
        (fun j member => nexts j (List.mem_cons_of_mem _ member)) tail.prev_eq
      have nextAfter : (link' head).next = if before = [] then (link i).next else (link head).next := by
        rw [nexts head (by simp), tail.prev_eq]
        cases before with
        | nil => simp
        | cons j before =>
          rw [if_neg (List.cons_ne_nil _ _), if_neg]
          intro same
          cases last : (j :: before).getLast? with
          | none => simp at last
          | some k =>
            rw [last, Option.getD_some] at same
            exact apart.1 (same ▸ List.mem_of_getLast? last)
      rw [nextAfter]
      exact joined

theorem erase (chained : Chained link 0 head chain) (nodup : chain.Nodup) (member : i ∈ chain)
    (prevs : ∀ j ∈ chain, j ≠ i → (link' j).prev = if j = (link i).next then (link i).prev else (link j).prev)
    (nexts : ∀ j ∈ chain, j ≠ i → (link' j).next = if j = (link i).prev then (link i).next else (link j).next) :
    Chained link' 0 (if (link i).prev = 0 then (link i).next else head) (chain.erase i) := by
  obtain ⟨before, rest, rfl⟩ := List.append_of_mem member
  have joined : (before ++ i :: rest).erase i = before ++ rest := by
    rw [List.erase_append_right _ fun early => ?_, List.erase_cons_head]
    exact (List.nodup_append.mp nodup).2.2 i early i List.mem_cons_self rfl
  have others : ∀ j ∈ before ++ rest, j ≠ i ∧ j ∈ before ++ i :: rest := fun j mine =>
    nodup.mem_erase_iff.mp (joined.symm ▸ mine)
  rw [joined]
  simp only [chained.prev_zero]
  exact chained.without (List.nodup_cons.mpr ⟨chained.zero_notMem, nodup⟩)
    (fun j mine => prevs j (others j mine).2 (others j mine).1) fun j mine => nexts j (others j mine).2 (others j mine).1

end Chained

theorem Buckets.head_setHead {b : Buckets} {k : Nat} (bound : k < b.heads.size) (i j : Nat) :
    (b.setHead k i).head j = if j = k then i else b.head j := by
  unfold setHead head
  rw [Array.getD_eq_getD_getElem?, Array.getD_eq_getD_getElem?, Array.getElem?_setIfInBounds]
  by_cases same : k = j
  · simp [same, same ▸ bound]
  · simp [same, Ne.symm same]

theorem Buckets.head_replicate (b : Buckets) (n k : Nat) : Buckets.head { b with heads := Array.replicate n 0 } k = 0 := by
  unfold head
  rw [Array.getD_eq_getD_getElem?, Array.getElem?_replicate]
  split <;> rfl

@[simp] theorem Buckets.size_setHead (b : Buckets) (k i : Nat) : (b.setHead k i).heads.size = b.heads.size := by
  simp [setHead]

-- Every bucket starts a chain, and every slot of the list sits in the chain that its remembered hash selects.
structure Chains {α : Type} (chains : Nat → List Nat) (order : List Nat) (p : Pool α ChainLink) (b : Buckets) :
    Prop where
  width : b.heads.size = bucketCount b.loadFactor p.capacity
  chained : ∀ k < b.heads.size, Chained p.linkAt 0 (b.head k) (chains k)
  nodup : ∀ k < b.heads.size, (chains k).Nodup
  selected : ∀ k < b.heads.size, ∀ i ∈ chains k, (p.linkAt i).hash.toNat % b.heads.size = k
  covers : ∀ i, i ∈ order ↔ ∃ k < b.heads.size, i ∈ chains k

namespace Chains

variable {α : Type} {chains : Nat → List Nat} {order order' : List Nat} {p q : Pool α ChainLink} {b : Buckets} {i k : Nat}

theorem congr (linked : Chains chains order p b) (same : ∀ i, i ∈ order' ↔ i ∈ order) : Chains chains order' p b :=
  { linked with covers := fun i => (same i).trans (linked.covers i) }

theorem mem_own (linked : Chains chains order p b) (member : i ∈ order) :
    (p.linkAt i).hash.toNat % b.heads.size < b.heads.size ∧ i ∈ chains ((p.linkAt i).hash.toNat % b.heads.size) := by
  obtain ⟨k, bound, inside⟩ := (linked.covers i).mp member
  rw [linked.selected k bound i inside]
  exact ⟨bound, inside⟩

theorem positive (linked : Chains chains order p b) (bound : k < b.heads.size) (member : i ∈ chains k) : i ≠ 0 := by
  intro same
  subst same
  exact (linked.chained k bound).zero_notMem member

theorem disjoint (linked : Chains chains order p b) {l : Nat} (apart : l ≠ k) (inside : l < b.heads.size)
    (bound : k < b.heads.size) (mine : i ∈ chains l) : i ∉ chains k := fun theirs =>
  apart ((linked.selected l inside i mine).symm.trans (linked.selected k bound i theirs))

theorem frame (linked : Chains chains order p b) (same : ∀ i ∈ order, q.linkAt i = p.linkAt i)
    (capacity : q.capacity = p.capacity) : Chains chains order q b := by
  have sameIn : ∀ k < b.heads.size, ∀ i ∈ chains k, q.linkAt i = p.linkAt i :=
    fun k bound i member => same i ((linked.covers i).mpr ⟨k, bound, member⟩)
  refine { linked with width := ?_, chained := ?_, selected := ?_ }
  · rw [capacity]
    exact linked.width
  · intro k bound
    refine (linked.chained k bound).frame fun i member => ?_
    rw [sameIn k bound i member]
    exact ⟨rfl, rfl⟩
  · intro k bound i member
    rw [sameIn k bound i member]
    exact linked.selected k bound i member

theorem bare (width : b.heads.size = bucketCount b.loadFactor p.capacity) (none : ∀ k < b.heads.size, b.head k = 0) :
    Chains (fun _ => []) [] p b :=
  ⟨width, none, fun _ _ => List.nodup_nil, fun _ _ _ member => absurd member List.not_mem_nil, fun i => by simp⟩

theorem push (linked : Chains chains order p b) (bound : k < b.heads.size) {hash : UInt32}
    (own : hash.toNat % b.heads.size = k) (fresh : i ∉ order) (positive : 0 < i) (capacity : q.capacity = p.capacity)
    (here : q.linkAt i = ⟨0, b.head k, hash⟩)
    (others : ∀ j, j ≠ i → j ≠ 0 →
      q.linkAt j = if j = b.head k then { p.linkAt j with prev := i } else p.linkAt j) :
    Chains (Function.update chains k (i :: chains k)) (i :: order) q (b.setHead k i) := by
  have absent : ∀ k < b.heads.size, i ∉ chains k := fun k bound member => fresh ((linked.covers i).mpr ⟨k, bound, member⟩)
  have kept : ∀ l < b.heads.size, ∀ j ∈ chains l, (q.linkAt j).next = (p.linkAt j).next ∧
      (q.linkAt j).hash = (p.linkAt j).hash ∧
      (q.linkAt j).prev = if j = b.head k then i else (p.linkAt j).prev := by
    intro l bound j member
    rw [others j (fun same => absent l bound (same ▸ member)) (linked.positive bound member)]
    split <;> exact ⟨rfl, rfl, rfl⟩
  refine ⟨?_, ?_, ?_, ?_, ?_⟩
  · rw [Buckets.size_setHead, capacity]
    exact linked.width
  · intro l inside
    rw [Buckets.size_setHead] at inside
    rw [Buckets.head_setHead bound, Function.update_apply]
    by_cases same : l = k
    · rw [if_pos same, if_pos same]
      refine ⟨rfl, Nat.ne_of_gt positive, by rw [here], ?_⟩
      rw [here]
      exact (linked.chained k bound).behind (linked.nodup k bound) (fun j member => (kept k bound j member).2.2)
        fun j member => (kept k bound j member).1
    · rw [if_neg same, if_neg same]
      refine (linked.chained l inside).frame fun j member => ⟨?_, (kept l inside j member).1⟩
      rw [(kept l inside j member).2.2, if_neg]
      intro equal
      subst equal
      exact linked.disjoint same inside bound member ((linked.chained k bound).head_mem (linked.positive inside member))
  · intro l inside
    rw [Buckets.size_setHead] at inside
    rw [Function.update_apply]
    split
    · exact List.nodup_cons.mpr ⟨absent k bound, linked.nodup k bound⟩
    · exact linked.nodup l inside
  · intro l inside j member
    rw [Buckets.size_setHead] at inside ⊢
    rw [Function.update_apply] at member
    have old : ∀ l < b.heads.size, j ∈ chains l → (q.linkAt j).hash.toNat % b.heads.size = l := by
      intro l inside member
      rw [(kept l inside j member).2.1]
      exact linked.selected l inside j member
    split at member
    · rename_i same
      rcases List.mem_cons.mp member with rfl | member
      · rw [here, same]
        exact own
      · rw [same]
        exact old k bound member
    · exact old l inside member
  · intro j
    rw [List.mem_cons, linked.covers, Buckets.size_setHead]
    constructor
    · intro given
      rcases given with rfl | ⟨l, inside, member⟩
      · exact ⟨k, bound, by simp⟩
      · refine ⟨l, inside, ?_⟩
        rw [Function.update_apply]
        split
        · rename_i same
          exact List.mem_cons_of_mem _ (same ▸ member)
        · exact member
    · intro given
      obtain ⟨l, inside, member⟩ := given
      rw [Function.update_apply] at member
      split at member
      · rcases List.mem_cons.mp member with rfl | member
        · exact .inl rfl
        · exact .inr ⟨k, bound, member⟩
      · exact .inr ⟨l, inside, member⟩

-- A slot leaves its chain, and its neighbours there are joined. The other chains do not meet them.
theorem remove (linked : Chains chains order p b) (nodup : order.Nodup) (member : i ∈ order)
    (own : (p.linkAt i).hash.toNat % b.heads.size = k) {b' : Buckets} (size : b'.heads.size = b.heads.size)
    (factor : b'.loadFactor = b.loadFactor)
    (heads : ∀ l, b'.head l = if l = k ∧ (p.linkAt i).prev = 0 then (p.linkAt i).next else b.head l)
    (capacity : q.capacity = p.capacity)
    (links : ∀ j, j ≠ i → j ≠ 0 → (q.linkAt j).hash = (p.linkAt j).hash ∧
      (q.linkAt j).prev = (if j = (p.linkAt i).next then (p.linkAt i).prev else (p.linkAt j).prev) ∧
      (q.linkAt j).next = if j = (p.linkAt i).prev then (p.linkAt i).next else (p.linkAt j).next) :
    Chains (Function.update chains k ((chains k).erase i)) (order.erase i) q b' := by
  obtain ⟨bound, inside⟩ := linked.mem_own member
  rw [own] at bound inside
  have chained := linked.chained k bound
  have chainNodup := linked.nodup k bound
  have within : ∀ l < b.heads.size, ∀ j, j ∈ Function.update chains k ((chains k).erase i) l ↔
      j ≠ i ∧ j ∈ chains l := by
    intro l lBound j
    rw [Function.update_apply]
    split
    · rename_i same
      rw [same, chainNodup.mem_erase_iff]
    · rename_i other
      constructor
      · intro mine
        refine ⟨?_, mine⟩
        intro agrees
        subst agrees
        exact linked.disjoint other lBound bound mine inside
      · exact And.right
  refine ⟨?_, ?_, ?_, ?_, ?_⟩
  · rw [size, factor, capacity]
    exact linked.width
  · intro l lBound
    rw [size] at lBound
    rw [heads, Function.update_apply]
    by_cases same : l = k
    · subst same
      simp only [true_and, if_true]
      refine chained.erase chainNodup inside (fun j mine other => ?_) fun j mine other => ?_
      · exact (links j other (linked.positive lBound mine)).2.1
      · exact (links j other (linked.positive lBound mine)).2.2
    · rw [if_neg (fun both => same both.1), if_neg same]
      refine (linked.chained l lBound).frame fun j mine => ?_
      have foreign := linked.disjoint same lBound bound mine
      have some := linked.positive lBound mine
      obtain ⟨_, prevs, nexts⟩ := links j (fun equal => foreign (equal ▸ inside)) some
      rw [prevs, nexts, if_neg, if_neg]
      · exact ⟨rfl, rfl⟩
      · intro agrees
        subst agrees
        exact foreign (chained.prev_mem inside some)
      · intro agrees
        subst agrees
        exact foreign (chained.next_mem inside some)
  · intro l lBound
    rw [size] at lBound
    rw [Function.update_apply]
    split
    · exact chainNodup.erase i
    · exact linked.nodup l lBound
  · intro l lBound j mine
    rw [size] at lBound ⊢
    obtain ⟨other, mine⟩ := (within l lBound j).mp mine
    rw [(links j other (linked.positive lBound mine)).1]
    exact linked.selected l lBound j mine
  · intro j
    rw [nodup.mem_erase_iff, linked.covers, size]
    constructor
    · intro given
      obtain ⟨other, l, lBound, mine⟩ := given
      exact ⟨l, lBound, (within l lBound j).mpr ⟨other, mine⟩⟩
    · intro given
      obtain ⟨l, lBound, mine⟩ := given
      obtain ⟨other, mine⟩ := (within l lBound j).mp mine
      exact ⟨other, l, lBound, mine⟩

end Chains

namespace HashSet

variable {α : Type} {chains : Nat → List Nat} {order : List Nat} {s : HashSet α} {i : Nat}

-- The slots of the list are linked, in some arrangement into chains.
def Threaded (order : List Nat) (p : Pool α ChainLink) (b : Buckets) : Prop := ∃ chains, Chains chains order p b

theorem select_run {b : Buckets} (wide : 0 < b.heads.size) (hash : UInt32) :
    b.select hash = .ok (hash.toNat % b.heads.size) := by
  unfold Buckets.select
  rw [if_neg]
  simpa using Nat.ne_of_gt wide

-- What linking a slot leaves: its hash is remembered, and the other slots keep theirs.
structure Linked (i : Nat) (hash : UInt32) (order : List Nat) (s after : HashSet α) : Prop where
  bodies : Pool.SameBodies (fun _ => ()) s.pool after.pool
  hash : (after.pool.linkAt i).hash = hash
  others : ∀ j, j ≠ i → (after.pool.linkAt j).hash = (s.pool.linkAt j).hash
  threaded : Threaded (i :: order) after.pool after.index

theorem linkHead_returns (threaded : Threaded order s.pool s.index) (wide : 0 < s.index.heads.size) (fresh : i ∉ order)
    (positive : 0 < i) (inside : i < s.pool.slots.size) (others : ∀ j ∈ order, j < s.pool.slots.size) (hash : UInt32) :
    Returns (linkHead i hash) s fun _ after => Linked i hash order s after := by
  obtain ⟨chains, linked⟩ := threaded
  have bound := Nat.mod_lt hash.toNat wide
  generalize own : hash.toNat % s.index.heads.size = k at bound
  have headIn : s.index.head k ≠ 0 → s.index.head k ∈ order := fun some =>
    (linked.covers _).mpr ⟨k, bound, (linked.chained k bound).head_mem some⟩
  have headInside : s.index.head k ≠ 0 →
      s.index.head k < (s.pool.relink i fun _ => ⟨0, s.index.head k, hash⟩).slots.size := by
    intro some
    rw [Pool.relink, Pool.size_revise]
    exact others _ (headIn some)
  rw [linkHead, Returns, ends_bind, ends_get, select_run wide, ends_bind, ends_lift, ends_bind, ends_get, own]
  dsimp only
  rw [ends_bind]
  refine Ends.of_ok (Store.onLink_run inside _) ?_
  rw [Store.ends_relinkSome headInside, setHead, ends_modify]
  have headOther : i ≠ s.index.head k := by
    intro same
    exact fresh (same ▸ headIn (same ▸ Nat.ne_of_gt positive))
  have here : ((s.pool.relink i fun _ => ⟨0, s.index.head k, hash⟩).relinkSome (s.index.head k)
      fun link => { link with prev := i }).linkAt i = ⟨0, s.index.head k, hash⟩ := by
    rw [Pool.linkAt_relinkSome headInside _ (Nat.ne_of_gt positive), if_neg headOther, Pool.linkAt_relink inside,
      if_pos rfl]
  have links : ∀ j, j ≠ i → j ≠ 0 → ((s.pool.relink i fun _ => ⟨0, s.index.head k, hash⟩).relinkSome (s.index.head k)
      fun link => { link with prev := i }).linkAt j =
        if j = s.index.head k then { s.pool.linkAt j with prev := i } else s.pool.linkAt j := by
    intro j other some
    rw [Pool.linkAt_relinkSome headInside _ some, Pool.linkAt_relink inside, if_neg (Ne.symm other)]
  have bodies := (Pool.SameBodies.relink (fun _ => ()) inside (f := fun _ => ⟨0, s.index.head k, hash⟩)
    rfl).trans (.relinkSome _ headInside (f := fun link => { link with prev := i }) fun _ => rfl)
  refine ⟨bodies, by rw [here], ?_, _, linked.push bound own fresh positive bodies.capacity here links⟩
  intro j other
  refine ((Pool.SameBodies.relinkSome ChainLink.hash headInside (f := fun link => { link with prev := i })
    fun _ => rfl).kept j).trans ?_
  rw [Pool.linkAt_relink inside, if_neg (Ne.symm other)]

theorem unlink_returns (threaded : Threaded order s.pool s.index) (linkable : s.pool.Linkable order) (member : i ∈ order) :
    Returns (unlink i) s fun _ after =>
      Pool.SameBodies ChainLink.hash s.pool after.pool ∧ Threaded (order.erase i) after.pool after.index := by
  obtain ⟨chains, linked⟩ := threaded
  obtain ⟨bound, mine⟩ := linked.mem_own member
  have chained := linked.chained _ bound
  have reach : ∀ j ∈ chains ((s.pool.linkAt i).hash.toNat % s.index.heads.size), j < s.pool.slots.size :=
    fun j member => (linkable.inside j ((linked.covers j).mpr ⟨_, bound, member⟩)).2
  have prevIn : (s.pool.linkAt i).prev ≠ 0 → (s.pool.linkAt i).prev < s.pool.slots.size :=
    fun some => reach _ (chained.prev_mem mine some)
  have nextIn : (s.pool.linkAt i).next ≠ 0 → (s.pool.linkAt i).next < s.pool.slots.size :=
    fun some => reach _ (chained.next_mem mine some)
  have headOwn : (s.pool.linkAt i).prev = 0 →
      s.index.head ((s.pool.linkAt i).hash.toNat % s.index.heads.size) = i := chained.head_of_prev mine
  have selected := select_run (Nat.lt_of_le_of_lt (Nat.zero_le _) bound) (s.pool.linkAt i).hash
  have inside := (linkable.inside i member).2
  rw [unlink, Returns, ends_bind, ends_get, Pool.link_eq inside, ends_bind, ends_lift]
  cases link : s.pool.linkAt i with
  | mk prev next hash =>
    rw [link] at prevIn nextIn headOwn selected
    dsimp only at prevIn nextIn headOwn selected ⊢
    -- both ways of leaving the slot before come together here
    have joins : ∀ b : Buckets, b.heads.size = s.index.heads.size → b.loadFactor = s.index.loadFactor →
        (∀ l, b.head l = if l = hash.toNat % s.index.heads.size ∧ prev = 0 then next else s.index.head l) →
        Returns (if next ≠ 0 then (do
            let done ← Store.onPool (Pool.modifyLink next fun link => { link with prev := prev })
            (fun _ => Store.onPool (Pool.setLink i ⟨0, 0, hash⟩)) done)
          else (fun _ => Store.onPool (Pool.setLink i ⟨0, 0, hash⟩)) ())
          ⟨s.pool.relinkSome prev fun link => { link with next := next }, b⟩ fun _ after =>
            Pool.SameBodies ChainLink.hash s.pool after.pool ∧ Threaded (order.erase i) after.pool after.index := by
      intro b size factor heads
      have first := Pool.SameBodies.relinkSome ChainLink.hash prevIn (f := fun link => { link with next := next })
        fun _ => rfl
      have nextIn' : next ≠ 0 → next < (s.pool.relinkSome prev fun link => { link with next := next }).slots.size := by
        rw [first.size]
        exact nextIn
      have second := first.trans (.relinkSome _ nextIn' (f := fun link => { link with prev := prev }) fun _ => rfl)
      have inside' := second.size.symm ▸ inside
      rw [Returns, Store.ends_relinkSome nextIn']
      refine Ends.of_ok (Store.onLink_run inside' _) ?_
      have kept := second.kept i
      rw [link] at kept
      have bodies := second.trans (.relink _ inside' (f := fun _ => ⟨0, 0, hash⟩) kept.symm)
      refine ⟨bodies, _, linked.remove linkable.nodup member (by rw [link]) size factor (by rwa [link]) bodies.capacity ?_⟩
      intro j other some
      refine ⟨bodies.kept j, ?_⟩
      rw [Pool.linkAt_relink inside', if_neg (Ne.symm other), Pool.linkAt_relinkSome nextIn' _ some,
        Pool.linkAt_relinkSome prevIn _ some, link]
      dsimp only
      split <;> split <;> exact ⟨rfl, rfl⟩
    split
    · rename_i some
      rw [ends_bind]
      refine Ends.of_ok (Store.onLink_run (prevIn some) _) ?_
      have stepped := joins s.index rfl rfl fun l => by simp [some]
      rw [Pool.relinkSome, if_neg some] at stepped
      exact stepped
    · rename_i none
      rw [not_not] at none
      rw [ends_bind, ends_get, selected, ends_bind, ends_lift, ends_bind, ends_get, headOwn none, if_pos rfl, ends_bind,
        setHead, ends_modify]
      have stepped := joins (s.index.setHead (hash.toNat % s.index.heads.size) next) (by simp) rfl ?_
      · rw [Pool.relinkSome, if_pos none] at stepped
        exact stepped
      · intro l
        rw [Buckets.head_setHead (by rw [link] at bound; exact bound)]
        simp [none]

end HashSet
end Slotted
