import Slotted.Proofs.HashSet.Chain
namespace Slotted

namespace HashSet

open Pool

variable {α : Type} {done order : List Nat} {s₀ s : HashSet α}

theorem Threaded.congr {p : Pool α ChainLink} {b : Buckets} {order' : List Nat} (threaded : Threaded order p b)
    (same : ∀ i, i ∈ order' ↔ i ∈ order) : Threaded order' p b := by
  obtain ⟨chains, linked⟩ := threaded
  exact ⟨chains, linked.congr same⟩

theorem Threaded.wide {p : Pool α ChainLink} {b : Buckets} (threaded : Threaded order p b) (allocated : 0 < p.capacity) :
    0 < b.heads.size := by
  obtain ⟨chains, linked⟩ := threaded
  rw [linked.width]
  exact bucketCount_pos _ allocated

-- Some slots of `s₀` are linked so far.
structure Relinking (done : List Nat) (s₀ s : HashSet α) : Prop where
  bodies : SameBodies ChainLink.hash s₀.pool s.pool
  threaded : Threaded done s.pool s.index
  live : ∀ i ∈ done, s₀.pool.isActive i = true

theorem Relinking.step {i : Nat} (relinking : Relinking done s₀ s) (allocated : 0 < s₀.pool.capacity) (positive : 0 < i)
    (fresh : i ∉ done) : Returns (linkRemembered i) s fun _ after =>
      ∃ done', Relinking done' s₀ after ∧ ∀ j, j ∈ done' ↔ j ∈ done ∨ j = i ∧ s₀.pool.isActive i = true := by
  have bodies := relinking.bodies
  rw [linkRemembered, Returns, ends_bind, ends_get]
  split
  · rename_i active
    have live : s₀.pool.isActive i = true := bodies.isActive i ▸ active
    have inside := isActive_lt active
    have others : ∀ j ∈ done, j < s.pool.slots.size := fun j member =>
      isActive_lt ((bodies.isActive j).trans (relinking.live j member))
    have wide := relinking.threaded.wide (bodies.capacity ▸ allocated)
    rw [ends_bind, ends_get, link_eq inside, ends_bind, ends_lift]
    refine (linkHead_returns relinking.threaded wide fresh positive inside others _).returning ?_
    intro _ after linked
    refine ⟨i :: done, ⟨bodies.trans (linked.bodies.keeping ?_), linked.threaded, ?_⟩, ?_⟩
    · intro j
      by_cases same : j = i
      · rw [same, linked.hash]
      · exact linked.others j same
    · intro j member
      rcases List.mem_cons.mp member with rfl | member
      · exact live
      · exact relinking.live j member
    · intro j
      simp [live, or_comm]
  · rename_i idle
    rw [bodies.isActive] at idle
    exact ⟨done, relinking, fun j => by simp [idle]⟩

theorem Relinking.run (slots : List Nat) (relinking : Relinking done s₀ s) (allocated : 0 < s₀.pool.capacity)
    (positive : ∀ i ∈ slots, 0 < i) (nodup : slots.Nodup) (fresh : ∀ i ∈ slots, i ∉ done) :
    Returns (slots.forM linkRemembered) s fun _ after =>
      ∃ done', Relinking done' s₀ after ∧ ∀ j, j ∈ done' ↔ j ∈ done ∨ j ∈ slots ∧ s₀.pool.isActive j = true := by
  induction slots generalizing done s with
  | nil => exact Ends.of_ok rfl ⟨done, relinking, fun j => by simp⟩
  | cons i slots ih =>
    have parts := List.nodup_cons.mp nodup
    change Returns (linkRemembered i >>= fun _ => slots.forM linkRemembered) s _
    refine (relinking.step allocated (positive i List.mem_cons_self) (fresh i List.mem_cons_self)).bind ?_
    intro _ middle ends
    obtain ⟨done', relinking', covers'⟩ := ends
    refine (ih relinking' (fun j member => positive j (List.mem_cons_of_mem _ member)) parts.2 ?_).returning ?_
    · intro j member
      rw [covers', not_or]
      refine ⟨fresh j (List.mem_cons_of_mem _ member), ?_⟩
      intro given
      obtain ⟨rfl, _⟩ := given
      exact parts.1 member
    · intro _ after ends
      obtain ⟨done'', relinking'', covers''⟩ := ends
      refine ⟨done'', relinking'', ?_⟩
      intro j
      rw [covers'', covers', List.mem_cons, or_assoc]
      constructor
      · intro given
        rcases given with old | ⟨rfl, live⟩ | ⟨member, live⟩
        · exact .inl old
        · exact .inr ⟨.inl rfl, live⟩
        · exact .inr ⟨.inr member, live⟩
      · intro given
        rcases given with old | ⟨rfl | member, live⟩
        · exact .inl old
        · exact .inr (.inl ⟨rfl, live⟩)
        · exact .inr (.inr ⟨member, live⟩)

theorem rebucket_returns (width : s.index.heads.size = Slotted.bucketCount s.index.loadFactor s.pool.capacity)
    (tidy : s.pool.Tidy) (enumerates : s.pool.Enumerates order) :
    Returns rebucket s fun _ after =>
      SameBodies ChainLink.hash s.pool after.pool ∧ Threaded order after.pool after.index := by
  have bare : Chains (fun _ => []) [] s.pool s.index.cleared :=
    .bare (by simpa [Buckets.cleared] using width) fun k _ => Buckets.head_replicate ..
  rw [rebucket, Returns, ends_bind, ends_modify, ends_bind, ends_get]
  dsimp only
  split
  · rename_i none
    rw [ends_pure]
    refine ⟨.refl _, Threaded.congr ⟨_, bare⟩ fun i => ?_⟩
    have capacity : s.pool.capacity = 0 := by
      have empty : s.index.heads.size = 0 := by simpa [Buckets.cleared] using none
      by_contra some
      have positive := bucketCount_pos s.index.loadFactor (Nat.pos_of_ne_zero some)
      omega
    have fits := tidy.fits
    simp only [List.not_mem_nil, iff_false, enumerates.mem]
    intro live
    have inside := isActive_lt live
    omega
  · rename_i some
    have allocated : 0 < s.pool.capacity := by
      apply Nat.pos_of_ne_zero
      intro none
      rw [none, Slotted.bucketCount, if_pos rfl] at width
      simp [Buckets.cleared, width] at some
    rw [ends_bind, ends_get]
    have start : Relinking [] s ⟨s.pool, s.index.cleared⟩ := ⟨.refl _, ⟨_, bare⟩, fun i member => by cases member⟩
    refine (start.run _ allocated ?_ List.nodup_range' fun i _ => List.not_mem_nil).returning ?_
    · intro i member
      have bounds := List.mem_range'_1.mp member
      omega
    · intro _ after ends
      obtain ⟨done, relinking, covers⟩ := ends
      refine ⟨relinking.bodies, relinking.threaded.congr fun i => ?_⟩
      rw [enumerates.mem, covers, List.mem_range'_1]
      constructor
      · intro live
        have inside := isActive_lt live
        have positive : i ≠ 0 := by
          intro same
          subst same
          simp [tidy.idle] at live
        refine .inr ⟨?_, live⟩
        unfold next
        dsimp only
        omega
      · intro given
        rcases given with absent | ⟨_, live⟩
        · cases absent
        · exact live

end HashSet

instance : LawfulIndex Buckets ChainLink where
  Memory := UInt32
  keep := ChainLink.hash
  Shape := List Nat
  slots order := order
  rename ρ order := order.map ρ
  slots_rename _ _ := rfl
  rename_same same := by
    rw [List.map_congr_left same, List.map_id']
  rename_rename _ _ _ := List.map_map
  Threads := HashSet.Threaded
  frame := by
    intro α order p q b threaded same capacity
    obtain ⟨chains, linked⟩ := threaded
    exact ⟨chains, linked.frame same capacity⟩
  -- compaction leaves the chains behind; they are rebuilt when it is over
  Moving _ p b := b.heads.size = bucketCount b.loadFactor p.capacity
  moving := by
    intro α order p b threaded
    obtain ⟨chains, linked⟩ := threaded
    exact linked.width
  movingFrame width _ capacity := by
    rw [capacity]
    exact width
  moved width _ _ _ _ _ := ⟨.refl _, width⟩
  settled width tidy enumerates := HashSet.rebucket_returns width tidy enumerates
  resized := by
    intro α order p s _ _ tidy enumerates
    have width : (s.index.sized s.pool.capacity).heads.size = bucketCount s.index.loadFactor s.pool.capacity := by
      simp [Buckets.sized]
    exact HashSet.rebucket_returns (s := ⟨s.pool, s.index.sized s.pool.capacity⟩) width tidy enumerates
  unlink threaded linkable member := by
    refine (HashSet.unlink_returns threaded linkable member).returning ?_
    intro _ after ends
    obtain ⟨bodies, rest⟩ := ends
    exact ⟨bodies, _, rfl, rest⟩
  cleared := by
    intro α order p b threaded
    obtain ⟨chains, linked⟩ := threaded
    have width : b.cleared.heads.size = bucketCount b.loadFactor p.capacity := by
      simpa [Buckets.cleared] using linked.width
    exact ⟨[], rfl, _, .bare width fun k _ => Buckets.head_replicate ..⟩

end Slotted
