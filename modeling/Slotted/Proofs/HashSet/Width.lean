import Slotted.Datum.World
import Slotted.Proofs.Churn
namespace Slotted.HashSet

open Store Session

variable {α ω : Type} {holds : Nat → Nat → Prop} {factor : Nat}

theorem laid_workings : Workings (Laid (α := α) holds) where
  unlink := unlink_laid
  vacate _ := onPool_laid _
  detach _ := onPool_laid _
  discard _ := onPool_laid _
  modifyValue _ _ := onPool_laid _
  compact := compact_keeps (fun _ _ _ laid => laid) (fun _ laid => laid) (fun _ _ => .pure _) rebucket_laid
  clear _ laid := laid_cleared laid

theorem laid_hooks : Hooks (Laid (α := α) holds) where
  workings := laid_workings
  linkHead := linkHead_laid
  rebucket := rebucket_laid
  refresh _ _ := onPool_laid _
  reattach _ _ := onPool_laid _

theorem linkNew_laid (hash : UInt32) (value : α) : Upholds (Laid holds) (linkNew hash value) :=
  Upholds.bind (onPool_laid _) fun i => Upholds.bind (linkHead_laid i hash) fun _ => .pure _

theorem adopt_factor (slots : Nat) : Upholds (Laid (α := α) fun _ loadFactor => loadFactor = factor) (adopt slots) :=
  Upholds.bind (.modify fun _ same => same) fun _ => Upholds.bind (.modify fun _ same => same) fun _ => rebucket_laid

-- The books are in order, the load factor is this one, and there is not room for the reserved slot alone.
structure Tabled (factor : Nat) (s : HashSet α) : Prop where
  booked : Booked s
  factor : s.index.loadFactor = factor
  allotted : s.pool.capacity ≠ 1

variable [Allocator ω]

theorem act_asks {holds : HashSet α → Prop} (rule : HashRule (HashSet α) ω α) (compacts : Upholds holds compact)
    (links : ∀ hash value, Upholds holds (linkNew (α := α) hash value))
    (resizes : ∀ slots, slots ≠ 1 → Guards holds (resizeSlots slots : Update (HashSet α) ω _)) (action : HashSetAction α ω)
    (asks : action.Adds ∨ action.Resizes) : Guards holds (act rule action) := by
  have grows (slots : Nat) : grownSlots slots ≠ 1 := by
    unfold grownSlots minCapacity maxCapacity
    omega
  have fits (capacity : Nat) : slotsFor capacity ≠ 1 := by
    unfold slotsFor
    split <;> omega
  rcases asks with adds | sizes
  · exact act_adds rule (makeRoom_guards compacts fun slots => resizes _ (grows slots)) links action adds
  · cases action with
    | common action =>
      cases action with
      | resize capacity => exact Upholds.bind (resize_guards compacts (resizes _ (fits capacity))) fun _ => .pure _
      | reserve additional =>
        exact Upholds.bind (reserve_guards compacts additional fun capacity => resizes _ (fits capacity)) fun _ => .pure _
      | _ => exact sizes.elim
    | _ => exact sizes.elim

theorem act_tabled (rule : HashRule (HashSet α) ω α) (action : HashSetAction α ω) :
    Guards (Tabled factor) (act rule action) := by
  intro s tabled
  obtain ⟨booked, same, allotted⟩ := tabled
  have told : Always (act rule action) s fun after => after.store.index.loadFactor = factor ∧ after.store.pool.capacity ≠ 1 := by
    by_cases asks : action.Adds ∨ action.Resizes
    · have factors : Guards (Laid fun _ loadFactor => loadFactor = factor) (act rule action) :=
        act_asks rule laid_workings.compact linkNew_laid (fun slots _ => resizeSlots_guards (adopt_factor slots)) action asks
      have sizes : Guards (Sized fun capacity _ => capacity ≠ 1) (act rule action) :=
        act_asks rule compact_sized (linkNew_sized fun _ _ several => several)
          (fun slots several => resizeSlots_sized fun _ _ _ => several) action asks
      exact (factors s same).both (sizes s allotted)
    · obtain ⟨adds, resizes⟩ := not_or.mp asks
      have factors : Guards (Laid fun _ loadFactor => loadFactor = factor) (act rule action) :=
        act_stays rule laid_hooks action adds resizes
      have sizes := act_stays rule bookedAt_hooks action adds resizes s ⟨booked, rfl⟩
      refine ((factors s same).both sizes).imp fun after kept => ⟨kept.1, ?_⟩
      rw [kept.2.2]
      exact allotted
  exact ((act_upholds rule action s booked).both told).imp fun after kept => ⟨kept.1, kept.2.1, kept.2.2⟩

theorem configure_tabled {config : HashConfig} {origin start : Session (HashSet α) ω}
    (configured : configure config origin = .ok (.ok ()) start) : Tabled (clampLoadFactor config.loadFactor) start.store where
  booked := booked_of_sound ((configure_returns config origin).returned configured rfl).1
  factor := by
    have kept : Laid (fun _ loadFactor => loadFactor = clampLoadFactor config.loadFactor) start.store :=
      configure_keeps configured rfl fun _ => resizeSlots_guards (adopt_factor _)
    exact kept
  allotted := by
    have kept : Sized (fun slots _ => slots ≠ 1) start.store :=
      configure_keeps configured Nat.zero_ne_one fun some => resizeSlots_sized fun _ _ _ => by omega
    exact kept

-- Nothing that is done to a hash set, under any rule, changes its load factor. It has no bucket while there is no room, and
-- otherwise at least one; up to ninety-nine per cent never more than elements fit, and at a hundred always one more.
theorem buckets_follow_capacity (rule : HashRule (HashSet α) ω α) (config : HashConfig) (origin start : Session (HashSet α) ω)
    (configured : configure config origin = .ok (.ok ()) start) (actions : List (HashSetAction α ω)) :
    let after := (performed (act rule) actions start).store
    let percent := clampLoadFactor config.loadFactor
    after.loadFactor = percent ∧ (after.capacity = 0 → after.bucketCount = 0) ∧
      (0 < after.capacity → after.bucketCount = max 1 ((after.capacity + 1) * percent / 100) ∧ 1 ≤ after.bucketCount ∧
        (percent < 100 → after.bucketCount ≤ after.capacity) ∧ (percent = 100 → after.bucketCount = after.capacity + 1)) := by
  intro after percent
  have tabled : Tabled percent after :=
    performed_keeps (configure_tabled configured) actions fun action _ s now => perform_keeps (act_tabled rule action s now)
  have width : after.bucketCount = Slotted.bucketCount percent after.pool.capacity := tabled.factor ▸ tabled.booked.fits
  have allotted := tabled.allotted
  have capacity : after.capacity = after.pool.capacity - 1 := rfl
  refine ⟨tabled.factor, fun none => ?_, fun some => ?_⟩
  · have bare : after.pool.capacity = 0 := by omega
    rw [width, bare]
    rfl
  · have slots : after.pool.capacity = after.capacity + 1 := by omega
    have share : after.bucketCount = max 1 ((after.capacity + 1) * percent / 100) := by
      rw [width, slots, Slotted.bucketCount, if_neg (Nat.succ_ne_zero _)]
    refine ⟨share, share ▸ Nat.le_max_left _ _, fun below => ?_, fun full => ?_⟩
    · have fewer : (after.capacity + 1) * percent / 100 < after.capacity + 1 := by
        apply Nat.div_lt_of_lt_mul
        rw [Nat.mul_comm 100]
        exact Nat.mul_lt_mul_of_pos_left below (Nat.succ_pos _)
      omega
    · rw [share, full, Nat.mul_div_cancel _ (by decide : 0 < 100)]
      omega

-- With one per cent, which gives one bucket however many elements come in.
theorem buckets_follow_capacity_of_numbers :
    let r : PureHash Nat := ⟨fun n => UInt32.ofNat n, (· == ·)⟩
    let start : Session (HashSet Nat) World := ⟨⟨⟨#[.sentinel], 4, 0⟩, ⟨#[0], 1⟩⟩, false, World.fresh⟩
    let after := (performed (act r.rule) [.common (.extend [4, 8, 15, 16]), .rehash, .common (.resize 7)] start).store
    configure ⟨3, 0⟩ ⟨empty 0, false, World.fresh⟩ = .ok (.ok ()) start ∧ after.capacity = 7 ∧ after.loadFactor = 1 ∧
      after.bucketCount = 1 := by
  intro r start after
  have configured : configure ⟨3, 0⟩ ⟨empty 0, false, World.fresh⟩ = .ok (.ok ()) start := by with_unfolding_all rfl
  have capacity : after.capacity = 7 := by
    subst after
    decide +kernel
  obtain ⟨factor, _, room⟩ := buckets_follow_capacity r.rule ⟨3, 0⟩ _ start configured
    [.common (.extend [4, 8, 15, 16]), .rehash, .common (.resize 7)]
  have several : 0 < after.capacity := capacity ▸ Nat.succ_pos 6
  have width := (room several).1
  change after.bucketCount = max 1 ((after.capacity + 1) * _ / 100) at width
  rw [capacity] at width
  exact ⟨configured, capacity, factor, width⟩

-- Two elements fit, in three slots, and each slot brings a bucket.
theorem buckets_outgrow_capacity :
    let start : Session (HashSet Nat) World := ⟨⟨⟨#[.sentinel], 3, 0⟩, ⟨#[0, 0, 0], 100⟩⟩, false, World.fresh⟩
    configure ⟨2, 100⟩ ⟨empty 0, false, World.fresh⟩ = .ok (.ok ()) start ∧ start.store.capacity = 2 ∧
      start.store.bucketCount = 3 := by
  refine ⟨by with_unfolding_all rfl, rfl, rfl⟩

end Slotted.HashSet
