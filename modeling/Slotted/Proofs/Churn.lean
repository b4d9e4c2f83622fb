import Slotted.Datum.World
import Slotted.Proofs.Reached
namespace Slotted

variable {ι α β μ ω γ : Type} {holds : Nat → Nat → Prop}

namespace Store

def Sized (holds : Nat → Nat → Prop) (s : Store ι α μ) : Prop := holds s.pool.capacity s.pool.count

theorem Relinks.sized [Inhabited μ] {program : Edit (Store ι α μ) β} (relinks : Relinks program) :
    Upholds (Sized holds) program := by
  intro s now
  refine (relinks.always s).imp fun after same => ?_
  rw [Sized, same.capacity, same.count]
  exact now

theorem push_sized (more : ∀ capacity count, holds capacity count → holds capacity (count + 1)) (value : α) (link : μ) :
    Upholds (Sized holds) (onPool (Pool.push value link) : Edit (Store ι α μ) Nat) := by
  intro s now
  rw [Always, ends_onPool]
  unfold Pool.push
  by_cases bare : s.pool.slots.isEmpty = true
  · simp only [Ends, bare, if_true]
    exact now
  · by_cases full : s.pool.isFull = true
    · simp only [Ends, bare, full, if_true]
      exact now
    · simp only [Ends, bare, full]
      exact more _ _ now

variable [Inhabited μ] [Index ι μ] [LinkingIndex ι μ]

theorem compact_sized : Upholds (Sized holds) (compact : Edit (Store ι α μ) Unit) :=
  compact_keeps (fun _ _ _ now => now) (fun _ now => now) (fun i j => (LinkingIndex.moved i j).sized)
    LinkingIndex.settled.sized

variable [Allocator ω]

theorem resizeSlots_sized {slots : Nat} (sized : ∀ capacity count, holds capacity count → holds slots count) :
    Guards (Sized holds) (resizeSlots slots : Update (Store ι α μ) ω (Except CapacityError Unit)) := by
  refine resizeSlots_guards (Upholds.bind (.modify fun s now => ?_) fun _ => (LinkingIndex.resized slots).sized)
  rw [Sized, Pool.setCapacity_capacity, Pool.setCapacity_count]
  exact sized _ _ now

-- With no more than so many elements there are no more than so many slots.
def Modest (most bound : Nat) (capacity count : Nat) : Prop := count ≤ most → capacity ≤ bound

theorem Modest.push {most bound : Nat} (capacity count : Nat) (modest : Modest most bound capacity count) :
    Modest most bound capacity (count + 1) := fun few => modest (by omega)

theorem grownSlots_modest {most bound capacity count next : Nat} (least : minCapacity + 1 ≤ bound)
    (enough : 4 * most ≤ bound) (full : capacity ≤ next) (dense : ¬ (0 < next - 1 - count ∧ count * 2 ≤ capacity)) :
    Modest most bound (grownSlots capacity) count := by
  intro few
  unfold grownSlots minCapacity maxCapacity at *
  omega

theorem makeRoom_modest {most bound : Nat} (least : minCapacity + 1 ≤ bound) (enough : 4 * most ≤ bound) :
    Guards (Sized (Modest most bound)) (makeRoom : Update (Store ι α μ) ω (Except CapacityError Bool)) := by
  intro s modest
  rw [makeRoom, Always, ends_bind, ends_get]
  dsimp only
  rw [ends_bind, ends_get]
  split
  · exact modest
  · rename_i full
    have full : s.store.pool.capacity ≤ s.store.pool.next := by simpa [Pool.isFull] using full
    rw [ends_bind, ends_get]
    unfold Pool.tombstones
    split
    · rw [ends_bind, ends_lift, ends_bind, ends_get]
      split
      · exact Upholds.bind (Update.guards_edit compact_sized) (fun _ => .pure _) s modest
      · rename_i dense
        simp only [Bool.and_eq_true, decide_eq_true_eq] at dense
        split
        · exact modest
        · -- the number of elements stays in sight while the pool grows
          have grown : Modest most bound (grownSlots s.store.pool.capacity) s.store.pool.count :=
            grownSlots_modest least enough full dense
          have kept : Guards (Sized fun capacity count => count = s.store.pool.count ∧ Modest most bound capacity count)
              (resizeSlots (grownSlots s.store.pool.capacity) : Update (Store ι α μ) ω _) :=
            resizeSlots_sized fun _ count now => ⟨now.1, now.1 ▸ grown⟩
          exact Always.imp (Upholds.bind kept (fun _ => .pure _) s ⟨rfl, modest⟩) fun _ told => told.2
    · exact modest

end Store

open Store Session

section Runs

variable [Inhabited μ] [Index ι μ] [FittingIndex ι μ] {act : γ → Update (Store ι α μ) ω β} {most bound : Nat}
  {s : Session (Store ι α μ) ω}

-- As long as there never are more elements than that, every step finds the pool modest and leaves it so.
theorem performed_modest {actions : List γ} (booked : Booked s.store) (modest : Sized (Modest most bound) s.store)
    (step : ∀ action ∈ actions, ∀ s, Booked s.store → Sized (Modest most bound) s.store → s.store.len ≤ most →
      Always (act action) s fun after => Booked after.store ∧ Sized (Modest most bound) after.store)
    (few : ∀ n, (performed act (actions.take n) s).store.len ≤ most) (n : Nat) :
    (performed act (actions.take n) s).store.pool.capacity ≤ bound := by
  induction actions generalizing s n with
  | nil =>
    rw [List.take_nil]
    exact modest (few 0)
  | cons action actions ih =>
    cases n with
    | zero => exact modest (few 0)
    | succ n =>
      have now := step action List.mem_cons_self s booked modest (few 0)
      obtain ⟨booked', modest'⟩ := perform_tells (fun _ (after : Session (Store ι α μ) ω) =>
        Booked after.store ∧ Sized (Modest most bound) after.store) now
      exact ih booked' modest' (fun action member => step action (List.mem_cons_of_mem _ member)) (fun n => few (n + 1)) n

end Runs

variable [Allocator ω] {most bound : Nat}

namespace HashSet

theorem linkNew_sized (more : ∀ capacity count, holds capacity count → holds capacity (count + 1)) (hash : UInt32) (value : α) :
    Upholds (Sized holds) (linkNew hash value) :=
  Upholds.bind (push_sized more value default) fun i =>
    Upholds.bind (linkHead_relinks i hash).sized fun _ => .pure _

theorem act_modest (least : minCapacity + 1 ≤ bound) (enough : 4 * most ≤ bound) (rule : HashRule (HashSet α) ω α)
    {action : HashSetAction α ω} (still : ¬ action.Resizes) {s : Session (HashSet α) ω} (booked : Booked s.store)
    (modest : Sized (Modest most bound) s.store) (few : s.store.len ≤ most) :
    Always (act rule action) s fun after => Sized (Modest most bound) after.store := by
  by_cases adds : action.Adds
  · exact act_adds rule (makeRoom_modest least enough) (linkNew_sized Modest.push) action adds s modest
  · refine (act_stays rule bookedAt_hooks action adds still s ⟨booked, rfl⟩).imp fun after kept _ => ?_
    exact kept.2.le.trans (modest few)

theorem configure_keeps {holds : HashSet α → Prop} {config : HashConfig} {origin start : Session (HashSet α) ω}
    (configured : configure config origin = .ok (.ok ()) start) (first : holds (empty (clampLoadFactor config.loadFactor)))
    (resizes : config.capacity ≠ 0 → Guards holds (resizeSlots (config.capacity + 1) : Update (HashSet α) ω _)) :
    holds start.store := by
  unfold configure HashConfig.validated at configured
  by_cases exceeds : maxCapacity < config.capacity
  · rw [if_pos exceeds] at configured
    cases configured
  · rw [if_neg exceeds] at configured
    exact (begin_guards first resizes origin).returned configured

theorem configure_sized {config : HashConfig} {origin start : Session (HashSet α) ω}
    (configured : configure config origin = .ok (.ok ()) start) : start.store.pool.capacity ≤ config.capacity + 1 := by
  have kept : Sized (fun slots _ => slots ≤ config.capacity + 1) start.store :=
    configure_keeps configured (Nat.zero_le _) fun _ => resizeSlots_sized fun _ _ _ => Nat.le_refl _
  exact kept

end HashSet

namespace TreeSet

theorem linkNew_sized (more : ∀ capacity count, holds capacity count → holds capacity (count + 1)) (value : α) (parent : Nat)
    (side : Side) : Upholds (Sized holds) (linkNew value parent side) :=
  Upholds.bind (push_sized more value default) fun i =>
    Upholds.bind (attach_relinks i parent side).sized fun _ => .pure _

theorem act_modest (least : minCapacity + 1 ≤ bound) (enough : 4 * most ≤ bound) (rule : OrderRule (TreeSet α) ω α)
    {action : TreeSetAction α ω} (still : ¬ action.Resizes) {s : Session (TreeSet α) ω} (booked : Booked s.store)
    (modest : Sized (Modest most bound) s.store) (few : s.store.len ≤ most) :
    Always (act rule action) s fun after => Sized (Modest most bound) after.store := by
  by_cases adds : action.Adds
  · exact act_adds rule (makeRoom_modest least enough) (linkNew_sized Modest.push) action adds s modest
  · refine (act_stays rule action adds still s ⟨booked, rfl⟩).imp fun after kept _ => ?_
    exact kept.2.le.trans (modest few)

theorem configure_sized {config : TreeConfig} {origin start : Session (TreeSet α) ω}
    (configured : configure config origin = .ok (.ok ()) start) : start.store.pool.capacity ≤ config.capacity + 1 := by
  unfold configure TreeConfig.validated at configured
  by_cases exceeds : maxCapacity < config.capacity
  · rw [if_pos exceeds] at configured
    cases configured
  · rw [if_neg exceeds] at configured
    have first : Sized (fun slots _ => slots ≤ config.capacity + 1) (TreeSet.empty (α := α)) := Nat.zero_le _
    exact (begin_guards first (fun _ => resizeSlots_sized fun _ _ _ => Nat.le_refl _) origin).returned configured

end TreeSet

-- Whatever comes and goes, under any rule and any closures: if there never are more than so many elements, there never
-- are more slots than were asked for at the start, than the least a pool grows to, or than four for each of the elements.
-- Only requests for a size are left out.
theorem churn_keeps_capacity (capacity most : Nat) :
    (∀ (rule : HashRule (HashSet α) ω α) (loadFactor : Nat) (origin start : Session (HashSet α) ω)
      (actions : List (HashSetAction α ω)), HashSet.configure ⟨capacity, loadFactor⟩ origin = .ok (.ok ()) start →
      (∀ action ∈ actions, ¬ action.Resizes) →
      (∀ n, (performed (HashSet.act rule) (actions.take n) start).store.len ≤ most) →
      ∀ n, (performed (HashSet.act rule) (actions.take n) start).store.pool.capacity ≤
        max (capacity + 1) (max 9 (4 * most))) ∧
    ∀ (rule : OrderRule (TreeSet α) ω α) (origin start : Session (TreeSet α) ω) (actions : List (TreeSetAction α ω)),
      TreeSet.configure ⟨capacity⟩ origin = .ok (.ok ()) start → (∀ action ∈ actions, ¬ action.Resizes) →
      (∀ n, (performed (TreeSet.act rule) (actions.take n) start).store.len ≤ most) →
      ∀ n, (performed (TreeSet.act rule) (actions.take n) start).store.pool.capacity ≤
        max (capacity + 1) (max 9 (4 * most)) := by
  have least : minCapacity + 1 ≤ max (capacity + 1) (max 9 (4 * most)) := by
    unfold minCapacity
    omega
  have enough : 4 * most ≤ max (capacity + 1) (max 9 (4 * most)) := (Nat.le_max_right _ _).trans (Nat.le_max_right _ _)
  constructor
  · intro rule loadFactor origin start actions configured still few n
    have booked := HashSet.booked_of_sound ((HashSet.configure_returns _ origin).returned configured rfl).1
    have modest : Sized (Modest most (max (capacity + 1) (max 9 (4 * most)))) start.store := fun _ =>
      (HashSet.configure_sized configured).trans (Nat.le_max_left _ _)
    refine performed_modest booked modest (fun action member s booked modest few => ?_) few n
    exact Ends.both (HashSet.act_upholds rule action s booked)
      (HashSet.act_modest least enough rule (still action member) booked modest few)
  · intro rule origin start actions configured still few n
    have booked := TreeSet.booked_of_sound ((TreeSet.configure_returns _ origin).returned configured rfl).1
    have modest : Sized (Modest most (max (capacity + 1) (max 9 (4 * most)))) start.store := fun _ =>
      (TreeSet.configure_sized configured).trans (Nat.le_max_left _ _)
    refine performed_modest booked modest (fun action member s booked modest few => ?_) few n
    exact Ends.both (TreeSet.act_upholds rule action s booked)
      (TreeSet.act_modest least enough rule (still action member) booked modest few)

-- Numbers one after another, of which never two are there at a time: the three slots are used again and again.
theorem churn_keeps_capacity_of_numbers :
    let hashing : PureHash Nat := ⟨fun n => UInt32.ofNat (n % 3), fun a b => a == b⟩
    let ordering : PureOrder Nat := ⟨compare⟩
    let chained : Session (HashSet Nat) World := ⟨⟨⟨#[.sentinel], 3, 0⟩, ⟨#[0], 60⟩⟩, false, World.fresh⟩
    let sorted : Session (TreeSet Nat) World := ⟨⟨⟨#[.sentinel], 3, 0⟩, ⟨0⟩⟩, false, World.fresh⟩
    let churn : List (SetAction Nat) := [.insert 1, .take 1, .tryInsert 2, .extract ⟨2, Nat.two_pos⟩ id .drop, .insert 3,
      .remove ⟨1, Nat.one_pos⟩, .insert 4, .reorder, .take 4, .insert 5]
    HashSet.configure ⟨2, 60⟩ ⟨HashSet.empty 0, false, World.fresh⟩ = .ok (.ok ()) chained ∧
      TreeSet.configure ⟨2⟩ ⟨TreeSet.empty, false, World.fresh⟩ = .ok (.ok ()) sorted ∧
      (∀ n, (performed (HashSet.act hashing.rule) ((churn.map .common).take n) chained).store.len ≤ 1 ∧
        (performed (HashSet.act hashing.rule) ((churn.map .common).take n) chained).store.pool.capacity ≤ 9) ∧
      ∀ n, (performed (TreeSet.act ordering.rule) ((churn.map .common).take n) sorted).store.len ≤ 1 ∧
        (performed (TreeSet.act ordering.rule) ((churn.map .common).take n) sorted).store.pool.capacity ≤ 9 := by
  intro hashing ordering chained sorted churn
  have configured : HashSet.configure ⟨2, 60⟩ ⟨HashSet.empty 0, false, World.fresh⟩ = .ok (.ok ()) chained := by
    with_unfolding_all rfl
  have configured' : TreeSet.configure ⟨2⟩ ⟨TreeSet.empty, false, World.fresh⟩ = .ok (.ok ()) sorted := rfl
  have asks : ∀ action ∈ churn, ¬ action.Resizes := by
    intro action member
    simp only [churn, List.mem_cons, List.not_mem_nil, or_false] at member
    rcases member with rfl | rfl | rfl | rfl | rfl | rfl | rfl | rfl | rfl | rfl <;> exact not_false
  have few : ∀ n, (performed (HashSet.act hashing.rule) ((churn.map .common).take n) chained).store.len ≤ 1 := by
    have soon : ∀ n ≤ 10, (performed (HashSet.act hashing.rule) ((churn.map .common).take n) chained).store.len ≤ 1 := by
      decide +kernel
    intro n
    rw [List.take_eq_take_min]
    exact soon _ (Nat.min_le_right _ _)
  have few' : ∀ n, (performed (TreeSet.act ordering.rule) ((churn.map .common).take n) sorted).store.len ≤ 1 := by
    have soon : ∀ n ≤ 10, (performed (TreeSet.act ordering.rule) ((churn.map .common).take n) sorted).store.len ≤ 1 := by
      decide +kernel
    intro n
    rw [List.take_eq_take_min]
    exact soon _ (Nat.min_le_right _ _)
  refine ⟨configured, configured', fun n => ⟨few n, ?_⟩, fun n => ⟨few' n, ?_⟩⟩
  · refine (churn_keeps_capacity 2 1).1 hashing.rule 60 _ chained _ configured (fun action member => ?_) few n
    obtain ⟨common, within, rfl⟩ := List.mem_map.mp member
    exact asks common within
  · refine (churn_keeps_capacity 2 1).2 ordering.rule _ sorted _ configured' (fun action member => ?_) few' n
    obtain ⟨common, within, rfl⟩ := List.mem_map.mp member
    exact asks common within

end Slotted
