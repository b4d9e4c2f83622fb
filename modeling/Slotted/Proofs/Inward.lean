import Slotted.Proofs.Store.Refusal
import Slotted.Action.Tree
namespace Slotted

variable {ι α κ ν μ σ β γ ω : Type}

namespace Inward

theorem throw {fault : Fault} (internal : fault.Internal) : Inward (MonadExcept.throw fault : EStateM Fault σ β) :=
  fun _ => internal

theorem throw_bind (fault : Fault) (internal : fault.Internal) (rest : γ → EStateM Fault σ β) :
    Inward (MonadExcept.throw fault >>= rest) := fun _ => internal

theorem onPool {change : Edit (Pool α μ) β} (inward : Inward change) :
    Inward (Store.onPool change : Edit (Store ι α μ) β) := by
  intro s
  rw [Store.ends_onPool]
  exact inward s.pool

end Inward

namespace Pool

variable (p : Pool α μ)

theorem Cursor.yield_looksInside (c : Cursor) (i : Nat) (value : α) : LooksInside (c.yield i value) := by
  unfold Cursor.yield
  split
  · exact looksInside_error trivial
  · exact LooksInside.bind (Handle.ofIndex_looksInside i) fun _ => looksInside_ok _

theorem Cursor.next_looksInside (c : Cursor) : LooksInside (c.next p) := by
  fun_induction Cursor.next p c with
  | case1 c open_ rest value held => exact rest.yield_looksInside _ value
  | case2 c open_ rest gap ih => exact ih
  | case3 c done => exact looksInside_ok _

theorem Cursor.nextBack_looksInside (c : Cursor) : LooksInside (c.nextBack p) := by
  fun_induction Cursor.nextBack p c with
  | case1 c open_ rest value held => exact rest.yield_looksInside _ value
  | case2 c open_ rest gap ih => exact ih
  | case3 c done => exact looksInside_ok _

theorem climb_looksInside (p : Pool α TreeLink) (side : Side) (fuel child parent : Nat) :
    LooksInside (p.climb side fuel child parent) := by
  induction fuel generalizing child parent with
  | zero =>
    unfold climb
    split
    · exact looksInside_ok _
    · refine LooksInside.bind (p.link_looksInside parent) fun link => ?_
      split
      · exact looksInside_ok _
      · exact looksInside_error trivial
  | succ fuel ih =>
    unfold climb
    split
    · exact looksInside_ok _
    · refine LooksInside.bind (p.link_looksInside parent) fun link => ?_
      split
      · exact looksInside_ok _
      · exact ih _ _

theorem neighbour_looksInside (p : Pool α TreeLink) (side : Side) (i : Nat) : LooksInside (p.neighbour side i) := by
  refine LooksInside.bind (p.link_looksInside i) fun link => ?_
  split
  · exact p.extremeFrom_looksInside _ _ _
  · exact p.climb_looksInside _ _ _ _

theorem modifySlot_inward (i : Nat) (f : Slot α μ → Slot α μ) : Inward (modifySlot i f) := by
  intro p
  rw [Ends, modifySlot]
  by_cases inside : i < p.slots.size
  · rw [if_pos inside]
    trivial
  · rw [if_neg inside]
    trivial

theorem takeFromCount_inward : Inward (takeFromCount : Edit (Pool α μ) Unit) := by
  intro p
  rw [Ends, takeFromCount]
  by_cases none : p.count = 0
  · rw [if_pos none]
    trivial
  · rw [if_neg none]
    trivial

theorem modifyValue_inward (i : Nat) (change : α → α) : Inward (modifyValue i change : Edit (Pool α μ) Unit) :=
  Inward.bind .get fun p => Inward.bind (.lift (p.value_looksInside i)) fun _ => modifySlot_inward i _

theorem take_inward (i : Nat) : Inward (take i : Edit (Pool α μ) (Option α)) := by
  refine Inward.bind .get fun p => ?_
  split
  · refine Inward.bind (modifySlot_inward i _) fun _ => Inward.bind takeFromCount_inward fun _ => ?_
    exact Inward.bind .get fun p => Inward.bind (modifySlot_inward i _) fun _ => .pure _
  · exact .pure _

theorem detach_inward (i : Nat) : Inward (detach i : Edit (Pool α μ) Unit) := by
  refine Inward.bind .get fun p => ?_
  split
  · exact Inward.bind .get fun p => .throw trivial
  · dsimp only
    split
    · exact Inward.bind (modifySlot_inward i _) fun _ => takeFromCount_inward
    · exact .throw_bind .detachIdle trivial _

theorem reattach_inward (i : Nat) : Inward (reattach i : Edit (Pool α μ) Unit) := by
  refine Inward.bind .get fun p => ?_
  split
  · exact Inward.bind .get fun p => .throw trivial
  · dsimp only
    split
    · exact Inward.bind (modifySlot_inward i _) fun _ => .modify _
    · exact .throw_bind .reattachLive trivial _

theorem discard_inward (i : Nat) : Inward (discard i : Edit (Pool α μ) (Option α)) := by
  refine Inward.bind .get fun p => ?_
  split
  · exact Inward.bind .get fun p => .throw trivial
  · dsimp only
    split
    · exact .throw_bind .discardLive trivial _
    · exact Inward.bind (modifySlot_inward i _) fun _ => .pure _

end Pool

namespace Store

theorem handleOf_looksInside (s : Store ι α μ) (loan : Loan α) : LooksInside (s.handleOf loan) := by
  unfold handleOf
  split
  · exact looksInside_ok _
  · split
    · exact LooksInside.bind (Handle.ofIndex_looksInside _) fun _ => looksInside_ok _
    · exact looksInside_ok _

theorem modifyAt_inward (h : Handle) (change : α → α) : Inward (modifyAt h change : Edit (Store ι α μ) (Option α)) := by
  refine Inward.bind .get fun s => ?_
  split
  · exact .pure _
  · exact Inward.bind (.onPool (Pool.modifyValue_inward _ _)) fun _ => Inward.bind .get fun _ => .pure _

theorem drop_inward (d : Detached) : Inward (drop d : Edit (Store ι α μ) Unit) :=
  Inward.bind (.onPool (Pool.discard_inward _)) fun _ => .pure _

theorem release_inward (d : Detached) : Inward (release d : Edit (Store ι α μ) α) := by
  refine Inward.bind (.onPool (Pool.discard_inward _)) fun found => ?_
  cases found with
  | some value => exact .pure _
  | none => exact .throw trivial

variable [Inhabited μ] [Index ι μ] [FittingIndex ι μ]

theorem remove_inward (h : Handle) : Inward (remove h : Edit (Store ι α μ) (Option α)) := by
  refine Inward.bind .get fun s => ?_
  split
  · exact Inward.bind (LinkingIndex.unlink _).inward fun _ => .onPool (Pool.take_inward _)
  · exact .pure _

theorem extract_inward (h : Handle) : Inward (extract h : Edit (Store ι α μ) (Option Detached)) := by
  refine Inward.bind .get fun s => ?_
  split
  · exact Inward.bind (LinkingIndex.unlink _).inward fun _ => Inward.bind (.onPool (Pool.detach_inward _)) fun _ => .pure _
  · exact .pure _

theorem reorder_inward : Inward (reorder : Edit (Store ι α μ) Unit) := by
  refine Inward.bind .get fun s => Inward.bind (.lift s.pool.tombstones_looksInside) fun tombstones => ?_
  split
  · exact compact_inward
  · exact .pure _

end Store

open Store

namespace HashSet

theorem linkNew_inward (hash : UInt32) (value : α) : Inward (linkNew hash value) :=
  Inward.bind (push_inward value default) fun i => Inward.bind (linkHead_relinks i hash).inward fun _ => .pure _

theorem stepChanging_inward {step : Step α} (inside : ∀ p c, LooksInside (step p c)) (change : Nat → α → α) (c : Pool.Cursor) :
    Inward (stepChanging step change c) := by
  refine Inward.bind .get fun s => Inward.bind (.lift (inside s.pool c)) fun met => ?_
  split
  · exact Inward.bind (modifyAt_inward _ _) fun _ => .pure _
  · exact .pure _

end HashSet

namespace TreeSet

theorem linkNew_inward (value : α) (parent : Nat) (side : Side) : Inward (linkNew value parent side) :=
  Inward.bind (push_inward value default) fun i => Inward.bind (attach_relinks i parent side).inward fun _ => .pure _

variable (s : TreeSet α)

theorem extremeSlot_looksInside (side : Side) : LooksInside (s.extremeSlot side) := s.pool.extremeFrom_looksInside _ _ _

theorem extreme_looksInside (side : Side) : LooksInside (s.extreme side) :=
  LooksInside.bind (s.extremeSlot_looksInside side) fun _ => looksInside_ok _

theorem neighbourOf_looksInside (side : Side) (h : Handle) : LooksInside (s.neighbourOf side h) := by
  unfold neighbourOf
  split
  · exact LooksInside.bind (s.pool.neighbour_looksInside side _) fun _ => looksInside_ok _
  · exact looksInside_ok _

theorem cursor_looksInside : LooksInside s.cursor :=
  LooksInside.bind (s.extremeSlot_looksInside _) fun _ =>
    LooksInside.bind (s.extremeSlot_looksInside _) fun _ => looksInside_ok _

namespace Cursor

theorem next_looksInside (c : Cursor) : LooksInside (next s c) := by
  unfold next
  split
  · exact looksInside_ok _
  · refine LooksInside.bind (s.pool.neighbour_looksInside _ _) fun _ => ?_
    refine LooksInside.bind (s.pool.value_looksInside _) fun _ => ?_
    exact LooksInside.bind (Handle.ofIndex_looksInside _) fun _ => looksInside_ok _

theorem nextBack_looksInside (c : Cursor) : LooksInside (nextBack s c) := by
  unfold nextBack
  split
  · exact looksInside_ok _
  · refine LooksInside.bind (s.pool.neighbour_looksInside _ _) fun _ => ?_
    refine LooksInside.bind (s.pool.value_looksInside _) fun _ => ?_
    exact LooksInside.bind (Handle.ofIndex_looksInside _) fun _ => looksInside_ok _

theorem drain_looksInside (n : Nat) (c : Cursor) : LooksInside (c.drain s n) := by
  induction n generalizing c with
  | zero => exact looksInside_ok _
  | succ n ih =>
    refine LooksInside.bind (next_looksInside s c) fun met => ?_
    split
    · exact looksInside_ok _
    · exact LooksInside.bind (ih _) fun _ => looksInside_ok _

end Cursor

theorem entries_looksInside : LooksInside s.entries :=
  LooksInside.bind s.cursor_looksInside fun c => Cursor.drain_looksInside s s.len c

theorem updateFrom_inward (change : Nat → α → α) (fuel i : Nat) : Inward (updateFrom change fuel i) := by
  induction fuel generalizing i with
  | zero =>
    unfold updateFrom
    split
    · exact .pure _
    · exact .throw trivial
  | succ fuel ih =>
    unfold updateFrom
    split
    · exact .pure _
    · refine Inward.bind .get fun s => Inward.bind (.lift (s.pool.value_looksInside i)) fun value => ?_
      refine Inward.bind (.onPool (Pool.modifyValue_inward i (change i))) fun _ => ?_
      refine Inward.bind .get fun s => Inward.bind (.lift (s.pool.neighbour_looksInside _ i)) fun next => ?_
      exact Inward.bind (ih next) fun _ => .pure _

theorem updateAll_inward (change : Nat → α → α) : Inward (updateAll change) :=
  Inward.bind .get fun _ => Inward.bind .get fun s => Inward.bind (.lift (s.extremeSlot_looksInside _)) fun i =>
    updateFrom_inward change _ i

end TreeSet

theorem TreeMap.pop_inward (side : Side) : Inward (pop side : Edit (TreeMap κ ν) (Option (Entry κ ν))) := by
  refine Inward.bind .get fun s => Inward.bind (.lift s.cursor_looksInside) fun c => ?_
  extract_lets onward
  have removes : ∀ met, Inward (onward met) := by
    rintro ⟨first, rest⟩
    cases first with
    | none => exact .pure _
    | some entry => exact remove_inward entry.1
  cases side with
  | left => exact Inward.bind (.lift (TreeSet.Cursor.next_looksInside s c)) removes
  | right => exact Inward.bind (.lift (TreeSet.Cursor.nextBack_looksInside s c)) removes

end Slotted
