import Mathlib.Logic.Function.Iterate
import Slotted.Proofs.Store.Removal
namespace Slotted.Pool

variable {α μ β γ : Type} {p q r : Pool α μ} {i : Nat}

-- Every pool that comes about is within its limits, even one that a fault left behind.
structure Bounded (p : Pool α μ) : Prop where
  fits : p.slots.size ≤ p.capacity
  limit : p.capacity ≤ maxCapacity + 1

theorem Tidy.bounded (tidy : p.Tidy) : p.Bounded := ⟨tidy.fits, tidy.limit⟩

theorem SameBodies.bounded [Inhabited μ] {δ : Type} {keep : μ → δ} (same : SameBodies keep p q) (bounded : p.Bounded) :
    q.Bounded := by
  constructor
  · rw [same.size, same.capacity]
    exact bounded.fits
  · rw [same.capacity]
    exact bounded.limit

theorem Bounded.revise (bounded : p.Bounded) (i : Nat) (f : Slot α μ → Slot α μ) (count : Nat) :
    (p.revise i f count).Bounded := by
  constructor
  · rw [size_revise]
    exact bounded.fits
  · exact bounded.limit

theorem Bounded.clear (bounded : p.Bounded) : p.clear.Bounded := by
  have size : p.clear.slots.size = min 1 p.slots.size := by simp [Pool.clear, Array.take_eq_extract]
  refine ⟨?_, bounded.limit⟩
  rw [size]
  exact Nat.le_trans (Nat.min_le_right _ _) bounded.fits

-- What a handle may come to resolve to after what it resolved to.
abbrev Fate (α : Type) : Type := Handle → Option α → Option α → Prop

def Fate.Transitive (fate : Fate α) : Prop := ∀ h a b c, fate h a b → fate h b c → fate h a c

def still : Fate α := fun _ before after => after = before

def sparing (i : Nat) : Fate α := fun h before after => h.index = i ∨ after = before

def leaving (i : Nat) : Fate α := fun h before after => after = before ∨ h.index = i ∧ after = none

def changing (i : Nat) (change : α → α) : Fate α :=
  fun h before after => after = before.map (if h.index = i then change else id)

def repeating (change : Nat → α → α) : Fate α := fun h before after => ∃ n, after = before.map (change h.index)^[n]

theorem still_transitive : Fate.Transitive (still (α := α)) := fun _ _ _ _ first second => second.trans first

theorem sparing_transitive (i : Nat) : Fate.Transitive (sparing (α := α) i) := by
  intro h a b c first second
  cases first with
  | inl here => exact .inl here
  | inr same => exact second.imp id fun same' => same'.trans same

theorem repeating_transitive (change : Nat → α → α) : Fate.Transitive (repeating change) := by
  intro h a b c first second
  obtain ⟨m, rfl⟩ := first
  obtain ⟨n, rfl⟩ := second
  refine ⟨n + m, ?_⟩
  rw [Option.map_map, Function.iterate_add]

theorem changing_repeats {change : Nat → α → α} {h : Handle} {a b : Option α} (changed : changing i (change i) h a b) :
    repeating change h a b := by
  by_cases same : h.index = i
  · refine ⟨1, ?_⟩
    rw [changing, if_pos same, ← same] at changed
    exact changed
  · refine ⟨0, ?_⟩
    rw [changing, if_neg same] at changed
    exact changed

-- No number that was given out is given back, and each handle meets its fate.
structure Keeps (fate : Fate α) (p q : Pool α μ) : Prop where
  inside : ∀ h : Handle, h.index < p.slots.size → h.index < q.slots.size
  fate : ∀ h : Handle, h.index < p.slots.size → fate h (p.get? h.index) (q.get? h.index)

-- What an operation does that renumbers nothing, unless it is told to.
structure Stands (shifts : Prop) (fate : Fate α) (p q : Pool α μ) : Prop where
  bounded : q.Bounded
  keeps : ¬ shifts → Keeps fate p q

namespace Stands

variable {shifts shifts' : Prop} {fate fate' : Fate α}

theorem refl (bounded : p.Bounded) (stays : ∀ h a, fate h a a) : Stands shifts fate p p :=
  ⟨bounded, fun _ => ⟨fun _ inside => inside, fun _ _ => stays _ _⟩⟩

theorem stay (bounded : p.Bounded) : Stands shifts still p p := .refl bounded fun _ _ => rfl

theorem trans (first : Stands shifts fate p q) (second : Stands shifts fate q r) (transitive : fate.Transitive) :
    Stands shifts fate p r := by
  refine ⟨second.bounded, ?_⟩
  intro calm
  have before := first.keeps calm
  have after := second.keeps calm
  constructor
  · intro h inside
    exact after.inside h (before.inside h inside)
  · intro h inside
    exact transitive _ _ _ _ (before.fate h inside) (after.fate h (before.inside h inside))

theorem imp (stands : Stands shifts fate p q) (shift : shifts → shifts') (fates : ∀ h a b, fate h a b → fate' h a b) :
    Stands shifts' fate' p q := by
  refine ⟨stands.bounded, ?_⟩
  intro calm
  have kept := stands.keeps fun shifted => calm (shift shifted)
  exact ⟨kept.inside, fun h inside => fates _ _ _ (kept.fate h inside)⟩

theorem after_still (first : Stands shifts still p q) (second : Stands shifts fate q r) : Stands shifts fate p r := by
  refine ⟨second.bounded, ?_⟩
  intro calm
  have before := first.keeps calm
  have after := second.keeps calm
  constructor
  · intro h inside
    exact after.inside h (before.inside h inside)
  · intro h inside
    have met := after.fate h (before.inside h inside)
    rwa [show q.get? h.index = p.get? h.index from before.fate h inside] at met

theorem of_same_bodies [Inhabited μ] {δ : Type} {keep : μ → δ} (same : SameBodies keep p q) (bounded : p.Bounded) :
    Stands shifts still p q := by
  refine ⟨same.bounded bounded, fun _ => ⟨?_, fun h _ => same.get? h.index⟩⟩
  intro h inside
  rw [same.size]
  exact inside

theorem of_revise (bounded : p.Bounded) (i : Nat) (f : Slot α μ → Slot α μ) (count : Nat) :
    Stands shifts (sparing i) p (p.revise i f count) := by
  refine ⟨bounded.revise i f count, fun _ => ⟨?_, ?_⟩⟩
  · intro h inside
    rw [size_revise]
    exact inside
  · intro h _
    by_cases same : h.index = i
    · exact .inl same
    · exact .inr (get?_revise_other same)

theorem of_count (bounded : p.Bounded) (count : Nat) : Stands shifts still p { p with count := count } :=
  ⟨⟨bounded.fits, bounded.limit⟩, fun _ => ⟨fun _ inside => inside, fun _ _ => rfl⟩⟩

theorem of_push (bounded : p.Bounded) (room : p.isFull = false) (slot : Slot α μ) (count : Nat) :
    Stands shifts still p { p with slots := p.slots.push slot, count := count } := by
  have below : p.slots.size < p.capacity := by
    have space : p.next < p.capacity := Nat.lt_of_not_le (of_decide_eq_false room)
    exact Nat.lt_of_le_of_lt (Nat.le_max_left _ _) space
  refine ⟨⟨?_, bounded.limit⟩, fun _ => ⟨?_, ?_⟩⟩
  · rw [Array.size_push]
    exact below
  · intro h inside
    rw [Array.size_push]
    exact Nat.lt_succ_of_lt inside
  · intro h inside
    unfold still get?
    rw [Array.getElem?_push, if_neg (Nat.ne_of_lt inside)]

theorem of_change (bounded : p.Bounded) (i : Nat) (change : α → α) :
    Stands shifts (changing i change) p (p.changeAt i change) := by
  refine ⟨bounded.revise i _ _, fun _ => ⟨?_, ?_⟩⟩
  · intro h inside
    rw [changeAt, size_revise]
    exact inside
  · intro h _
    unfold changing
    by_cases same : h.index = i
    · subst same
      rw [if_pos rfl, get?_eq, get?_eq, isActive_changeAt, changeAt, storedAt_revise, storedAt]
      cases p.isActive h.index
      · rfl
      · cases p.slots[h.index]? <;> rfl
    · rw [if_neg same, Option.map_id]
      exact get?_revise_other same

end Stands

theorem modifySlot_ends (i : Nat) (f : Slot α μ → Slot α μ) (p : Pool α μ) :
    Ends (modifySlot i f) p (fun _ q => q = p.revise i f p.count) fun _ q => q = p := by
  by_cases inside : i < p.slots.size
  · exact Ends.of_ok (modifySlot_run inside f) rfl
  · have stopped : modifySlot i f p = .error (p.outOfRange i) p := by rw [modifySlot, if_neg inside]
    exact Ends.of_error stopped rfl

theorem takeFromCount_ends (p : Pool α μ) :
    Ends takeFromCount p (fun _ q => q = { p with count := p.count - 1 }) fun _ q => q = p := by
  by_cases none : p.count = 0
  · have stopped : takeFromCount p = .error .subtraction p := by rw [takeFromCount, if_pos none]
    exact Ends.of_error stopped rfl
  · exact Ends.of_ok (takeFromCount_run (Nat.pos_of_ne_zero none)) rfl

theorem modifyValue_ends (i : Nat) (change : α → α) (p : Pool α μ) :
    Ends (modifyValue i change) p (fun _ q => q = p.changeAt i change) fun _ q => q = p := by
  unfold modifyValue
  rw [ends_bind, ends_get]
  cases held : p.value i with
  | error fault => exact rfl
  | ok value =>
    rw [ends_bind, ends_lift]
    exact modifySlot_ends i _ p

theorem push_stands (bounded : p.Bounded) (value : α) (link : μ) :
    Always (push value link) p fun q => Stands False still p q := by
  by_cases bare : p.slots.isEmpty = true
  · have stopped : push value link p = .error .sentinelMissing p := by rw [push, if_pos bare]
    exact Ends.of_error stopped (.stay bounded)
  · have allocated : 0 < p.slots.size := Nat.pos_of_ne_zero fun none => bare (by simpa using none)
    cases room : p.isFull with
    | false => exact Ends.of_ok (push_run allocated room value link) (.of_push bounded room _ _)
    | true =>
      have stopped : push value link p = .error .poolFull p := by rw [push, if_neg bare, if_pos room]
      exact Ends.of_error stopped (.stay bounded)

-- Edits that reach for one slot only.
def Spares (i : Nat) (program : Edit (Pool α μ) β) : Prop :=
  ∀ p : Pool α μ, p.Bounded → Always program p fun q => Stands False (sparing i) p q

namespace Spares

theorem unchanged (bounded : p.Bounded) : Stands False (sparing i) p p := .refl bounded fun _ _ => .inr rfl

theorem bind {program : Edit (Pool α μ) γ} {rest : γ → Edit (Pool α μ) β} (first : Spares i program)
    (second : ∀ value, Spares i (rest value)) : Spares i (program >>= rest) := by
  intro p bounded
  refine Always.then (first p bounded) ?_
  intro value q stands
  exact (second value q stands.bounded).imp fun r later => stands.trans later (sparing_transitive i)

theorem pure (value : β) : Spares i (Pure.pure value : Edit (Pool α μ) β) := fun _ bounded => unchanged bounded

theorem get : Spares i (MonadState.get : Edit (Pool α μ) (Pool α μ)) := fun _ bounded => unchanged bounded

theorem throw (fault : Fault) : Spares i (MonadExcept.throw fault : Edit (Pool α μ) β) :=
  fun _ bounded => unchanged bounded

theorem modifySlot (i : Nat) (f : Slot α μ → Slot α μ) : Spares i (Pool.modifySlot i f) := by
  intro p bounded
  refine (modifySlot_ends i f p).imp ?_ ?_
  · intro _ q same
    rw [same]
    exact .of_revise bounded i f _
  · intro _ q same
    rw [same]
    exact unchanged bounded

theorem takeFromCount (i : Nat) : Spares i (Pool.takeFromCount : Edit (Pool α μ) Unit) := by
  intro p bounded
  refine (takeFromCount_ends p).imp ?_ ?_
  · intro _ q same
    rw [same]
    exact (Stands.of_count bounded _).imp id fun _ _ _ => .inr
  · intro _ q same
    rw [same]
    exact unchanged bounded

theorem modifyValue (i : Nat) (change : α → α) : Spares i (Pool.modifyValue i change : Edit (Pool α μ) Unit) := by
  intro p bounded
  refine (modifyValue_ends i change p).imp ?_ ?_
  · intro _ q same
    rw [same]
    exact .of_revise bounded i _ _
  · intro _ q same
    rw [same]
    exact unchanged bounded

theorem take (i : Nat) : Spares i (Pool.take i : Edit (Pool α μ) (Option α)) := by
  refine Spares.bind .get fun p => ?_
  split
  · refine Spares.bind (.modifySlot i _) fun _ => Spares.bind (.takeFromCount i) fun _ => Spares.bind .get fun _ => ?_
    exact Spares.bind (.modifySlot i _) fun _ => .pure _
  · exact .pure _

theorem detach (i : Nat) : Spares i (Pool.detach i : Edit (Pool α μ) Unit) := by
  refine Spares.bind .get fun p => ?_
  split
  · exact Spares.bind .get fun _ => .throw _
  · dsimp only
    split
    · exact Spares.bind (.modifySlot i _) fun _ => .takeFromCount i
    · exact Spares.bind (.throw _) fun _ => Spares.bind (.modifySlot i _) fun _ => .takeFromCount i

theorem reattach (i : Nat) : Spares i (Pool.reattach i : Edit (Pool α μ) Unit) := by
  have counted : Spares i (Pool.addToCount : Edit (Pool α μ) Unit) :=
    fun _ bounded => (Stands.of_count bounded _).imp id fun _ _ _ => .inr
  refine Spares.bind .get fun p => ?_
  split
  · exact Spares.bind .get fun _ => .throw _
  · dsimp only
    split
    · exact Spares.bind (.modifySlot i _) fun _ => counted
    · exact Spares.bind (.throw _) fun _ => Spares.bind (.modifySlot i _) fun _ => counted

theorem discard (i : Nat) : Spares i (Pool.discard i : Edit (Pool α μ) (Option α)) := by
  refine Spares.bind .get fun p => ?_
  split
  · exact Spares.bind .get fun _ => .throw _
  · dsimp only
    split
    · exact Spares.bind (.throw _) fun _ => Spares.bind (.modifySlot i _) fun _ => .pure _
    · exact Spares.bind (.modifySlot i _) fun _ => .pure _

end Spares

theorem get?_idle (idle : p.isActive i = false) : p.get? i = none := by
  rw [get?_eq, idle]
  rfl

-- A slot that is put out of use is out of use from the first step on, even if the next one faults.
theorem deactivate_idles (inside : i < p.slots.size) :
    Always (do modifySlot i fun slot => { slot with active := false }; takeFromCount : Edit (Pool α μ) Unit) p
      fun q => q.isActive i = false := by
  have off : (p.revise i (fun slot => { slot with active := false }) p.count).isActive i = false := by
    rw [isActive_revise_self]
    cases p.slots[i]? <;> rfl
  rw [Always, ends_bind]
  refine Ends.of_ok (modifySlot_run inside _) ?_
  refine (takeFromCount_ends _).imp ?_ ?_
  · intro _ q same
    rw [same]
    exact off
  · intro _ q same
    rw [same]
    exact off

theorem take_idles (live : p.isActive i = true) : Always (take i) p fun q => q.isActive i = false := by
  have emptied : ∀ q : Pool α μ, q.isActive i = false →
      Always (modifySlot i fun slot => { slot with value := none }) q fun r => r.isActive i = false := by
    intro q idle
    refine (modifySlot_ends i _ q).imp ?_ ?_
    · intro _ r same
      rw [same]
      refine (isActive_revise ?_ i).trans idle
      exact fun _ => rfl
    · intro _ r same
      rw [same]
      exact idle
  unfold take
  rw [Always, ends_bind, ends_get, if_pos live, ← bind_assoc]
  refine Always.then (deactivate_idles (isActive_lt live)) ?_
  intro _ q idle
  rw [Always, ends_bind, ends_get]
  exact (emptied q idle).then fun _ _ idle => idle

theorem detach_idles {value : α} (held : p.get? i = some value) :
    Always (detach i) p fun q => q.isActive i = false := by
  have live := isActive_of_get? held
  have inside := isActive_lt live
  have stored := stored_of_get? held
  simp only [isActive, Array.getElem?_eq_getElem inside, Option.any_some] at live
  simp only [storedAt, Array.getElem?_eq_getElem inside, Option.bind_some] at stored
  unfold detach
  rw [Always, ends_bind, ends_get]
  simp only [Array.getElem?_eq_getElem inside, live, stored, Option.isSome_some, Bool.and_self, if_true]
  exact deactivate_idles inside

theorem detach_absent (absent : p.get? i = none) : Ends (detach i) p (fun _ _ => False) fun _ q => q = p := by
  unfold detach
  rw [ends_bind, ends_get]
  cases found : p.slots[i]? with
  | none => exact rfl
  | some slot =>
    have bare : (slot.active && slot.value.isSome) = false := by
      unfold get? at absent
      rw [found] at absent
      cases active : slot.active <;> simp_all
    simp only [bare]
    exact rfl

theorem discard_idles (i : Nat) (p : Pool α μ) : Ends (discard i) p (fun _ q => q.isActive i = false) fun _ _ => True := by
  unfold discard
  rw [ends_bind, ends_get]
  split
  · exact trivial
  · rename_i slot found
    dsimp only
    split
    · exact trivial
    · rename_i off
      refine Ends.bind ((modifySlot_ends i _ p).faulting fun _ _ _ => trivial) ?_
      intro _ q same
      rw [ends_pure, same, isActive_revise_self, found]
      simpa using off

end Slotted.Pool
