import Mathlib.Data.List.Range
import Mathlib.Data.Multiset.MapFold
import Mathlib.Data.Multiset.Filter
import Slotted.Proofs.Ends
import Slotted.Pool.Capacity
namespace Slotted.Pool

variable {α μ δ : Type}

def revise (p : Pool α μ) (i : Nat) (f : Slot α μ → Slot α μ) (count : Nat) : Pool α μ :=
  { p with slots := p.slots.modify i f, count := count }

def relink (p : Pool α μ) (i : Nat) (f : μ → μ) : Pool α μ :=
  p.revise i (fun slot => { slot with link := f slot.link }) p.count

theorem slots_revise (p : Pool α μ) (i j : Nat) (f : Slot α μ → Slot α μ) (count : Nat) :
    (p.revise i f count).slots[j]? = if i = j then p.slots[j]?.map f else p.slots[j]? := by
  simp [revise, Array.getElem?_modify]

@[simp] theorem size_revise (p : Pool α μ) (i : Nat) (f : Slot α μ → Slot α μ) (count : Nat) :
    (p.revise i f count).slots.size = p.slots.size := by simp [revise]

theorem revise_revise (p : Pool α μ) (i : Nat) (f g : Slot α μ → Slot α μ) (m n : Nat) :
    (p.revise i f m).revise i g n = p.revise i (g ∘ f) n := by
  simp only [revise, Pool.mk.injEq, and_true]
  apply Array.ext_getElem?
  intro j
  simp only [Array.getElem?_modify]
  split <;> simp

-- What a slot holds, whether or not it is live.
def storedAt (p : Pool α μ) (i : Nat) : Option α := p.slots[i]?.bind (·.value)

theorem get?_eq (p : Pool α μ) (i : Nat) : p.get? i = if p.isActive i then p.storedAt i else none := by
  unfold get? isActive storedAt
  cases p.slots[i]? <;> simp

theorem isActive_lt {p : Pool α μ} {i : Nat} (live : p.isActive i = true) : i < p.slots.size := by
  by_contra far
  simp [isActive, Array.getElem?_eq_none (Nat.le_of_not_lt far)] at live

theorem isActive_of_get? {p : Pool α μ} {i : Nat} {value : α} (held : p.get? i = some value) :
    p.isActive i = true := by
  by_contra idle
  simp [get?_eq, idle] at held

theorem lt_of_stored {p : Pool α μ} {i : Nat} {value : α} (held : p.storedAt i = some value) :
    i < p.slots.size := by
  by_contra far
  simp [storedAt, Array.getElem?_eq_none (Nat.le_of_not_lt far)] at held

theorem stored_of_get? {p : Pool α μ} {i : Nat} {value : α} (held : p.get? i = some value) :
    p.storedAt i = some value := by
  simpa [get?_eq, isActive_of_get? held] using held

theorem value_of_stored {p : Pool α μ} {i : Nat} {value : α} (held : p.storedAt i = some value) :
    p.value i = .ok value := by
  unfold storedAt at held
  unfold Pool.value
  cases slot : p.slots[i]? with
  | none => simp [slot] at held
  | some s =>
    obtain ⟨active, link, stored⟩ := s
    simp only [slot, Option.bind_some] at held
    subst held
    rfl

theorem value_of_get? {p : Pool α μ} {i : Nat} {value : α} (held : p.get? i = some value) :
    p.value i = .ok value := value_of_stored (stored_of_get? held)

section Links

variable [Inhabited μ]

-- The link of a slot; past the end there is only the default one.
def linkAt (p : Pool α μ) (i : Nat) : μ := (p.slots[i]?.map (·.link)).getD default

theorem link_eq {p : Pool α μ} {i : Nat} (inside : i < p.slots.size) : p.link i = .ok (p.linkAt i) := by
  simp [Pool.link, linkAt, Array.getElem?_eq_getElem inside]

theorem linkAt_relink {p : Pool α μ} {i : Nat} (inside : i < p.slots.size) (f : μ → μ) (j : Nat) :
    (p.relink i f).linkAt j = if i = j then f (p.linkAt i) else p.linkAt j := by
  unfold linkAt relink
  rw [slots_revise]
  split
  · rename_i same
    subst same
    simp [Array.getElem?_eq_getElem inside]
  · rfl

-- The number 0 stands for no slot, and no slot has no link to change.
def relinkSome (p : Pool α μ) (i : Nat) (f : μ → μ) : Pool α μ := if i = 0 then p else p.relink i f

theorem linkAt_relinkSome {p : Pool α μ} {i : Nat} (inside : i ≠ 0 → i < p.slots.size) (f : μ → μ) {j : Nat}
    (some : j ≠ 0) : (p.relinkSome i f).linkAt j = if j = i then f (p.linkAt j) else p.linkAt j := by
  unfold relinkSome
  by_cases none : i = 0
  · rw [if_pos none, if_neg (none ▸ some)]
  · rw [if_neg none, linkAt_relink (inside none)]
    by_cases same : j = i
    · rw [if_pos same, if_pos same.symm, same]
    · rw [if_neg same, if_neg (Ne.symm same)]

end Links

-- Two pools that differ in nothing but their links, and there only in what the index does not remember.
structure SameBodies [Inhabited μ] (keep : μ → δ) (p q : Pool α μ) : Prop where
  size : q.slots.size = p.slots.size
  capacity : q.capacity = p.capacity
  count : q.count = p.count
  isActive : ∀ i, q.isActive i = p.isActive i
  storedAt : ∀ i, q.storedAt i = p.storedAt i
  kept : ∀ i, keep (q.linkAt i) = keep (p.linkAt i)

namespace SameBodies

variable [Inhabited μ] {keep : μ → δ} {p q r : Pool α μ}

theorem refl (p : Pool α μ) : SameBodies keep p p := ⟨rfl, rfl, rfl, fun _ => rfl, fun _ => rfl, fun _ => rfl⟩

theorem trans (first : SameBodies keep p q) (second : SameBodies keep q r) : SameBodies keep p r :=
  ⟨second.size.trans first.size, second.capacity.trans first.capacity, second.count.trans first.count,
    fun i => (second.isActive i).trans (first.isActive i), fun i => (second.storedAt i).trans (first.storedAt i),
    fun i => (second.kept i).trans (first.kept i)⟩

theorem keeping {δ' : Type} {keep' : μ → δ'} (same : SameBodies keep p q)
    (kept : ∀ i, keep' (q.linkAt i) = keep' (p.linkAt i)) : SameBodies keep' p q := { same with kept := kept }

theorem relink (keep : μ → δ) {i : Nat} (inside : i < p.slots.size) {f : μ → μ}
    (keeps : keep (f (p.linkAt i)) = keep (p.linkAt i)) : SameBodies keep p (p.relink i f) := by
  refine ⟨size_revise .., rfl, rfl, ?_, ?_, ?_⟩
  · intro j
    unfold Pool.isActive Pool.relink
    rw [slots_revise]
    split
    · cases p.slots[j]? <;> rfl
    · rfl
  · intro j
    unfold Pool.storedAt Pool.relink
    rw [slots_revise]
    split
    · cases p.slots[j]? <;> rfl
    · rfl
  · intro j
    rw [linkAt_relink inside]
    split
    · rename_i same
      rw [keeps, same]
    · rfl

theorem relinkSome (keep : μ → δ) {i : Nat} (inside : i ≠ 0 → i < p.slots.size) {f : μ → μ}
    (keeps : ∀ link, keep (f link) = keep link) : SameBodies keep p (p.relinkSome i f) := by
  unfold Pool.relinkSome
  split
  · exact refl p
  · rename_i some
    exact .relink keep (inside some) (keeps _)

theorem get? (same : SameBodies keep p q) (i : Nat) : q.get? i = p.get? i := by
  rw [get?_eq, get?_eq, same.isActive, same.storedAt]

theorem next (same : SameBodies keep p q) : q.next = p.next := by rw [Pool.next, Pool.next, same.size]

end SameBodies

section Runs

variable {p : Pool α μ} {i : Nat}

theorem modifySlot_run (inside : i < p.slots.size) (f : Slot α μ → Slot α μ) :
    modifySlot i f p = .ok () (p.revise i f p.count) := by simp [modifySlot, inside, revise]

theorem modifyLink_run (inside : i < p.slots.size) (f : μ → μ) :
    modifyLink i f p = .ok () (p.relink i f) := modifySlot_run inside _

theorem modifyValue_run {value : α} (held : p.storedAt i = some value) (f : α → α) :
    modifyValue i f p = .ok () (p.revise i (fun slot => { slot with value := slot.value.map f }) p.count) := by
  rw [modifyValue, get_bind, lift_bind (value_of_stored held)]
  exact modifySlot_run (lt_of_stored held) _

theorem push_run (allocated : 0 < p.slots.size) (room : p.isFull = false) (value : α) (link : μ) :
    push value link p =
      .ok p.slots.size { p with slots := p.slots.push ⟨true, link, some value⟩, count := p.count + 1 } := by
  have filled : ¬ p.slots.isEmpty = true := by
    simp only [Array.isEmpty_iff_size_eq_zero]
    omega
  simp [push, filled, room]

theorem takeFromCount_run (counted : 0 < p.count) :
    takeFromCount p = .ok () { p with count := p.count - 1 } := by
  have left : p.count ≠ 0 := by omega
  simp [takeFromCount, left]

theorem take_run (live : p.isActive i = true) (counted : 0 < p.count) :
    take i p = .ok (p.storedAt i)
      (p.revise i (fun slot => { slot with active := false, value := none }) (p.count - 1)) := by
  have inside := isActive_lt live
  have counted' : takeFromCount (p.revise i (fun slot => { slot with active := false }) p.count) =
      .ok () (p.revise i (fun slot => { slot with active := false }) (p.count - 1)) := takeFromCount_run counted
  have stored : (p.revise i (fun slot => { slot with active := false }) (p.count - 1)).storedAt i = p.storedAt i := by
    simp only [storedAt, slots_revise, if_true]
    cases p.slots[i]? <;> rfl
  rw [take, get_bind, if_pos live, bind_ok (modifySlot_run inside _), bind_ok counted', get_bind,
    bind_ok (modifySlot_run (by simpa using inside) _), revise_revise]
  exact congrArg (EStateM.Result.ok · _) stored

theorem detach_run {value : α} (held : p.get? i = some value) (counted : 0 < p.count) :
    detach i p = .ok () (p.revise i (fun slot => { slot with active := false }) (p.count - 1)) := by
  have live := isActive_of_get? held
  have inside := isActive_lt live
  have stored := stored_of_get? held
  simp only [isActive, Array.getElem?_eq_getElem inside, Option.any_some] at live
  simp only [storedAt, Array.getElem?_eq_getElem inside, Option.bind_some] at stored
  rw [detach, get_bind]
  simp only [Array.getElem?_eq_getElem inside, live, stored, Option.isSome_some, Bool.and_self, if_true]
  rw [bind_ok (modifySlot_run inside _)]
  exact takeFromCount_run counted

theorem reattach_run {value : α} (idle : p.isActive i = false) (held : p.storedAt i = some value) :
    reattach i p = .ok () (p.revise i (fun slot => { slot with active := true }) (p.count + 1)) := by
  have inside := lt_of_stored held
  simp only [isActive, Array.getElem?_eq_getElem inside, Option.any_some] at idle
  simp only [storedAt, Array.getElem?_eq_getElem inside, Option.bind_some] at held
  rw [reattach, get_bind]
  simp only [Array.getElem?_eq_getElem inside, idle, held, Option.isSome_some, Bool.not_false, Bool.and_self, if_true]
  rw [bind_ok (modifySlot_run inside _)]
  rfl

theorem discard_run (inside : i < p.slots.size) (idle : p.isActive i = false) :
    discard i p = .ok (p.storedAt i) (p.revise i (fun slot => { slot with value := none }) p.count) := by
  simp only [isActive, Array.getElem?_eq_getElem inside, Option.any_some] at idle
  rw [discard, get_bind]
  simp only [Array.getElem?_eq_getElem inside, idle, Bool.false_eq_true, if_false]
  rw [bind_ok (modifySlot_run inside _)]
  simp [storedAt, Array.getElem?_eq_getElem inside, pure, EStateM.pure]

end Runs
end Slotted.Pool
