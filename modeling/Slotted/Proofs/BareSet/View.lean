import Slotted.Proofs.BareSet.Basic
import Slotted.Proofs.Store.Relinking
namespace Slotted

variable {ι α β γ δ μ σ τ ω : Type}

def Slot.bare (slot : Slot α μ) : Slot α Unit := ⟨slot.active, (), slot.value⟩

def Pool.bare (p : Pool α μ) : Pool α Unit := ⟨p.slots.map Slot.bare, p.capacity, p.count⟩

def Store.bare (s : Store ι α μ) : BareSet α := ⟨s.pool.bare, ⟨⟩⟩

-- The world of a bare set is another one, and nobody looks at it.
def Session.bare (s : Session (Store ι α μ) ω) : Session (BareSet α) Boundless := ⟨s.store.bare, false, ⟨⟩⟩

-- As far as a program comes to a good end, the other one does to what is seen of the state what it does to the state.
def Views (view : σ → τ) (program : EStateM Fault σ β) (image : EStateM Fault τ β) (s : σ) : Prop :=
  Ends program s (fun value after => image (view s) = .ok value (view after)) fun _ _ => True

namespace Views

variable {view : σ → τ} {s after : σ} {program : EStateM Fault σ γ} {image : EStateM Fault τ γ}
  {rest : γ → EStateM Fault σ β} {rest' : γ → EStateM Fault τ β}

theorem pure {value value' : β} (same : value' = value) :
    Views view (Pure.pure value : EStateM Fault σ β) (Pure.pure value') s := by
  subst same
  exact Ends.of_ok rfl rfl

theorem stops (fault : Fault) (image : EStateM Fault τ β) :
    Views view (throw fault : EStateM Fault σ β) image s := Ends.of_error rfl trivial

theorem bind (first : Views view program image s)
    (second : ∀ value after, program s = .ok value after → Views view (rest value) (rest' value) after) :
    Views view (program >>= rest) (image >>= rest') s := by
  refine Ends.bind (Ends.known first) ?_
  intro value middle told
  obtain ⟨ran, seen⟩ := told
  refine (second value middle ran).returning ?_
  intro _ after told
  rw [bind_ok seen]
  exact told

theorem get {rest : σ → EStateM Fault σ β} {rest' : τ → EStateM Fault τ β}
    (further : Views view (rest s) (rest' (view s)) s) : Views view (MonadState.get >>= rest) (MonadState.get >>= rest') s :=
  further

theorem modifying {f : σ → σ} {g : τ → τ} (same : g (view s) = view (f s)) :
    Views view (modify f : EStateM Fault σ PUnit) (modify g) s :=
  Ends.of_ok rfl (congrArg (EStateM.Result.ok PUnit.unit) same)

theorem lift {read read' : Except Fault γ} (same : read' = read)
    (further : ∀ value, read = .ok value → Views view (rest value) (rest' value) s) :
    Views view (liftM read >>= rest) (liftM read' >>= rest') s := by
  subst same
  cases read' with
  | ok value => exact further value rfl
  | error fault => exact Ends.of_error rfl trivial

theorem asked {value : γ} {image : EStateM Fault τ β} (ran : program s = .ok value s)
    (further : Views view (rest value) image s) : Views view (program >>= rest) image s := by
  rw [Views, ends_bind]
  exact Ends.of_ok ran further

theorem asking {value : γ} {program : EStateM Fault σ β} (ran : image (view s) = .ok value (view s))
    (further : Views view program (rest' value) s) : Views view program (image >>= rest') s := by
  refine Ends.returning further ?_
  intro _ after told
  rw [bind_ok ran]
  exact told

theorem unseen {image : EStateM Fault τ β} (still : Always program s (view · = view s))
    (further : ∀ value after, program s = .ok value after → Views view (rest value) image after) :
    Views view (program >>= rest) image s := by
  refine Ends.bind ((Ends.known still).faulting fun _ _ _ => trivial) ?_
  intro value middle told
  obtain ⟨ran, same⟩ := told
  refine (further value middle ran).returning ?_
  intro _ after told
  rw [← same]
  exact told

end Views

namespace Pool

theorem slots_bare (p : Pool α μ) (i : Nat) : p.bare.slots[i]? = p.slots[i]?.map Slot.bare := by
  rw [bare, Array.getElem?_map]

theorem empty_bare : (empty : Pool α μ).bare = empty := by simp [bare, empty]

@[simp] theorem capacity_bare (p : Pool α μ) : p.bare.capacity = p.capacity := rfl

@[simp] theorem size_bare (p : Pool α μ) : p.bare.slots.size = p.slots.size := by simp [bare]

@[simp] theorem isEmpty_bare (p : Pool α μ) : p.bare.slots.isEmpty = p.slots.isEmpty := by
  rw [Bool.eq_iff_iff, Array.isEmpty_iff_size_eq_zero, Array.isEmpty_iff_size_eq_zero, size_bare]

@[simp] theorem next_bare (p : Pool α μ) : p.bare.next = p.next := by rw [next, next, size_bare]

@[simp] theorem isFull_bare (p : Pool α μ) : p.bare.isFull = p.isFull := by rw [isFull, isFull, next_bare]; rfl

@[simp] theorem tombstones_bare (p : Pool α μ) : p.bare.tombstones = p.tombstones := by
  rw [tombstones, tombstones, next_bare]
  rfl

@[simp] theorem isActive_bare (p : Pool α μ) (i : Nat) : p.bare.isActive i = p.isActive i := by
  rw [isActive, isActive, slots_bare]
  cases p.slots[i]? <;> rfl

@[simp] theorem storedAt_bare (p : Pool α μ) (i : Nat) : p.bare.storedAt i = p.storedAt i := by
  rw [storedAt, storedAt, slots_bare]
  cases p.slots[i]? <;> rfl

@[simp] theorem get?_bare (p : Pool α μ) (i : Nat) : p.bare.get? i = p.get? i := by
  rw [get?_eq, get?_eq, isActive_bare, storedAt_bare]

@[simp] theorem value_bare (p : Pool α μ) (i : Nat) : p.bare.value i = p.value i := by
  unfold value outOfRange
  rw [slots_bare, size_bare]
  cases p.slots[i]? with
  | none => rfl
  | some slot =>
    obtain ⟨active, link, _ | value⟩ := slot
    · rfl
    · rfl

@[simp] theorem refusal_bare (p : Pool α μ) (slots : Nat) : p.bare.refusal slots = p.refusal slots := by
  unfold refusal
  rw [size_bare, next_bare]
  rfl

@[simp] theorem wants_bare (p : Pool α μ) (slots : Nat) : p.bare.wants slots = p.wants slots := by
  rw [wants, wants, size_bare]

theorem bare_congr {p q : Pool α μ} (size : q.slots.size = p.slots.size) (capacity : q.capacity = p.capacity)
    (count : q.count = p.count) (active : ∀ i, q.isActive i = p.isActive i)
    (stored : ∀ i, q.storedAt i = p.storedAt i) : q.bare = p.bare := by
  rw [bare, bare, capacity, count, Pool.mk.injEq]
  refine ⟨Array.ext_getElem? fun i => ?_, rfl, rfl⟩
  have live := active i
  have held := stored i
  rw [Array.getElem?_map, Array.getElem?_map]
  by_cases inside : i < p.slots.size
  · have within : i < q.slots.size := size ▸ inside
    simp only [isActive, storedAt, Array.getElem?_eq_getElem inside, Array.getElem?_eq_getElem within, Option.any_some,
      Option.bind_some] at live held
    rw [Array.getElem?_eq_getElem inside, Array.getElem?_eq_getElem within, Option.map_some, Option.map_some, Slot.bare,
      Slot.bare, live, held]
  · rw [Array.getElem?_eq_none (Nat.le_of_not_lt inside), Array.getElem?_eq_none (size ▸ Nat.le_of_not_lt inside)]

theorem SameBodies.bare_eq [Inhabited μ] {keep : μ → δ} {p q : Pool α μ} (same : SameBodies keep p q) : q.bare = p.bare :=
  bare_congr same.size same.capacity same.count same.isActive same.storedAt

theorem modifySlot_views {f : Slot α μ → Slot α μ} {g : Slot α Unit → Slot α Unit}
    (same : ∀ slot, g slot.bare = (f slot).bare) (i : Nat) (p : Pool α μ) :
    Views bare (modifySlot i f) (modifySlot i g) p := by
  unfold modifySlot Views Ends
  by_cases inside : i < p.slots.size
  · simp only [inside, if_true, size_bare]
    congr 1
    rw [bare, bare, Pool.mk.injEq]
    refine ⟨Array.ext_getElem? fun j => ?_, rfl, rfl⟩
    simp only [Array.getElem?_modify, Array.getElem?_map]
    split
    · cases p.slots[j]? with
      | none => rfl
      | some slot => exact congrArg some (same slot)
    · rfl
  · simp only [inside, if_false]

theorem takeFromCount_views (p : Pool α μ) : Views bare takeFromCount takeFromCount p := by
  unfold takeFromCount Views Ends
  by_cases none : p.count = 0
  · simp only [none, if_true]
  · have some : ¬ p.bare.count = 0 := none
    simp only [none, some, if_false]
    rfl

theorem push_views (value : α) (link : μ) (p : Pool α μ) : Views bare (push value link) (push value ()) p := by
  unfold push Views Ends
  by_cases bare : p.slots.isEmpty = true
  · simp only [bare, if_true]
  · by_cases full : p.isFull = true
    · simp only [bare, full, if_true, Bool.false_eq_true, if_false]
    · simp only [bare, full, isEmpty_bare, isFull_bare, Bool.false_eq_true, if_false, size_bare]
      congr 1
      simp [Pool.bare, Slot.bare, Array.map_push]

theorem take_views (i : Nat) (p : Pool α μ) : Views bare (take i) (take i) p := by
  refine Views.get ?_
  rw [isActive_bare]
  split
  · refine (modifySlot_views (fun _ => by rfl) i p).bind fun _ q _ => ?_
    refine (takeFromCount_views q).bind fun _ q _ => Views.get ?_
    refine (modifySlot_views (fun _ => by rfl) i q).bind fun _ _ _ => Views.pure (storedAt_bare q i)
  · exact Views.pure rfl

theorem detach_views (i : Nat) (p : Pool α μ) : Views bare (detach i) (detach i) p := by
  refine Views.get ?_
  rw [slots_bare]
  cases p.slots[i]? with
  | none => exact Views.get (Views.stops _ _)
  | some slot =>
    dsimp only [Option.map_some, Slot.bare]
    split
    · exact (modifySlot_views (fun _ => by rfl) i p).bind fun _ q _ => takeFromCount_views q
    · exact Views.stops _ _

theorem reattach_views (i : Nat) (p : Pool α μ) : Views bare (reattach i) (reattach i) p := by
  refine Views.get ?_
  rw [slots_bare]
  cases p.slots[i]? with
  | none => exact Views.get (Views.stops _ _)
  | some slot =>
    dsimp only [Option.map_some, Slot.bare]
    split
    · exact (modifySlot_views (fun _ => by rfl) i p).bind fun _ q _ => Views.modifying rfl
    · exact Views.stops _ _

theorem discard_views (i : Nat) (p : Pool α μ) : Views bare (discard i) (discard i) p := by
  refine Views.get ?_
  rw [slots_bare]
  cases p.slots[i]? with
  | none => exact Views.get (Views.stops _ _)
  | some slot =>
    dsimp only [Option.map_some, Slot.bare]
    split
    · exact Views.stops _ _
    · exact (modifySlot_views (fun _ => by rfl) i p).bind fun _ _ _ => Views.pure rfl

theorem modifyValue_views (i : Nat) (change : α → α) (p : Pool α μ) :
    Views bare (modifyValue i change) (modifyValue i change) p :=
  Views.get (Views.lift (value_bare p i) fun _ _ => modifySlot_views (fun _ => by rfl) i p)

end Pool
end Slotted
