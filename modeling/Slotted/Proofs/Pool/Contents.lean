import Mathlib.Data.List.Perm.Basic
import Mathlib.Data.List.Nodup
import Slotted.Proofs.Pool.Slots
namespace Slotted.Pool

variable {α β γ μ : Type}

def contents (p : Pool α μ) : Multiset α := p.entries.map (·.2)

theorem forall_contents {p : Pool α μ} {holds : α → Prop} :
    (∀ value ∈ p.contents, holds value) ↔ ∀ entry ∈ p.entries, holds entry.2 := by
  rw [contents]
  simp only [Multiset.mem_coe, List.forall_mem_map]

structure Enumerates (order : List Nat) (p : Pool α μ) : Prop where
  nodup : order.Nodup
  mem : ∀ i, i ∈ order ↔ p.isActive i = true

theorem zipIdx_filterMap (l : List β) (f : β × Nat → Option γ) :
    l.zipIdx.filterMap f = (List.range l.length).filterMap fun i => l[i]?.bind fun b => f (b, i) := by
  induction l using List.reverseRecOn with
  | nil => rfl
  | append_singleton l b ih =>
    rw [List.zipIdx_append, List.filterMap_append, ih, List.length_append, List.length_singleton, List.range_succ,
      List.filterMap_append]
    congr 1
    · apply List.filterMap_congr
      intro i inside
      rw [List.getElem?_append_left (List.mem_range.mp inside)]
    · simp [List.filterMap_cons]

theorem countP_range (l : List β) (f : β → Bool) :
    l.countP f = (List.range l.length).countP fun i => l[i]?.any f := by
  induction l using List.reverseRecOn with
  | nil => rfl
  | append_singleton l b ih =>
    rw [List.countP_append, ih, List.length_append, List.length_singleton, List.range_succ, List.countP_append]
    congr 1
    · apply List.countP_congr
      intro i inside
      rw [List.getElem?_append_left (List.mem_range.mp inside)]
    · simp [List.countP_cons]

theorem entries_eq (p : Pool α μ) :
    p.entries = (List.range p.slots.size).filterMap fun i => (p.get? i).map (i, ·) := by
  rw [entries, zipIdx_filterMap, Array.length_toList]
  apply List.filterMap_congr
  intro i _
  unfold get?
  simp only [Array.getElem?_toList]
  cases p.slots[i]? with
  | none => rfl
  | some slot => cases live : slot.active <;> simp [live]

theorem entries_congr {p q : Pool α μ} (size : q.slots.size = p.slots.size) (same : ∀ i, q.get? i = p.get? i) :
    q.entries = p.entries := by
  rw [entries_eq, entries_eq, size]
  exact List.filterMap_congr fun i _ => by rw [same]

theorem SameBodies.entries_eq {δ : Type} [Inhabited μ] {keep : μ → δ} {p q : Pool α μ} (same : SameBodies keep p q) :
    q.entries = p.entries := entries_congr same.size same.get?

theorem mem_entries {p : Pool α μ} {i : Nat} {value : α} : (i, value) ∈ p.entries ↔ p.get? i = some value := by
  rw [entries_eq, List.mem_filterMap]
  constructor
  · intro given
    obtain ⟨j, _, held⟩ := given
    obtain ⟨v, held, same⟩ := Option.map_eq_some_iff.mp held
    cases same
    exact held
  · intro held
    exact ⟨i, List.mem_range.mpr (isActive_lt (isActive_of_get? held)), by simp [held]⟩

theorem mem_contents {p : Pool α μ} {value : α} : value ∈ p.contents ↔ ∃ i, p.get? i = some value := by
  simp only [contents, Multiset.mem_coe, List.mem_map, Prod.exists, exists_eq_right, mem_entries]

namespace Enumerates

variable {order other : List Nat} {p q : Pool α μ}

theorem perm (enumerates : Enumerates order p) (others : Enumerates other p) : order.Perm other := by
  rw [List.perm_ext_iff_of_nodup enumerates.nodup others.nodup]
  intro i
  rw [enumerates.mem, others.mem]

theorem range (p : Pool α μ) : Enumerates ((List.range p.slots.size).filter p.isActive) p := by
  refine ⟨List.nodup_range.filter _, ?_⟩
  intro i
  rw [List.mem_filter, List.mem_range]
  exact ⟨And.right, fun live => ⟨isActive_lt live, live⟩⟩

theorem contents_eq (enumerates : Enumerates order p) : p.contents = (order.filterMap p.get? : List α) := by
  have live : p.entries.map (·.2) = ((List.range p.slots.size).filter p.isActive).filterMap p.get? := by
    rw [entries_eq, List.map_filterMap, List.filterMap_filter]
    apply List.filterMap_congr
    intro i _
    rw [get?_eq]
    cases p.isActive i <;> simp
  rw [contents, live]
  exact Multiset.coe_eq_coe.mpr (((range p).perm enumerates).filterMap _)

theorem countP_eq (enumerates : Enumerates order p) : p.slots.countP (·.active) = order.length := by
  have same : (fun i => p.slots.toList[i]?.any (·.active)) = p.isActive := by
    funext i
    rw [Array.getElem?_toList, isActive]
  rw [← Array.countP_toList, countP_range, same, List.countP_eq_length_filter, Array.length_toList]
  exact ((range p).perm enumerates).length_eq

theorem length_lt (enumerates : Enumerates order p) (idle : p.isActive 0 = false) (allocated : 0 < p.slots.size) :
    order.length < p.slots.size := by
  have inside : order.length ≤ (List.range' 1 (p.slots.size - 1)).length := by
    apply (List.Nodup.subperm enumerates.nodup ?_).length_le
    intro i member
    have live := (enumerates.mem i).mp member
    have bound := isActive_lt live
    have positive : i ≠ 0 := by
      intro same
      subst same
      simp [idle] at live
    rw [List.mem_range'_1]
    omega
  rw [List.length_range'] at inside
  omega

end Enumerates
end Slotted.Pool
