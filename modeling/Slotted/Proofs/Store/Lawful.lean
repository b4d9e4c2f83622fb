import Slotted.Proofs.Pool.Contents
import Slotted.Store.Removal
import Slotted.Store.Capacity
namespace Slotted

-- Bookkeeping of a pool apart from any index.
structure Pool.Tidy {α μ : Type} (p : Pool α μ) : Prop where
  idle : p.isActive 0 = false
  filled : ∀ i, p.isActive i = true → ∃ value, p.get? i = some value
  fits : p.slots.size ≤ p.capacity
  reserved : 0 < p.capacity → 0 < p.slots.size
  limit : p.capacity ≤ maxCapacity + 1

theorem Pool.Tidy.count_lt {α μ : Type} {p : Pool α μ} {order : List Nat} (tidy : p.Tidy) (enumerates : p.Enumerates order)
    (counted : p.count = order.length) : p.count < p.next := by
  rw [counted, Pool.next]
  by_cases allocated : 0 < p.slots.size
  · have fewer := enumerates.length_lt tidy.idle allocated
    omega
  · have none : order = [] := by
      apply List.eq_nil_iff_forall_not_mem.mpr
      intro i member
      have inside := Pool.isActive_lt ((enumerates.mem i).mp member)
      omega
    simp [none]

theorem Pool.tombstones_run {α μ : Type} {p : Pool α μ} (fewer : p.count < p.next) :
    p.tombstones = .ok (p.next - 1 - p.count) := by
  unfold Pool.tombstones
  rw [if_pos (by omega)]

-- Slots that may be linked: each once, none of them reserved or past the end.
structure Pool.Linkable {α μ : Type} (slots : List Nat) (p : Pool α μ) : Prop where
  nodup : slots.Nodup
  inside : ∀ i ∈ slots, 0 < i ∧ i < p.slots.size

theorem Pool.SameBodies.tidy {α μ δ : Type} [Inhabited μ] {keep : μ → δ} {p q : Pool α μ} (same : SameBodies keep p q)
    (tidy : p.Tidy) : q.Tidy := by
  refine ⟨(same.isActive 0).trans tidy.idle, ?_, ?_, ?_, ?_⟩
  · intro i live
    rw [same.get?]
    exact tidy.filled i ((same.isActive i).symm.trans live)
  · rw [same.size, same.capacity]
    exact tidy.fits
  · rw [same.size, same.capacity]
    exact tidy.reserved
  · rw [same.capacity]
    exact tidy.limit

theorem Pool.SameBodies.enumerates {α μ δ : Type} [Inhabited μ] {keep : μ → δ} {p q : Pool α μ} {order : List Nat}
    (same : SameBodies keep p q) (enumerates : p.Enumerates order) : q.Enumerates order :=
  ⟨enumerates.nodup, fun i => by rw [enumerates.mem, same.isActive]⟩

class LawfulIndex (ι : Type) (μ : outParam Type) [Inhabited μ] [Index ι μ] where
  -- what a link remembers through every relinking
  Memory : Type
  keep : μ → Memory
  -- how slots are arranged, and which slots they are
  Shape : Type
  slots : Shape → List Nat
  rename : (Nat → Nat) → Shape → Shape
  slots_rename : ∀ ρ t, slots (rename ρ t) = (slots t).map ρ
  rename_same : ∀ {ρ t}, (∀ i ∈ slots t, ρ i = i) → rename ρ t = t
  rename_rename : ∀ ρ σ t, rename σ (rename ρ t) = rename (σ ∘ ρ) t
  -- the links of a pool and an index arrange the slots so
  Threads {α : Type} : Shape → Pool α μ → ι → Prop
  frame {α : Type} {t : Shape} {p q : Pool α μ} {index : ι} : Threads t p index →
    (∀ i ∈ slots t, q.linkAt i = p.linkAt i) → q.capacity = p.capacity → Threads t q index
  -- what is left of that while compaction moves slots about
  Moving {α : Type} : Shape → Pool α μ → ι → Prop
  moving {α : Type} {t : Shape} {p : Pool α μ} {index : ι} : Threads t p index → Moving t p index
  movingFrame {α : Type} {t : Shape} {p q : Pool α μ} {index : ι} : Moving t p index →
    (∀ i ∈ slots t, q.linkAt i = p.linkAt i) → q.capacity = p.capacity → Moving t q index
  moved {α : Type} {t : Shape} {s : Store ι α μ} {source target : Nat} : Moving t s.pool s.index →
    s.pool.Linkable (slots t) → source ∈ slots t → target ∉ slots t → 0 < target → target < s.pool.slots.size →
    Returns (Index.moved source target) { s with pool := s.pool.swap target source } fun _ after =>
      Pool.SameBodies keep (s.pool.swap target source) after.pool ∧
        Moving (rename (fun i => if i = source then target else i) t) after.pool after.index
  settled {α : Type} {t : Shape} {s : Store ι α μ} : Moving t s.pool s.index → s.pool.Tidy →
    s.pool.Enumerates (slots t) →
    Returns Index.settled s fun _ after =>
      Pool.SameBodies keep s.pool after.pool ∧ Threads t after.pool after.index
  resized {α : Type} {t : Shape} {p : Pool α μ} {s : Store ι α μ} : Threads t p s.index →
    (∀ i ∈ slots t, s.pool.linkAt i = p.linkAt i) → s.pool.Tidy → s.pool.Enumerates (slots t) →
    Returns (Index.resized s.pool.capacity) s fun _ after =>
      Pool.SameBodies keep s.pool after.pool ∧ Threads t after.pool after.index
  unlink {α : Type} {t : Shape} {s : Store ι α μ} {i : Nat} : Threads t s.pool s.index →
    s.pool.Linkable (slots t) → i ∈ slots t →
    Returns (Index.unlink i) s fun _ after => Pool.SameBodies keep s.pool after.pool ∧
      ∃ rest, slots rest = (slots t).erase i ∧ Threads rest after.pool after.index
  cleared {α : Type} {t : Shape} {p : Pool α μ} {index : ι} : Threads t p index →
    ∃ bare, slots bare = [] ∧ Threads bare p.clear (Index.cleared index)

open LawfulIndex

namespace Store

variable {ι α μ : Type}

theorem onPool_ok {β : Type} {s : Store ι α μ} {change : Edit (Pool α μ) β} {value : β} {p : Pool α μ}
    (ran : change s.pool = .ok value p) : onPool change s = .ok value ⟨p, s.index⟩ := by
  rw [onPool, ran]

theorem ends_onPool {s : Store ι α μ} {returns : β → Store ι α μ → Prop} {faults : Fault → Store ι α μ → Prop}
    (change : Edit (Pool α μ) β) :
    Ends (onPool change) s returns faults ↔
      Ends change s.pool (fun value p => returns value ⟨p, s.index⟩) fun fault p => faults fault ⟨p, s.index⟩ := by
  simp only [Ends, onPool]
  cases change s.pool <;> rfl

theorem onLink_run {s : Store ι α μ} {i : Nat} (inside : i < s.pool.slots.size) (f : μ → μ) :
    onPool (Pool.modifyLink i f) s = .ok () ⟨s.pool.relink i f, s.index⟩ := onPool_ok (Pool.modifyLink_run inside f)

theorem ends_relinkSome [Inhabited μ] {β : Type} {s : Store ι α μ} {i : Nat} {f : μ → μ}
    {rest : Unit → Edit (Store ι α μ) β} {returns : β → Store ι α μ → Prop} {faults : Fault → Store ι α μ → Prop}
    (inside : i ≠ 0 → i < s.pool.slots.size) :
    Ends (if i ≠ 0 then (do let done ← onPool (Pool.modifyLink i f); rest done) else rest ()) s returns faults ↔
      Ends (rest ()) ⟨s.pool.relinkSome i f, s.index⟩ returns faults := by
  unfold Pool.relinkSome
  by_cases none : i = 0
  · rw [if_neg (not_not.mpr none), if_pos none]
  · rw [if_pos none, if_neg none, ends_bind, Ends, onLink_run (inside none)]

variable [Inhabited μ] [Index ι μ] [lawful : LawfulIndex ι μ]

-- The whole container: the arranged slots are exactly the live ones, and they are counted.
structure Sound (t : lawful.Shape) (s : Store ι α μ) : Prop where
  tidy : s.pool.Tidy
  threads : Threads t s.pool s.index
  enumerates : s.pool.Enumerates (slots t)
  counted : s.pool.count = (slots t).length

-- Elements under new numbers: nothing is lost, doubled or changed on the way.
structure Relabels {δ : Type} (keep : μ → δ) (ρ : Nat → Nat) (order : List Nat) (p q : Pool α μ) : Prop where
  count : q.count = p.count
  held : ∀ i ∈ order, q.get? (ρ i) = p.get? i
  kept : ∀ i ∈ order, keep (q.linkAt (ρ i)) = keep (p.linkAt i)

structure Carries (ρ : Nat → Nat) (t : lawful.Shape) (s after : Store ι α μ) : Prop where
  sound : Sound (rename ρ t) after
  relabels : Relabels lawful.keep ρ (slots t) s.pool after.pool

theorem rename_id (t : lawful.Shape) : rename id t = t := rename_same fun _ _ => rfl

namespace Relabels

variable {δ : Type} {keep : μ → δ} {ρ σ : Nat → Nat} {order : List Nat} {p q r : Pool α μ}

theorem refl (p : Pool α μ) (order : List Nat) : Relabels keep id order p p :=
  ⟨rfl, fun _ _ => rfl, fun _ _ => rfl⟩

theorem trans (first : Relabels keep ρ order p q)
    (second : Relabels keep σ (order.map ρ) q r) : Relabels keep (σ ∘ ρ) order p r := by
  refine ⟨second.count.trans first.count, ?_, ?_⟩
  · intro i member
    exact (second.held _ (List.mem_map_of_mem member)).trans (first.held i member)
  · intro i member
    exact (second.kept _ (List.mem_map_of_mem member)).trans (first.kept i member)

theorem same_bodies (relabels : Relabels keep ρ order p q) (same : Pool.SameBodies keep q r) :
    Relabels keep ρ order p r := by
  refine ⟨same.count.trans relabels.count, ?_, ?_⟩
  · intro i member
    rw [same.get?, relabels.held i member]
  · intro i member
    rw [same.kept, relabels.kept i member]

theorem contents_eq (relabels : Relabels keep ρ order p q) (before : p.Enumerates order)
    (after : q.Enumerates (order.map ρ)) : q.contents = p.contents := by
  rw [before.contents_eq, after.contents_eq, List.filterMap_map]
  congr 1
  exact List.filterMap_congr relabels.held

end Relabels

namespace Sound

variable {t : lawful.Shape} {s after : Store ι α μ}

theorem linkable (sound : Sound t s) : s.pool.Linkable (slots t) := by
  refine ⟨sound.enumerates.nodup, ?_⟩
  intro i member
  have live := (sound.enumerates.mem i).mp member
  refine ⟨Nat.pos_of_ne_zero ?_, Pool.isActive_lt live⟩
  intro same
  subst same
  simp [sound.tidy.idle] at live

theorem mem_iff (sound : Sound t s) {i : Nat} : i ∈ slots t ↔ ∃ value, s.pool.get? i = some value := by
  rw [sound.enumerates.mem]
  constructor
  · exact sound.tidy.filled i
  · intro given
    obtain ⟨value, held⟩ := given
    exact Pool.isActive_of_get? held

theorem contents_eq (sound : Sound t s) : s.pool.contents = ((slots t).filterMap s.pool.get? : List α) :=
  sound.enumerates.contents_eq

theorem of_empty {index : ι} (threads : Threads t (Pool.empty : Pool α μ) index) (none : slots t = []) :
    Sound t (⟨Pool.empty, index⟩ : Store ι α μ) := by
  have idle : ∀ i, (Pool.empty : Pool α μ).isActive i = false := fun i => by simp [Pool.empty, Pool.isActive]
  refine ⟨⟨idle 0, ?_, Nat.le_refl 0, fun some => absurd some (Nat.lt_irrefl 0), Nat.zero_le _⟩, threads, ⟨?_, ?_⟩, ?_⟩
  · intro i live
    rw [idle] at live
    cases live
  · rw [none]
    exact List.nodup_nil
  · intro i
    simp [none, idle]
  · rw [none]
    rfl

theorem count_lt (sound : Sound t s) : s.pool.count < s.pool.next :=
  sound.tidy.count_lt sound.enumerates sound.counted

theorem tombstones_run (sound : Sound t s) : s.pool.tombstones = .ok (s.pool.next - 1 - s.pool.count) :=
  Pool.tombstones_run sound.count_lt

end Sound

end Store
end Slotted
