import Slotted.Proofs.Store.Booked
import Slotted.Proofs.Store.Workings
import Slotted.Proofs.HashSet.Chain
namespace Slotted

namespace Store

-- An index whose hooks keep it laid out for a pool of this capacity, or lay it out anew.
class FittingIndex (ι : Type) (μ : outParam Type) [Inhabited μ] [Index ι μ] extends LinkingIndex ι μ where
  Fits : ι → Nat → Prop
  fits_moved {α : Type} (source target n : Nat) :
    Upholds (fun s : Store ι α μ => Fits s.index n) (Index.moved source target)
  fits_settled {α : Type} (n : Nat) : Upholds (fun s : Store ι α μ => Fits s.index n) Index.settled
  fits_resized {α : Type} (n : Nat) (s : Store ι α μ) : Always (Index.resized n) s fun after => Fits after.index n
  fits_unlink {α : Type} (i n : Nat) : Upholds (fun s : Store ι α μ => Fits s.index n) (Index.unlink i)
  fits_cleared {index : ι} {n : Nat} : Fits index n → Fits (Index.cleared index) n

end Store

def Buckets.Wide (n : Nat) (b : Buckets) : Prop := b.heads.size = bucketCount b.loadFactor n

theorem Buckets.wide_cleared {n : Nat} {b : Buckets} (wide : b.Wide n) : b.cleared.Wide n :=
  (Array.size_replicate ..).trans wide

theorem Buckets.wide_sized (n : Nat) (b : Buckets) : (b.sized n).Wide n := Array.size_replicate ..

namespace HashSet

open Store

variable {α β : Type} {n : Nat} {holds : Nat → Nat → Prop}

def Wide (n : Nat) (s : HashSet α) : Prop := s.index.Wide n

-- What is said of the number of buckets and the load factor alone.
def Laid (holds : Nat → Nat → Prop) (s : HashSet α) : Prop := holds s.index.heads.size s.index.loadFactor

theorem wide_of_laid {program : Edit (HashSet α) β} (laid : ∀ holds, Upholds (Laid holds) program) :
    Upholds (Wide n) program := laid fun size loadFactor => size = Slotted.bucketCount loadFactor n

theorem onPool_laid (change : Edit (Pool α ChainLink) β) : Upholds (Laid holds) (onPool change) := by
  intro s laid
  rw [Always, Ends, onPool]
  cases change s.pool with
  | ok value q => exact laid
  | error fault q => exact laid

theorem setHead_laid (bucket i : Nat) : Upholds (Laid holds) (setHead (α := α) bucket i) := by
  refine .modify fun s laid => ?_
  rw [Laid, Buckets.size_setHead]
  exact laid

theorem linkHead_laid (i : Nat) (hash : UInt32) : Upholds (Laid holds) (linkHead (α := α) i hash) := by
  refine Upholds.bind .get fun s => Upholds.bind (.lift _) fun bucket => Upholds.bind .get fun s => ?_
  refine Upholds.bind (onPool_laid _) fun _ => ?_
  dsimp only
  split
  · exact Upholds.bind (onPool_laid _) fun _ => setHead_laid _ _
  · exact setHead_laid _ _

theorem laid_cleared {s : HashSet α} (laid : Laid holds s) : holds s.index.cleared.heads.size s.index.cleared.loadFactor := by
  rw [Buckets.cleared, Array.size_replicate]
  exact laid

theorem rebucket_laid : Upholds (Laid holds) (rebucket (α := α)) := by
  refine Upholds.bind (.modify fun _ laid => laid_cleared laid) fun _ => Upholds.bind .get fun s => ?_
  split
  · exact .pure _
  · refine Upholds.bind .get fun s => .each (fun i => Upholds.bind .get fun s => ?_) _
    split
    · exact Upholds.bind .get fun s => Upholds.bind (.lift _) fun link => linkHead_laid _ _
    · exact .pure _

theorem unlink_laid (i : Nat) : Upholds (Laid holds) (unlink (α := α) i) := by
  have last : ∀ prev next hash, Upholds (Laid holds) (do
      if next ≠ 0 then Store.onPool (Pool.modifyLink next fun link => { link with prev := prev })
      Store.onPool (Pool.setLink i ⟨0, 0, hash⟩) : Edit (HashSet α) Unit) := by
    intro prev next hash
    split
    · exact Upholds.bind (onPool_laid _) fun _ => onPool_laid _
    · exact onPool_laid _
  refine Upholds.bind .get fun s => Upholds.bind (.lift _) fun link => ?_
  obtain ⟨prev, next, hash⟩ := link
  dsimp only
  split
  · exact Upholds.bind (onPool_laid _) fun _ => last _ _ _
  · refine Upholds.bind .get fun s => Upholds.bind (.lift _) fun bucket => Upholds.bind .get fun s => ?_
    split
    · exact Upholds.bind (setHead_laid _ _) fun _ => last _ _ _
    · exact Upholds.bind (.throw _) fun _ => Upholds.bind (setHead_laid _ _) fun _ => last _ _ _

instance : FittingIndex Buckets ChainLink where
  Fits b n := b.Wide n
  fits_moved _ _ _ := .pure _
  fits_settled _ := wide_of_laid fun _ => rebucket_laid
  fits_resized n s := wide_of_laid (fun _ => rebucket_laid) ⟨s.pool, s.index.sized n⟩ (Buckets.wide_sized n s.index)
  fits_unlink i _ := wide_of_laid fun _ => unlink_laid i
  fits_cleared wide := Buckets.wide_cleared wide

end HashSet

-- A tree has nothing that goes by the size of the pool.
instance : Store.FittingIndex Root TreeLink where
  Fits _ _ := True
  fits_moved _ _ _ := .trivial _
  fits_settled _ := .trivial _
  fits_resized n s := Upholds.trivial (Index.resized n) s trivial
  fits_unlink _ _ := .trivial _
  fits_cleared _ := trivial

namespace Store

open FittingIndex LawfulIndex

variable {ι α β μ ω : Type} [Inhabited μ] [Index ι μ] [FittingIndex ι μ] {s : Store ι α μ} {lo hi n : Nat} {live : List Nat}

structure Booked (s : Store ι α μ) : Prop where
  pool : s.pool.Booked
  fits : Fits s.index s.pool.capacity

-- In order, and of this size. Only what asks for room changes the size.
def BookedAt (n : Nat) (s : Store ι α μ) : Prop := Booked s ∧ s.pool.capacity = n

theorem upholds_booked {program : Edit (Store ι α μ) β} (kept : ∀ n, Upholds (BookedAt n) program) :
    Upholds Booked program := fun s booked => (kept s.pool.capacity s ⟨booked, rfl⟩).imp fun _ told => told.1

theorem guards_booked {update : Update (Store ι α μ) ω β} (kept : ∀ n, Guards (BookedAt n) update) :
    Guards Booked update := fun s booked => (kept s.store.pool.capacity s ⟨booked, rfl⟩).imp fun _ told => told.1

theorem linking_upholds {program : Edit (Store ι α μ) β} (relinks : Relinks program)
    (fits : Upholds (fun s : Store ι α μ => Fits s.index n) program) : Upholds (BookedAt n) program := by
  intro s booked
  obtain ⟨booked, rfl⟩ := booked
  refine ((relinks.always s).both (fits s booked.fits)).imp ?_
  intro after told
  obtain ⟨same, fits⟩ := told
  exact ⟨⟨booked.pool.same_bodies same, same.capacity.symm ▸ fits⟩, same.capacity⟩

theorem onPool_upholds {change : Edit (Pool α μ) β} (kept : Upholds (Pool.BookedAt n) change) :
    Upholds (BookedAt n) (onPool change : Edit (Store ι α μ) β) := by
  intro s booked
  obtain ⟨booked, rfl⟩ := booked
  rw [Always, ends_onPool]
  refine Always.imp (kept s.pool ⟨booked.pool, rfl⟩) ?_
  intro q told
  exact ⟨⟨told.1, told.2.symm ▸ booked.fits⟩, told.2⟩

theorem unlink_upholds (i : Nat) : Upholds (BookedAt n) (Index.unlink i : Edit (Store ι α μ) Unit) :=
  linking_upholds (LinkingIndex.unlink i) (fits_unlink i n)

-- The elements under other numbers, and nothing else.
structure Shuffles (ρ : Nat → Nat) (live : List Nat) (p q : Pool α μ) : Prop where
  enumerates : q.Enumerates (live.map ρ)
  relabels : Relabels (fun _ => ()) ρ live p q
  size : q.slots.size = p.slots.size
  capacity : q.capacity = p.capacity
  idle : q.isActive 0 = false

theorem Shuffles.booked {ρ : Nat → Nat} {p q : Pool α μ} (shuffles : Shuffles ρ live p q) (sound : Sound live p.alone) :
    q.Booked := by
  refine Pool.booked_of ⟨shuffles.idle, ?_, ?_, ?_, ?_⟩ shuffles.enumerates ?_
  · intro j active
    obtain ⟨i, member, rfl⟩ := List.mem_map.mp ((shuffles.enumerates.mem j).mpr active)
    rw [shuffles.relabels.held i member]
    exact sound.tidy.filled i ((sound.enumerates.mem i).mp member)
  · rw [shuffles.size, shuffles.capacity]
    exact sound.tidy.fits
  · rw [shuffles.size, shuffles.capacity]
    exact sound.tidy.reserved
  · rw [shuffles.capacity]
    exact sound.tidy.limit
  · rw [shuffles.relabels.count, List.length_map]
    exact sound.counted

theorem Gapped.same_bodies {p q : Pool α μ} {δ : Type} {keep : μ → δ} (gapped : Gapped live lo hi p.alone)
    (same : Pool.SameBodies keep p q) : Gapped live lo hi q.alone where
  moving := trivial
  enumerates := same.enumerates gapped.enumerates
  idle := (same.isActive 0).trans gapped.idle
  live i positive bound := (same.isActive i).trans (gapped.live i positive bound)
  dead i far := (same.isActive i).trans (gapped.dead i far)
  bottom := gapped.bottom
  met := gapped.met
  top := Nat.lt_of_lt_of_eq gapped.top same.size.symm

theorem Shuffles.moved {ρ : Nat → Nat} {p q r : Pool α μ} {lo hi : Nat} (gapped : Gapped (live.map ρ) lo hi q.alone)
    (relabels : Relabels (fun _ => ()) ρ live p q) (size : q.slots.size = p.slots.size) (capacity : q.capacity = p.capacity)
    (same : Pool.SameBodies (fun _ => ()) q r) : Shuffles ρ live p r where
  enumerates := same.enumerates gapped.enumerates
  relabels := relabels.same_bodies same
  size := same.size.trans size
  capacity := same.capacity.trans capacity
  idle := (same.isActive 0).trans gapped.idle

theorem closeGaps_shuffles (gapped : Gapped live lo hi s.pool.alone) :
    Ends (closeGaps Index.moved lo hi) s
      (fun _ after => ∃ ρ : Nat → Nat, Gathered (live.map ρ) s.pool.alone after.pool.alone ∧
        Relabels (fun _ => ()) ρ live s.pool after.pool)
      fun _ after => ∃ ρ, Shuffles ρ live s.pool after.pool := by
  have closing : Closing Index.moved
      (fun lo hi (after : Store ι α μ) => ∃ ρ, Gapped (live.map ρ) lo hi after.pool.alone ∧ Shuffles ρ live s.pool after.pool)
      fun _ after => ∃ ρ, Shuffles ρ live s.pool after.pool := by
    refine ⟨?_, ?_, ?_⟩
    · intro lo hi after now apart low
      obtain ⟨ρ, gapped, shuffles⟩ := now
      exact ⟨ρ, gapped.up apart low, shuffles⟩
    · intro lo hi after now apart _ high
      obtain ⟨ρ, gapped, shuffles⟩ := now
      exact ⟨ρ, gapped.down apart high, shuffles⟩
    · intro lo hi middle now apart low high
      obtain ⟨ρ, gapped, shuffles⟩ := now
      obtain ⟨renamed, relabelled, size, capacity⟩ := Ends.returned (gapped.move apart low high) rfl
      have moved : Gapped (live.map (Pool.moveTo lo hi ∘ ρ)) (lo + 1) (hi - 1) (middle.pool.swap lo hi).alone := by
        rw [← List.map_map]
        exact renamed
      have hooked := (LinkingIndex.moved hi lo).always { middle with pool := middle.pool.swap lo hi }
      have after_hook : ∀ after : Store ι α μ, Pool.SameBodies (fun _ => ()) (middle.pool.swap lo hi) after.pool →
          Shuffles (Pool.moveTo lo hi ∘ ρ) live s.pool after.pool := fun after same =>
        .moved moved (shuffles.relabels.trans relabelled) (size.trans shuffles.size) (capacity.trans shuffles.capacity) same
      rw [move, ends_bind, ends_modify]
      refine Ends.imp hooked ?_ ?_
      · exact fun _ after same => ⟨_, moved.same_bodies same, after_hook after same⟩
      · exact fun _ after same => ⟨_, after_hook after same⟩
  have start : Gapped (live.map id) lo hi s.pool.alone := (List.map_id live).symm ▸ gapped
  refine (closing.ends ⟨id, start, start.enumerates, .refl .., rfl, rfl, gapped.idle⟩).returning ?_
  intro _ after told
  obtain ⟨lo, hi, met, ρ, gapped, shuffles⟩ := told
  exact ⟨ρ, { gapped.gathered met with size := shuffles.size, capacity := shuffles.capacity }, shuffles.relabels⟩

-- However the links lie, the live slots are told apart from the idle ones, and nothing live is cut off.
theorem compact_upholds : Upholds (BookedAt n) (compact : Edit (Store ι α μ) Unit) := by
  refine Upholds.bind ?_ fun _ => linking_upholds LinkingIndex.settled (fits_settled n)
  intro s booked
  obtain ⟨booked, rfl⟩ := booked
  obtain ⟨live, sound⟩ := booked.pool
  rw [compactWith, Always, ends_bind, ends_get]
  dsimp only
  split
  · rename_i several
    have gapped : Gapped live 1 (s.pool.slots.size - 1) s.pool.alone := sound.ready.gapped several
    have fitting : Upholds (fun after : Store ι α μ => Fits after.index s.pool.capacity)
        (closeGaps Index.moved 1 (s.pool.slots.size - 1)) :=
      closeGaps_keeps (fun _ _ _ fits => fits) (fun source target => fits_moved source target _) _ _
    refine Ends.bind (Ends.faulting (Ends.both (closeGaps_shuffles gapped) (fitting s booked.fits)) ?_) ?_
    · intro _ after told
      obtain ⟨⟨ρ, shuffles⟩, fits⟩ := told
      exact ⟨⟨shuffles.booked sound, shuffles.capacity.symm ▸ fits⟩, shuffles.capacity⟩
    · intro _ middle told
      obtain ⟨⟨ρ, gathered, relabels⟩, fits⟩ := told
      obtain ⟨tidy, enumerates, _, dropped⟩ := gathered.cut sound.ready relabels several
      refine ⟨⟨Pool.booked_of tidy enumerates ?_, gathered.capacity.symm ▸ fits⟩, gathered.capacity⟩
      refine dropped.count.trans (sound.counted.trans ?_)
      exact (List.length_map ..).symm
  · exact ⟨booked, rfl⟩

theorem bookedAt_workings : Workings (BookedAt n : Store ι α μ → Prop) where
  unlink := unlink_upholds
  vacate i := onPool_upholds (Pool.take_upholds i)
  detach i := onPool_upholds (Pool.detach_upholds i)
  discard i := onPool_upholds (Pool.discard_upholds i)
  modifyValue i change := onPool_upholds (Pool.modifyValue_upholds i change)
  compact := compact_upholds
  clear _ booked := ⟨⟨booked.1.pool.clear, fits_cleared booked.1.fits⟩, booked.2⟩

section Room

variable [Allocator ω]

theorem adopt_upholds {n : Nat} (allowed : s.pool.refusal n = none) (booked : Booked s) : Always (adopt n) s Booked := by
  have sized := booked.pool.setCapacity allowed
  have capacity := Pool.setCapacity_capacity s.pool n
  rw [adopt, Always, ends_bind, ends_modify]
  refine Always.imp (((LinkingIndex.resized n).always ⟨s.pool.setCapacity n, s.index⟩).both (fits_resized n _)) ?_
  intro after told
  obtain ⟨same, fits⟩ := told
  exact ⟨sized.same_bodies same, (same.capacity.trans capacity).symm ▸ fits⟩

theorem resizeSlots_upholds (n : Nat) : Guards Booked (resizeSlots n : Update (Store ι α μ) ω (Except CapacityError Unit)) := by
  refine Upholds.bind .get fun s => Upholds.bind (secure_upholds _ _) fun granted => ?_
  cases granted with
  | false => exact .pure _
  | true =>
    intro s booked
    rw [if_pos rfl, Always, ends_bind, ends_get]
    cases refused : s.store.pool.refusal n with
    | some error => exact booked
    | none =>
      dsimp only
      rw [ends_bind, ends_get]
      refine Ends.bind ((secure_returns _ _ s).ends fun _ _ told => told) ?_
      intro granted middle told
      have booked : Booked middle.store := told.1.symm ▸ booked
      cases granted with
      | false => exact booked
      | true =>
        rw [if_pos rfl]
        refine Ends.bind ?_ fun _ _ booked => booked
        rw [Update.ends_edit]
        exact adopt_upholds (told.1.symm ▸ refused) booked

theorem resize_upholds (capacity : Nat) :
    Guards Booked (resize capacity : Update (Store ι α μ) ω (Except CapacityError Unit)) :=
  resize_guards (upholds_booked fun _ => compact_upholds) (resizeSlots_upholds _)

theorem reserve_upholds (additional : Nat) :
    Guards Booked (reserve additional : Update (Store ι α μ) ω (Except CapacityError Unit)) :=
  reserve_guards (upholds_booked fun _ => compact_upholds) additional fun _ => resizeSlots_upholds _

theorem makeRoom_upholds : Guards Booked (makeRoom : Update (Store ι α μ) ω (Except CapacityError Bool)) :=
  makeRoom_guards (upholds_booked fun _ => compact_upholds) fun _ => resizeSlots_upholds _

end Room
end Store
end Slotted
