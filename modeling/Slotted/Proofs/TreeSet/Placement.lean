import Slotted.Proofs.Store.Grants
import Slotted.Proofs.TreeSet.Insert
namespace Slotted

variable {κ α β ω : Type}

namespace Query

def Gives (query : Query κ ω β) (value : β) : Prop := ∃ store gate after, query store gate = .ok value after

def Raises (query : Query κ ω β) (fault : Fault) : Prop := ∃ store gate after, query store gate = .error fault after

theorem ends_own (query : Query κ ω β) (store : κ) (gate : Gate ω) :
    Ends (query store) gate (fun value _ => query.Gives value) fun fault _ => query.Raises fault := by
  unfold Ends
  cases ran : query store gate with
  | ok value after => exact ⟨store, gate, after, ran⟩
  | error fault after => exact ⟨store, gate, after, ran⟩

end Query

def Probe.Raises (probe : Probe κ ω α) (fault : Fault) : Prop := ∃ element, (probe.order element).Raises fault

namespace TreeSet

open Store Query

variable {s : TreeSet α} {t : Tree} {path : List Crumb} {parent fuel : Nat} {side : Side} {probe : Probe (TreeSet α) ω α}
  {gate : Gate ω}

-- A place where nothing hangs.
def Opening (t : Tree) (parent : Nat) (side : Side) : Prop :=
  ∃ path, t = plug path .nil ∧ above path = parent ∧ turn path = side

-- An end that a search can come to: an element that was called equal, or such a place.
def Stops (probe : Probe (TreeSet α) ω α) (t : Tree) (s : TreeSet α) : Place → Prop
  | .found i => ∃ stored, s.pool.get? i = some stored ∧ (probe.order stored).Gives .eq
  | .vacant parent side => Opening t parent side

-- The induction is on what is still below; each answer leads one level down.
theorem descend_stops {sub : Tree} (path : List Crumb) (hangs : Hangs s.pool.linkAt parent sub)
    (live : ∀ i ∈ sub.slots, ∃ value, s.pool.get? i = some value) (enough : sub.height ≤ fuel) (gate : Gate ω) :
    Ends (descend probe.order fuel (above path) sub.top (turn path) s) gate
      (fun place _ => Stops probe (plug path sub) s place) fun fault _ => probe.Raises fault := by
  induction sub generalizing path parent fuel gate with
  | nil =>
    unfold descend
    exact ⟨path, rfl, rfl, rfl⟩
  | node left i right ihl ihr =>
    obtain ⟨some, _, atLeft, atRight, lower, upper⟩ := hangs
    obtain ⟨below, ⟨value, held⟩, beyond⟩ := Tree.forall_node live
    rw [Tree.height] at enough
    cases fuel with
    | zero => omega
    | succ fuel =>
      rw [Tree.top, descend_node some held, Query.ends_bind]
      refine (ends_own _ _ _).imp ?_ fun _ _ raised => ⟨value, raised⟩
      intro answer after gives
      cases answer with
      | eq => exact ⟨value, held, gives⟩
      | gt =>
        dsimp only
        rw [atLeft]
        exact ihl (⟨.left, i, right⟩ :: path) lower below (by omega) after
      | lt =>
        dsimp only
        rw [atRight]
        exact ihr (⟨.right, i, left⟩ :: path) upper beyond (by omega) after

theorem locate_stops (sound : Sound t s) (lowered : gate.busy = false) :
    Ends (locate probe s) gate (fun place after => Stops probe t s place ∧ after.busy = false)
      fun fault after => probe.Raises fault ∧ after.busy = false := by
  have planted := sound.threads.planted sound.linkable
  have enough : t.height ≤ probe.memory + s.pool.walkLimit := Nat.le_add_left_of_le planted.height_le_walkLimit
  refine ends_guarded lowered ?_
  change Ends (descend probe.order (probe.memory + s.pool.walkLimit) 0 s.index.slot .right s) _ _ _
  rw [planted.root]
  exact (descend_stops [] planted.hangs (fun i => sound.mem_iff.mp) enough _).imp (fun _ _ stops => ⟨stops, rfl⟩)
    fun _ _ raised => ⟨raised, rfl⟩

-- Nothing hangs there, as far as the links can tell.
def Vacant (s : TreeSet α) (parent : Nat) (side : Side) : Prop :=
  if parent = 0 then s.index.slot = 0 else s.pool.isActive parent = true ∧ (s.pool.linkAt parent).child side = 0

theorem Vacant.opening (vacant : Vacant s parent side) (sound : Sound t s) (rooted : parent = 0 → side = .right) :
    Opening t parent side := by
  have planted := sound.threads.planted sound.linkable
  have bare : ∀ {t : Tree} {parent}, Hangs s.pool.linkAt parent t → t.top = 0 → t = .nil := by
    intro t parent hangs none
    cases t with
    | nil => rfl
    | node left i right => exact absurd none hangs.1
  unfold Vacant at vacant
  split at vacant
  · rename_i root
    have none : t = .nil := bare planted.hangs (planted.root.symm.trans vacant)
    exact ⟨[], none, root.symm, (rooted root).symm⟩
  · obtain ⟨live, empty⟩ := vacant
    obtain ⟨path, left, right, shape⟩ := exists_path ((sound.enumerates.mem parent).mpr live)
    obtain ⟨near, far, node⟩ := Tree.exists_near side left right parent
    rw [node] at shape
    have hangs := planted.hangs
    rw [shape, hangs_plug, hangs_join] at hangs
    obtain ⟨_, _, _, here, _, below, _⟩ := hangs
    have none := bare below (here.symm.trans empty)
    subst none
    exact ⟨⟨side, parent, far⟩ :: path, shape, rfl, rfl⟩

theorem Opening.rooted (opening : Opening t parent side) (sound : Sound t s) : parent = 0 → side = .right := by
  obtain ⟨path, rfl, rfl, rfl⟩ := opening
  intro root
  cases path with
  | nil => rfl
  | cons c up => exact absurd root (hangs_plug.mp (sound.threads.planted sound.linkable).hangs).1.1

theorem placeAgain_opens {renumbered : Bool} (sound : Sound t s) (lowered : gate.busy = false)
    (rooted : parent = 0 → side = .right) (kept : renumbered = false → Opening t parent side)
    (holds : ∀ i last, renumbered = true → locate probe s gate = .ok (.found i) last → Vacant s parent side) :
    Ends (placeAgain probe renumbered parent side s) gate
      (fun place after => Opening t place.1 place.2 ∧ after.busy = false)
      fun fault after => probe.Raises fault ∧ after.busy = false := by
  cases renumbered with
  | false => exact ⟨kept rfl, lowered⟩
  | true =>
    unfold placeAgain
    rw [if_pos rfl, Query.ends_bind]
    refine (locate_stops sound lowered).known.returning ?_
    intro place after told
    obtain ⟨ran, stops, lowered'⟩ := told
    cases place with
    | vacant parent side => exact ⟨stops, lowered'⟩
    | found i => exact ⟨(holds i after rfl ran).opening sound rooted, lowered'⟩

variable [Allocator ω]

-- The search ends at an empty place, the slots are renumbered to make room, and a search from there on ends at an element,
-- while the numbers of that place name none that is empty.
def Misplaces (probe : Probe (TreeSet α) ω α) (s : Session (TreeSet α) ω) : Prop :=
  ∃ parent side first middle i last, locate probe s.store s.gate = .ok (.vacant parent side) first ∧
    makeRoom ⟨s.store, first⟩ = .ok (.ok true) middle ∧ locate probe middle.store middle.gate = .ok (.found i) last ∧
    ¬ Vacant middle.store parent side

variable {make : Query (TreeSet α) ω α} {s : Session (TreeSet α) ω}

-- The flag comes back lowered if the builder hands it back as it got it.
abbrev HandsBack (make : Query (TreeSet α) ω α) (after : Session (TreeSet α) ω) : Prop :=
  make.Careful (fun _ => True) → after.gate.busy = false

-- What an insertion answers and leaves behind: an element that was there, or one more than there were.
def Joins (probe : Probe (TreeSet α) ω α) (make : Query (TreeSet α) ω α) (t : Tree) (s after : TreeSet α) :
    Handle × Bool → Prop
  | (h, false) => after = s ∧ ∃ stored, s.get? h = some stored ∧ (probe.order stored).Gives .eq
  | (h, true) => ∃ value ρ t', make.Gives value ∧ Adds ρ h.index value t t' s after

-- How it may be broken off: by code of the callers, or because there is no room. It costs no element.
structure Breaks (probe : Probe (TreeSet α) ω α) (make : Query (TreeSet α) ω α) (t : Tree) (s after : TreeSet α)
    (fault : Fault) : Prop where
  blamed : probe.Raises fault ∨ make.Raises fault ∨ ∃ error first middle,
    makeRoom (⟨s, first⟩ : Session (TreeSet α) ω) = .ok (.error error) middle ∧ fault = .growth .treeSet .insertWith error
  carries : ∃ ρ, Carries ρ t s after

theorem build_joins {middle : TreeSet α} {ρ : Nat → Nat} (carries : Carries ρ t s.store middle)
    (allocated : 0 < middle.pool.slots.size) (room : middle.pool.isFull = false) (opening : Opening (t.map ρ) parent side)
    (lowered : gate.busy = false) :
    Ends (do
        let value ← Update.ask make
        return (← Handle.ofIndex (← Update.edit (linkNew value parent side)), true)) ⟨middle, gate⟩
      (fun placed after => Joins probe make t s.store after.store placed ∧ HandsBack make after)
      fun fault after => Breaks probe make t s.store after.store fault ∧ HandsBack make after := by
  obtain ⟨path, shape, rfl, rfl⟩ := opening
  have sound : Sound (plug path .nil) middle := shape ▸ carries.sound
  rw [ends_bind, Update.ends_ask]
  cases ran : make middle gate with
  | error fault after =>
    refine Ends.of_error ran ⟨⟨.inr (.inl ⟨middle, gate, after, ran⟩), ρ, carries⟩, fun careful => ?_⟩
    exact ((careful middle gate).faulted ran).2.trans lowered
  | ok value built =>
    refine Ends.of_ok ran ?_
    rw [ends_bind, Update.ends_edit]
    refine (linkNew_adds sound allocated room value).ends ?_
    intro i after told
    obtain ⟨positive, t', adds, _⟩ := told
    rw [← shape] at adds
    rw [Handle.ofIndex_run positive, ends_bind, ends_lift]
    refine ⟨⟨value, ρ, t', ⟨middle, gate, built, ran⟩, adds.carried carries⟩, fun careful => ?_⟩
    exact ((careful middle gate).returned ran).trans lowered

theorem insertWith_joins (sound : Sound t s.store) (lowered : s.gate.busy = false) (placing : ¬ Misplaces probe s) :
    Ends (insertWith probe make) s
      (fun placed after => Joins probe make t s.store after.store placed ∧ HandsBack make after)
      fun fault after => Breaks probe make t s.store after.store fault ∧ HandsBack make after := by
  rw [insertWith, ends_bind, Update.ends_ask]
  refine (locate_stops sound lowered).known.imp ?_ fun _ _ told => ⟨⟨.inl told.1, id, .stay sound⟩, fun _ => told.2⟩
  intro place first told
  obtain ⟨ran, stops, lowered⟩ := told
  cases place with
  | found i =>
    obtain ⟨stored, held, equal⟩ := stops
    have positive := (sound.linkable.inside i (sound.mem_iff.mpr ⟨stored, held⟩)).1
    dsimp only
    rw [Handle.ofIndex_run positive, ends_bind, ends_lift]
    exact ⟨⟨rfl, stored, held, equal⟩, fun _ => lowered⟩
  | vacant parent side =>
    refine Returns.bind (makeRoom_returns (s := ⟨s.store, first⟩) sound).known ?_
    intro answer middle told
    obtain ⟨roomy, made, flag⟩ := told
    have lowered : middle.gate.busy = false := flag.trans lowered
    cases answer with
    | error error =>
      exact ⟨⟨.inr (.inr ⟨error, first, middle, roomy, rfl⟩), id, made.1.symm ▸ .stay sound⟩, fun _ => lowered⟩
    | ok renumbered =>
      obtain ⟨room, allocated, ρ, carries, kept⟩ := made
      have still : renumbered = false → Opening (t.map ρ) parent side := by
        intro same
        rwa [kept same, Tree.map_id]
      have holds : ∀ i last, renumbered = true → locate probe middle.store middle.gate = .ok (.found i) last →
          Vacant middle.store parent side := by
        intro i last moved found
        subst moved
        by_contra gone
        exact placing ⟨parent, side, first, middle, i, last, ran, roomy, found, gone⟩
      dsimp only
      rw [ends_bind, Update.ends_ask]
      refine (placeAgain_opens carries.sound lowered (stops.rooted sound) still holds).imp ?_ ?_
      · exact fun place asked told => build_joins carries allocated room told.1 told.2
      · exact fun _ _ told => ⟨⟨.inl told.1, ρ, carries⟩, fun _ => told.2⟩

end TreeSet
end Slotted
