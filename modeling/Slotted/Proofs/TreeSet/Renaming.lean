import Slotted.Proofs.TreeSet.Unsteady
namespace Slotted

def TreeLink.rename (ρ : Nat → Nat) (link : TreeLink) : TreeLink :=
  ⟨ρ link.parent, ρ link.left, ρ link.right, link.balance⟩

namespace Tree

variable {t : Tree} {ρ σ : Nat → Nat}

theorem map_congr (same : ∀ i ∈ t.slots, ρ i = σ i) : t.map ρ = t.map σ := by
  induction t with
  | nil => rfl
  | node left slot right ihl ihr =>
    obtain ⟨lower, here, upper⟩ := forall_node same
    rw [map, map, ihl lower, here, ihr upper]

theorem top_map (none : ρ 0 = 0) (t : Tree) : (t.map ρ).top = ρ t.top := by
  cases t with
  | nil => exact none.symm
  | node left slot right => rfl

@[simp] theorem height_map (ρ : Nat → Nat) (t : Tree) : (t.map ρ).height = t.height := by
  induction t with
  | nil => rfl
  | node left slot right ihl ihr => rw [map, height, height, ihl, ihr]

end Tree

variable {α ω : Type} {links links' : Nat → TreeLink} {t : Tree} {ρ : Nat → Nat} {parent i : Nat}

-- A tree and its image leave the links no choice. The induction is on the tree, with the parent that it hangs under.
theorem linked_of_map (none : ρ 0 = 0) (hangs : Hangs links parent t) (weighs : Weighs links t)
    (hangs' : Hangs links' (ρ parent) (t.map ρ)) (weighs' : Weighs links' (t.map ρ)) (member : i ∈ t.slots) :
    links' (ρ i) = (links i).rename ρ := by
  induction t generalizing parent with
  | nil => cases member
  | node left slot right ihl ihr =>
    obtain ⟨_, up, atLeft, atRight, lower, upper⟩ := hangs
    obtain ⟨_, up', atLeft', atRight', lower', upper'⟩ := hangs'
    obtain ⟨balance, _, lighter, heavier⟩ := weighs
    obtain ⟨balance', _, lighter', heavier'⟩ := weighs'
    simp only [Tree.slots, List.mem_append, List.mem_cons] at member
    rcases member with member | rfl | member
    · exact ihl lower lighter lower' lighter' member
    · rw [Tree.top_map none] at atLeft' atRight'
      rw [Tree.height_map, Tree.height_map, ← balance] at balance'
      rw [← up] at up'
      rw [← atLeft] at atLeft'
      rw [← atRight] at atRight'
      cases here : links' (ρ i)
      simp_all [TreeLink.rename]
    · exact ihr upper heavier upper' heavier' member

namespace TreeSet

open Store Session

variable {s after : TreeSet α}

-- The same tree under other numbers. The number 0 is no node and keeps its meaning.
structure Renames (ρ : Nat → Nat) (s after : TreeSet α) : Prop where
  none : ρ 0 = 0
  apart : ∀ i j, s.pool.isActive i = true → s.pool.isActive j = true → ρ i = ρ j → i = j
  onto : ∀ j, after.pool.isActive j = true ↔ ∃ i, s.pool.isActive i = true ∧ ρ i = j
  held : ∀ i, s.pool.isActive i = true → after.pool.get? (ρ i) = s.pool.get? i
  linked : ∀ i, s.pool.isActive i = true → after.pool.linkAt (ρ i) = (s.pool.linkAt i).rename ρ
  root : after.index.slot = ρ s.index.slot
  shape : ∃ t : Tree, Rooted t s.pool s.index ∧ s.pool.Enumerates t.slots ∧ Rooted (t.map ρ) after.pool after.index
  listed : ∃ order order', s.entries = .ok order ∧ after.entries = .ok order' ∧
    order'.map (·.1.index) = order.map (fun entry => ρ entry.1.index) ∧ order'.map (·.2) = order.map (·.2)

def Renamed (s after : TreeSet α) : Prop := ∃ ρ, Renames ρ s after

theorem Carries.renamed {ρ : Nat → Nat} (carries : Carries ρ t s after) (sound : Sound t s) : Renamed s after := by
  -- where nothing is numbered, the numbering is free to be right
  let σ : Nat → Nat := fun i => if i = 0 then 0 else ρ i
  have same : ∀ i ∈ t.slots, ρ i = σ i := fun i member =>
    (if_neg (Nat.ne_of_gt (sound.linkable.inside i member).1)).symm
  have mapped : t.map ρ = t.map σ := Tree.map_congr same
  have sound' : Sound (t.map σ) after := mapped ▸ carries.sound
  have rooted : Rooted t s.pool s.index := sound.threads
  have rooted' : Rooted (t.map σ) after.pool after.index := sound'.threads
  have live : ∀ {i}, s.pool.isActive i = true → i ∈ t.slots := fun {i} => (sound.enumerates.mem i).mpr
  have held : ∀ i ∈ t.slots, after.pool.get? (σ i) = s.pool.get? i := fun i member =>
    same i member ▸ carries.relabels.held i member
  have distinct : (t.slots.map σ).Nodup := Tree.slots_map σ t ▸ sound'.enumerates.nodup
  have none : σ 0 = 0 := if_pos rfl
  refine ⟨σ, none, ?_, ?_, fun i active => held i (live active), ?_, ?_, ⟨t, rooted, sound.enumerates, rooted'⟩, ?_⟩
  · exact fun i j first second => List.inj_on_of_nodup_map distinct (live first) (live second)
  · intro j
    rw [← sound'.enumerates.mem]
    change j ∈ (t.map σ).slots ↔ _
    rw [Tree.slots_map, List.mem_map]
    simp only [← sound.enumerates.mem]
    rfl
  · exact fun i active => linked_of_map none rooted.hangs rooted.weighs rooted'.hangs rooted'.weighs (live active)
  · rw [rooted'.root, rooted.root, Tree.top_map none]
  · refine ⟨_, _, entries_eq sound, entries_eq sound', ?_, ?_⟩
    · rw [listing_indices sound', Tree.slots_map, ← listing_indices sound, List.map_map]
      rfl
    · rw [listing_values sound', listing_values sound, Tree.slots_map, List.filterMap_map]
      exact List.filterMap_congr held

-- Room for one more element, made by renaming. A crowded set has no gaps afterwards.
structure Roomier (s middle : TreeSet α) : Prop where
  renamed : Renamed s middle
  closed : s.pool.Slack → middle.pool.Dense
  allocated : 0 < middle.pool.slots.size
  free : middle.pool.isFull = false

def Hung (value : α) (s after : TreeSet α) (h : Handle) : Prop :=
  ∃ middle parent side, Roomier s middle ∧ linkNew value parent side middle = .ok h.index after

def Joined (value : α) (s after : TreeSet α) : Handle × Bool → Prop
  | (h, true) => Hung value s after h
  | (_, false) => after = s

-- An insertion was broken off before or after the renaming, or while a new element was being hung into the renamed tree.
def BrokenOff (s after : TreeSet α) (fault : Fault) : Prop :=
  after = s ∨ ∃ middle, Roomier s middle ∧
    (after = middle ∨ ∃ value parent side, linkNew value parent side middle = .error fault after)

variable [Allocator ω] {rule : OrderRule (TreeSet α) ω α} {s : Session (TreeSet α) ω}

theorem makeRoom_roomier (sound : Sound t s.store) : Returns makeRoom s fun answer after =>
    match answer with
    | .ok _ => Roomier s.store after.store
    | .error _ => after.store = s.store := by
  refine ((makeRoom_returns sound).both (makeRoom_sizes sound)).returning ?_
  intro answer after told
  obtain ⟨⟨made, _⟩, roomed⟩ := told
  cases answer with
  | error error => exact made.1
  | ok renumbered =>
    obtain ⟨free, allocated, ρ, carries, _⟩ := made
    exact ⟨Carries.renamed carries sound, fun slack => carries.sound.dense (roomed.gapless slack), allocated, free⟩

omit [Allocator ω] in
theorem hung_ends {γ : Type} {start middle : TreeSet α} {gate : Gate ω} (roomier : Roomier start middle) (value : α)
    (parent : Nat) (side : Side) (answer : Handle → γ) :
    Ends (do return answer (← Handle.ofIndex (← Update.edit (linkNew value parent side))) : Update (TreeSet α) ω γ)
      ⟨middle, gate⟩ (fun placed after => ∃ h, placed = answer h ∧ Hung value start after.store h)
      fun fault after => BrokenOff start after.store fault := by
  rw [ends_bind, Update.ends_edit]
  cases ran : linkNew value parent side middle with
  | error fault after => exact Ends.of_error ran (.inr ⟨middle, roomier, .inr ⟨value, parent, side, ran⟩⟩)
  | ok i after =>
    have positive : 0 < i := by
      have numbered : Ends (linkNew value parent side) middle (fun i _ => 0 < i) fun _ _ => True := by
        rw [linkNew, ends_bind]
        refine Ends.of_ok (onPool_ok (Pool.push_run roomier.allocated roomier.free value default)) ?_
        exact Ends.bind (Upholds.trivial (attach middle.pool.slots.size parent side) _ trivial) fun _ _ _ => roomier.allocated
      exact numbered.returned ran
    refine Ends.of_ok ran ?_
    rw [Handle.ofIndex_run positive, ends_bind, ends_lift]
    exact ⟨_, rfl, middle, parent, side, roomier, ran⟩

theorem tryInsert_hangs (rule : OrderRule (TreeSet α) ω α) (sound : Sound t s.store) (value : α) :
    Ends (tryInsert rule value) s (fun answer after =>
        match answer with
        | .ok placed => Joined value s.store after.store placed
        | .error _ => after.store = s.store)
      fun fault after => BrokenOff s.store after.store fault := by
  rw [tryInsert]
  refine Update.ask_then (fun _ _ same => .inl same) fun place first _ same => ?_
  obtain ⟨store, gate⟩ := first
  cases same
  cases place with
  | found i =>
    refine (Handle.ofIndex_ends i (fun h => Except.ok (h, false)) _).imp ?_ fun _ _ same => .inl (by rw [same])
    intro answer after told
    obtain ⟨⟨h, rfl⟩, rfl⟩ := told
    rfl
  | vacant parent side =>
    refine Returns.bind (makeRoom_roomier (s := ⟨s.store, gate⟩) sound) ?_
    intro answer middle told
    cases answer with
    | error error => exact told
    | ok renumbered =>
      refine Update.ask_then (fun _ _ same => .inr ⟨_, told, .inl same⟩) fun place again _ same => ?_
      obtain ⟨store, gate⟩ := again
      cases same
      refine (hung_ends told value place.1 place.2 fun h => Except.ok (h, true)).returning ?_
      intro answer after told
      obtain ⟨h, rfl, hung⟩ := told
      exact hung

theorem insert_hangs (rule : OrderRule (TreeSet α) ω α) (sound : Sound t s.store) (value : α) :
    Ends (insert rule value) s (fun placed after => Joined value s.store after.store placed)
      fun fault after => BrokenOff s.store after.store fault := by
  rw [insert]
  refine Ends.bind (tryInsert_hangs rule sound value) ?_
  intro answer after told
  cases answer with
  | error refused => exact .inl told
  | ok placed => exact told

theorem insertWith_hangs (sound : Sound t s.store) (probe : Probe (TreeSet α) ω α) (make : Query (TreeSet α) ω α) :
    Ends (insertWith probe make) s (fun placed after =>
        match placed with
        | (h, true) => ∃ value, make.Gives value ∧ Hung value s.store after.store h
        | (_, false) => after.store = s.store)
      fun fault after => BrokenOff s.store after.store fault := by
  rw [insertWith]
  refine Update.ask_then (fun _ _ same => .inl same) fun place first _ same => ?_
  obtain ⟨store, gate⟩ := first
  cases same
  cases place with
  | found i =>
    refine (Handle.ofIndex_ends i (fun h => (h, false)) _).imp ?_ fun _ _ same => .inl (by rw [same])
    intro answer after told
    obtain ⟨⟨h, rfl⟩, rfl⟩ := told
    rfl
  | vacant parent side =>
    refine Returns.bind (makeRoom_roomier (s := ⟨s.store, gate⟩) sound) ?_
    intro answer middle told
    cases answer with
    | error error => exact .inl told
    | ok renumbered =>
      have stopped : ∀ fault (after : Session (TreeSet α) ω), after.store = middle.store →
          BrokenOff s.store after.store fault := fun _ _ same => .inr ⟨_, told, .inl same⟩
      refine Update.ask_then stopped fun place again _ same => ?_
      refine Update.ask_then (fun fault after same' => stopped fault after (same'.trans same)) fun value built made same' => ?_
      obtain ⟨store, gate⟩ := built
      cases same'.trans same
      refine (hung_ends told value place.1 place.2 fun h => (h, true)).returning ?_
      intro answer after told
      obtain ⟨h, rfl, hung⟩ := told
      exact ⟨value, ⟨_, _, _, (ran_of_ask made).1⟩, hung⟩

-- Whatever closes the gaps of a tree renames it.
structure RenamesOnly (rule : OrderRule (TreeSet α) ω α) (s : Session (TreeSet α) ω) : Prop where
  reorder : ∃ after, reorder s.store = .ok () after ∧ Renamed s.store after ∧ after.pool.Dense
  resize : ∀ capacity, ∃ answer after, resize capacity s = .ok answer after ∧ Renamed s.store after.store ∧
    (s.store.len ≤ capacity → capacity ≤ maxCapacity → capacity < s.store.pool.used → after.store.pool.Dense)
  reserve : ∀ additional, ∃ answer after, reserve additional s = .ok answer after ∧ Renamed s.store after.store ∧
    (s.store.capacity < s.store.pool.used + additional → s.store.len + additional ≤ s.store.capacity →
      after.store.pool.Dense)
  tryInsert : ∀ value, Ends (tryInsert rule value) s (fun answer after =>
      match answer with
      | .ok placed => Joined value s.store after.store placed
      | .error _ => after.store = s.store)
    fun fault after => BrokenOff s.store after.store fault
  insert : ∀ value, Ends (insert rule value) s (fun placed after => Joined value s.store after.store placed)
    fun fault after => BrokenOff s.store after.store fault
  insertWith : ∀ probe make, Ends (insertWith probe make) s (fun placed after =>
      match placed with
      | (h, true) => ∃ value, make.Gives value ∧ Hung value s.store after.store h
      | (_, false) => after.store = s.store)
    fun fault after => BrokenOff s.store after.store fault

theorem renamesOnly (rule : OrderRule (TreeSet α) ω α) (sound : Sound t s.store) : RenamesOnly rule s := by
  refine ⟨?_, ?_, ?_, tryInsert_hangs rule sound, insert_hangs rule sound, insertWith_hangs sound⟩
  · obtain ⟨_, after, ran, ρ, carries, _, next⟩ := (reorder_returns sound).exists
    have gapless : after.pool.Gapless := next.trans (congrArg (· + 1) carries.relabels.count.symm)
    exact ⟨after, ran, Carries.renamed carries sound, carries.sound.dense gapless⟩
  · intro capacity
    obtain ⟨answer, after, ran, ⟨⟨ρ, carries⟩, _⟩, closes⟩ :=
      ((resize_returns sound capacity).both (resize_closes sound capacity)).exists
    exact ⟨answer, after, ran, Carries.renamed carries sound, fun enough limit narrow =>
      carries.sound.dense (closes enough limit narrow)⟩
  · intro additional
    obtain ⟨answer, after, ran, ⟨⟨ρ, carries⟩, _⟩, closes⟩ :=
      ((reserve_returns sound additional).both (reserve_closes sound additional)).exists
    exact ⟨answer, after, ran, Carries.renamed carries sound, fun short sparse =>
      carries.sound.dense (closes short sparse)⟩

theorem RenamesOnly.hung {value : α} {h : Handle} {after : Session (TreeSet α) ω} (renames : RenamesOnly rule s)
    (ran : TreeSet.tryInsert rule value s = .ok (.ok (h, true)) after) : Hung value s.store after.store h :=
  (renames.tryInsert value).returned ran

-- In any history of any set, whatever its rule answers, as long as the tree stands. It does unless an insertion was misplaced.
theorem compaction_renames (rule : OrderRule (TreeSet α) ω α) (s : Session (TreeSet α) ω) :
    (TreeSet.Reached (act rule) (fun _ => True) s → WellGrown s.store → RenamesOnly rule s) ∧
    ∀ r : PureOrder α, rule.Follows (fun _ => True) r → Tended rule s → WellGrown s.store ∧ RenamesOnly rule s := by
  have renames : TreeSet.Reached (act rule) (fun _ => True) s → WellGrown s.store → RenamesOnly rule s := by
    intro reached grown
    obtain ⟨t, sound⟩ := reached.sound grown
    exact renamesOnly rule sound
  exact ⟨renames, fun r follows tended => ⟨tended.grown follows, renames tended.reached (tended.grown follows)⟩⟩

-- Five numbers in five slots, two of which are given up. The gaps are closed on request, or for the sake of a sixth number.
theorem compaction_renames_of_numbers :
    let r : PureOrder Nat := ⟨compare⟩
    let start : Session (TreeSet Nat) World := ⟨⟨⟨#[.sentinel], 6, 0⟩, ⟨0⟩⟩, false, World.fresh⟩
    let s := performed (act r.rule) [.common (.extend [6, 3, 9, 1, 4]), .common (.takeAll [6, 1])] start
    (TreeSet.Reached (act r.rule) (fun _ => True) s ∧ WellGrown s.store) ∧ Tended r.rule s ∧
      (∃ after, reorder s.store = .ok () after ∧ Renamed s.store after ∧ after.pool.Dense) ∧
      ∃ h after middle parent side, tryInsert r.rule 7 s = .ok (.ok (h, true)) after ∧ Renamed s.store middle ∧
        middle.pool.Dense ∧ linkNew 7 parent side middle = .ok h.index after.store := by
  intro r start s
  have tended : Tended r.rule s :=
    ⟨⟨5⟩, ⟨empty, false, World.fresh⟩, start, [.common (.extend [6, 3, 9, 1, 4]), .common (.takeAll [6, 1])], rfl, rfl,
      ⟨trivial, trivial, trivial⟩, rfl⟩
  have grown := tended.grown r.rule_follows
  have renames := (compaction_renames r.rule s).1 tended.reached grown
  have renames' := ((compaction_renames r.rule s).2 r r.rule_follows tended).2
  have slack : s.store.pool.Slack := ⟨by decide +kernel, by decide +kernel, by decide +kernel⟩
  have answer : (s.perform (tryInsert r.rule 7)).1 = .ok (.ok (⟨4, by decide⟩, true)) := by decide +kernel
  obtain ⟨h, after, ran⟩ : ∃ h after, tryInsert r.rule 7 s = .ok (.ok (h, true)) after :=
    ⟨_, _, returned_of_perform answer⟩
  obtain ⟨middle, parent, side, roomier, linked⟩ := renames.hung ran
  exact ⟨⟨tended.reached, grown⟩, tended, renames'.reorder, h, after, middle, parent, side, ran, roomier.renamed,
    roomier.closed slack, linked⟩

-- An insertion was misplaced, and its element hangs below itself. When the only other one is gone, the gap before it cannot
-- be closed.
theorem compaction_stuck :
    let r : PureOrder Nat := ⟨compare⟩
    let start : Session (TreeSet Nat) Script := ⟨⟨⟨#[.sentinel], 3, 0⟩, ⟨0⟩⟩, false, ⟨[.lt, .eq]⟩⟩
    let actions : List (TreeSetAction Nat Script) := [.common (.insert 1), .common (.insert 2), .common (.take 1),
      .insertWith (Script.probe 2) (pure 3), .common (.take 2)]
    let s := performed (act r.rule) actions start
    TreeSet.Reached (act r.rule) (fun _ => True) s ∧ s.store.len = 1 ∧
      (s.perform (Update.edit reorder)).1 = .error (.disagreement .movedChild 0 2) := by
  intro r start actions s
  exact ⟨⟨⟨2⟩, ⟨empty, false, ⟨[.lt, .eq]⟩⟩, start, actions, rfl, rfl, fun _ _ => trivial, rfl⟩, by decide +kernel,
    by decide +kernel⟩

end TreeSet
end Slotted
