import Slotted.Datum.World
import Slotted.Proofs.HashSet.Structure
import Slotted.Proofs.HashSet.Resilience
import Slotted.Proofs.Reached
import Slotted.Proofs.Inward
import Slotted.Proofs.TreeSet.Structure
import Slotted.Proofs.TreeSet.Resilience
namespace Slotted

open Store Session

variable {α ω : Type}

theorem growth_outer (container : Container) (call : Growth) (error : CapacityError) :
    ¬ (Fault.growth container call error).Internal := fun internal => internal

namespace HashSet

variable {rule : HashRule (HashSet α) ω α} {fault : Fault} {hash : UInt32} {accepts : α → Query (HashSet α) ω Bool}

theorem findHashed_never (own : ∀ stored, (accepts stored).Never fault) (outer : ¬ fault.Internal) (free : fault ≠ .busy) :
    (findHashed hash accepts).Never fault := findHashed_alike (Query.never_encloses outer free) accepts accepts own

variable [Allocator ω]

theorem tryInsert_refuses (rule : HashRule (HashSet α) ω α) (value : α) (s : Session (HashSet α) ω) :
    Ends (tryInsert rule value) s (fun answer after => ∀ refused, answer = .error refused →
      refused.value = value ∧ after.store = s.store) fun _ _ => True := by
  refine Ends.bind (Ends.faulting (Update.ask_keeps_store _) fun _ _ _ => trivial) ?_
  intro hash asked sameAsked
  refine Ends.bind (Ends.faulting (Update.ask_keeps_store _) fun _ _ _ => trivial) ?_
  intro found middle same
  cases found with
  | some i => exact Ends.bind (Upholds.trivial _ _ trivial) fun _ _ _ _ refused => by cases refused
  | none =>
    refine Ends.bind ((makeRoom_refuses middle).faulting fun _ _ _ => trivial) ?_
    intro answer roomy told
    cases answer with
    | error error =>
      intro _ refused
      cases refused
      exact ⟨rfl, (told error rfl).trans (same.trans sameAsked)⟩
    | ok _ =>
      refine Ends.bind (Upholds.trivial _ _ trivial) fun _ _ _ => ?_
      exact Ends.bind (Upholds.trivial _ _ trivial) fun _ _ _ _ refused => by cases refused

theorem insertWith_stops {make : Query (HashSet α) ω α} {error : CapacityError} (s : Session (HashSet α) ω)
    (own : ∀ stored, (accepts stored).Never (.growth .hashSet .insertWith error))
    (hashes : ∀ value, (rule.hash value).Never (.growth .hashSet .insertWith error))
    (builds : make.Never (.growth .hashSet .insertWith error)) :
    Ends (insertWith rule hash accepts make) s (fun _ _ => True) fun fault after =>
      fault = .growth .hashSet .insertWith error → ∃ middle,
        Update.ask (findHashed hash accepts) s = .ok none middle ∧ makeRoom middle = .ok (.error error) after := by
  have outer := growth_outer .hashSet .insertWith error
  refine Ends.bind ((findHashed_never own outer (by simp)).avoids s) ?_
  intro found middle asked
  cases found with
  | some i => exact Ends.bind ((Inward.lift (Handle.ofIndex_looksInside i)).avoids outer middle) fun _ _ _ => trivial
  | none =>
    refine Ends.bind ((makeRoom_refuses middle).known.faulting fun _ _ internal same => absurd (same ▸ internal) outer) ?_
    intro answer roomy told
    cases answer with
    | error refused =>
      intro same
      cases same
      exact ⟨middle, asked, told.1⟩
    | ok _ =>
      refine Ends.bind (builds.avoids roomy) fun value built _ => ?_
      refine Ends.bind (((hashes value).guarded (by simp)).avoids built) fun own hashed _ => ?_
      split
      · refine Ends.bind ((Inward.edit (linkNew_inward hash value)).avoids outer hashed) fun i _ _ => ?_
        exact Ends.bind ((Inward.lift (Handle.ofIndex_looksInside i)).avoids outer _) fun _ _ _ => trivial
      · exact fun same => by cases same

theorem insertWith_refuses {make : Query (HashSet α) ω α} {error : CapacityError} {s after : Session (HashSet α) ω}
    (own : ∀ stored, (accepts stored).Never (.growth .hashSet .insertWith error))
    (hashes : ∀ value, (rule.hash value).Never (.growth .hashSet .insertWith error))
    (builds : make.Never (.growth .hashSet .insertWith error))
    (stopped : insertWith rule hash accepts make s = .error (.growth .hashSet .insertWith error) after) :
    after.store = s.store ∧ ∀ other, insertWith rule hash accepts other s = .error (.growth .hashSet .insertWith error) after := by
  obtain ⟨middle, asked, refused⟩ := (insertWith_stops s own hashes builds).faulted stopped rfl
  have same := (Update.ask_keeps_store (findHashed hash accepts)).returned asked
  refine ⟨((makeRoom_refuses middle).returned refused error rfl).trans same, fun other => ?_⟩
  rw [insertWith, bind_ok asked]
  dsimp only
  rw [bind_ok refused]
  rfl

omit [Allocator ω] in
theorem compact_chains {s after : HashSet α} (booked : Booked s) (ran : compact s = .ok () after) : WellChained after := by
  obtain ⟨order, ready⟩ := ready_of_booked booked
  obtain ⟨ρ, carries, _⟩ := (compact_mends ready).returned ran
  exact wellChained carries.sound

end HashSet

namespace TreeSet

variable {rule : OrderRule (TreeSet α) ω α} {fault : Fault} {probe : Probe (TreeSet α) ω α}

theorem probe_never (own : ∀ stored, (probe.order stored).Never fault) :
    probe.Alike (fun query _ => query.Never fault) probe := ⟨own, rfl⟩

theorem locate_never (own : ∀ stored, (probe.order stored).Never fault) (outer : ¬ fault.Internal) (free : fault ≠ .busy) :
    (locate probe).Never fault := locate_alike (Query.never_encloses outer free) (probe_never own)

theorem placeAgain_never (own : ∀ stored, (probe.order stored).Never fault) (outer : ¬ fault.Internal) (free : fault ≠ .busy)
    (renumbered : Bool) (parent : Nat) (side : Side) : (placeAgain probe renumbered parent side).Never fault :=
  placeAgain_alike (Query.never_encloses outer free) (probe_never own) renumbered parent side

variable [Allocator ω]

theorem tryInsert_refuses (rule : OrderRule (TreeSet α) ω α) (value : α) (s : Session (TreeSet α) ω) :
    Ends (tryInsert rule value) s (fun answer after => ∀ refused, answer = .error refused →
      refused.value = value ∧ after.store = s.store) fun _ _ => True := by
  refine Ends.bind (Ends.faulting (Update.ask_keeps_store _) fun _ _ _ => trivial) ?_
  intro place middle same
  cases place with
  | found i => exact Ends.bind (Upholds.trivial _ _ trivial) fun _ _ _ _ refused => by cases refused
  | vacant parent side =>
    refine Ends.bind ((makeRoom_refuses middle).faulting fun _ _ _ => trivial) ?_
    intro answer roomy told
    cases answer with
    | error error =>
      intro _ refused
      cases refused
      exact ⟨rfl, (told error rfl).trans same⟩
    | ok renumbered =>
      refine Ends.bind (Upholds.trivial _ _ trivial) fun _ _ _ => Ends.bind (Upholds.trivial _ _ trivial) fun _ _ _ => ?_
      exact Ends.bind (Upholds.trivial _ _ trivial) fun _ _ _ _ refused => by cases refused

theorem insertWith_stops {make : Query (TreeSet α) ω α} {error : CapacityError} (s : Session (TreeSet α) ω)
    (own : ∀ stored, (probe.order stored).Never (.growth .treeSet .insertWith error))
    (builds : make.Never (.growth .treeSet .insertWith error)) :
    Ends (insertWith probe make) s (fun _ _ => True) fun fault after =>
      fault = .growth .treeSet .insertWith error → ∃ parent side middle,
        Update.ask (locate probe) s = .ok (.vacant parent side) middle ∧ makeRoom middle = .ok (.error error) after := by
  have outer := growth_outer .treeSet .insertWith error
  refine Ends.bind ((locate_never own outer (by simp)).avoids s) ?_
  intro place middle asked
  cases place with
  | found i => exact Ends.bind ((Inward.lift (Handle.ofIndex_looksInside i)).avoids outer middle) fun _ _ _ => trivial
  | vacant parent side =>
    refine Ends.bind ((makeRoom_refuses middle).known.faulting fun _ _ internal same => absurd (same ▸ internal) outer) ?_
    intro answer roomy told
    cases answer with
    | error refused =>
      intro same
      cases same
      exact ⟨parent, side, middle, asked, told.1⟩
    | ok renumbered =>
      refine Ends.bind ((placeAgain_never own outer (by simp) renumbered parent side).avoids roomy) fun place placed _ => ?_
      refine Ends.bind (builds.avoids placed) fun value built _ => ?_
      refine Ends.bind ((Inward.edit (linkNew_inward value place.1 place.2)).avoids outer built) fun i _ _ => ?_
      exact Ends.bind ((Inward.lift (Handle.ofIndex_looksInside i)).avoids outer _) fun _ _ _ => trivial

theorem insertWith_refuses {make : Query (TreeSet α) ω α} {error : CapacityError} {s after : Session (TreeSet α) ω}
    (own : ∀ stored, (probe.order stored).Never (.growth .treeSet .insertWith error))
    (builds : make.Never (.growth .treeSet .insertWith error))
    (stopped : insertWith probe make s = .error (.growth .treeSet .insertWith error) after) :
    after.store = s.store ∧ ∀ other, insertWith probe other s = .error (.growth .treeSet .insertWith error) after := by
  obtain ⟨parent, side, middle, asked, refused⟩ := (insertWith_stops s own builds).faulted stopped rfl
  have same := (Update.ask_keeps_store (locate probe)).returned asked
  refine ⟨((makeRoom_refuses middle).returned refused error rfl).trans same, fun other => ?_⟩
  rw [insertWith, bind_ok asked]
  dsimp only
  rw [bind_ok refused]
  rfl

omit [Allocator ω] in
-- A torn tree is not mended by moving its nodes, but a whole one stays whole.
theorem compact_grows {s after : TreeSet α} (booked : Booked s) (ran : compact s = .ok () after) (grown : WellGrown s) :
    WellGrown after := by
  obtain ⟨t, rooted, all⟩ := grown
  obtain ⟨tidy, live, enumerates, counted⟩ := booked.pool.within
  have sound : Sound t s := ⟨tidy, rooted, all, counted.trans (enumerates.perm all).length_eq⟩
  obtain ⟨ρ, carries, _⟩ := (compact_returns sound).returned ran
  exact wellGrown carries.sound

end TreeSet
-- What refusals of memory and of sizes come to in this state. The callers' own code is not to be taken for the request for
-- room, and a search that it steers may be anything.
structure RefusesWhole {ι μ γ : Type} [Inhabited μ] [Index ι μ] [Allocator ω] (container : Container)
    (tryInsert : α → Update (Store ι α μ) ω (Except (Rejected α) (Handle × Bool)))
    (insertWith : γ → Query (Store ι α μ) ω α → Update (Store ι α μ) ω (Handle × Bool)) (silent : γ → Fault → Prop)
    (mends : Store ι α μ → Store ι α μ → Prop) (s : Session (Store ι α μ) ω) : Prop where
  inserts : ∀ value refused after, tryInsert value s = .ok (.error refused) after →
    refused.value = value ∧ after.store = s.store
  builds : ∀ sought make error after, silent sought (.growth container .insertWith error) →
    make.Never (.growth container .insertWith error) →
    insertWith sought make s = .error (.growth container .insertWith error) after →
    after.store = s.store ∧ ∀ other, insertWith sought other s = .error (.growth container .insertWith error) after
  reserves : ∀ additional error after, Store.reserve additional s = .ok (.error error) after → after.store = s.store
  resizes : ∀ capacity error after, Store.resize capacity s = .ok (.error error) after → after.store = s.store ∨
    error = .allocFailed (slotsFor capacity) ∧ capacity < s.store.pool.used ∧ Store.Packs s.store after.store ∧
      mends s.store after.store

variable [Allocator ω]

-- A hash set is searched under a hash by what accepts an element.
abbrev HashSet.RefusesWhole (rule : HashRule (HashSet α) ω α) (s : Session (HashSet α) ω) : Prop :=
  Slotted.RefusesWhole .hashSet (HashSet.tryInsert rule)
    (fun (sought : UInt32 × (α → Query (HashSet α) ω Bool)) => HashSet.insertWith rule sought.1 sought.2)
    (fun sought fault => (∀ stored, (sought.2 stored).Never fault) ∧ ∀ value, (rule.hash value).Never fault)
    (fun _ after => HashSet.WellChained after) s

abbrev TreeSet.RefusesWhole (rule : OrderRule (TreeSet α) ω α) (s : Session (TreeSet α) ω) : Prop :=
  Slotted.RefusesWhole .treeSet (TreeSet.tryInsert rule) TreeSet.insertWith
    (fun probe fault => ∀ stored, (probe.order stored).Never fault)
    (fun before after => TreeSet.WellGrown before → TreeSet.WellGrown after) s

theorem HashSet.refusesWhole (rule : HashRule (HashSet α) ω α) {s : Session (HashSet α) ω} (booked : Booked s.store) :
    HashSet.RefusesWhole rule s where
  inserts value refused after ran := (HashSet.tryInsert_refuses rule value s).returned ran refused rfl
  builds sought make error after silent never ran := HashSet.insertWith_refuses silent.1 silent.2 never ran
  reserves additional error after ran := (reserve_refuses booked additional).returned ran error rfl
  resizes capacity error after ran := by
    refine ((resize_refuses booked capacity).returned ran error rfl).imp id ?_
    intro told
    obtain ⟨failed, below, compacted⟩ := told
    exact ⟨failed, below, (compact_packs booked).returned compacted, HashSet.compact_chains booked compacted⟩

theorem TreeSet.refusesWhole (rule : OrderRule (TreeSet α) ω α) {s : Session (TreeSet α) ω} (booked : Booked s.store) :
    TreeSet.RefusesWhole rule s where
  inserts value refused after ran := (TreeSet.tryInsert_refuses rule value s).returned ran refused rfl
  builds probe make error after silent never ran := TreeSet.insertWith_refuses silent never ran
  reserves additional error after ran := (reserve_refuses booked additional).returned ran error rfl
  resizes capacity error after ran := by
    refine ((resize_refuses booked capacity).returned ran error rfl).imp id ?_
    intro told
    obtain ⟨failed, below, compacted⟩ := told
    exact ⟨failed, below, (compact_packs booked).returned compacted, TreeSet.compact_grows booked compacted⟩

-- Whatever rule a container is under and whatever was done to it, the callers' worst among it. Its tree can only be torn by
-- code of the callers that answers otherwise when it is asked again.
theorem refusals_change_nothing :
    (∀ (rule : HashRule (HashSet α) ω α) (s : Session (HashSet α) ω), HashSet.Reached (HashSet.act rule) (fun _ => True) s →
      HashSet.RefusesWhole rule s) ∧
    (∀ (rule : OrderRule (TreeSet α) ω α) (s : Session (TreeSet α) ω), TreeSet.Reached (TreeSet.act rule) (fun _ => True) s →
      TreeSet.RefusesWhole rule s) ∧
    ∀ (rule : OrderRule (TreeSet α) ω α) (r : PureOrder α) (s : Session (TreeSet α) ω), rule.Follows (fun _ => True) r →
      TreeSet.Reached (TreeSet.act rule) (·.Fair fun _ => True) s → TreeSet.WellGrown s.store := by
  refine ⟨fun rule s reached => HashSet.refusesWhole rule reached.booked,
    fun rule s reached => TreeSet.refusesWhole rule reached.booked, ?_⟩
  intro rule r s follows reached
  have settled : Settled unpromised s := by
    refine reached.keeps (fun _ sound lowered => ⟨⟨_, sound, trivial⟩, lowered⟩) ?_
    intro action fair s settled
    exact perform_keeps ((TreeSet.act_settles follows action fair settled).faulting fun _ _ told => told.2)
  obtain ⟨t, proper⟩ := settled.proper
  exact TreeSet.wellGrown proper.sound

-- A world that grants so many requests and no more.
structure Budget where
  left : Nat

instance : Allocator Budget where
  grant _ budget := if budget.left = 0 then (false, budget) else (true, ⟨budget.left - 1⟩)

-- The budget is spent on the first four elements, one of which is removed. A fifth finds no room, and giving up the gap
-- is not paid for either, but the gap is closed by then.
theorem refusals_change_nothing_of_numbers :
    let r : PureHash Nat := ⟨fun n => UInt32.ofNat n, fun a b => a == b⟩
    let order : PureOrder Nat := ⟨compare⟩
    let chained : Session (HashSet Nat) Budget := ⟨⟨⟨#[.sentinel], 5, 0⟩, ⟨#[0, 0, 0], 60⟩⟩, false, ⟨0⟩⟩
    let sorted : Session (TreeSet Nat) Budget := ⟨⟨⟨#[.sentinel], 5, 0⟩, ⟨0⟩⟩, false, ⟨0⟩⟩
    let s := performed (HashSet.act r.rule) [.common (.extend [3, 6, 9, 12]), .common (.remove ⟨1, Nat.one_pos⟩)] chained
    let m := performed (TreeSet.act order.rule) [.common (.extend [3, 6, 9, 12])] sorted
    let probe : Probe (TreeSet Nat) Budget Nat := order.rule.probe 5
    (∃ refused after, HashSet.tryInsert r.rule 15 s = .ok (.error refused) after ∧ refused.value = 15 ∧
        after.store = s.store) ∧
      (∃ error after, Store.resize 3 s = .ok (.error error) after ∧ error = .allocFailed 4 ∧ Store.Packs s.store after.store ∧
        HashSet.WellChained after.store) ∧
      ∃ error after, TreeSet.insertWith probe (pure 5) m = .error (.growth .treeSet .insertWith error) after ∧
        after.store = m.store ∧ TreeSet.WellGrown m.store := by
  intro r order chained sorted s m probe
  have chains : HashSet.Reached (HashSet.act r.rule) (fun _ => True) s :=
    ⟨⟨4, 60⟩, ⟨HashSet.empty 0, false, ⟨2⟩⟩, chained, _, rfl, by with_unfolding_all rfl, fun _ _ => trivial, rfl⟩
  have grows : TreeSet.Reached (TreeSet.act order.rule) (fun _ => True) m :=
    ⟨⟨4⟩, ⟨TreeSet.empty, false, ⟨1⟩⟩, sorted, _, rfl, rfl, fun _ _ => trivial, rfl⟩
  have fairly : TreeSet.Reached (TreeSet.act order.rule) (·.Fair fun _ => True) m := by
    refine ⟨⟨4⟩, ⟨TreeSet.empty, false, ⟨1⟩⟩, sorted, _, rfl, rfl, fun action member => ?_, rfl⟩
    cases List.mem_singleton.mp member
    trivial
  have told := refusals_change_nothing (α := Nat) (ω := Budget)
  have hashes := told.1 r.rule s chains
  have sorts := told.2.1 order.rule m grows
  refine ⟨?_, ?_, ?_⟩
  · have refuses : ((HashSet.tryInsert r.rule 15).run' s).map Except.isOk = some false := by decide +kernel
    obtain ⟨told, seen, failed⟩ := Option.map_eq_some_iff.mp refuses
    obtain ⟨after, ran⟩ := ran_of_run' seen
    cases told with
    | ok => cases failed
    | error refused => exact ⟨refused, after, ran, hashes.inserts 15 refused after ran⟩
  · have refuses : ((Store.resize 3).run' s).map Except.isOk = some false := by decide +kernel
    have packed : (s.perform (Store.resize 3)).2.store.pool.slots.size ≠ s.store.pool.slots.size := by decide +kernel
    obtain ⟨told, seen, failed⟩ := Option.map_eq_some_iff.mp refuses
    obtain ⟨after, ran⟩ := ran_of_run' seen
    cases told with
    | ok => cases failed
    | error error =>
      obtain same | ⟨failed, _, packs, chained⟩ := hashes.resizes 3 error after ran
      · simp [perform, ran, same] at packed
      · exact ⟨error, after, ran, failed, packs, chained⟩
  · have stops : (m.perform (TreeSet.insertWith probe (pure 5))).1 = .error (.growth .treeSet .insertWith (.allocFailed 10)) := by
      decide +kernel
    cases ran : TreeSet.insertWith probe (pure 5) m with
    | ok inserted after => simp [perform, ran] at stops
    | error fault after =>
      have same : fault = .growth .treeSet .insertWith (.allocFailed 10) := by simpa [perform, ran] using stops
      subst same
      have whole := sorts.builds probe (pure 5) _ after (fun _ => Query.never_pure _) (Query.never_pure _) ran
      exact ⟨_, after, rfl, whole.1, told.2.2 order.rule order m order.rule_follows fairly⟩

end Slotted
