import Slotted.Proofs.Store.Room
import Slotted.Proofs.HashSet.Structure
import Slotted.Proofs.TreeSet.Structure
import Slotted.Proofs.Action.Meaning
namespace Slotted

open Store Pool LawfulIndex

variable {α ω : Type}

namespace Access

variable {ι μ : Type} (access : Access ι α μ ω) {s : Session (Store ι α μ) ω}

-- The values go in one after another, each of them is new, and the capacity stays as it is.
def Admits : List α → Session (Store ι α μ) ω → Prop
  | [], _ => True
  | value :: values, s => ∃ h after, access.insert value s = .ok (h, true) after ∧
      after.store.capacity = s.store.capacity ∧ Admits values after

variable [Inhabited μ] [Index ι μ] [lawful : LawfulIndex ι μ]

-- A value that was missing has come in.
structure Entered (value : α) (s after : Session (Store ι α μ) ω) : Prop where
  sizes : ∃ (middle : Pool α μ) (renumbered : Bool), Roomed s.store.pool middle (.ok renumbered) ∧
    Longer middle after.store.pool
  contents : after.store.pool.contents = value ::ₘ s.store.pool.contents
  sound : ∃ t, Sound t after.store
  lowered : after.gate.busy = false

-- What becomes of a value that was missing: it comes in, or there is no room for it.
def Enters [Allocator ω] (value : α) (s : Session (Store ι α μ) ω) :
    Except (Rejected α) (Handle × Bool) → Session (Store ι α μ) ω → Prop
  | .ok (h, fresh), after => fresh = true ∧ Entered value s after ∧ after.store.get? h = some value
  | .error refused, after => (∃ gate middle, makeRoom (⟨s.store, gate⟩ : Session _ ω) = .ok (.error refused.error) middle) ∧
      refused.value = value ∧ after.store = s.store

-- What an index and a rule must bring for that. The rule need not be lawful.
def Admitting (same : α → α → Prop) : Prop :=
  ∀ t (s : Session (Store ι α μ) ω) value, Sound t s.store → s.gate.busy = false → Missing same value s.store →
    Ends (access.insert value) s (fun placed after => placed.2 = true ∧ Entered value s after) fun _ _ =>
      ∃ (q : Pool α μ) (error : CapacityError), Roomed s.store.pool q (.error error)

variable {access} {same : α → α → Prop}

theorem missing_after {value : α} {values : List α} {after : Session (Store ι α μ) ω} (entered : Entered value s after)
    (apart : (value :: values).Pairwise fun a b => ¬ same a b)
    (missing : ∀ wanted ∈ value :: values, Missing same wanted s.store) :
    ∀ wanted ∈ values, Missing same wanted after.store := by
  intro wanted member stored held
  rw [entered.contents, Multiset.mem_cons] at held
  cases held with
  | inl new =>
    rw [new]
    exact List.rel_of_pairwise_cons apart member
  | inr old => exact missing wanted (List.mem_cons_of_mem _ member) stored old

omit [Inhabited μ] [Index ι μ] in
theorem admits_cons {value : α} {values : List α} {h : Handle} {after : Session (Store ι α μ) ω}
    (ran : access.insert value s = .ok (h, true) after) :
    access.Admits (value :: values) s ↔ after.store.capacity = s.store.capacity ∧ access.Admits values after := by
  constructor
  · intro admits
    obtain ⟨_, _, ran', same, more⟩ := admits
    rw [ran] at ran'
    cases ran'
    exact ⟨same, more⟩
  · intro admits
    exact ⟨h, after, ran, admits⟩

omit [Inhabited μ] [Index ι μ] in
theorem not_admits {value : α} {values : List α} {fault : Fault} {after : Session (Store ι α μ) ω}
    (ran : access.insert value s = .error fault after) : ¬ access.Admits (value :: values) s := by
  intro admits
  obtain ⟨_, _, ran', _⟩ := admits
  rw [ran] at ran'
  cases ran'

-- The induction is on the values: each takes up one place, and the places are counted rightly after it.
theorem admits_iff (admitting : access.Admitting same) (values : List α) {t : lawful.Shape} (sound : Sound t s.store)
    (lowered : s.gate.busy = false) (apart : values.Pairwise fun a b => ¬ same a b)
    (missing : ∀ value ∈ values, Missing same value s.store) (fits : s.store.len + values.length ≤ s.store.capacity) :
    access.Admits values s ↔ s.store.pool.Spare values.length := by
  induction values generalizing s t with
  | nil =>
    have reserved := sound.tidy.reserved
    have size := sound.tidy.fits
    unfold Store.len Store.capacity at fits
    refine iff_of_true trivial ?_
    unfold Spare Pool.next
    simp only [List.length_nil] at fits ⊢
    omega
  | cons value values ih =>
    have fits : s.store.pool.count + (values.length + 1) ≤ s.store.pool.capacity - 1 := fits
    have ends := admitting t s value sound lowered (missing value List.mem_cons_self)
    rw [List.length_cons]
    cases ran : access.insert value s with
    | error fault after =>
      obtain ⟨_, _, roomed⟩ := ends.faulted ran
      cases roomed with
      | refused full tight => exact iff_of_false (not_admits ran) (not_spare full tight fits)
    | ok placed after =>
      obtain ⟨h, fresh⟩ := placed
      obtain ⟨rfl, entered⟩ := ends.returned ran
      obtain ⟨middle, _, roomed, longer⟩ := entered.sizes
      obtain ⟨t', sound'⟩ := entered.sound
      have count := longer.count
      have capacity := longer.capacity
      have rest := ih sound' entered.lowered (List.pairwise_cons.mp apart).2 (missing_after entered apart missing)
      rw [admits_cons ran]
      cases roomed with
      | free room =>
        have fits' : after.store.len + values.length ≤ after.store.capacity := by
          unfold Store.len Store.capacity
          omega
        have kept : after.store.capacity = s.store.capacity := congrArg (· - 1) capacity
        rw [rest fits', spare_of_free room longer]
        exact and_iff_right kept
      | closed slack capacity' next count' =>
        have fits' : after.store.len + values.length ≤ after.store.capacity := by
          unfold Store.len Store.capacity
          omega
        have kept : after.store.capacity = s.store.capacity := congrArg (· - 1) (capacity.trans capacity')
        have spare := spare_of_slack slack capacity' next longer fits
        rw [rest fits']
        exact iff_of_true ⟨kept, spare.1⟩ spare.2
      | grown full tight more =>
        refine iff_of_false ?_ (not_spare full tight fits)
        intro admits
        have kept := admits.1
        unfold Store.capacity at kept
        omega

end Access

variable [Allocator ω]

namespace HashSet

open Query

variable {r : PureHash α} {order : List Nat} {s : Session (HashSet α) ω}

theorem tryInsert_enters {value : α} (sound : Sound order s.store) (lowered : s.gate.busy = false)
    (missing : Missing (r.equal · · = true) value s.store) :
    Returns (tryInsert r.rule value) s (Access.Enters value s) := by
  obtain ⟨found, finds, answers⟩ := findHashed_answers (ω := ω) sound (r.hash value) (r.equal · value)
  rw [tryInsert]
  refine (hashOf_answers value).bind_ends (fun _ _ barred => Session.not_barred lowered barred) ?_
  refine answers.bind_ends (fun _ _ barred => Session.not_barred lowered barred) ?_
  cases found with
  | some i =>
    obtain ⟨stored, held, _, alike⟩ := finds
    exact absurd alike (missing stored (Pool.mem_contents.mpr ⟨i, held⟩))
  | none =>
    refine ((makeRoom_returns sound).both (makeRoom_sizes sound).known).bind ?_
    intro answer middle told
    obtain ⟨⟨made, gate⟩, roomy, roomed⟩ := told
    cases answer with
    | error error => exact ⟨⟨_, _, roomy⟩, rfl, made.1⟩
    | ok renumbered =>
      obtain ⟨room, allocated, ρ, carries, _⟩ := made
      have longer : Ends (Update.edit (linkNew (r.hash value) value)) middle
          (fun _ after => Longer middle.store.pool after.store.pool) fun _ _ => True := by
        rw [Update.ends_edit]
        exact added_longer (fun i => linkHead_relinks i (r.hash value)) allocated room value default
      refine ((linkNew_inserts finds carries allocated room _ value).both longer).bind ?_
      intro i after told
      obtain ⟨⟨positive, inserts, gate'⟩, longer⟩ := told
      obtain ⟨_, _, _, order', adds⟩ := inserts
      rw [Handle.ofIndex_run positive, ends_bind, ends_lift]
      refine ⟨rfl, ⟨⟨middle.store.pool, renumbered, roomed, longer⟩, adds.contents_eq sound, ⟨order', adds.sound⟩, ?_⟩, adds.here⟩
      rw [gate', gate, lowered]

theorem access_admitting (r : PureHash α) : (access (ω := ω) r.rule).Admitting (r.equal · · = true) := by
  intro order s value sound lowered missing
  change Ends (insert r.rule value) s _ _
  rw [insert]
  refine (tryInsert_enters sound lowered missing).bind ?_
  intro answer after told
  cases answer with
  | ok placed => exact ⟨told.1, told.2.1⟩
  | error refused =>
    obtain ⟨⟨gate, middle, roomy⟩, _⟩ := told
    exact ⟨_, _, (makeRoom_sizes (s := ⟨s.store, gate⟩) sound).returned roomy⟩

theorem admits_reserved {config : HashConfig} {origin start after : Session (HashSet α) ω}
    (configured : configure config origin = .ok (.ok ()) start) {earlier : List (HashSetAction α ω)} (values : List α)
    (lowered : (Session.performed (act r.rule) earlier start).gate.busy = false)
    (reserved : Store.reserve values.length (Session.performed (act r.rule) earlier start) = .ok (.ok ()) after)
    (apart : values.Pairwise fun a b => ¬ r.equal a b = true)
    (missing : ∀ value ∈ values, Missing (r.equal · · = true) value after.store) :
    (access r.rule).Admits values after ↔ after.store.pool.Spare values.length := by
  have empty := ((configure_returns config origin).returned configured rfl).1
  obtain ⟨order, sound⟩ := performed_sound (r := r) empty earlier
  obtain ⟨⟨ρ, carries⟩, gate⟩ := (reserve_returns sound values.length).returned reserved
  have fits := (reserve_fits sound values.length).returned reserved rfl
  exact Access.admits_iff (access_admitting r) values carries.sound (gate.trans lowered) apart missing fits

end HashSet

namespace TreeSet

open Query

variable {r : PureOrder α} {t : Tree} {s : Session (TreeSet α) ω}

theorem tryInsert_enters {value : α} (sound : Sound t s.store) (lowered : s.gate.busy = false)
    (missing : Missing (r.compare · · = .eq) value s.store) :
    Returns (tryInsert r.rule value) s (Access.Enters value s) := by
  rw [tryInsert]
  refine locate_then sound (r.compare · value) 0 (fun _ _ barred => Session.not_barred lowered barred) ?_ ?_
  · intro i positive found
    obtain ⟨stored, held, alike⟩ := found
    exact absurd alike (missing stored (Pool.mem_contents.mpr ⟨i, held⟩))
  · intro path shape steered ends _
    refine ((makeRoom_returns sound).both (makeRoom_sizes sound).known).bind ?_
    intro answer middle told
    obtain ⟨⟨made, gate⟩, roomy, roomed⟩ := told
    cases answer with
    | error error => exact ⟨⟨_, _, roomy⟩, rfl, made.1⟩
    | ok renumbered =>
      obtain ⟨room, allocated, ρ, carries, kept⟩ := made
      obtain ⟨path', shape', steered', answers⟩ := placeAgain_answers (ω := ω) ends shape steered carries kept
      refine answers.bind_ends (fun _ _ barred => Session.not_barred (gate.trans lowered) barred) ?_
      have longer : Ends (Update.edit (linkNew value (above path') (turn path'))) middle
          (fun _ after => Longer middle.store.pool after.store.pool) fun _ _ => True := by
        rw [Update.ends_edit]
        exact added_longer (fun i => attach_relinks i _ _) allocated room value default
      have inserts := linkNew_inserts ⟨path, shape, steered⟩ carries allocated room shape' steered' middle.gate value
      refine (inserts.both longer).bind ?_
      intro i after told
      obtain ⟨⟨positive, inserts, gate'⟩, longer⟩ := told
      obtain ⟨_, _, t', lands⟩ := inserts
      rw [Handle.ofIndex_run positive, ends_bind, ends_lift]
      have adds := lands.adds
      refine ⟨rfl, ⟨⟨middle.store.pool, renumbered, roomed, longer⟩, adds.contents_eq sound, ⟨t', adds.sound⟩, ?_⟩, adds.here⟩
      rw [gate', gate, lowered]

theorem access_admitting (r : PureOrder α) : (access (ω := ω) r.rule).Admitting (r.compare · · = .eq) := by
  intro t s value sound lowered missing
  change Ends (insert r.rule value) s _ _
  rw [insert]
  refine (tryInsert_enters sound lowered missing).bind ?_
  intro answer after told
  cases answer with
  | ok placed => exact ⟨told.1, told.2.1⟩
  | error refused =>
    obtain ⟨⟨gate, middle, roomy⟩, _⟩ := told
    exact ⟨_, _, (makeRoom_sizes (s := ⟨s.store, gate⟩) sound).returned roomy⟩

theorem performed_sound {start : Session (TreeSet α) ω} (sound : Sound t start.store) (actions : List (TreeSetAction α ω))
    (steadfast : ∀ action ∈ actions, action.Steadfast) :
    ∃ t', Sound t' (Session.performed (act r.rule) actions start).store := by
  have kept : ∀ action ∈ actions, ∀ s : Session (TreeSet α) ω, (∃ t, Sound t s.store) →
      ∃ t, Sound t (s.perform (act r.rule action)).2.store := by
    intro action member s before
    obtain ⟨t, sound⟩ := before
    exact Session.perform_tells (fun _ after => ∃ t', Sound t' after.store)
      (act_sound (r := r) action (steadfast action member) sound)
  exact Session.performed_keeps ⟨t, sound⟩ actions kept

theorem admits_reserved {config : TreeConfig} {origin start after : Session (TreeSet α) ω}
    (configured : configure config origin = .ok (.ok ()) start) {earlier : List (TreeSetAction α ω)} (values : List α)
    (steadfast : ∀ action ∈ earlier, action.Steadfast)
    (lowered : (Session.performed (act r.rule) earlier start).gate.busy = false)
    (reserved : Store.reserve values.length (Session.performed (act r.rule) earlier start) = .ok (.ok ()) after)
    (apart : values.Pairwise fun a b => ¬ r.compare a b = .eq)
    (missing : ∀ value ∈ values, Missing (r.compare · · = .eq) value after.store) :
    (access r.rule).Admits values after ↔ after.store.pool.Spare values.length := by
  have empty := ((configure_returns config origin).returned configured rfl).1
  obtain ⟨t, sound⟩ := performed_sound (r := r) empty earlier steadfast
  obtain ⟨⟨ρ, carries⟩, gate⟩ := (reserve_returns sound values.length).returned reserved
  have fits := (reserve_fits sound values.length).returned reserved rfl
  exact Access.admits_iff (access_admitting r) values carries.sound (gate.trans lowered) apart missing fits

end TreeSet

-- Room for so many more elements was granted after some history. As many values that are missing and differ from each
-- other then go in without growth exactly if there are places enough or the pool is sparse when they run out.
theorem reserve_admits :
    (∀ (r : PureHash α) (config : HashConfig) (origin start after : Session (HashSet α) ω)
      (earlier : List (HashSetAction α ω)) (values : List α),
      HashSet.configure config origin = .ok (.ok ()) start →
      (Session.performed (HashSet.act r.rule) earlier start).gate.busy = false →
      Store.reserve values.length (Session.performed (HashSet.act r.rule) earlier start) = .ok (.ok ()) after →
      values.Pairwise (fun a b => ¬ r.equal a b = true) →
      (∀ value ∈ values, Missing (r.equal · · = true) value after.store) →
      ((HashSet.access r.rule).Admits values after ↔ after.store.pool.Spare values.length)) ∧
    ∀ (r : PureOrder α) (config : TreeConfig) (origin start after : Session (TreeSet α) ω)
      (earlier : List (TreeSetAction α ω)) (values : List α),
      TreeSet.configure config origin = .ok (.ok ()) start → (∀ action ∈ earlier, action.Steadfast) →
      (Session.performed (TreeSet.act r.rule) earlier start).gate.busy = false →
      Store.reserve values.length (Session.performed (TreeSet.act r.rule) earlier start) = .ok (.ok ()) after →
      values.Pairwise (fun a b => ¬ r.compare a b = .eq) →
      (∀ value ∈ values, Missing (r.compare · · = .eq) value after.store) →
      ((TreeSet.access r.rule).Admits values after ↔ after.store.pool.Spare values.length) :=
  ⟨fun _ _ _ _ _ _ _ configured lowered reserved apart missing =>
    HashSet.admits_reserved configured _ lowered reserved apart missing,
    fun _ _ _ _ _ _ _ configured steadfast lowered reserved apart missing =>
      TreeSet.admits_reserved configured _ steadfast lowered reserved apart missing⟩

theorem granted_of_test {ι μ : Type} [Inhabited μ] [Index ι μ] (n : Nat) (s : Session (Store ι α μ) ω)
    (test : Store ι α μ → Bool)
    (told : (match Store.reserve n s with | .ok (.ok ()) after => test after.store | _ => false) = true) :
    ∃ after, Store.reserve n s = .ok (.ok ()) after ∧ test after.store = true := by
  cases ran : Store.reserve n s with
  | error fault after =>
    rw [ran] at told
    cases told
  | ok answer after =>
    rw [ran] at told
    cases answer with
    | error error => cases told
    | ok done => exact ⟨after, rfl, told⟩

theorem missing_of_bare {ι μ : Type} {s : Store ι α μ} (bare : s.pool.contents = 0) (same : α → α → Prop)
    (values : List α) : ∀ value ∈ values, Missing same value s := by
  intro value _ stored held
  rw [bare] at held
  exact absurd held (Multiset.notMem_zero stored)

-- Of the one number that there was a tombstone is left, and there is room for four more.
theorem reserve_admits_of_numbers :
    let hashing : PureHash Nat := ⟨fun n => UInt32.ofNat (n % 3), fun a b => a == b⟩
    let ordering : PureOrder Nat := ⟨compare⟩
    let chained : Session (HashSet Nat) World := ⟨⟨⟨#[.sentinel], 2, 0⟩, ⟨#[0], 60⟩⟩, false, World.fresh⟩
    let sorted : Session (TreeSet Nat) World := ⟨⟨⟨#[.sentinel], 2, 0⟩, ⟨0⟩⟩, false, World.fresh⟩
    (∃ after, Store.reserve 4 (Session.performed (HashSet.act hashing.rule) [.common (.insert 1), .common (.take 1)]
        chained) = .ok (.ok ()) after ∧ (HashSet.access hashing.rule).Admits [1, 2, 3, 4] after) ∧
    ∃ after, Store.reserve 4 (Session.performed (TreeSet.act ordering.rule) [.common (.insert 1), .common (.take 1)]
        sorted) = .ok (.ok ()) after ∧ (TreeSet.access ordering.rule).Admits [1, 2, 3, 4] after := by
  intro hashing ordering chained sorted
  constructor
  · have configured : HashSet.configure ⟨1, 60⟩ ⟨HashSet.empty 0, false, World.fresh⟩ = .ok (.ok ()) chained := by
      with_unfolding_all rfl
    obtain ⟨after, reserved, told⟩ := granted_of_test 4
      (Session.performed (HashSet.act hashing.rule) [.common (.insert 1), .common (.take 1)] chained)
      (fun s => decide (s.pool.contents = 0 ∧ s.pool.Spare 4)) (by decide +kernel)
    obtain ⟨bare, spare⟩ := of_decide_eq_true told
    exact ⟨after, reserved, (reserve_admits.1 hashing _ _ chained after _ [1, 2, 3, 4] configured (by decide +kernel)
      reserved (by decide) (missing_of_bare bare _ _)).mpr spare⟩
  · have configured : TreeSet.configure ⟨1⟩ ⟨TreeSet.empty, false, World.fresh⟩ = .ok (.ok ()) sorted := rfl
    have steadfast : ∀ action ∈ [TreeSetAction.common (.insert 1), .common (.take 1)],
        action.Steadfast (α := Nat) (ω := World) := by
      intro action member
      simp only [List.mem_cons, List.not_mem_nil, or_false] at member
      rcases member with rfl | rfl <;> trivial
    obtain ⟨after, reserved, told⟩ := granted_of_test 4
      (Session.performed (TreeSet.act ordering.rule) [.common (.insert 1), .common (.take 1)] sorted)
      (fun s => decide (s.pool.contents = 0 ∧ s.pool.Spare 4)) (by decide +kernel)
    obtain ⟨bare, spare⟩ := of_decide_eq_true told
    exact ⟨after, reserved, (reserve_admits.2 ordering _ _ sorted after _ [1, 2, 3, 4] configured steadfast
      (by decide +kernel) reserved (by decide) (missing_of_bare bare _ _)).mpr spare⟩

-- After the same history with room for eight: the eighth value meets the tombstone while seven of nine slots are live,
-- and the set grows.
theorem reserve_falls_short :
    let hashing : PureHash Nat := ⟨fun n => UInt32.ofNat (n % 3), fun a b => a == b⟩
    let ordering : PureOrder Nat := ⟨compare⟩
    let chained : Session (HashSet Nat) World := ⟨⟨⟨#[.sentinel], 2, 0⟩, ⟨#[0], 60⟩⟩, false, World.fresh⟩
    let sorted : Session (TreeSet Nat) World := ⟨⟨⟨#[.sentinel], 2, 0⟩, ⟨0⟩⟩, false, World.fresh⟩
    let values := [1, 2, 3, 4, 5, 6, 7, 8]
    (∃ after, Store.reserve 8 (Session.performed (HashSet.act hashing.rule) [.common (.insert 1), .common (.take 1)]
        chained) = .ok (.ok ()) after ∧ (∀ value ∈ values, Missing (hashing.equal · · = true) value after.store) ∧
      ¬ (HashSet.access hashing.rule).Admits values after) ∧
    ∃ after, Store.reserve 8 (Session.performed (TreeSet.act ordering.rule) [.common (.insert 1), .common (.take 1)]
        sorted) = .ok (.ok ()) after ∧ (∀ value ∈ values, Missing (ordering.compare · · = .eq) value after.store) ∧
      ¬ (TreeSet.access ordering.rule).Admits values after := by
  intro hashing ordering chained sorted values
  constructor
  · have configured : HashSet.configure ⟨1, 60⟩ ⟨HashSet.empty 0, false, World.fresh⟩ = .ok (.ok ()) chained := by
      with_unfolding_all rfl
    obtain ⟨after, reserved, told⟩ := granted_of_test values.length
      (Session.performed (HashSet.act hashing.rule) [.common (.insert 1), .common (.take 1)] chained)
      (fun s => decide (s.pool.contents = 0 ∧ ¬ s.pool.Spare 8)) (by decide +kernel)
    obtain ⟨bare, scarce⟩ := of_decide_eq_true told
    have missing := missing_of_bare bare (hashing.equal · · = true) values
    refine ⟨after, reserved, missing, ?_⟩
    rw [HashSet.admits_reserved configured values (by decide +kernel) reserved (by decide) missing]
    exact scarce
  · have configured : TreeSet.configure ⟨1⟩ ⟨TreeSet.empty, false, World.fresh⟩ = .ok (.ok ()) sorted := rfl
    have steadfast : ∀ action ∈ [TreeSetAction.common (.insert 1), .common (.take 1)],
        action.Steadfast (α := Nat) (ω := World) := by
      intro action member
      simp only [List.mem_cons, List.not_mem_nil, or_false] at member
      rcases member with rfl | rfl <;> trivial
    obtain ⟨after, reserved, told⟩ := granted_of_test values.length
      (Session.performed (TreeSet.act ordering.rule) [.common (.insert 1), .common (.take 1)] sorted)
      (fun s => decide (s.pool.contents = 0 ∧ ¬ s.pool.Spare 8)) (by decide +kernel)
    obtain ⟨bare, scarce⟩ := of_decide_eq_true told
    have missing := missing_of_bare bare (ordering.compare · · = .eq) values
    refine ⟨after, reserved, missing, ?_⟩
    rw [TreeSet.admits_reserved configured values steadfast (by decide +kernel) reserved (by decide) missing]
    exact scarce

end Slotted
