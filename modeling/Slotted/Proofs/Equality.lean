import Slotted.Proofs.Comparison
import Slotted.Proofs.Rekeying
import Slotted.Proofs.TreeSet.Navigation
namespace Slotted

open Store

section Equality

variable {ι α β γ μ ω : Type} {same rel : α → α → Prop}

def Session.Tells {κ : Type} (s : Session κ ω) (query : Query κ ω β) (answer : β) : Prop := Update.ask query s = .ok answer s

theorem Session.Tells.unique {κ : Type} {s : Session κ ω} {query : Query κ ω β} {answer answer' : β}
    (tells : s.Tells query answer) (tells' : s.Tells query answer') : answer = answer' := by
  cases tells.symm.trans tells'
  rfl

theorem Query.Decides.tells {κ : Type} {s : Session κ ω} {query : Query κ ω Bool} {holds : Prop}
    (decides : query.Decides s.store holds) (lowered : s.gate.busy = false) :
    ∃ answer, s.Tells query answer ∧ (answer = true ↔ holds) := by
  obtain ⟨answer, answers, told⟩ := decides
  exact ⟨answer, answers.ask_run lowered, told⟩

variable [Inhabited μ] [Index ι μ] [lawful : LawfulIndex ι μ]

-- How containers of a kind compare as far as they are sane, `rel` being when elements are counterparts: what the answer says,
-- and what it is for containers that were filled with the same elements in any order.
structure Compares (usual sane : Session (Store ι α μ) ω → Prop)
    (equals : Session (Store ι α μ) ω → Session (Store ι α μ) ω → Bool → Prop) (same rel : α → α → Prop)
    (extend : List α → Update (Store ι α μ) ω Unit) : Prop where
  usual : ∀ s, usual s → sane s
  decides : ∀ left right, sane left → sane right → ∃ answer, equals left right answer ∧
    (answer = true ↔ Congruent rel left.store.pool.contents right.store.pool.contents)
  gathers : ∀ values values', (∀ value, value ∈ values ↔ value ∈ values') →
    (∀ a ∈ values, ∀ b ∈ values, same a b → rel a b) → ∀ start start' left right, sane start → sane start' →
    start.store.len = 0 → start'.store.len = 0 → extend values start = .ok () left → extend values' start' = .ok () right →
    equals left right true

structure IsEquality (sane : Session (Store ι α μ) ω → Prop)
    (equals : Session (Store ι α μ) ω → Session (Store ι α μ) ω → Bool → Prop) : Prop where
  refl : ∀ s, sane s → equals s s true
  symm : ∀ left right, sane left → sane right → equals left right true → equals right left true
  trans : ∀ left middle right, sane left → sane middle → sane right → equals left middle true → equals middle right true →
    equals left right true

variable {usual sane : Session (Store ι α μ) ω → Prop}
  {equals : Session (Store ι α μ) ω → Session (Store ι α μ) ω → Bool → Prop}

omit [Inhabited μ] [Index ι μ] lawful in
theorem Compares.isEquality {extend : List α → Update (Store ι α μ) ω Unit}
    (compares : Compares usual sane equals same rel extend) (alike : Equivalence rel)
    (unique : ∀ {left right answer answer'}, equals left right answer → equals left right answer' → answer = answer') :
    IsEquality sane equals := by
  have told : ∀ {left right}, sane left → sane right →
      (equals left right true ↔ Congruent rel left.store.pool.contents right.store.pool.contents) := by
    intro left right first second
    obtain ⟨answer, tells, holds⟩ := compares.decides left right first second
    constructor
    · exact fun yes => holds.mp (unique tells yes)
    · intro congruent
      rw [← holds.mpr congruent]
      exact tells
  refine ⟨?_, ?_, ?_⟩
  · exact fun s first => (told first first).mpr (.refl alike _)
  · exact fun left right first second yes => (told second first).mpr (((told first second).mp yes).symm alike)
  · intro left middle right first second third yes yes'
    exact (told first third).mpr (((told first second).mp yes).trans alike ((told second third).mp yes'))

theorem Access.Exact.compares {promise : List (α × lawful.Memory) → Prop} {ordered : List α → Prop} {container : Container}
    {access : Access ι α μ ω} (exact : access.Exact promise same ordered container) (intended : ∀ s, usual s → sane s)
    (settles : ∀ s, sane s → Settled promise s)
    (decides : ∀ left right, Settled promise left → Settled promise right → ∃ answer, equals left right answer ∧
      (answer = true ↔ Congruent rel left.store.pool.contents right.store.pool.contents)) :
    Compares usual sane equals same rel (fun values => values.forM fun value => do let _ ← access.insert value) := by
  refine ⟨intended, fun left right first second => decides left right (settles left first) (settles right second), ?_⟩
  intro values values' values_iff agree start start' left right first second none none' ran ran'
  have empty : ∀ s : Session (Store ι α μ) ω, Settled promise s → s.store.len = 0 → s.store.pool.contents = 0 := by
    intro s settled none
    obtain ⟨⟨t, proper⟩, _⟩ := settled
    exact Multiset.card_eq_zero.mp (proper.sound.card_eq.trans none)
  obtain ⟨gathers, settled⟩ := (Access.extend_meets exact values (settles start first)).returned ran
  obtain ⟨gathers', settled'⟩ := (Access.extend_meets exact values' (settles start' second)).returned ran'
  rw [empty start (settles start first) none] at gathers
  rw [empty start' (settles start' second) none'] at gathers'
  obtain ⟨answer, tells, holds⟩ := decides left right settled settled'
  rw [holds.mpr (gathers.congruent exact.alike values_iff agree gathers')] at tells
  exact tells

end Equality

section Sane

variable {α β γ κ ν ω : Type}

theorem HashSet.Reached.anyhow [Allocator ω] {act : γ → Update (HashSet α) ω β} {fair : γ → Prop} {s : Session (HashSet α) ω}
    (reached : HashSet.Reached act fair s) : HashSet.Reached act (fun _ => True) s := by
  obtain ⟨config, origin, start, actions, lowered, configured, _, same⟩ := reached
  exact ⟨config, origin, start, actions, lowered, configured, fun _ _ => trivial, same⟩

theorem TreeSet.Reached.anyhow [Allocator ω] {act : γ → Update (TreeSet α) ω β} {fair : γ → Prop} {s : Session (TreeSet α) ω}
    (reached : TreeSet.Reached act fair s) : TreeSet.Reached act (fun _ => True) s := by
  obtain ⟨config, origin, start, actions, lowered, configured, _, same⟩ := reached
  exact ⟨config, origin, start, actions, lowered, configured, fun _ _ => trivial, same⟩

-- Passing its check, and without equal elements. The check of a hash table does not look for these.
structure HashSet.Sane [Allocator ω] (act : γ → Update (HashSet α) ω β) (r : PureHash α) (s : Session (HashSet α) ω) : Prop where
  reached : HashSet.Reached act (fun _ => True) s
  valid : HashSet.Valid r s
  apart : Apart (r.equal · · = true) s.store

structure TreeSet.Sane [Allocator ω] (act : γ → Update (TreeSet α) ω β) (r : PureOrder α) (s : Session (TreeSet α) ω) : Prop where
  reached : TreeSet.Reached act (fun _ => True) s
  valid : TreeSet.Valid r s

-- The elements of the left container are looked up in the right one.
def HashSet.Equals (r : PureHash α) (left right : Session (HashSet α) ω) (answer : Bool) : Prop :=
  right.Tells (HashSet.sameElements left.store r.rule) answer

def HashMap.Equals (r : PureHash κ) (sameValue : ν → ν → Bool) (left right : Session (HashMap κ ν) ω) (answer : Bool) : Prop :=
  right.Tells (HashMap.sameEntries r.rule sameValue left.store) answer

def TreeSet.Equals (r : PureOrder α) (left right : Session (TreeSet α) ω) (answer : Bool) : Prop :=
  left.Tells (TreeSet.sameElements r.rule right.store) answer

def TreeMap.Equals (r : PureOrder κ) (sameValue : ν → ν → Bool) (left right : Session (TreeMap κ ν) ω) (answer : Bool) : Prop :=
  left.Tells (TreeMap.sameEntries r.rule sameValue right.store) answer

theorem HashSet.Sane.settled [Allocator ω] {act : γ → Update (HashSet α) ω β} {r : PureHash α} {s : Session (HashSet α) ω}
    (sane : HashSet.Sane act r s) (booked : Booked s.store) : Settled (HashSet.Distinct r) s := by
  obtain ⟨⟨order, proper⟩, lowered⟩ := sane.valid.settled booked
  have differ := sane.apart.pairwise proper.sound
  rw [← bodies_values] at differ
  exact ⟨⟨order, proper.sound, proper.body, List.pairwise_map.mp differ⟩, lowered⟩

variable [Allocator ω]

theorem HashMap.reached_distinct {r : PureHash κ} {s : Session (HashMap κ ν) ω} (lawful : r.Lawful)
    (reached : HashSet.Reached (HashMap.act r.rule) (·.Keeping) s) : Settled (HashSet.Distinct r.onKeys) s :=
  reached.distinct fun _ keeping _ settled => (HashMap.act_performed lawful keeping settled).2

variable (ω)

abbrev HashSet.Compares (r : PureHash α) : Prop :=
  Slotted.Compares (ω := ω) (HashSet.Reached (HashSet.act r.rule) (HashSet.Keeping r)) (HashSet.Sane (HashSet.act r.rule) r)
    (HashSet.Equals r) (r.equal · · = true) (r.equal · · = true) (HashSet.extend r.rule)

abbrev HashMap.Compares (r : PureHash κ) (sameValue : ν → ν → Bool) : Prop :=
  Slotted.Compares (ω := ω) (HashSet.Reached (HashMap.act r.rule) (·.Keeping)) (HashSet.Sane (HashMap.act r.rule) r.onKeys)
    (HashMap.Equals r sameValue) (r.onKeys.equal · · = true)
    (Entry.Agrees (r.equal · · = true) fun mine theirs => sameValue theirs mine = true) (HashSet.extend r.onKeys.rule)

abbrev TreeSet.Compares (r : PureOrder α) : Prop :=
  Slotted.Compares (ω := ω) (TreeSet.Reached (TreeSet.act r.rule) fun action => TreeSet.Keeping r action ∨ action.Asks)
    (TreeSet.Sane (TreeSet.act r.rule) r) (TreeSet.Equals r) (r.compare · · = .eq) (r.compare · · = .eq)
    (TreeSet.extend r.rule)

abbrev TreeMap.Compares (r : PureOrder κ) (sameValue : ν → ν → Bool) : Prop :=
  Slotted.Compares (ω := ω) (TreeSet.Reached (TreeMap.act r.rule) fun action => action.Keeping ∨ action.Asks)
    (TreeSet.Sane (TreeMap.act r.rule) r.onKeys) (TreeMap.Equals r sameValue) (r.onKeys.compare · · = .eq)
    (Entry.Agrees (r.compare · · = .eq) (sameValue · · = true)) (TreeSet.extend r.onKeys.rule)

theorem HashSet.compares {r : PureHash α} (lawful : r.Lawful) : HashSet.Compares ω r := by
  refine (HashSet.access_exact lawful).compares ?_ (fun s sane => sane.settled sane.reached.booked) ?_
  · intro s reached
    obtain ⟨valid, apart⟩ := HashSet.upright lawful (HashSet.reached_distinct lawful reached)
    exact ⟨reached.anyhow, valid, apart⟩
  · intro left right first second
    obtain ⟨⟨order, proper⟩, _⟩ := first
    obtain ⟨⟨order', proper'⟩, lowered⟩ := second
    exact (HashSet.sameElements_decides lawful proper' proper).tells lowered

theorem HashMap.compares {r : PureHash κ} (lawful : r.Lawful) (sameValue : ν → ν → Bool) : HashMap.Compares ω r sameValue := by
  refine (HashSet.access_exact lawful.onKeys).compares ?_ (fun s sane => sane.settled (HashMap.reached_booked sane.reached)) ?_
  · intro s reached
    obtain ⟨valid, apart⟩ := HashSet.upright lawful.onKeys (HashMap.reached_distinct lawful reached)
    exact ⟨reached.anyhow, valid, apart⟩
  · intro left right first second
    obtain ⟨⟨order, proper⟩, _⟩ := first
    exact (HashMap.sameEntries_decides lawful second proper sameValue).tells second.lowered

theorem TreeSet.compares {r : PureOrder α} (lawful : r.Lawful) : TreeSet.Compares ω r := by
  refine (TreeSet.access_exact lawful).compares ?_ (fun s sane => sane.valid.settled lawful sane.reached.booked) ?_
  · exact fun s reached => ⟨reached.anyhow, TreeSet.valid_of_settled lawful (TreeSet.reached_ascending lawful reached)⟩
  · intro left right first second
    obtain ⟨⟨t, proper⟩, lowered⟩ := first
    obtain ⟨⟨t', proper'⟩, _⟩ := second
    exact (TreeSet.sameElements_decides lawful proper proper').tells lowered

theorem TreeMap.compares {r : PureOrder κ} (lawful : r.Lawful) (sameValue : ν → ν → Bool) : TreeMap.Compares ω r sameValue := by
  refine (TreeSet.access_exact lawful.onKeys).compares ?_
    (fun s sane => sane.valid.settled lawful.onKeys (TreeMap.reached_booked sane.reached)) ?_
  · exact fun s reached =>
      ⟨reached.anyhow, TreeSet.valid_of_settled lawful.onKeys (TreeMap.reached_ascending lawful reached)⟩
  · intro left right first second
    obtain ⟨⟨t, proper⟩, lowered⟩ := first
    obtain ⟨⟨t', proper'⟩, _⟩ := second
    exact (TreeMap.sameEntries_decides lawful proper proper' sameValue).tells lowered

-- However the containers came about, as long as they pass their checks and no hash table holds an element twice; and so it is
-- after every history in which nothing was changed in place behind the rule and no closure contradicted it.
theorem equality_is_content :
    (∀ r : PureHash α, r.Lawful → HashSet.Compares ω r ∧
      IsEquality (ω := ω) (HashSet.Sane (HashSet.act r.rule) r) (HashSet.Equals r)) ∧
    (∀ (r : PureHash κ) (sameValue : ν → ν → Bool), r.Lawful → HashMap.Compares ω r sameValue ∧
      (Equivalence (sameValue · · = true) →
        IsEquality (ω := ω) (HashSet.Sane (HashMap.act r.rule) r.onKeys) (HashMap.Equals r sameValue))) ∧
    (∀ r : PureOrder α, r.Lawful → TreeSet.Compares ω r ∧
      IsEquality (ω := ω) (TreeSet.Sane (TreeSet.act r.rule) r) (TreeSet.Equals r)) ∧
    ∀ (r : PureOrder κ) (sameValue : ν → ν → Bool), r.Lawful → TreeMap.Compares ω r sameValue ∧
      (Equivalence (sameValue · · = true) →
        IsEquality (ω := ω) (TreeSet.Sane (TreeMap.act r.rule) r.onKeys) (TreeMap.Equals r sameValue)) := by
  refine ⟨?_, ?_, ?_, ?_⟩
  · intro r lawful
    have compares := HashSet.compares ω lawful
    exact ⟨compares, compares.isEquality lawful.alike Session.Tells.unique⟩
  · intro r sameValue lawful
    have compares := HashMap.compares ω lawful sameValue
    refine ⟨compares, fun values => compares.isEquality ?_ Session.Tells.unique⟩
    exact Entry.Agrees.equivalence lawful.alike ⟨values.refl, values.symm, fun first second => values.trans second first⟩
  · intro r lawful
    have compares := TreeSet.compares ω lawful
    exact ⟨compares, compares.isEquality lawful.alike Session.Tells.unique⟩
  · intro r sameValue lawful
    have compares := TreeMap.compares ω lawful sameValue
    exact ⟨compares, fun values => compares.isEquality (Entry.Agrees.equivalence lawful.alike values) Session.Tells.unique⟩

end Sane

-- Two sets that hold the same three numbers in other slots and other chains, and two maps that differ in one value.
theorem equality_is_content_of_numbers :
    let r : PureHash Nat := ⟨fun n => UInt32.ofNat (n % 3), fun a b => a == b⟩
    let order : PureOrder Nat := ⟨compare⟩
    let chained : Session (HashSet Nat) World := ⟨⟨⟨#[.sentinel], 5, 0⟩, ⟨#[0, 0, 0], 60⟩⟩, false, World.fresh⟩
    let sorted : Session (TreeMap Nat Nat) World := ⟨⟨⟨#[.sentinel], 5, 0⟩, ⟨0⟩⟩, false, World.fresh⟩
    let s := Session.performed (HashSet.act r.rule) [.common (.extend [3, 6, 9, 1]), .common (.take 6)] chained
    let s' := Session.performed (HashSet.act r.rule) [.common (.extend [1, 9, 3])] chained
    let m := Session.performed (TreeMap.act order.rule) [.common (.entries (.extend [⟨3, 1⟩, ⟨6, 2⟩]))] sorted
    let m' := Session.performed (TreeMap.act order.rule) [.common (.entries (.extend [⟨6, 2⟩, ⟨3, 0⟩]))] sorted
    HashSet.Equals r s s' true ∧ HashSet.Equals r s' s true ∧ TreeMap.Equals order (· == ·) m m' false := by
  intro r order chained sorted s s' m m'
  have told := equality_is_content (α := Nat) (κ := Nat) (ν := Nat) World
  have fair : r.Lawful := PureHash.lawful_beq _
  obtain ⟨compares, equality⟩ := told.1 r fair
  have chains : HashSet.configure ⟨4, 60⟩ ⟨HashSet.empty 0, false, World.fresh⟩ = .ok (.ok ()) chained := by
    with_unfolding_all rfl
  have sane : HashSet.Sane (HashSet.act r.rule) r s := by
    refine compares.usual s ⟨⟨4, 60⟩, _, chained, _, rfl, chains, ?_, rfl⟩
    intro action member
    rcases List.mem_cons.mp member with rfl | member
    · exact .common nofun
    · cases List.mem_singleton.mp member
      exact .common nofun
  have sane' : HashSet.Sane (HashSet.act r.rule) r s' := by
    refine compares.usual s' ⟨⟨4, 60⟩, _, chained, _, rfl, chains, ?_, rfl⟩
    intro action member
    cases List.mem_singleton.mp member
    exact .common nofun
  have contents : s.store.pool.contents = s'.store.pool.contents := by decide +kernel
  obtain ⟨grows, _⟩ := told.2.2.2 order (· == ·) PureOrder.lawful_numbers
  have keyed : ∀ entries, TreeSet.Sane (TreeMap.act order.rule) order.onKeys
      (Session.performed (TreeMap.act order.rule) [.common (.entries (.extend entries))] sorted) := by
    intro entries
    refine grows.usual _ ⟨⟨4⟩, ⟨TreeSet.empty, false, World.fresh⟩, sorted, _, rfl, rfl, ?_, rfl⟩
    intro action member
    cases List.mem_singleton.mp member
    exact .inl nofun
  have unlike : ∀ b ∈ m'.store.pool.contents, ¬ (order.compare 3 b.key = .eq ∧ (1 == b.value) = true) := by decide +kernel
  have there : ⟨3, 1⟩ ∈ m.store.pool.contents := by decide +kernel
  have mapped : TreeSet.Sane (TreeMap.act order.rule) order.onKeys m := keyed _
  have mapped' : TreeSet.Sane (TreeMap.act order.rule) order.onKeys m' := keyed _
  clear_value s s' m m'
  obtain ⟨answer, tells, holds⟩ := compares.decides s s' sane sane'
  have congruent : Congruent (r.equal · · = true) s.store.pool.contents s'.store.pool.contents :=
    contents ▸ .refl fair.alike _
  rw [holds.mpr congruent] at tells
  refine ⟨tells, equality.symm s s' sane sane' tells, ?_⟩
  obtain ⟨answer, tells, holds⟩ := grows.decides m m' mapped mapped'
  cases answer with
  | false => exact tells
  | true =>
    obtain ⟨b, member, agrees⟩ := (holds.mp rfl).there _ there
    exact absurd agrees (unlike b member)

-- The second of two numbers was changed into the first and hashed anew: the other set has an equal element for each of them,
-- but they are one to it. A tree out of order is as good as any for what it holds, and a map keeps of two values under one
-- key the one that came first.
theorem equality_misses_content :
    let r : PureHash Nat := ⟨fun n => UInt32.ofNat n, fun a b => a == b⟩
    let order : PureOrder Nat := ⟨compare⟩
    let chained : Session (HashSet Nat) World := ⟨⟨⟨#[.sentinel], 5, 0⟩, ⟨#[0, 0, 0], 60⟩⟩, false, World.fresh⟩
    let sorted : Session (TreeSet Nat) World := ⟨⟨⟨#[.sentinel], 5, 0⟩, ⟨0⟩⟩, false, World.fresh⟩
    let keyed : Session (HashMap Nat Nat) World := ⟨⟨⟨#[.sentinel], 5, 0⟩, ⟨#[0, 0, 0], 60⟩⟩, false, World.fresh⟩
    let s := Session.performed (HashSet.act r.rule) [.common (.extend [1, 2])] chained
    let edited := Session.performed (HashSet.act r.rule)
      [.common (.extend [1, 2]), .common (.change ⟨2, Nat.two_pos⟩ fun _ => 1), .rehash] chained
    let t := Session.performed (TreeSet.act order.rule)
      [.common (.extend [1, 2]), .common (.change ⟨1, Nat.one_pos⟩ fun _ => 3)] sorted
    let t' := Session.performed (TreeSet.act order.rule) [.common (.extend [2, 3])] sorted
    let m := Session.performed (HashMap.act r.rule) [.common (.entries (.extend [⟨1, 1⟩, ⟨1, 2⟩]))] keyed
    let m' := Session.performed (HashMap.act r.rule) [.common (.entries (.extend [⟨1, 2⟩, ⟨1, 1⟩]))] keyed
    (r.Lawful ∧ HashSet.Reached (HashSet.act r.rule) (fun _ => True) s ∧
      HashSet.Reached (HashSet.act r.rule) (fun _ => True) edited ∧
      (HashSet.check r.rule edited.store).run' edited.gate = some (.ok ()) ∧
      (HashSet.sameElements edited.store r.rule s.store).run' s.gate = some true ∧
      ¬ Congruent (r.equal · · = true) edited.store.pool.contents s.store.pool.contents ∧
      (HashSet.sameElements s.store r.rule edited.store).run' edited.gate = some false) ∧
    (order.Lawful ∧ t.store.pool.contents = t'.store.pool.contents ∧
      (TreeSet.sameElements order.rule t'.store t.store).run' t.gate = some false) ∧
    (HashMap.sameEntries r.rule (· == ·) m.store m'.store).run' m'.gate = some false := by
  intro r order chained sorted keyed s edited t t' m m'
  have fair : r.Lawful := PureHash.lawful_beq _
  have chains : HashSet.configure ⟨4, 60⟩ ⟨HashSet.empty 0, false, World.fresh⟩ = .ok (.ok ()) chained := by
    with_unfolding_all rfl
  have there : 2 ∈ s.store.pool.contents := by decide +kernel
  have unlike : ∀ a ∈ edited.store.pool.contents, ¬ r.equal a 2 = true := by decide +kernel
  refine ⟨⟨fair, ?_, ?_, by decide +kernel, by decide +kernel, ?_, by decide +kernel⟩, ?_, by decide +kernel⟩
  · exact ⟨⟨4, 60⟩, _, chained, _, rfl, chains, fun _ _ => trivial, rfl⟩
  · exact ⟨⟨4, 60⟩, _, chained, _, rfl, chains, fun _ _ => trivial, rfl⟩
  · intro congruent
    obtain ⟨a, member, equal⟩ := congruent.back 2 there
    exact unlike a member equal
  · exact ⟨PureOrder.lawful_numbers, by decide +kernel, by decide +kernel⟩

end Slotted
