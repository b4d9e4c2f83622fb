import Slotted.Datum.World
import Slotted.Proofs.HashSet.Flag
import Slotted.Proofs.Lookups
import Slotted.Proofs.Reached
import Slotted.Proofs.TreeSet.Flag
namespace Slotted

open Store Update Query Session

variable {κ ν α β γ ω : Type}

section Calls

variable [Allocator ω]

def HashSet.call :
    Call (HashRule (HashSet α) ω α) (HashSetAction α ω) (HashSet α) α → Update (HashSet α) ω Unit :=
  Call.run HashSet.act (HashSet.ofArray · .hashSet) fun rule other => HashSet.sameElements other rule

def HashMap.call (sameValue : ν → ν → Bool) :
    Call (HashRule (HashMap κ ν) ω κ) (HashMapAction κ ν ω) (HashMap κ ν) (κ × ν) → Update (HashMap κ ν) ω Unit :=
  Call.run HashMap.act (HashMap.ofArray · ·) (HashMap.sameEntries · sameValue)

def TreeSet.call :
    Call (OrderRule (TreeSet α) ω α) (TreeSetAction α ω) (TreeSet α) α → Update (TreeSet α) ω Unit :=
  Call.run TreeSet.act (TreeSet.ofArray · .treeSet) TreeSet.sameElements

def TreeMap.call (sameValue : ν → ν → Bool) :
    Call (OrderRule (TreeMap κ ν) ω κ) (TreeMapAction κ ν ω) (TreeMap κ ν) (κ × ν) → Update (TreeMap κ ν) ω Unit :=
  Call.run TreeMap.act (TreeMap.ofArray · ·) (TreeMap.sameEntries · sameValue)

end Calls

abbrev HashSet.Made (made : ∀ β : Type, Query (HashSet α) ω β → Prop) :
    Call (HashRule (HashSet α) ω α) (HashSetAction α ω) (HashSet α) α → Prop :=
  Call.Made (HashRule.Made made) (HashSetAction.Made made)

abbrev HashMap.Made (made : ∀ β : Type, Query (HashMap κ ν) ω β → Prop) :
    Call (HashRule (HashMap κ ν) ω κ) (HashMapAction κ ν ω) (HashMap κ ν) (κ × ν) → Prop :=
  Call.Made (HashRule.Made made) (HashMapAction.Made made)

abbrev TreeSet.Made (made : ∀ β : Type, Query (TreeSet α) ω β → Prop) :
    Call (OrderRule (TreeSet α) ω α) (TreeSetAction α ω) (TreeSet α) α → Prop :=
  Call.Made (OrderRule.Made made) (TreeSetAction.Made made)

abbrev TreeMap.Made (made : ∀ β : Type, Query (TreeMap κ ν) ω β → Prop) :
    Call (OrderRule (TreeMap κ ν) ω κ) (TreeMapAction κ ν ω) (TreeMap κ ν) (κ × ν) → Prop :=
  Call.Made (OrderRule.Made made) (TreeMapAction.Made made)

-- In this state the flag is down. It is down again after every call, whatever guests the call brings along, and code that
-- keeps away from the container is never told that it does not. A lookup by guests is a guest's code itself. It runs as if
-- the fault stood in the place of each lookup from inside that is barred, and the container is as it was.
structure Watched (call : γ → Update κ ω Unit) (made : (∀ β : Type, Query κ ω β → Prop) → γ → Prop)
    (lookup : (∀ {β : Type}, Query κ ω β → Query κ ω β → Prop) → ∀ {β : Type}, Query κ ω β → Query κ ω β → Prop)
    (s : Session κ ω) : Prop where
  lowered : s.gate.busy = false
  lowers : ∀ c, made (fun _ => Guest) c → Always (call c) s (·.gate.busy = false)
  apart : ∀ c, made (fun _ => Aloof) c → ∀ after, call c s ≠ .error .busy after
  guests : ∀ {β : Type} {query : Query κ ω β}, lookup (fun query _ => query.Guest) query query → query.Guest
  nested : ∀ {β : Type} {real ideal : Query κ ω β}, lookup (Struck s.store) real ideal →
    Same s.store real ideal ∧ Always (Update.ask real) s (·.store = s.store)

-- Under a raised flag none of these lookups comes to see the container.
def Bars (lookup : (∀ {β : Type}, Query κ ω β → Query κ ω β → Prop) → ∀ {β : Type}, Query κ ω β → Query κ ω β → Prop)
    (s : Session κ ω) : Prop := ∀ {β : Type} {query : Query κ ω β}, lookup (fun _ _ => True) query query → Barred s.store query

section Watched

variable {call : γ → Update κ ω Unit} {made : (∀ β : Type, Query κ ω β → Prop) → γ → Prop}
  {lookup : (∀ {β : Type}, Query κ ω β → Query κ ω β → Prop) → ∀ {β : Type}, Query κ ω β → Query κ ω β → Prop}
  {s : Session κ ω}

-- Calls end with the flag down as soon as the code that they bring along leaves it as it is.
def Clearing (call : γ → Update κ ω Unit) (made : (∀ β : Type, Query κ ω β → Prop) → γ → Prop) : Prop :=
  ∀ (blame : Fault → Prop) (kind : ∀ β : Type, Query κ ω β → Prop), (∀ fault, fault ≠ .busy → blame fault) →
    (∀ (β : Type) (query : Query κ ω β), kind β query → query.Careful blame) → ∀ c, made kind c → Clears blame (call c)

theorem Clearing.keeps (clearing : Clearing call made) (c : γ) (guests : made (fun _ => Guest) c) (s : Session κ ω)
    (lowered : s.gate.busy = false) : Always (call c) s (·.gate.busy = false) :=
  (clearing (fun _ => True) _ (fun _ _ => trivial) (fun _ _ => Guest.careful) c guests s lowered).faulting
    fun _ _ told => told.2

theorem Clearing.watched (clearing : Clearing call made)
    (alike : ∀ (inner outer : ∀ {β : Type}, Query κ ω β → Query κ ω β → Prop), Encloses inner outer →
      (∀ {β : Type} (container : Container), outer (throw (.keyNotFound container) : Query κ ω β)
        (throw (.keyNotFound container))) →
      ∀ {β : Type} (real ideal : Query κ ω β), lookup inner real ideal → outer real ideal)
    (lowered : s.gate.busy = false) : Watched call made lookup s where
  lowered := lowered
  lowers c guests := clearing.keeps c guests s lowered
  apart c aloof _ ran :=
    ((clearing (· ≠ .busy) _ (fun _ free => free) (fun _ _ => Aloof.careful) c aloof s lowered).faulted ran).1 rfl
  guests {_ query} lookup := alike (fun query _ => query.Guest) (fun query _ => query.Guest) guest_encloses
    (fun _ => throw_own _ ▸ .own _) query query lookup
  nested lookup := ⟨alike (Struck s.store) (Same s.store) struck_encloses (fun _ _ => rfl) _ _ lookup,
    Update.ask_keeps_store _⟩

end Watched

section Clearing

variable [Allocator ω]

theorem HashSet.call_clearing : Clearing (HashSet.call (α := α) (ω := ω)) HashSet.Made := by
  intro blame kind free careful
  refine Call.run_clears ?_ ?_ ?_
  · exact fun rule action rules => act_clears free careful rules action
  · exact fun rule values rules => Access.ofArray_clears free (access_lowers free careful rules) .hashSet values
  · exact fun rule other rules => sameElements_alike (careful_encloses free) (rules.alike careful) other

theorem HashMap.call_clearing (sameValue : ν → ν → Bool) :
    Clearing (HashMap.call (κ := κ) (ω := ω) sameValue) HashMap.Made := by
  intro blame kind free careful
  refine Call.run_clears ?_ ?_ ?_
  · exact fun rule action rules => act_clears free careful rules action
  · intro rule pairs rules
    exact Access.ofArray_clears free (HashSet.access_lowers free careful (onKeys_made rules)) .hashMap (pairs.map Entry.ofPair)
  · exact fun rule other rules => sameEntries_alike (careful_encloses free) (rules.alike careful) sameValue other

theorem TreeSet.call_clearing : Clearing (TreeSet.call (α := α) (ω := ω)) TreeSet.Made := by
  intro blame kind free careful
  have lowers : ∀ (β : Type) (query : Query (TreeSet α) ω β), kind β query → query.Lowers blame :=
    fun _ _ made => (careful _ _ made).lowers
  refine Call.run_clears ?_ ?_ ?_
  · exact fun rule action rules => act_clears free careful rules action
  · exact fun rule values rules => Access.ofArray_clears free (access_lowers free careful rules) .treeSet values
  · exact fun rule other rules => sameElements_alike (lowers_stepwise free) (rules.alike lowers) other

theorem TreeMap.call_clearing (sameValue : ν → ν → Bool) :
    Clearing (TreeMap.call (κ := κ) (ω := ω) sameValue) TreeMap.Made := by
  intro blame kind free careful
  have lowers : ∀ (β : Type) (query : Query (TreeMap κ ν) ω β), kind β query → query.Lowers blame :=
    fun _ _ made => (careful _ _ made).lowers
  refine Call.run_clears ?_ ?_ ?_
  · exact fun rule action rules => act_clears free careful rules action
  · intro rule pairs rules
    exact Access.ofArray_clears free (TreeSet.access_lowers free careful (onKeys_made rules)) .treeMap (pairs.map Entry.ofPair)
  · exact fun rule other rules => sameEntries_alike (rules.alike lowers) (lowers_stepwise free) sameValue other

end Clearing

section Reached

variable [Allocator ω]

theorem HashSet.Reached.watched {s : Session (HashSet α) ω}
    (reached : HashSet.Reached HashSet.call (HashSet.Made fun _ => Guest) s) :
    Watched HashSet.call HashSet.Made HashSet.Lookup s := by
  have lowered := reached.keeps (fun _ _ lowered => lowered) fun c guests s lowered =>
    perform_keeps (HashSet.call_clearing.keeps c guests s lowered)
  refine HashSet.call_clearing.watched ?_ lowered
  exact fun _ _ encloses _ _ _ _ lookup => lookup.alike encloses

theorem HashMap.reached_watched {sameValue : ν → ν → Bool} {s : Session (HashMap κ ν) ω}
    (reached : HashSet.Reached (HashMap.call sameValue) (HashMap.Made fun _ => Guest) s) :
    Watched (HashMap.call sameValue) HashMap.Made HashMap.Lookup s := by
  have clearing := HashMap.call_clearing (κ := κ) (ω := ω) sameValue
  have lowered := reached.keeps (fun _ _ lowered => lowered) fun c guests s lowered =>
    perform_keeps (clearing.keeps c guests s lowered)
  refine clearing.watched ?_ lowered
  exact fun _ _ encloses missing _ _ _ lookup => lookup.alike encloses (missing _)

theorem TreeSet.Reached.watched {s : Session (TreeSet α) ω}
    (reached : TreeSet.Reached TreeSet.call (TreeSet.Made fun _ => Guest) s) :
    Watched TreeSet.call TreeSet.Made TreeSet.Lookup s := by
  have lowered := reached.keeps (fun _ _ lowered => lowered) fun c guests s lowered =>
    perform_keeps (TreeSet.call_clearing.keeps c guests s lowered)
  refine TreeSet.call_clearing.watched ?_ lowered
  exact fun _ _ encloses _ _ _ _ lookup => lookup.alike encloses

theorem TreeMap.reached_watched {sameValue : ν → ν → Bool} {s : Session (TreeMap κ ν) ω}
    (reached : TreeSet.Reached (TreeMap.call sameValue) (TreeMap.Made fun _ => Guest) s) :
    Watched (TreeMap.call sameValue) TreeMap.Made TreeMap.Lookup s := by
  have clearing := TreeMap.call_clearing (κ := κ) (ω := ω) sameValue
  have lowered := reached.keeps (fun _ _ lowered => lowered) fun c guests s lowered =>
    perform_keeps (clearing.keeps c guests s lowered)
  refine clearing.watched ?_ lowered
  exact fun _ _ encloses missing _ _ _ lookup => lookup.alike encloses (missing _)

end Reached

-- Whatever was called before, with whatever guests, and however it ended. All lookups are barred while another one runs
-- callers' code, as long as a hash set has buckets. Without any, those are barred that hash what they look for, and one
-- under a given hash finds nothing, flag or no flag.
theorem guard_never_sticks_nor_misses [Allocator ω] :
    (∀ s : Session (HashSet α) ω, HashSet.Reached HashSet.call (HashSet.Made fun _ => Guest) s →
      Watched HashSet.call HashSet.Made HashSet.Lookup s ∧
        (s.store.index.heads.isEmpty = false → Bars HashSet.Lookup s) ∧
        (∀ (rule : HashRule (HashSet α) ω α) (value : α),
          Barred s.store (HashSet.find rule value) ∧ Barred s.store (HashSet.contains rule value)) ∧
        (s.store.index.heads.isEmpty = true → ∀ (hash : UInt32) (accepts : α → Query (HashSet α) ω Bool) (gate : Gate ω),
          HashSet.findBy hash accepts s.store gate = .ok none gate)) ∧
    (∀ (sameValue : ν → ν → Bool) (s : Session (HashMap κ ν) ω),
      HashSet.Reached (HashMap.call sameValue) (HashMap.Made fun _ => Guest) s →
      Watched (HashMap.call sameValue) HashMap.Made HashMap.Lookup s ∧ Bars HashMap.Lookup s) ∧
    (∀ s : Session (TreeSet α) ω, TreeSet.Reached TreeSet.call (TreeSet.Made fun _ => Guest) s →
      Watched TreeSet.call TreeSet.Made TreeSet.Lookup s ∧ Bars TreeSet.Lookup s) ∧
    ∀ (sameValue : ν → ν → Bool) (s : Session (TreeMap κ ν) ω),
      TreeSet.Reached (TreeMap.call sameValue) (TreeMap.Made fun _ => Guest) s →
      Watched (TreeMap.call sameValue) TreeMap.Made TreeMap.Lookup s ∧ Bars TreeMap.Lookup s := by
  refine ⟨?_, ?_, ?_, ?_⟩
  · intro s reached
    refine ⟨reached.watched, fun filled _ _ lookup => lookup.barred filled, fun rule value => ?_, fun bare hash accepts gate => ?_⟩
    · exact ⟨HashSet.find_barred s.store rule value, HashSet.contains_barred s.store rule value⟩
    · exact HashSet.findBy_bucketless bare hash accepts gate
  · exact fun sameValue s reached => ⟨HashMap.reached_watched reached, HashMap.Lookup.barred⟩
  · exact fun s reached => ⟨reached.watched, TreeSet.Lookup.barred⟩
  · exact fun sameValue s reached => ⟨TreeMap.reached_watched reached, TreeMap.Lookup.barred⟩

-- A closure that looks a stored number up in the set that shows it, and a rule that looks its key up in the map it is for.
theorem guard_never_sticks_nor_misses_of_numbers :
    let equality : HashRule (HashSet Nat) World Nat := (⟨UInt32.ofNat, (· == ·)⟩ : PureHash Nat).rule
    let order : OrderRule (TreeMap Nat Nat) World Nat := (⟨compare⟩ : PureOrder Nat).rule
    let curious : OrderRule (TreeMap Nat Nat) World Nat :=
      ⟨fun a b => do return if ← TreeMap.containsKey order a then compare a b else .eq⟩
    let struck : OrderRule (TreeMap Nat Nat) World Nat :=
      ⟨fun a b => do return if ← (throw .busy : Query _ _ Bool) then compare a b else .eq⟩
    let chained : Session (HashSet Nat) World := ⟨⟨⟨#[.sentinel], 5, 0⟩, ⟨#[0, 0, 0], 60⟩⟩, false, World.fresh⟩
    let sorted : Session (TreeMap Nat Nat) World := ⟨⟨⟨#[.sentinel], 5, 0⟩, ⟨0⟩⟩, false, World.fresh⟩
    let nosy : HashSetAction Nat World := .findBy 4 (HashSet.contains equality)
    let s := performed HashSet.call [.act equality (.common (.extend [1, 4, 1])), .act equality nosy] chained
    let m := performed (TreeMap.call (· == ·)) [.act order (.common (.entries (.extend [⟨3, 1⟩, ⟨6, 2⟩]))),
      .act curious (.near .left true 6)] sorted
    (s.perform (HashSet.call (.act equality nosy))).1 = .error .busy ∧ s.gate.busy = false ∧
      (∀ after, HashSet.call (.act equality (.common (.contains 4))) s ≠ .error .busy after) ∧
      (m.perform (Update.ask (TreeMap.near struck .left true 6))).1 = .error .busy ∧
      TreeMap.near curious .left true 6 m.store m.gate = TreeMap.near struck .left true 6 m.store m.gate := by
  intro equality order curious struck chained sorted nosy s m
  have apart : equality.Made fun _ => Aloof := ⟨fun _ => aloof_pure _, fun _ _ => aloof_pure _⟩
  have hashes : equality.Made fun _ => Guest := ⟨fun value => (apart.hash value).guest, fun a b => (apart.equal a b).guest⟩
  have sorts : order.Made fun _ => Guest := fun _ _ => (aloof_pure _).guest
  have asks : ∀ key, (TreeMap.containsKey order key).Guest := fun key =>
    .bind (TreeMap.find_alike guest_encloses (sorts.alike fun _ _ guest => guest) key) fun _ => guest_stepwise.pure _
  have reached : HashSet.Reached HashSet.call (HashSet.Made fun _ => Guest) s := by
    refine ⟨⟨4, 60⟩, ⟨HashSet.empty 0, false, World.fresh⟩, chained, _, rfl, ?_, ?_, rfl⟩
    · with_unfolding_all rfl
    · intro c member
      simp only [List.mem_cons, List.not_mem_nil, or_false] at member
      rcases member with rfl | rfl
      · exact ⟨hashes, trivial⟩
      · exact ⟨hashes, HashSet.contains_alike guest_encloses (hashes.alike fun _ _ guest => guest)⟩
  have reached' : TreeSet.Reached (TreeMap.call (· == ·)) (TreeMap.Made fun _ => Guest) m := by
    refine ⟨⟨4⟩, ⟨TreeSet.empty, false, World.fresh⟩, sorted, _, rfl, rfl, ?_, rfl⟩
    intro c member
    simp only [List.mem_cons, List.not_mem_nil, or_false] at member
    rcases member with rfl | rfl
    · exact ⟨sorts, trivial⟩
    · exact ⟨fun a b => .bind (asks a) fun _ => guest_stepwise.pure _, trivial⟩
  have watched := guard_never_sticks_nor_misses (α := Nat) (κ := Nat) (ν := Nat) (ω := World)
  obtain ⟨hashed, _⟩ := watched.1 s reached
  obtain ⟨ordered, bars⟩ := watched.2.2.2 (· == ·) m reached'
  refine ⟨by decide +kernel, hashed.lowered, ?_, by decide +kernel, ?_⟩
  · exact hashed.apart _ ⟨apart, trivial⟩
  · refine (ordered.nested (.near .left true 6 fun a b => ?_)).1 m.gate
    refine .bind (.lookup (bars ?_)) fun found => pure_own _ ▸ .own _
    exact .keyed a (fun _ _ => trivial) .containsKey

-- A set without buckets, and a rule that looks up what it is to hash. That lookup finds nothing where it had to fault.
theorem guard_misses_bucketless :
    let equal (a b : Nat) : Query (HashSet Nat) World Bool := pure (a == b)
    let nosy : HashRule (HashSet Nat) World Nat :=
      ⟨fun value => do return if (← HashSet.findBy 0 (equal value)).isSome then 1 else 0, equal⟩
    let struck : HashRule (HashSet Nat) World Nat :=
      ⟨fun _ => do return if (← (throw .busy : Query _ _ (Option Handle))).isSome then 1 else 0, equal⟩
    let fresh : Session (HashSet Nat) World := ⟨HashSet.empty 75, false, World.fresh⟩
    HashSet.Reached HashSet.call (HashSet.Made fun _ => Guest) fresh ∧ nosy.Made (fun _ => Guest) ∧
      ¬ Bars HashSet.Lookup fresh ∧ (fresh.perform (Update.ask (HashSet.find nosy 1))).1 = .ok none ∧
      (fresh.perform (Update.ask (HashSet.find struck 1))).1 = .error .busy := by
  intro equal nosy struck fresh
  have compares : ∀ a b, (equal a b).Guest := fun _ _ => guest_stepwise.pure _
  have asks : ∀ value, (HashSet.findBy 0 (equal value)).Guest := fun value =>
    HashSet.findBy_alike guest_encloses (equal value) (equal value) (compares value)
  have reached : HashSet.Reached HashSet.call (HashSet.Made fun _ => Guest) fresh := by
    refine ⟨⟨0, 75⟩, ⟨HashSet.empty 0, false, World.fresh⟩, fresh, [], rfl, ?_, fun _ none => absurd none List.not_mem_nil, rfl⟩
    with_unfolding_all rfl
  refine ⟨reached, ⟨fun value => .bind (asks value) fun _ => guest_stepwise.pure _, compares⟩, fun bars => ?_,
    by decide +kernel, by decide +kernel⟩
  have barred : Barred fresh.store (HashSet.findBy 0 (equal 1)) := bars (.findBy 0 fun _ => trivial)
  have faults := barred ⟨true, World.fresh⟩ rfl
  rw [HashSet.findBy_bucketless rfl] at faults
  cases faults

end Slotted
