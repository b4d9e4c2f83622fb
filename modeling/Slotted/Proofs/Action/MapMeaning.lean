import Slotted.Proofs.Action.Meaning
import Slotted.Action.Map
namespace Slotted

variable {ι κ ν μ ω : Type} (same : κ → κ → Prop)

-- Entries are told apart by their keys alone.
def Alike (a b : Entry κ ν) : Prop := same a.key b.key

def Lacks (key : κ) (s : Store ι (Entry κ ν) μ) : Prop := ∀ entry ∈ s.pool.contents, ¬ same entry.key key

def Under (key : κ) (s : Store ι (Entry κ ν) μ) : Option (Entry κ ν) → Prop
  | some entry => entry ∈ s.pool.contents ∧ same entry.key key
  | none => Lacks same key s

def LeadsTo (key : κ) (s : Store ι (Entry κ ν) μ) : Option Handle → Prop
  | some h => ∃ entry, same entry.key key ∧ s.get? h = some entry
  | none => Lacks same key s

theorem LeadsTo.under {same : κ → κ → Prop} {key : κ} {s : Store ι (Entry κ ν) μ} {found : Option Handle}
    (leads : LeadsTo same key s found) : Under same key s (found.bind s.get?) := by
  cases found with
  | none => exact leads
  | some h =>
    obtain ⟨entry, alike, held⟩ := leads
    rw [Option.bind_some, held]
    exact ⟨Pool.mem_contents.mpr ⟨_, held⟩, alike⟩

theorem LeadsTo.isSome_iff {same : κ → κ → Prop} {key : κ} {s : Store ι (Entry κ ν) μ} {found : Option Handle}
    (leads : LeadsTo same key s found) : found.isSome = true ↔ ∃ entry ∈ s.pool.contents, same entry.key key := by
  cases found with
  | none =>
    refine iff_of_false Bool.false_ne_true ?_
    intro given
    obtain ⟨entry, held, alike⟩ := given
    exact leads entry held alike
  | some h =>
    obtain ⟨entry, alike, held⟩ := leads
    exact iff_of_true rfl ⟨entry, Pool.mem_contents.mpr ⟨_, held⟩, alike⟩

-- One entry has its value changed. It keeps its key and its handle, and the other entries stay.
def Revalued (change : ν → ν) (before after : Store ι (Entry κ ν) μ) (h : Handle) (entry : Entry κ ν) : Prop :=
  before.get? h = some entry ∧ after.get? h = some (entry.mapValue change) ∧
    ∃ rest, before.pool.contents = entry ::ₘ rest ∧ after.pool.contents = entry.mapValue change ::ₘ rest

-- The entries under some handles have their values changed. All entries keep their keys and handles.
def Revalues (change : Nat → ν → ν) (chosen : Handle → Prop) (before after : Store ι (Entry κ ν) μ) : Prop := ∀ h,
  (chosen h → after.get? h = (before.get? h).map (Entry.mapValue (change h.index))) ∧ (¬ chosen h → after.get? h = before.get? h)

-- The entry under a key is gone and handed back, or there was none.
def Removed (key : κ) (before after : Store ι (Entry κ ν) μ) : Option (Entry κ ν) → Prop
  | some entry => same entry.key key ∧ before.pool.contents = entry ::ₘ after.pool.contents ∧ Lacks same key after
  | none => Lacks same key before ∧ after.pool.contents = before.pool.contents

variable (ordered : List (Entry κ ν) → Prop) (blamed : Container)

-- Asking for the value under a key. If it is there, the builder is not run and nothing changes, not even the world. If it
-- is missing, room is made, and then the builder is run, once, in the world that this left.
inductive Fetched [Inhabited μ] [Index ι μ] [Allocator ω] (key : κ) (make : Query (Store ι (Entry κ ν) μ) ω ν)
    (before after : Session (Store ι (Entry κ ν) μ) ω) : Except Fault (Handle × ν) → Prop where
  | stored {h : Handle} {entry : Entry κ ν} : same entry.key key → before.store.get? h = some entry → after = before →
    Fetched key make before after (.ok (h, entry.value))
  | built {h : Handle} {value : ν} {renumbered : Bool} {middle : Session (Store ι (Entry κ ν) μ) ω} :
    Lacks same key before.store → Store.makeRoom before = .ok (.ok renumbered) middle →
    make middle.store middle.gate = .ok value after.gate →
    after.store.pool.contents = ⟨key, value⟩ ::ₘ before.store.pool.contents → after.store.get? h = some ⟨key, value⟩ →
    Fetched key make before after (.ok (h, value))
  | failed {fault : Fault} {renumbered : Bool} {middle : Session (Store ι (Entry κ ν) μ) ω} :
    Lacks same key before.store → Store.makeRoom before = .ok (.ok renumbered) middle →
    make middle.store middle.gate = .error fault after.gate →
    after.store.pool.contents = before.store.pool.contents → Fetched key make before after (.error fault)
  | refused {error : CapacityError} : Lacks same key before.store → Store.makeRoom before = .ok (.error error) after →
    after.store = before.store → Store.NoRoom before.store error →
    Fetched key make before after (.error (.growth blamed .insertWith error))

theorem Fetched.held [Inhabited μ] [Index ι μ] [Allocator ω] {same : κ → κ → Prop} {blamed : Container} {key : κ}
    {make : Query (Store ι (Entry κ ν) μ) ω ν} {before after : Session (Store ι (Entry κ ν) μ) ω} {h : Handle} {value : ν}
    (alike : Equivalence same) (fetched : Fetched same blamed key make before after (.ok (h, value))) :
    ∃ entry, same entry.key key ∧ value = entry.value ∧ after.store.get? h = some entry := by
  cases fetched with
  | stored same held stay => exact ⟨_, same, rfl, stay ▸ held⟩
  | built _ _ _ _ held => exact ⟨_, alike.refl key, rfl, held⟩

variable (container : Container)

-- A refused insertion is blamed on the set of entries, a missing key on the map.
def MapMeets [Inhabited μ] [Index ι μ] [Allocator ω] (before after : Session (Store ι (Entry κ ν) μ) ω) :
    MapAction (Store ι (Entry κ ν) μ) κ ν ω → Except Fault (MapReply κ ν) → Prop
  | .entries action, .ok (.entries reply) =>
    Meets (Alike same) ordered blamed before.store after.store action (.ok reply)
  | .entries action, .error fault => Meets (Alike same) ordered blamed before.store after.store action (.error fault)
  | .find key, .ok (.entries (.found found)) => after = before ∧ LeadsTo same key before.store found
  | .containsKey key, .ok (.entries (.holds answer)) =>
    after = before ∧ (answer = true ↔ ∃ entry ∈ before.store.pool.contents, same entry.key key)
  | .get key, .ok (.value value) =>
    after = before ∧ ∃ entry, Under same key before.store entry ∧ value = entry.map (·.value)
  | .getEntry key, .ok (.entries (.element entry)) => after = before ∧ Under same key before.store entry
  | .index key, .ok (.value (some value)) =>
    after = before ∧ ∃ entry, Under same key before.store (some entry) ∧ value = entry.value
  | .index key, .error (.keyNotFound named) => named = container ∧ after = before ∧ Lacks same key before.store
  | .update key _, .ok (.value none) => after = before ∧ Lacks same key before.store
  | .update key change, .ok (.value (some value)) => ∃ h entry, same entry.key key ∧ value = change entry.value ∧
    Revalued change before.store after.store h entry
  | .updateAt h _, .ok (.entries (.element none)) => after = before ∧ before.store.get? h = none
  | .updateAt h change, .ok (.entries (.element (some entry))) => ∃ was, entry = was.mapValue change ∧
    Revalued change before.store after.store h was
  | .replace key value, .ok (.value none) =>
    Lacks same key before.store ∧ after.store.pool.contents = ⟨key, value⟩ ::ₘ before.store.pool.contents
  | .replace key value, .ok (.value (some old)) => ∃ h entry, same entry.key key ∧ old = entry.value ∧
    Revalued (fun _ => value) before.store after.store h entry
  | .replace key _, .error (.growth named .insert error) => named = blamed ∧ Lacks same key before.store ∧
    after.store = before.store ∧ Store.NoRoom before.store error
  | .fetch key make change, .ok (.fetched stored last) => ∃ h entry middle,
    Fetched same blamed key make before middle (.ok (h, stored)) ∧ same entry.key key ∧ stored = entry.value ∧
      last = some (change stored) ∧ Revalued change middle.store after.store h entry ∧ after.gate = middle.gate
  | .fetch key make _, .error fault => Fetched same blamed key make before after (.error fault)
  | .remove key, .ok (.value value) => ∃ entry, Removed same key before.store after.store entry ∧
    value = entry.map (·.value)
  | .removeEntry key, .ok (.entries (.element entry)) => Removed same key before.store after.store entry
  | .removeAll keys, .ok (.entries (.count n)) => ∃ taken : Multiset (Entry κ ν),
    before.store.pool.contents = taken + after.store.pool.contents ∧ n = taken.card ∧
      (∀ entry ∈ taken, ∃ key ∈ keys, same entry.key key) ∧ ∀ key ∈ keys, Lacks same key after.store
  | .extract key _ _, .ok (.entries (.element none)) => after = before ∧ Lacks same key before.store
  | .extract key change ending, .ok (.entries (.ended was got)) => same was.key key ∧
    ∃ rest, before.store.pool.contents = was ::ₘ rest ∧
      Finished (Alike same) (change was) rest after.store ending got
  | _, _ => False

inductive Stores {σ : Type} : MapAction σ κ ν ω → MapReply κ ν → κ → ν → Prop where
  | inserted {key : κ} {value : ν} {h : Handle} :
    Stores (.entries (.insert ⟨key, value⟩)) (.entries (.placed h true)) key value
  | replaced {key : κ} {value : ν} {old : Option ν} : Stores (.replace key value) (.value old) key value
  | updated {key : κ} {value : ν} {change : ν → ν} : Stores (.update key change) (.value (some value)) key value
  | fetched {key : κ} {value stored : ν} {make : Query σ ω ν} {change : ν → ν} :
    Stores (.fetch key make change) (.fetched stored (some value)) key value

-- The value is there under a key of the class, in place of another or of none, and the other entries stay.
def Written (key : κ) (value : ν) (before after : Store ι (Entry κ ν) μ) : Prop :=
  ∃ kept rest, same kept key ∧ after.pool.contents = ⟨kept, value⟩ ::ₘ rest ∧
    (before.pool.contents = rest ∨ ∃ old, before.pool.contents = ⟨kept, old⟩ ::ₘ rest)

section Written

variable {same : κ → κ → Prop} {key : κ} {value : ν}

theorem Revalued.written {change : ν → ν} {before after : Store ι (Entry κ ν) μ} {h : Handle} {entry : Entry κ ν}
    (revalued : Revalued change before after h entry) (alike : same entry.key key) :
    Written same key (change entry.value) before after := by
  obtain ⟨_, _, rest, had, has⟩ := revalued
  exact ⟨entry.key, rest, alike, has, .inr ⟨entry.value, had⟩⟩

theorem MapMeets.written [Inhabited μ] [Index ι μ] [Allocator ω] {ordered : List (Entry κ ν) → Prop}
    {blamed container : Container} {before after : Session (Store ι (Entry κ ν) μ) ω}
    {action : MapAction (Store ι (Entry κ ν) μ) κ ν ω} {reply : MapReply κ ν} (alike : Equivalence same)
    (meets : MapMeets same ordered blamed container before after action (.ok reply))
    (stores : Stores action reply key value) :
    Written same key value before.store after.store := by
  cases stores with
  | inserted =>
    obtain ⟨_, contents, _⟩ := meets
    exact ⟨key, _, alike.refl key, contents, .inl rfl⟩
  | @replaced _ _ old =>
    cases old with
    | none => exact ⟨key, _, alike.refl key, meets.2, .inl rfl⟩
    | some old =>
      obtain ⟨h, entry, matching, _, revalued⟩ := meets
      exact revalued.written matching
  | updated =>
    obtain ⟨h, entry, matching, rfl, revalued⟩ := meets
    exact revalued.written matching
  | fetched =>
    obtain ⟨h, entry, middle, fetched, matching, told, last, revalued, _⟩ := meets
    obtain ⟨held, _, rest, had, has⟩ := revalued
    rw [told] at last
    cases last
    refine ⟨entry.key, rest, matching, has, ?_⟩
    cases fetched with
    | stored _ _ stay =>
      rw [stay] at had
      exact .inr ⟨entry.value, had⟩
    | built _ _ _ contents there =>
      cases held.symm.trans there
      exact .inl ((Multiset.cons_inj_right _).mp (contents.symm.trans had))

theorem Written.under {before after : Store ι (Entry κ ν) μ} (alike : Equivalence same)
    (written : Written same key value before after) (wanted : κ) :
    (same key wanted → ∃ kept, Under same wanted after (some ⟨kept, value⟩)) ∧
      (¬ same key wanted → ∀ entry, Under same wanted before entry → Under same wanted after entry) := by
  obtain ⟨kept, rest, matching, has, had⟩ := written
  refine ⟨fun within => ⟨kept, ?_, alike.trans matching within⟩, fun beyond entry under => ?_⟩
  · rw [has]
    exact Multiset.mem_cons_self _ _
  have other : ¬ same kept wanted := fun within => beyond (alike.trans (alike.symm matching) within)
  have within : ∀ {e : Entry κ ν}, e ∈ rest → e ∈ before.pool.contents := by
    intro e member
    rcases had with had | ⟨old, had⟩
    · exact had ▸ member
    · exact had ▸ Multiset.mem_cons_of_mem member
  cases entry with
  | none =>
    intro e member
    rw [has] at member
    cases Multiset.mem_cons.mp member with
    | inl equal => exact equal ▸ other
    | inr member => exact under e (within member)
  | some e =>
    obtain ⟨member, found⟩ := under
    refine ⟨?_, found⟩
    rw [has]
    rcases had with had | ⟨old, had⟩
    · exact Multiset.mem_cons_of_mem (had ▸ member)
    · rw [had] at member
      cases Multiset.mem_cons.mp member with
      | inl equal =>
        rw [equal] at found
        exact absurd found other
      | inr member => exact Multiset.mem_cons_of_mem member

end Written

-- A builder may do what it likes with its own world, but the flag is the container's.
def MapAction.Keeping {σ : Type} : MapAction σ κ ν ω → Prop
  | .entries action => ∀ h change, action ≠ .change h change
  | .fetch _ make _ => ∀ store gate, Always (make store) gate (·.busy = gate.busy)
  | _ => True

end Slotted
