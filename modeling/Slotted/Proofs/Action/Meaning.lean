import Slotted.Proofs.Store.Bodies
import Slotted.Proofs.Action.Walk
import Slotted.Proofs.Action.History
import Slotted.Action.Set
namespace Slotted

variable {ι α μ : Type} (same : α → α → Prop)

-- No stored element is the same as this one.
def Missing (value : α) (s : Store ι α μ) : Prop := ∀ stored ∈ s.pool.contents, ¬ same stored value

-- Putting a value in: either it was missing and is the one element more, or the same one was there and stays.
def Placed (value : α) (before after : Store ι α μ) (h : Handle) : Bool → Prop
  | true => Missing same value before ∧ after.pool.contents = value ::ₘ before.pool.contents ∧ after.get? h = some value
  | false => after.pool.contents = before.pool.contents ∧ ∃ stored, same stored value ∧ after.get? h = some stored

-- There was no room for a missing value, and nothing was done.
def Refused (value : α) (before after : Store ι α μ) (error : CapacityError) : Prop :=
  Missing same value before ∧ after = before ∧ Store.NoRoom before error

def FoundIn (value : α) (s : Store ι α μ) : Option Handle → Prop
  | some h => ∃ stored, same stored value ∧ s.get? h = some stored
  | none => Missing same value s

theorem FoundIn.isSome_iff {same : α → α → Prop} {value : α} {s : Store ι α μ} {found : Option Handle}
    (finds : FoundIn same value s found) : found.isSome = true ↔ ∃ stored ∈ s.pool.contents, same stored value := by
  cases found with
  | none =>
    refine iff_of_false Bool.false_ne_true ?_
    intro given
    obtain ⟨stored, held, alike⟩ := given
    exact finds stored held alike
  | some h =>
    obtain ⟨stored, alike, held⟩ := finds
    exact iff_of_true rfl ⟨stored, Pool.mem_contents.mpr ⟨_, held⟩, alike⟩

-- A value read under a handle leads back to that handle.
theorem Store.handleOf_lent {value : α} {s : Store ι α μ} {h : Handle} (held : s.get? h = some value) :
    s.handleOf ⟨value, some h.index⟩ = .ok (some h) := by
  have there : s.pool.get? h.index = some value := held
  simp [Store.handleOf, there, Handle.ofIndex, h.pos, Functor.map, Except.map]

-- Values put in one after another; those already there are passed over.
inductive Gathers : List α → Multiset α → Multiset α → Prop where
  | nil {held : Multiset α} : Gathers [] held held
  | known {value stored : α} {values : List α} {held result : Multiset α} : stored ∈ held → same stored value →
    Gathers values held result → Gathers (value :: values) held result
  | fresh {value : α} {values : List α} {held result : Multiset α} : (∀ stored ∈ held, ¬ same stored value) →
    Gathers values (value ::ₘ held) result → Gathers (value :: values) held result

def Finished (value : α) (rest : Multiset α) (after : Store ι α μ) : Ending → Ended α → Prop
  | .drop, .dropped => after.pool.contents = rest
  | .release, .released got => got = value ∧ after.pool.contents = rest
  | .peek, .shown got => got = value ∧ after.pool.contents = rest
  | .reinsert, .reinserted h true =>
    (∀ stored ∈ rest, ¬ same stored value) ∧ after.pool.contents = value ::ₘ rest ∧ after.get? h = some value
  | .reinsert, .reinserted h false => after.pool.contents = rest ∧ ∃ stored, same stored value ∧ after.get? h = some stored
  | _, _ => False

-- A list of all elements with their handles, in an order that the index keeps.
structure Lists (ordered : List α → Prop) (s : Store ι α μ) (listing : List (Handle × α)) : Prop where
  all : s.pool.contents = (listing.map (·.2) : List α)
  live : ∀ entry ∈ listing, s.get? entry.1 = some entry.2
  ordered : ordered (listing.map (·.2))

variable (ordered : List α → Prop) (container : Container)

def Meets (before after : Store ι α μ) : SetAction α → Except Fault (Reply α) → Prop
  | .insert value, .ok (.placed h fresh) => Placed same value before after h fresh
  | .insert value, .error (.growth blamed .insert error) => blamed = container ∧ Refused same value before after error
  | .tryInsert value, .ok (.placed h fresh) => Placed same value before after h fresh
  | .tryInsert value, .ok (.refused error) => Refused same value before after error
  | .extend values, .ok .done => Gathers same values before.pool.contents after.pool.contents
  | .extend values, .error (.growth blamed .insert error) => blamed = container ∧ ∃ taken value left,
    values = taken ++ value :: left ∧ Gathers same taken before.pool.contents after.pool.contents ∧
      Refused same value after after error
  | .find value, .ok (.found found) => after = before ∧ FoundIn same value before found
  | .contains value, .ok (.holds answer) =>
    after = before ∧ (answer = true ↔ ∃ stored ∈ before.pool.contents, same stored value)
  | .get h, .ok (.element value) => after = before ∧ value = before.get? h
  | .change _ _, _ => True
  | .handleOf h, .ok (.found found) => after = before ∧ found = (before.get? h).map fun _ => h
  | .handleOfOther _, .ok (.found found) => after = before ∧ found = none
  | .remove h, .ok (.element none) => before.get? h = none ∧ after = before
  | .remove h, .ok (.element (some value)) =>
    before.get? h = some value ∧ before.pool.contents = value ::ₘ after.pool.contents ∧ after.get? h = none
  | .take value, .ok (.element none) => Missing same value before ∧ after = before
  | .take value, .ok (.element (some stored)) =>
    same stored value ∧ before.pool.contents = stored ::ₘ after.pool.contents ∧ Missing same value after
  | .takeAll values, .ok (.count n) => ∃ taken : Multiset α, before.pool.contents = taken + after.pool.contents ∧
    n = taken.card ∧ (∀ stored ∈ taken, ∃ value ∈ values, same stored value) ∧ ∀ value ∈ values, Missing same value after
  | .extract h _ _, .ok (.element none) => before.get? h = none ∧ after = before
  | .extract h change ending, .ok (.ended was got) => before.get? h = some was ∧
    ∃ rest, before.pool.contents = was ::ₘ rest ∧ Finished same (change was) rest after ending got
  | .extractEqual value _ _, .ok (.element none) => Missing same value before ∧ after = before
  | .extractEqual value change ending, .ok (.ended was got) => same was value ∧
    ∃ rest, before.pool.contents = was ::ₘ rest ∧ Finished same (change was) rest after ending got
  | .walk strides, .ok (.walked items) =>
    after = before ∧ ∃ listing, Lists ordered before listing ∧ items = consume strides listing
  | .list, .ok (.listed items) =>
    after = before ∧ ∃ listing, Lists ordered before listing ∧ items = listing.map (·.2)
  | .isEmpty, .ok (.holds answer) => after = before ∧ (answer = true ↔ before.pool.contents = 0)
  | .check, .ok (.checked answer) => after = before ∧ answer = .ok ()
  | .reorder, .ok .done => after.pool.contents = before.pool.contents
  | .clear, .ok .done => after.pool.contents = 0
  | .resize _, .ok (.room _) => after.pool.contents = before.pool.contents
  | .reserve _, .ok (.room _) => after.pool.contents = before.pool.contents
  | _, _ => False

theorem Meets.blames {same : α → α → Prop} {ordered : List α → Prop} {container : Container} {before after : Store ι α μ}
    {action : SetAction α} {fault : Fault} (meets : Meets same ordered container before after action (.error fault))
    (kept : ∀ h change, action ≠ .change h change) : ∃ error, fault = .growth container .insert error := by
  cases action with
  | change h change => exact absurd rfl (kept h change)
  | insert value | extend values =>
    cases fault with
    | growth blamed call error =>
      cases call with
      | insert => exact ⟨error, by rw [meets.1]⟩
      | _ => exact meets.elim
    | _ => exact meets.elim
  | _ => exact meets.elim

end Slotted
