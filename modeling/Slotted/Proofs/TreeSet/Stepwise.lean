import Slotted.Proofs.Stepwise
import Slotted.Proofs.Inward
namespace Slotted.TreeSet

variable {α ω : Type} {inner outer : ∀ {β : Type}, Query (TreeSet α) ω β → Query (TreeSet α) ω β → Prop}
  {order order' : α → Query (TreeSet α) ω Ordering} {probe probe' : Probe (TreeSet α) ω α}
  {rule rule' : OrderRule (TreeSet α) ω α}

section Stepwise

variable (stepwise : Query.Stepwise inner) (ordered : ∀ value, inner (order value) (order' value))
include stepwise ordered

theorem descend_alike (fuel parent n : Nat) (side : Side) :
    inner (descend order fuel parent n side) (descend order' fuel parent n side) := by
  induction fuel generalizing parent n side with
  | zero =>
    unfold descend
    split
    · exact stepwise.pure _
    · exact stepwise.throw trivial
  | succ fuel ih =>
    unfold descend
    split
    · exact stepwise.pure _
    · refine stepwise.bind stepwise.read fun s => stepwise.bind (stepwise.lift (s.pool.link_looksInside n)) fun link => ?_
      refine stepwise.bind stepwise.read fun s => stepwise.bind (stepwise.lift (s.pool.value_looksInside n)) fun value => ?_
      refine stepwise.bind (ordered value) fun answer => ?_
      cases answer with
      | eq => exact stepwise.pure _
      | gt => exact ih _ _ _
      | lt => exact ih _ _ _

theorem boundFrom_alike (wanted : Side) (inclusive : Bool) (fuel best n : Nat) :
    inner (boundFrom wanted inclusive order fuel best n) (boundFrom wanted inclusive order' fuel best n) := by
  induction fuel generalizing best n with
  | zero =>
    unfold boundFrom
    split
    · exact stepwise.pure _
    · exact stepwise.throw trivial
  | succ fuel ih =>
    unfold boundFrom
    split
    · exact stepwise.pure _
    · refine stepwise.bind stepwise.read fun s => stepwise.bind (stepwise.lift (s.pool.link_looksInside n)) fun link => ?_
      refine stepwise.bind stepwise.read fun s => stepwise.bind (stepwise.lift (s.pool.value_looksInside n)) fun value => ?_
      refine stepwise.bind (ordered value) fun answer => ?_
      cases answer with
      | eq =>
        dsimp only
        split
        · exact stepwise.pure _
        · exact ih _ _
      | gt => exact ih _ _
      | lt => exact ih _ _

end Stepwise

theorem agree_alike {same same' : α → α → Query (TreeSet α) ω Bool} (outside : Query.Stepwise outer)
    (alike : ∀ a b, outer (same a b) (same' a b)) (other : TreeSet α) (n : Nat) (mine theirs : Cursor) :
    outer (agree same other n mine theirs) (agree same' other n mine theirs) := by
  induction n generalizing mine theirs with
  | zero => exact outside.pure _
  | succ n ih =>
    refine outside.bind outside.read fun s => outside.bind (outside.lift (Cursor.next_looksInside s mine)) fun step => ?_
    split
    · refine outside.bind (outside.lift (Cursor.next_looksInside other theirs)) fun step => ?_
      split
      · refine outside.bind (alike _ _) fun answer => ?_
        split
        · exact ih _ _
        · exact outside.pure _
      · exact outside.pure _
    · exact outside.pure _

theorem sameElementsBy_alike {same same' : α → α → Query (TreeSet α) ω Bool} (outside : Query.Stepwise outer)
    (alike : ∀ a b, outer (same a b) (same' a b)) (other : TreeSet α) :
    outer (sameElementsBy same other) (sameElementsBy same' other) := by
  refine outside.bind outside.read fun s => ?_
  split
  · exact outside.pure _
  · refine outside.bind (outside.lift s.cursor_looksInside) fun mine => ?_
    exact outside.bind (outside.lift other.cursor_looksInside) fun theirs => agree_alike outside alike _ _ _ _

theorem sameElements_alike (outside : Query.Stepwise outer) (same : rule.Alike outer rule') (other : TreeSet α) :
    outer (sameElements rule other) (sameElements rule' other) := by
  refine sameElementsBy_alike outside (fun a b => ?_) other
  exact outside.bind (same a b) fun _ => outside.pure _

section Probe

variable (encloses : Query.Encloses inner outer) (same : probe.Alike inner probe')
include encloses same

theorem locate_alike : outer (locate probe) (locate probe') := by
  have inside := encloses.inside
  refine encloses.guarded (inside.bind inside.read fun s => inside.bind inside.read fun s => ?_)
  rw [same.memory]
  exact descend_alike inside same.order _ _ _ _

theorem findBy_alike : outer (findBy probe) (findBy probe') := by
  have outside := encloses.outside
  refine outside.bind (locate_alike encloses same) fun place => ?_
  cases place with
  | found i => exact outside.bind (outside.lift (Handle.ofIndex_looksInside i)) fun h => outside.pure _
  | vacant parent side => exact outside.pure _

theorem placeAgain_alike (renumbered : Bool) (parent : Nat) (side : Side) :
    outer (placeAgain probe renumbered parent side) (placeAgain probe' renumbered parent side) := by
  unfold placeAgain
  split
  · refine encloses.outside.bind (locate_alike encloses same) fun place => ?_
    cases place <;> exact encloses.outside.pure _
  · exact encloses.outside.pure _

theorem bound_alike (wanted : Side) (inclusive : Bool) :
    outer (bound wanted inclusive probe) (bound wanted inclusive probe') := by
  have inside := encloses.inside
  refine encloses.outside.bind (encloses.guarded ?_) fun best => encloses.outside.pure _
  refine inside.bind inside.read fun s => inside.bind inside.read fun s => ?_
  rw [same.memory]
  exact boundFrom_alike inside same.order _ _ _ _ _

theorem resolved_alike (wanted : Side) (inclusive : Bool) :
    outer (resolved (bound wanted inclusive probe)) (resolved (bound wanted inclusive probe')) := by
  have outside := encloses.outside
  refine outside.bind (bound_alike encloses same wanted inclusive) fun found => ?_
  cases found with
  | none => exact outside.pure _
  | some h => exact outside.bind outside.read fun s => outside.pure _

end Probe

section Rule

variable (encloses : Query.Encloses inner outer) (same : rule.Alike inner rule')
include encloses same

theorem find_alike (value : α) : outer (find rule value) (find rule' value) := findBy_alike encloses (same.probe value)

theorem contains_alike (value : α) : outer (contains rule value) (contains rule' value) :=
  encloses.outside.bind (find_alike encloses same value) fun _ => encloses.outside.pure _

theorem near_alike (wanted : Side) (inclusive : Bool) (value : α) :
    outer (near rule wanted inclusive value) (near rule' wanted inclusive value) :=
  resolved_alike encloses (same.probe value) wanted inclusive

omit encloses in
theorem checkOrder_alike (inside : Query.Stepwise inner) (fuel prev i : Nat) :
    inner (checkOrder rule fuel prev i).run (checkOrder rule' fuel prev i).run := by
  induction fuel generalizing prev i with
  | zero =>
    unfold checkOrder
    split
    · exact inside.verdict (.ok _)
    · exact inside.throw trivial
  | succ fuel ih =>
    have onward : ∀ p : Pool α TreeLink, inner (do checkOrder rule fuel i (← p.neighbour .right i) : Audit _ ω Unit).run
        (do checkOrder rule' fuel i (← p.neighbour .right i) : Audit _ ω Unit).run := fun p =>
      inside.continues (inside.asked (inside.lift (p.neighbour_looksInside .right i))) fun next => ih _ _
    unfold checkOrder
    split
    · exact inside.verdict (.ok _)
    · refine inside.continues (inside.asked inside.read) fun s => ?_
      dsimp only
      split
      · refine inside.continues (inside.asked (inside.lift (s.pool.value_looksInside prev))) fun before => ?_
        refine inside.continues (inside.asked (inside.lift (s.pool.value_looksInside i))) fun here => ?_
        exact inside.continues (inside.asked (same before here)) fun answer => inside.passes (onward _)
      · exact onward _

theorem check_alike : outer (check rule) (check rule') := by
  have outside := encloses.outside
  change outer (audit rule).run (audit rule').run
  unfold audit
  refine outside.continues (outside.asked outside.read) fun s => outside.continues (outside.verdict _) fun _ => ?_
  refine encloses.guarded (encloses.inside.continues ?_ fun first => checkOrder_alike same encloses.inside _ _ _)
  exact encloses.inside.asked (encloses.inside.lift (s.extremeSlot_looksInside .left))

end Rule
end Slotted.TreeSet

namespace Slotted.TreeMap

variable {κ ν ω : Type} {inner outer : ∀ {β : Type}, Query (TreeMap κ ν) ω β → Query (TreeMap κ ν) ω β → Prop}
  {rule rule' : OrderRule (TreeMap κ ν) ω κ} (encloses : Query.Encloses inner outer) (same : rule.Alike inner rule')

include same in
theorem probe_alike (key : κ) : (probe rule key).Alike inner (probe rule' key) := ⟨fun entry => same entry.key key, rfl⟩

include encloses same

theorem find_alike (key : κ) : outer (find rule key) (find rule' key) := TreeSet.findBy_alike encloses (probe_alike same key)

theorem near_alike (wanted : Side) (inclusive : Bool) (key : κ) :
    outer (near rule wanted inclusive key) (near rule' wanted inclusive key) :=
  TreeSet.resolved_alike encloses (probe_alike same key) wanted inclusive

omit encloses in
theorem sameEntries_alike (outside : Query.Stepwise inner) (sameValue : ν → ν → Bool) (other : TreeMap κ ν) :
    inner (sameEntries rule sameValue other) (sameEntries rule' sameValue other) := by
  refine TreeSet.sameElementsBy_alike outside (fun a b => ?_) other
  refine outside.bind (same a.key b.key) fun answer => ?_
  split
  · exact outside.pure _
  · exact outside.pure _

end Slotted.TreeMap
