import Slotted.Proofs.Stepwise
import Slotted.Proofs.Store.Refusal
import Slotted.HashMap
namespace Slotted.HashSet

variable {α ω : Type} {inner outer : ∀ {β : Type}, Query (HashSet α) ω β → Query (HashSet α) ω β → Prop} {hash : UInt32}
  {rule rule' : HashRule (HashSet α) ω α}

theorem walk_alike {accepts accepts' : α → Query (HashSet α) ω Bool} (stepwise : Query.Stepwise inner)
    (accepted : ∀ value, inner (accepts value) (accepts' value)) (fuel i : Nat) :
    inner (walk hash accepts fuel i) (walk hash accepts' fuel i) := by
  induction fuel generalizing i with
  | zero =>
    unfold walk
    split
    · exact stepwise.pure _
    · exact stepwise.throw trivial
  | succ fuel ih =>
    unfold walk
    split
    · exact stepwise.pure _
    · refine stepwise.bind stepwise.read fun s => stepwise.bind (stepwise.lift (s.pool.link_looksInside i)) fun link => ?_
      dsimp only
      split
      · refine stepwise.bind stepwise.read fun s => stepwise.bind (stepwise.lift (s.pool.value_looksInside i)) fun value => ?_
        refine stepwise.bind (accepted value) fun answer => ?_
        split
        · exact stepwise.pure _
        · exact ih _
      · exact ih _

variable (encloses : Query.Encloses inner outer)
include encloses

theorem findHashed_alike (accepts accepts' : α → Query (HashSet α) ω Bool)
    (accepted : ∀ value, inner (accepts value) (accepts' value)) :
    outer (findHashed hash accepts) (findHashed hash accepts') := by
  have inside := encloses.inside
  refine encloses.outside.bind encloses.outside.read fun s => ?_
  split
  · exact encloses.outside.pure _
  · refine encloses.guarded (inside.bind inside.read fun s => ?_)
    refine inside.bind (inside.lift (s.index.select_looksInside hash)) fun bucket => ?_
    exact inside.bind inside.read fun s => inside.bind inside.read fun _ => walk_alike inside accepted _ _

theorem findBy_alike (accepts accepts' : α → Query (HashSet α) ω Bool)
    (accepted : ∀ value, inner (accepts value) (accepts' value)) :
    outer (findBy hash accepts) (findBy hash accepts') := by
  have outside := encloses.outside
  refine outside.bind (findHashed_alike encloses _ _ accepted) fun found => ?_
  cases found with
  | none => exact outside.pure _
  | some i => exact outside.bind (outside.lift (Handle.ofIndex_looksInside i)) fun h => outside.pure _

variable (same : rule.Alike inner rule')
include same

theorem hashOf_alike (value : α) : outer (hashOf rule value) (hashOf rule' value) := encloses.guarded (same.hash value)

theorem find_alike (value : α) : outer (find rule value) (find rule' value) :=
  encloses.outside.bind (hashOf_alike encloses same value) fun _ => findBy_alike encloses _ _ fun stored => same.equal stored value

theorem contains_alike (value : α) : outer (contains rule value) (contains rule' value) :=
  encloses.outside.bind (find_alike encloses same value) fun _ => encloses.outside.pure _

theorem sameElements_alike (other : HashSet α) : outer (sameElements other rule) (sameElements other rule') := by
  refine encloses.outside.bind encloses.outside.read fun s => ?_
  split
  · exact encloses.outside.pure _
  · exact encloses.outside.allM (fun (_, value) => contains_alike encloses same value) _

theorem checkLinked_alike (bucket prev i : Nat) (seen : Array Bool) :
    outer (checkLinked rule bucket prev i seen).run (checkLinked rule' bucket prev i seen).run := by
  have outside := encloses.outside
  unfold checkLinked
  refine outside.continues (outside.asked outside.read) fun s => ?_
  split
  · exact outside.verdict _
  · refine outside.passes (outside.passes (outside.passes ?_))
    refine outside.continues (outside.asked outside.read) fun s => ?_
    refine outside.continues (outside.asked (outside.lift (s.index.select_looksInside _))) fun expected => outside.passes ?_
    refine outside.continues (outside.asked outside.read) fun s => ?_
    refine outside.continues (outside.asked (outside.lift (s.pool.value_looksInside i))) fun value => ?_
    refine outside.continues (outside.asked (hashOf_alike encloses same value)) fun hash => outside.passes ?_
    exact outside.verdict (.ok _)

theorem checkChain_alike (bucket fuel prev i : Nat) (seen : Array Bool) :
    outer (checkChain rule bucket fuel prev i seen).run (checkChain rule' bucket fuel prev i seen).run := by
  have outside := encloses.outside
  induction fuel generalizing prev i seen with
  | zero =>
    unfold checkChain
    split
    · exact outside.verdict (.ok _)
    · exact outside.verdict (.error _)
  | succ fuel ih =>
    unfold checkChain
    split
    · exact outside.verdict (.ok _)
    · exact outside.continues (checkLinked_alike encloses same bucket prev i seen) fun next => ih _ _ _

theorem check_alike : outer (check rule) (check rule') := by
  have outside := encloses.outside
  have each : ∀ (heads : List (Nat × Nat)) (size : Nat) (seen : Array Bool),
      outer (heads.foldlM (fun seen start => checkChain rule start.2 size 0 start.1 seen) seen : Audit _ ω _).run
        (heads.foldlM (fun seen start => checkChain rule' start.2 size 0 start.1 seen) seen : Audit _ ω _).run := by
    intro heads size
    induction heads with
    | nil => exact fun seen => outside.verdict (.ok seen)
    | cons head heads ih =>
      intro seen
      rw [List.foldlM_cons, List.foldlM_cons]
      exact outside.continues (checkChain_alike encloses same head.2 size 0 head.1 seen) ih
  change outer (audit rule).run (audit rule').run
  unfold audit
  refine outside.continues (outside.asked outside.read) fun s => outside.continues (outside.verdict _) fun _ => ?_
  exact outside.continues (each _ _ _) fun seen => outside.verdict _

end Slotted.HashSet

namespace Slotted.HashMap

variable {κ ν ω : Type} {inner outer : ∀ {β : Type}, Query (HashMap κ ν) ω β → Query (HashMap κ ν) ω β → Prop}
  {rule rule' : HashRule (HashMap κ ν) ω κ} (encloses : Query.Encloses inner outer) (same : rule.Alike inner rule')
include encloses same

theorem keyHash_alike (key : κ) : outer (keyHash rule key) (keyHash rule' key) := encloses.guarded (same.hash key)

theorem find_alike (key : κ) : outer (find rule key) (find rule' key) := by
  refine encloses.outside.bind (keyHash_alike encloses same key) fun _ => ?_
  exact HashSet.findBy_alike encloses _ _ fun entry => same.equal entry.key key

theorem sameEntries_alike (sameValue : ν → ν → Bool) (other : HashMap κ ν) :
    outer (sameEntries rule sameValue other) (sameEntries rule' sameValue other) := by
  have outside := encloses.outside
  refine outside.bind outside.read fun s => ?_
  split
  · exact outside.pure _
  · refine outside.allM (fun (_, entry) => ?_) _
    exact outside.bind (Keyed.get_alike outside _ _ (find_alike encloses same entry.key)) fun _ => outside.pure _

end Slotted.HashMap
