import Slotted.Proofs.Safety
import Slotted.Proofs.TreeSet.Unsteady
namespace Slotted

open Store Session
open TreeMap (Precedes fromSide)

variable {α κ ν ω : Type}

def Side.answer : Side → Ordering
  | .left => .lt
  | .right => .gt

namespace TreeSet

section Descent

variable {order : Nat → Ordering} {t : Tree}

-- The best element so far lies aside, so that it gives way to any better one below.
theorem nearest_eq (climbing : Climbing order t.slots) (wanted : Side) (best : Nat) :
    nearest wanted false order best t = ((t.toward wanted).find? fun i => order i == wanted.answer).getD best := by
  induction t generalizing best with
  | nil => cases wanted <;> rfl
  | node left i right ihl ihr =>
    obtain ⟨before, rest, across⟩ := List.pairwise_append.mp climbing
    obtain ⟨beyond, after⟩ := List.pairwise_cons.mp rest
    have toLeft := ihl before
    have toRight := ihr after
    have noGreater : order i ≠ .gt → left.slots.find? (fun j => order j == .gt) = none := fun here =>
      List.find?_eq_none.mpr fun j member greater => here ((across j member i List.mem_cons_self).1 (by simpa using greater))
    have noLess : order i ≠ .lt → right.slots.reverse.find? (fun j => order j == .lt) = none := fun here =>
      List.find?_eq_none.mpr fun j member less => here ((beyond j (List.mem_reverse.mp member)).2 (by simpa using less))
    unfold nearest
    cases told : order i with
    | lt =>
      have noGreater := noGreater (by simp [told])
      cases wanted with
      | left => simp [toRight, Tree.toward, Tree.slots, Side.answer, told]
      | right => simp [toRight, Tree.toward, Tree.slots, Side.answer, told, noGreater]
    | gt =>
      have noLess := noLess (by simp [told])
      cases wanted with
      | left => simp [toLeft, Tree.toward, Tree.slots, Side.answer, told, noLess]
      | right => simp [toLeft, Tree.toward, Tree.slots, Side.answer, told]
    | eq =>
      have noGreater := noGreater (by simp [told])
      have noLess := noLess (by simp [told])
      cases wanted with
      | left => simp [toLeft, Tree.toward, Tree.slots, Side.answer, told, noLess]
      | right => simp [toRight, Tree.toward, Tree.slots, Side.answer, told, noGreater]

-- An inclusive search takes the first equal element that it comes to, if there is any at all.
theorem nearest_inclusive (climbing : Climbing order t.slots) (wanted : Side) (best : Nat) :
    (∃ i ∈ t.slots, order i = .eq ∧ nearest wanted true order best t = i) ∨
      (∀ i ∈ t.slots, order i ≠ .eq) ∧ nearest wanted true order best t = nearest wanted false order best t := by
  induction t generalizing best with
  | nil => exact .inr ⟨fun _ none => absurd none List.not_mem_nil, rfl⟩
  | node left i right ihl ihr =>
    obtain ⟨before, rest, across⟩ := List.pairwise_append.mp climbing
    obtain ⟨beyond, after⟩ := List.pairwise_cons.mp rest
    unfold nearest
    simp only [Tree.slots, List.mem_append, List.mem_cons]
    cases told : order i with
    | eq => exact .inl ⟨i, .inr (.inl rfl), told, rfl⟩
    | lt =>
      dsimp only
      refine (ihr after (if wanted = .left then i else best)).imp ?_ ?_
      · intro found
        obtain ⟨j, member, equal, ends⟩ := found
        exact ⟨j, .inr (.inr member), equal, ends⟩
      · intro missing
        refine ⟨?_, missing.2⟩
        rintro j (member | rfl | member)
        · rw [(across j member i List.mem_cons_self).2 told]
          exact Ordering.noConfusion
        · rw [told]
          exact Ordering.noConfusion
        · exact missing.1 j member
    | gt =>
      dsimp only
      refine (ihl before (if wanted = .right then i else best)).imp ?_ ?_
      · intro found
        obtain ⟨j, member, equal, ends⟩ := found
        exact ⟨j, .inl member, equal, ends⟩
      · intro missing
        refine ⟨?_, missing.2⟩
        rintro j (member | rfl | member)
        · exact missing.1 j member
        · rw [told]
          exact Ordering.noConfusion
        · rw [(beyond j member).1 told]
          exact Ordering.noConfusion

end Descent

-- The answers along the order: less at first, equal then, greater in the end.
def Sorts (f : α → Ordering) (order : List (Handle × α)) : Prop :=
  ∃ lower same upper, order.map (fun entry => f entry.2) =
    List.replicate lower .lt ++ List.replicate same .eq ++ List.replicate upper .gt

def lastLess (f : α → Ordering) (order : List (Handle × α)) : Option Handle :=
  (order.filter fun entry => f entry.2 == .lt).getLast?.map (·.1)

def firstGreater (f : α → Ordering) (order : List (Handle × α)) : Option Handle :=
  (order.filter fun entry => f entry.2 == .gt).head?.map (·.1)

-- An element that is called equal if there is one, and else the one that is named.
def EqualOr (f : α → Ordering) (order : List (Handle × α)) (otherwise found : Option Handle) : Prop :=
  ((∃ entry ∈ order, f entry.2 = .eq) → ∃ entry ∈ order, f entry.2 = .eq ∧ found = some entry.1) ∧
    ((∀ entry ∈ order, f entry.2 ≠ .eq) → found = otherwise)

-- What the queries answer to a probe. None of them changes anything.
structure Navigates (f : α → Ordering) (memory : Nat) (s : Session (TreeSet α) ω) (order : List (Handle × α)) : Prop where
  find : ∃ found, Update.ask (findBy ⟨fun stored => pure (f stored), memory⟩) s = .ok found s ∧ EqualOr f order none found
  lower : Update.ask (lowerBy ⟨fun stored => pure (f stored), memory⟩) s = .ok (lastLess f order) s
  floor : ∃ found, Update.ask (floorBy ⟨fun stored => pure (f stored), memory⟩) s = .ok found s ∧
    EqualOr f order (lastLess f order) found
  ceil : ∃ found, Update.ask (ceilBy ⟨fun stored => pure (f stored), memory⟩) s = .ok found s ∧
    EqualOr f order (firstGreater f order) found
  higher : Update.ask (higherBy ⟨fun stored => pure (f stored), memory⟩) s = .ok (firstGreater f order) s

def Within (f : α → Ordering) (side : Side) (inclusive : Bool) (value : α) : Prop :=
  f value = side.answer ∨ inclusive = true ∧ f value = .eq

-- Among all elements there the one that comes next to the target.
def Closest (r : PureOrder α) (f : α → Ordering) (side : Side) (inclusive : Bool) (contents : Multiset α) :
    Option α → Prop
  | none => ∀ other ∈ contents, ¬ Within f side inclusive other
  | some value => value ∈ contents ∧ Within f side inclusive value ∧
    ∀ other ∈ contents, Within f side inclusive other → other = value ∨ Precedes r side other value

section Answers

variable {f : α → Ordering} {t : Tree} {s : TreeSet α} {order : List (Handle × α)} {side : Side} {found : Option Handle}

theorem Sorts.rising (sorts : Sorts f order) : Rising f (order.map (·.2)) := by
  obtain ⟨lower, same, upper, answers⟩ := sorts
  have falls : (order.map fun entry => f entry.2).Pairwise fun a b => (a = .gt → b = .gt) ∧ (b = .lt → a = .lt) := by
    rw [answers]
    refine List.pairwise_append.mpr ⟨List.pairwise_append.mpr ⟨?_, ?_, ?_⟩, ?_, ?_⟩
    · exact List.pairwise_replicate.mpr (.inr ⟨nofun, fun less => less⟩)
    · exact List.pairwise_replicate.mpr (.inr ⟨nofun, nofun⟩)
    · intro a first b second
      rw [List.eq_of_mem_replicate first, List.eq_of_mem_replicate second]
      exact ⟨nofun, nofun⟩
    · exact List.pairwise_replicate.mpr (.inr ⟨fun greater => greater, nofun⟩)
    · intro a _ b second
      rw [List.eq_of_mem_replicate second]
      exact ⟨fun _ => rfl, nofun⟩
  rw [List.pairwise_map] at falls
  exact List.pairwise_map.mpr falls

-- The first on the wanted side when one comes from the other.
def outermost (f : α → Ordering) (side : Side) (order : List (Handle × α)) : Option (Handle × α) :=
  (fromSide side.other order).find? fun entry => f entry.2 == side.answer

theorem outermost_left : (outermost f .left order).map (·.1) = lastLess f order := by
  rw [lastLess, ← List.head?_reverse, ← List.filter_reverse, List.head?_filter]
  rfl

theorem outermost_right : (outermost f .right order).map (·.1) = firstGreater f order := by
  rw [firstGreater, List.head?_filter]
  rfl

theorem fromSide_listing (sound : Sound t s) (side : Side) :
    (fromSide side.other (listing t s)).map (·.1.index) = t.toward side := by
  rw [TreeMap.map_fromSide, listing_indices sound]
  cases side <;> rfl

theorem shown_of_mem (sound : Sound t s) {entry : Handle × α} (member : entry ∈ listing t s) :
    shown f s.pool entry.1.index = f entry.2 :=
  shown_of_get? (((inOrder sound).1.resolves entry).mp member)

theorem nearest_outermost (sound : Sound t s) (rising : Rising f ((listing t s).map (·.2))) (side : Side) :
    Handle.ofIndex? (nearest side false (shown f s.pool) 0 t) = (outermost f side (listing t s)).map (·.1) := by
  rw [listing_values sound] at rising
  have same : (fromSide side.other (listing t s)).filter ((fun i => shown f s.pool i == side.answer) ∘ (·.1.index)) =
      (fromSide side.other (listing t s)).filter fun entry => f entry.2 == side.answer := by
    apply List.filter_congr
    intro entry member
    rw [Function.comp_apply, shown_of_mem sound ((TreeMap.fromSide_perm _ _).mem_iff.mp member)]
  rw [nearest_eq (rising.climbing sound), ← fromSide_listing sound, List.find?_map, ← List.head?_filter, same,
    List.head?_filter]
  rw [outermost]
  cases (fromSide side.other (listing t s)).find? fun entry => f entry.2 == side.answer with
  | none => rfl
  | some entry => exact Handle.ofIndex?_index entry.1

theorem equalOr_of_equal {entry : Handle × α} {otherwise : Option Handle} (member : entry ∈ order) (equal : f entry.2 = .eq) :
    EqualOr f order otherwise (some entry.1) :=
  ⟨fun _ => ⟨entry, member, equal, rfl⟩, fun none => absurd equal (none entry member)⟩

theorem equalOr_of_unequal (unequal : ∀ entry ∈ order, f entry.2 ≠ .eq) : EqualOr f order found found := by
  refine ⟨fun some => ?_, fun _ => rfl⟩
  obtain ⟨entry, member, equal⟩ := some
  exact absurd equal (unequal entry member)

def Bounds (f : α → Ordering) (side : Side) (inclusive : Bool) (order : List (Handle × α)) (found : Option Handle) : Prop :=
  match inclusive with
  | false => found = (outermost f side order).map (·.1)
  | true => EqualOr f order ((outermost f side order).map (·.1)) found

theorem bound_bounds (sound : Sound t s) (rising : Rising f ((listing t s).map (·.2))) (memory : Nat) (side : Side)
    (inclusive : Bool) : ∃ found, (bound (ω := ω) side inclusive ⟨fun stored => pure (f stored), memory⟩).Answers s found ∧
      Bounds f side inclusive (listing t s) found := by
  refine ⟨_, bound_answers sound f memory side inclusive, ?_⟩
  have exclusive := nearest_outermost sound rising side
  cases inclusive with
  | false => exact exclusive
  | true =>
    have climbing := Rising.climbing sound (listing_values sound ▸ rising)
    rcases nearest_inclusive climbing side 0 with ⟨i, member, equal, ends⟩ | ⟨unequal, ends⟩
    · obtain ⟨value, positive, held, _⟩ := item_eq sound member
      rw [shown_of_get? held] at equal
      rw [ends, show i = (⟨i, positive⟩ : Handle).index from rfl, Handle.ofIndex?_index]
      exact equalOr_of_equal (((inOrder sound).1.resolves (⟨i, positive⟩, value)).mpr held) equal
    · rw [ends, exclusive]
      refine equalOr_of_unequal fun entry member => ?_
      rw [← shown_of_mem (f := f) sound member]
      exact unequal _ (listing_indices sound ▸ List.mem_map_of_mem member)

theorem find_equalOr (sound : Sound t s) (rising : Rising f ((listing t s).map (·.2))) (memory : Nat) :
    ∃ found, (findBy (ω := ω) ⟨fun stored => pure (f stored), memory⟩).Answers s found ∧
      EqualOr f (listing t s) none found := by
  obtain ⟨found, answers, finds⟩ := findBy_answers (ω := ω) sound f memory
  refine ⟨found, answers, ?_⟩
  cases found with
  | none =>
    rw [listing_values sound] at rising
    refine equalOr_of_unequal fun entry member => finds.splits sound rising entry.2 ?_
    rw [← listing_values sound]
    exact List.mem_map_of_mem member
  | some h =>
    obtain ⟨value, held, equal⟩ := finds
    exact equalOr_of_equal (((inOrder sound).1.resolves (h, value)).mpr held) equal

variable {r : PureOrder α}

-- A probe that is no comparison may call many elements equal. One that is calls elements apart what they are.
def Separates (r : PureOrder α) (f : α → Ordering) : Prop := ∀ a b, r.compare a b = .lt → f a = .lt ∨ f b = .gt

theorem separates_compare (lawful : r.Lawful) (value : α) : Separates r (r.compare · value) := by
  intro a b less
  cases told : r.compare b value with
  | gt => exact .inr told
  | lt => exact .inl (lawful.trans a b value less told)
  | eq =>
    have same : r.compare a value = r.compare a b := by
      rw [lawful.swap value a, lawful.swap b a, lawful.class_left b value a told]
    exact .inl (same.trans less)

theorem Separates.rising (separates : Separates r f) {values : List α} (ascends : r.Ascends values) : Rising f values := by
  refine List.Pairwise.imp ?_ ascends
  intro a b less
  rcases separates a b less with first | second
  · exact ⟨fun greater => absurd (first.symm.trans greater) nofun, fun _ => first⟩
  · exact ⟨fun _ => second, fun first => absurd (second.symm.trans first) nofun⟩

theorem Within.outer {inclusive : Bool} {a b : α} (within : Within f side inclusive b) (separates : Separates r f)
    (precedes : Precedes r side a b) : f a = side.answer := by
  cases side with
  | left =>
    refine (separates a b precedes).resolve_right fun greater => ?_
    rcases within with less | ⟨_, equal⟩
    · exact absurd (greater.symm.trans less) nofun
    · exact absurd (greater.symm.trans equal) nofun
  | right =>
    refine (separates b a precedes).resolve_left fun less => ?_
    rcases within with greater | ⟨_, equal⟩
    · exact absurd (less.symm.trans greater) nofun
    · exact absurd (less.symm.trans equal) nofun

theorem Bounds.cases {inclusive : Bool} (bounds : Bounds f side inclusive order found) :
    (∃ entry ∈ order, inclusive = true ∧ f entry.2 = .eq ∧ found = some entry.1) ∨
      (inclusive = true → ∀ entry ∈ order, f entry.2 ≠ .eq) ∧ found = (outermost f side order).map (·.1) := by
  cases inclusive with
  | false => exact .inr ⟨nofun, bounds⟩
  | true =>
    by_cases some : ∃ entry ∈ order, f entry.2 = .eq
    · obtain ⟨entry, member, equal, named⟩ := bounds.1 some
      exact .inl ⟨entry, member, rfl, equal, named⟩
    · have unequal : ∀ entry ∈ order, f entry.2 ≠ .eq := fun entry member equal => some ⟨entry, member, equal⟩
      exact .inr ⟨fun _ => unequal, bounds.2 unequal⟩

-- When one comes from the other side, nothing is within before the element that is found.
theorem Bounds.position {inclusive : Bool} {h : Handle} (bounds : Bounds f side inclusive order (some h))
    (separates : Separates r f) (ahead : (fromSide side.other order).Pairwise fun a b => Precedes r side b.2 a.2) :
    ∃ before value after, fromSide side.other order = before ++ (h, value) :: after ∧ Within f side inclusive value ∧
      ∀ entry ∈ before, ¬ Within f side inclusive entry.2 := by
  rcases bounds.cases with ⟨entry, member, inclusive, equal, named⟩ | ⟨unequal, named⟩
  · cases named
    obtain ⟨before, after, split⟩ := List.append_of_mem ((TreeMap.fromSide_perm side.other order).mem_iff.mpr member)
    refine ⟨before, entry.2, after, split, .inr ⟨inclusive, equal⟩, fun other earlier within => ?_⟩
    rw [split] at ahead
    have outer := within.outer separates ((List.pairwise_append.mp ahead).2.2 other earlier entry List.mem_cons_self)
    rw [equal] at outer
    cases side <;> cases outer
  · obtain ⟨entry, first, same⟩ := Option.map_eq_some_iff.mp named.symm
    cases same
    obtain ⟨here, before, after, split, earlier⟩ := List.find?_eq_some_iff_append.mp first
    refine ⟨before, entry.2, after, split, .inl (by simpa using here), fun other member within => ?_⟩
    rcases within with outer | ⟨inclusive, equal⟩
    · simpa [outer] using earlier other member
    · refine unequal inclusive other ?_ equal
      exact (TreeMap.fromSide_perm side.other order).mem_iff.mp (split ▸ List.mem_append_left _ member)

theorem Bounds.closest {inclusive : Bool} (bounds : Bounds f side inclusive order found) (separates : Separates r f)
    (tours : Tours s order) (ascends : r.Ascends (order.map (·.2))) :
    Closest r f side inclusive (order.map (·.2) : List α) (found.bind s.get?) := by
  have perm := TreeMap.fromSide_perm side.other order
  have ahead : (fromSide side.other order).Pairwise fun a b => Precedes r side b.2 a.2 := by
    have precedes := TreeMap.precedes_fromSide side.other ascends
    rw [← TreeMap.map_fromSide, List.pairwise_map] at precedes
    exact precedes.imp TreeMap.precedes_other.mp
  cases found with
  | none =>
    intro other member within
    obtain ⟨entry, listed, rfl⟩ := List.mem_map.mp (Multiset.mem_coe.mp member)
    rcases bounds.cases with ⟨_, _, _, _, none⟩ | ⟨unequal, none⟩
    · cases none
    · rcases within with outer | ⟨inclusive, equal⟩
      · have absent := List.find?_eq_none.mp (Option.map_eq_none_iff.mp none.symm) entry (perm.mem_iff.mpr listed)
        simp [outer] at absent
      · exact unequal inclusive entry listed equal
  | some h =>
    obtain ⟨before, value, after, split, within, earlier⟩ := bounds.position separates ahead
    have member : (h, value) ∈ order := perm.mem_iff.mp (split ▸ List.mem_append_right _ List.mem_cons_self)
    rw [Option.bind_some, (tours.resolves (h, value)).mp member]
    refine ⟨Multiset.mem_coe.mpr (List.mem_map_of_mem member), within, fun other there inside => ?_⟩
    obtain ⟨entry, listed, rfl⟩ := List.mem_map.mp (Multiset.mem_coe.mp there)
    rw [← perm.mem_iff, split] at listed
    rw [split] at ahead
    rcases List.mem_append.mp listed with first | later
    · exact absurd inside (earlier entry first)
    · rcases List.mem_cons.mp later with rfl | later
      · exact .inl rfl
      · exact .inr ((List.pairwise_cons.mp (List.pairwise_append.mp ahead).2.1).1 entry later)

end Answers

section Sessions

variable {f : α → Ordering} {r : PureOrder α} {t : Tree} {s : Session (TreeSet α) ω}

theorem navigates (sound : Sound t s.store) (lowered : s.gate.busy = false) (memory : Nat)
    (sorts : Sorts f (listing t s.store)) : Navigates f memory s (listing t s.store) := by
  have rising := sorts.rising
  have bounds := fun side inclusive => bound_bounds (ω := ω) sound rising memory side inclusive
  obtain ⟨lower, lowers, least⟩ := bounds .left false
  obtain ⟨floor, floors, last⟩ := bounds .left true
  obtain ⟨ceil, ceils, first⟩ := bounds .right true
  obtain ⟨higher, highers, most⟩ := bounds .right false
  obtain ⟨found, answers, finds⟩ := find_equalOr (ω := ω) sound rising memory
  refine ⟨⟨found, answers.ask_run lowered, finds⟩, ?_, ⟨floor, floors.ask_run lowered, ?_⟩,
    ⟨ceil, ceils.ask_run lowered, ?_⟩, ?_⟩
  · rw [← outermost_left, ← least]
    exact lowers.ask_run lowered
  · rw [← outermost_left]
    exact last
  · rw [← outermost_right]
    exact first
  · rw [← outermost_right, ← most]
    exact highers.ask_run lowered

theorem resolved_closest (proper : Proper (Ascending r) t s.store) (lowered : s.gate.busy = false)
    (separates : Separates r f) (memory : Nat) (side : Side) (inclusive : Bool) :
    ∃ found, Update.ask (resolved (bound side inclusive ⟨fun stored => pure (f stored), memory⟩)) s = .ok found s ∧
      Closest r f side inclusive s.store.pool.contents found := by
  have sound := proper.sound
  have ascends : r.Ascends ((listing t s.store).map (·.2)) := (lists_listing proper).ordered
  obtain ⟨found, answers, bounds⟩ := bound_bounds (ω := ω) sound (separates.rising ascends) memory side inclusive
  refine ⟨_, (resolved_answers answers).ask_run lowered, ?_⟩
  rw [(lists_listing proper).all]
  exact bounds.closest separates (inOrder sound).1 ascends

end Sessions

theorem resolved_calm_of_calm {search : Query (TreeSet α) ω (Option Handle)} {store : TreeSet α}
    (calm : search.Calm (fun _ => True) store) : (resolved search).Calm (fun _ => True) store := by
  refine calm.bind fun found => ?_
  cases found with
  | none => exact Query.calm_pure _
  | some h => exact .read (Query.calm_pure _)

end TreeSet

def TreeSetAction.Asks : TreeSetAction α ω → Prop
  | .findBy _ | .bound _ _ _ | .near _ _ _ | .neighbour _ _ => True
  | _ => False

def TreeMapAction.Asks : TreeMapAction κ ν ω → Prop
  | .near _ _ _ | .neighbour _ _ => True
  | _ => False

variable [Allocator ω]

section Histories

variable {promise : List (α × Unit) → Prop} {s : Session (TreeSet α) ω}

omit [Allocator ω] in
theorem TreeSet.asked {β γ : Type} {query : Query (TreeSet α) ω β} (answer : β → γ) (settled : Settled promise s)
    (calm : query.Calm (fun _ => True) s.store) :
    Always (do return answer (← Update.ask query)) s (Settled promise) :=
  Ends.bind ((calm.asks settled.lowered).faulting fun _ _ told => settled.same told.2.1 told.2.2)
    fun _ _ told => settled.same told.1 told.2

theorem TreeSet.act_asks (rule : OrderRule (TreeSet α) ω α) {action : TreeSetAction α ω} (asks : action.Asks)
    (settled : Settled promise s) : Always (act rule action) s (Settled promise) := by
  cases action with
  | findBy probe => exact asked _ settled (findBy_calm probe _)
  | bound wanted inclusive probe => exact asked _ settled (bound_calm wanted inclusive probe _)
  | near wanted inclusive value => exact asked _ settled (resolved_calm_of_calm (bound_calm wanted inclusive _ _))
  | neighbour side h =>
    have same : Always (liftM (s.store.neighbourOf side h) : Update (TreeSet α) ω _) s (· = s) := always_lift _
    exact (same.imp fun after same => same ▸ settled).then fun _ _ kept => kept
  | _ => exact asks.elim

theorem TreeSet.reached_ascending {r : PureOrder α} (lawful : r.Lawful)
    (reached : TreeSet.Reached (TreeSet.act r.rule) (fun action => TreeSet.Keeping r action ∨ action.Asks) s) :
    Settled (TreeSet.Ascending r) s := by
  refine reached.keeps (fun start sound lowered => ⟨⟨.nil, sound, .nil⟩, lowered⟩) ?_
  intro action fair s settled
  rcases fair with keeping | asks
  · exact (TreeSet.act_performed lawful keeping settled).2
  · exact perform_keeps (TreeSet.act_asks _ asks settled)

theorem TreeMap.reached_ascending {r : PureOrder κ} {s : Session (TreeMap κ ν) ω} (lawful : r.Lawful)
    (reached : TreeSet.Reached (TreeMap.act r.rule) (fun action => action.Keeping ∨ action.Asks) s) :
    Settled (TreeSet.Ascending r.onKeys) s := by
  refine reached.keeps (fun start sound lowered => ⟨⟨.nil, sound, .nil⟩, lowered⟩) ?_
  intro action fair s settled
  rcases fair with keeping | asks
  · exact (TreeMap.act_performed lawful keeping settled).2
  · refine perform_keeps ?_
    cases action with
    | near wanted inclusive key =>
      exact TreeSet.asked _ settled (TreeSet.resolved_calm_of_calm (TreeSet.bound_calm wanted inclusive _ _))
    | neighbour side h =>
      have same : Always (liftM (s.store.neighbourOf side h) : Update (TreeMap κ ν) ω _) s (· = s) := always_lift _
      exact (same.imp fun after same => same ▸ settled).then fun _ _ kept => kept
    | _ => exact asks.elim

end Histories

namespace TreeSet

-- The books are in order after any history, so a list that goes by the links lists everything.
omit [Allocator ω] in
theorem InOrder.sound {s : TreeSet α} {order : List (Handle × α)} (inOrder : InOrder s order) (booked : s.pool.Booked) :
    ∃ t, Sound t s ∧ listing t s = order := by
  obtain ⟨tours, t, rooted, indices⟩ := inOrder
  have live : ∀ i, i ∈ t.slots ↔ s.pool.isActive i = true := by
    intro i
    rw [← indices, List.mem_map]
    constructor
    · intro given
      obtain ⟨entry, member, rfl⟩ := given
      exact Pool.isActive_of_get? ((tours.resolves entry).mp member)
    · intro active
      obtain ⟨value, held⟩ := booked.within.1.filled i active
      have positive : 0 < i := Nat.pos_of_ne_zero fun none => by simp [none, booked.within.1.idle] at active
      exact ⟨(⟨i, positive⟩, value), (tours.resolves _).mpr held, rfl⟩
  refine ⟨t, sound_of_booked booked rooted ⟨indices ▸ tours.once, live⟩, ?_⟩
  rw [listing, ← indices, List.filterMap_map]
  refine (List.filterMap_congr fun entry member => ?_).trans List.filterMap_some
  exact Pool.item_some ((tours.resolves entry).mp member) entry.1.pos

-- In any state of any tree that has an order, whatever its elements are and whatever the probe has to do with them: if the
-- answers rise along the order, then the queries find what the order says. Under a lawful comparison they find the closest
-- elements, as long as the elements are in order, and so they are unless somebody changed them in place or put one in
-- elsewhere.
theorem order_queries_are_exact :
    (∀ (rule : OrderRule (TreeSet α) ω α) (s : Session (TreeSet α) ω), Reached (act rule) (fun _ => True) s →
      s.gate.busy = false → ∀ order, InOrder s.store order → s.store.entries = .ok order ∧
        (∀ f memory, Sorts f order → Navigates f memory s order) ∧
        ∀ r : PureOrder α, r.Lawful → r.Ascends (order.map (·.2)) → ∀ side inclusive value, ∃ found,
          Update.ask (near r.rule side inclusive value) s = .ok found s ∧
            Closest r (r.compare · value) side inclusive s.store.pool.contents found) ∧
    (∀ (rule : OrderRule (TreeSet α) ω α) (r : PureOrder α) (s : Session (TreeSet α) ω), rule.Follows (fun _ => True) r →
      Tended rule s → s.gate.busy = false ∧ ∃ order, InOrder s.store order) ∧
    (∀ (r : PureOrder α) (s : Session (TreeSet α) ω), r.Lawful →
      Reached (act r.rule) (fun action => Keeping r action ∨ action.Asks) s → ∀ side inclusive value, ∃ found,
        Update.ask (near r.rule side inclusive value) s = .ok found s ∧
          Closest r (r.compare · value) side inclusive s.store.pool.contents found) ∧
    ∀ (r : PureOrder κ) (s : Session (TreeMap κ ν) ω), r.Lawful →
      Reached (TreeMap.act r.rule) (fun action => action.Keeping ∨ action.Asks) s → ∀ side inclusive key, ∃ found,
        Update.ask (TreeMap.near r.rule side inclusive key) s = .ok found s ∧
          Closest r.onKeys (fun entry => r.compare entry.key key) side inclusive s.store.pool.contents found := by
  refine ⟨?_, ?_, ?_, ?_⟩
  · intro rule s reached lowered order inOrder
    obtain ⟨t, sound, rfl⟩ := inOrder.sound reached.booked.pool
    refine ⟨entries_eq sound, fun f memory sorts => navigates sound lowered memory sorts, ?_⟩
    intro r lawful ascends side inclusive value
    rw [listing_values sound] at ascends
    exact resolved_closest ⟨sound, ascending_iff.mpr ascends⟩ lowered (separates_compare lawful value) 0 side inclusive
  · intro rule r s follows tended
    obtain ⟨⟨t, proper⟩, lowered⟩ := tended.settled follows
    exact ⟨lowered, _, inOrder proper.sound⟩
  · intro r s lawful reached side inclusive value
    obtain ⟨⟨t, proper⟩, lowered⟩ := reached_ascending lawful reached
    exact resolved_closest proper lowered (separates_compare lawful value) 0 side inclusive
  · intro r s lawful reached side inclusive key
    obtain ⟨⟨t, proper⟩, lowered⟩ := TreeMap.reached_ascending lawful reached
    refine resolved_closest proper lowered (fun a b less => ?_) 0 side inclusive
    exact separates_compare lawful key a.key b.key less

-- A tree that lost its root, asked by a probe that calls two elements equal, and about a number that it does not hold; and
-- a map asked about a key beyond all others.
theorem order_queries_are_exact_of_numbers :
    let r : PureOrder Nat := ⟨compare⟩
    let sorted : Session (TreeSet Nat) World := ⟨⟨⟨#[.sentinel], 6, 0⟩, ⟨0⟩⟩, false, World.fresh⟩
    let keyed : Session (TreeMap Nat Nat) World := ⟨⟨⟨#[.sentinel], 6, 0⟩, ⟨0⟩⟩, false, World.fresh⟩
    let s := performed (act r.rule) [.common (.extend [6, 3, 9, 1, 4]), .common (.take 6)] sorted
    let m := performed (TreeMap.act r.rule) [.common (.entries (.extend [⟨3, 1⟩, ⟨6, 2⟩])), .near .left true 5] keyed
    let rough : Nat → Ordering := fun n => compare (n / 3) 1
    (∃ order, s.store.entries = .ok order ∧ order.map (·.2) = [1, 3, 4, 9] ∧ Sorts rough order ∧ Navigates rough 0 s order) ∧
      (∃ found, Update.ask (near r.rule .left true 5) s = .ok found s ∧
        Closest r (r.compare · 5) .left true s.store.pool.contents found) ∧
      ∃ found, Update.ask (TreeMap.near r.rule .right false 6) m = .ok found m ∧
        Closest r.onKeys (fun entry => r.compare entry.key 6) .right false m.store.pool.contents found := by
  intro r sorted keyed s m rough
  have queries := order_queries_are_exact (α := Nat) (κ := Nat) (ν := Nat) (ω := World)
  have tended : Tended r.rule s :=
    ⟨⟨5⟩, ⟨empty, false, World.fresh⟩, sorted, [.common (.extend [6, 3, 9, 1, 4]), .common (.take 6)], rfl, rfl,
      ⟨trivial, trivial, trivial⟩, rfl⟩
  have keeping : Reached (act r.rule) (fun action => Keeping r action ∨ action.Asks) s := by
    refine ⟨⟨5⟩, ⟨empty, false, World.fresh⟩, sorted, _, rfl, rfl, ?_, rfl⟩
    intro action member
    simp only [List.mem_cons, List.not_mem_nil, or_false] at member
    rcases member with rfl | rfl
    · exact .inl (.common fun _ _ same => by cases same)
    · exact .inl (.common fun _ _ same => by cases same)
  have keyedly : Reached (TreeMap.act r.rule) (fun action => action.Keeping ∨ action.Asks) m := by
    refine ⟨⟨5⟩, ⟨empty, false, World.fresh⟩, keyed, _, rfl, rfl, ?_, rfl⟩
    intro action member
    simp only [List.mem_cons, List.not_mem_nil, or_false] at member
    rcases member with rfl | rfl
    · exact .inl fun _ _ same => by cases same
    · exact .inr trivial
  have lawful : r.Lawful := PureOrder.lawful_numbers
  refine ⟨?_, queries.2.2.1 r s lawful keeping .left true 5, queries.2.2.2 r m lawful keyedly .right false 6⟩
  obtain ⟨lowered, order, inOrder⟩ := queries.2.1 r.rule r s r.rule_follows tended
  obtain ⟨listed, navigates, _⟩ := queries.1 r.rule s tended.reached lowered order inOrder
  have values : s.store.entries.map (List.map (·.2)) = .ok [1, 3, 4, 9] := by decide +kernel
  rw [listed] at values
  have values : order.map (·.2) = [1, 3, 4, 9] := by injection values
  have sorts : Sorts rough order := by
    refine ⟨1, 2, 1, ?_⟩
    rw [show (order.map fun entry => rough entry.2) = (order.map (·.2)).map rough from by rw [List.map_map]; rfl, values]
    rfl
  exact ⟨order, listed, values, sorts, navigates rough 0 sorts⟩

-- An insertion was misplaced. Both elements are live, but the greater one is neither found nor taken for a closest one.
theorem queries_miss_misplaced :
    let r : PureOrder Nat := ⟨compare⟩
    let start : Session (TreeSet Nat) Script := ⟨⟨⟨#[.sentinel], 3, 0⟩, ⟨0⟩⟩, false, ⟨[.lt, .eq]⟩⟩
    let actions : List (TreeSetAction Nat Script) := [.common (.insert 1), .common (.insert 2), .common (.take 1),
      .insertWith (Script.probe 2) (pure 3)]
    let s := performed (act r.rule) actions start
    let by3 : Probe (TreeSet Nat) Script Nat := ⟨fun element => pure (compare element 3), 0⟩
    let near := fun side inclusive value => (s.perform (Update.ask (near r.rule side inclusive value))).1
    r.Lawful ∧ Reached (act r.rule) (fun _ => True) s ∧ s.store.get? ⟨1, Nat.one_pos⟩ = some 2 ∧
      s.store.get? ⟨2, Nat.two_pos⟩ = some 3 ∧ (s.perform (Update.ask (findBy by3))).1 = .ok none ∧
      near .left true 5 = .ok (some 2) ∧ near .right true 3 = .ok none ∧ near .right false 2 = .ok none := by
  intro r start actions s by3 near
  exact ⟨PureOrder.lawful_numbers, ⟨⟨2⟩, ⟨empty, false, ⟨[.lt, .eq]⟩⟩, start, actions, rfl, rfl, fun _ _ => trivial, rfl⟩,
    by decide +kernel, by decide +kernel, by decide +kernel, by decide +kernel, by decide +kernel, by decide +kernel⟩

end TreeSet
end Slotted
