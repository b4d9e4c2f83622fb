import Slotted.Proofs.Action.Content
import Slotted.Proofs.HashMap.Refinement
import Slotted.Proofs.TreeMap.Refinement
namespace Slotted

open Store

namespace Query

variable {κ ω γ : Type} {store : κ} {holds holds' : Prop}

def Decides (query : Query κ ω Bool) (store : κ) (holds : Prop) : Prop :=
  ∃ answer, query.Answers store answer ∧ (answer = true ↔ holds)

theorem Decides.congr {query : Query κ ω Bool} (decides : query.Decides store holds) (same : holds ↔ holds') :
    query.Decides store holds' := by
  obtain ⟨answer, answers, told⟩ := decides
  exact ⟨answer, answers, told.trans same⟩

theorem decides_pure {answer : Bool} (told : answer = true ↔ holds) : (pure answer : Query κ ω Bool).Decides store holds :=
  ⟨answer, .of_run fun _ => rfl, told⟩

theorem Decides.read {rest : κ → Query κ ω Bool} (decides : (rest store).Decides store holds) :
    (MonadReaderOf.read >>= rest : Query κ ω Bool).Decides store holds := decides

theorem Decides.lifted {value : γ} {rest : γ → Query κ ω Bool} (decides : (rest value).Decides store holds) :
    ((liftM (.ok value : Except Fault γ) : Query κ ω γ) >>= rest).Decides store holds := decides

theorem Decides.and {first second : Query κ ω Bool} (decides : first.Decides store holds)
    (decides' : holds → second.Decides store holds') :
    (do if ← first then second else return false : Query κ ω Bool).Decides store (holds ∧ holds') := by
  obtain ⟨answer, answers, told⟩ := decides
  cases answer with
  | false => exact ⟨false, answers.bind (.of_run fun _ => rfl), by simp [← told]⟩
  | true =>
    have held := told.mp rfl
    obtain ⟨answer', answers', told'⟩ := decides' held
    exact ⟨answer', answers.bind answers', told'.trans (iff_and_self.mpr fun _ => held)⟩

theorem decides_allM {items : List γ} {asks : γ → Query κ ω Bool} {holds : γ → Prop}
    (each : ∀ item, (asks item).Decides store (holds item)) :
    (items.allM asks).Decides store (∀ item ∈ items, holds item) := by
  induction items with
  | nil => exact decides_pure (by simp)
  | cons item items ih =>
    have first : (item :: items).allM asks = (do if ← asks item then items.allM asks else return false) := by
      rw [List.allM]
      refine congrArg (asks item >>= ·) (funext fun answer => ?_)
      cases answer <;> rfl
    rw [first]
    exact ((each item).and fun _ => ih).congr List.forall_mem_cons.symm

end Query

section Lookups

variable {ι α μ ω : Type} {same rel : α → α → Prop} {s other : Store ι α μ} {asks : α → Query (Store ι α μ) ω Bool}

theorem lookups_decide (equivalent : Equivalence same) (refines : ∀ a b, rel a b → same a b)
    (apart : other.pool.contents.Pairwise fun a b => ¬ same a b) (apart' : s.pool.contents.Pairwise fun a b => ¬ same a b)
    (counted : other.pool.contents.card = other.len) (counted' : s.pool.contents.card = s.len)
    (each : ∀ a, (asks a).Decides s (∃ b ∈ s.pool.contents, rel a b)) :
    (do
      if other.len ≠ (← read).len then return false
      other.pool.entries.allM fun (_, a) => asks a : Query (Store ι α μ) ω Bool).Decides s
        (Congruent rel other.pool.contents s.pool.contents) := by
  have all : (other.pool.entries.allM fun entry : Nat × α => asks entry.2).Decides s
      (∀ a ∈ other.pool.contents, ∃ b ∈ s.pool.contents, rel a b) := by
    rw [Pool.forall_contents]
    exact Query.decides_allM fun entry => each entry.2
  rw [congruent_iff equivalent refines apart apart', counted, counted']
  refine Query.Decides.read ?_
  split
  · rename_i differ
    exact Query.decides_pure (iff_of_false Bool.false_ne_true fun given => differ given.1)
  · rename_i equal
    exact all.congr (iff_and_self.mpr fun _ => not_not.mp equal)

end Lookups

section Hash

variable {κ α ν ω : Type} {order : List Nat}

theorem HashSet.Distinct.pairwise {r : PureHash α} {s : HashSet α} (proper : Proper (HashSet.Distinct r) order s) :
    s.pool.contents.Pairwise fun a b => ¬ r.equal a b = true :=
  ⟨_, proper.sound.contents_bodies, List.pairwise_map.mpr proper.body.apart⟩

theorem HashSet.contains_decides {r : PureHash α} {s : Session (HashSet α) ω} (lawful : r.Lawful)
    (proper : Proper (HashSet.Distinct r) order s.store) (value : α) :
    (HashSet.contains r.rule value : Query (HashSet α) ω Bool).Decides s.store
      (∃ stored ∈ s.store.pool.contents, r.equal value stored = true) := by
  obtain ⟨found, finds, answers⟩ := HashSet.find_answers (ω := ω) (r := r) proper.sound value
  have there : FoundIn (r.equal · · = true) value s.store found := by
    cases found <;> exact finds.sound lawful proper
  refine ⟨found.isSome, answers.bind (.of_run fun _ => rfl), there.isSome_iff.trans ?_⟩
  refine exists_congr fun stored => and_congr_right fun _ => ⟨lawful.symm _ _, lawful.symm _ _⟩

theorem HashSet.sameElements_decides {r : PureHash α} {s : Session (HashSet α) ω} {other : HashSet α} {order' : List Nat}
    (lawful : r.Lawful) (proper : Proper (HashSet.Distinct r) order s.store)
    (proper' : Proper (HashSet.Distinct r) order' other) :
    (HashSet.sameElements other r.rule : Query (HashSet α) ω Bool).Decides s.store
      (Congruent (r.equal · · = true) other.pool.contents s.store.pool.contents) :=
  lookups_decide lawful.alike (fun _ _ alike => alike) (HashSet.Distinct.pairwise proper') (HashSet.Distinct.pairwise proper)
    proper'.sound.card_eq proper.sound.card_eq fun value => HashSet.contains_decides lawful proper value

-- Under equal keys, with values that agree.
def Entry.Agrees (same : κ → κ → Prop) (agree : ν → ν → Prop) (a b : Entry κ ν) : Prop :=
  same a.key b.key ∧ agree a.value b.value

theorem Entry.Agrees.equivalence {same : κ → κ → Prop} {agree : ν → ν → Prop} (alike : Equivalence same)
    (values : Equivalence agree) : Equivalence (Entry.Agrees same agree) :=
  ⟨fun a => ⟨alike.refl a.key, values.refl a.value⟩, fun first => ⟨alike.symm first.1, values.symm first.2⟩,
    fun first second => ⟨alike.trans first.1 second.1, values.trans first.2 second.2⟩⟩

variable [Allocator ω]

theorem HashMap.value_decides {r : PureHash κ} {s : Session (HashMap κ ν) ω} (lawful : r.Lawful)
    (settled : Settled (HashSet.Distinct r.onKeys) s) (sameValue : ν → ν → Bool) (a : Entry κ ν) :
    (return (← HashMap.get? r.rule a.key).any (sameValue · a.value) : Query (HashMap κ ν) ω Bool).Decides s.store
      (∃ b ∈ s.store.pool.contents,
        a.Agrees (r.equal · · = true) (fun mine theirs => sameValue theirs mine = true) b) := by
  obtain ⟨⟨order, proper⟩, _⟩ := id settled
  obtain ⟨found, finds, answers⟩ := HashSet.find_answers (ω := ω) (r := r.onKeys) proper.sound a
  have leads : LeadsTo (r.equal · · = true) a.key s.store found := by
    cases found <;> exact finds.sound lawful.onKeys proper
  have under := leads.under
  have entry : (Keyed.getEntry? (HashMap.find r.rule a.key) : Query (HashMap κ ν) ω _).Answers s.store
      (found.bind (Store.get? s.store)) := by
    refine answers.bind ?_
    cases found <;> exact .of_run fun _ => rfl
  refine ⟨_, (entry.bind (.of_run fun _ => rfl)).bind (.of_run fun _ => rfl), ?_⟩
  cases told : found.bind (Store.get? s.store) with
  | none =>
    rw [told] at under
    refine iff_of_false Bool.false_ne_true ?_
    intro given
    obtain ⟨b, member, equal, _⟩ := given
    exact under b member (lawful.symm _ _ equal)
  | some entry =>
    rw [told] at under
    constructor
    · exact fun agree => ⟨entry, under.1, lawful.symm _ _ under.2, agree⟩
    · intro given
      obtain ⟨b, member, equal, agree⟩ := given
      have there : Under (r.equal · · = true) a.key s.store (some b) := ⟨member, lawful.symm _ _ equal⟩
      have one := (KeyedAccess.under_unique (HashMap.access_exact lawful) settled a.key).unique under there
      cases one
      exact agree

theorem HashMap.sameEntries_decides {r : PureHash κ} {s : Session (HashMap κ ν) ω} {other : HashMap κ ν} {order' : List Nat}
    (lawful : r.Lawful) (settled : Settled (HashSet.Distinct r.onKeys) s)
    (proper' : Proper (HashSet.Distinct r.onKeys) order' other) (sameValue : ν → ν → Bool) :
    (HashMap.sameEntries r.rule sameValue other : Query (HashMap κ ν) ω Bool).Decides s.store
      (Congruent (Entry.Agrees (r.equal · · = true) fun mine theirs => sameValue theirs mine = true)
        other.pool.contents s.store.pool.contents) := by
  obtain ⟨⟨order, proper⟩, _⟩ := id settled
  exact lookups_decide lawful.onKeys.alike (fun _ _ agrees => agrees.1) (HashSet.Distinct.pairwise proper')
    (HashSet.Distinct.pairwise proper) proper'.sound.card_eq proper.sound.card_eq
    fun entry => HashMap.value_decides lawful settled sameValue entry

end Hash

section Order

theorem PureOrder.Lawful.paired_iff {α : Type} {r : PureOrder α} {rel : α → α → Prop} (lawful : r.Lawful)
    (refines : ∀ a b, rel a b → r.compare a b = .eq) {left right : List α} (ascends : r.Ascends left) (ascends' : r.Ascends right) :
    List.Forall₂ rel left right ↔ Congruent rel (left : Multiset α) (right : Multiset α) := by
  have equivalent := lawful.alike
  constructor
  · intro paired
    induction paired with
    | nil => exact ⟨fun _ none => absurd none (Multiset.notMem_zero _), fun _ none => absurd none (Multiset.notMem_zero _)⟩
    | cons alike _ ih => exact (ih (List.pairwise_cons.mp ascends).2 (List.pairwise_cons.mp ascends').2).cons alike
  · intro congruent
    induction left generalizing right with
    | nil =>
      cases right with
      | nil => exact .nil
      | cons b right =>
        obtain ⟨a, none, _⟩ := congruent.back b List.mem_cons_self
        cases none
    | cons a left ih =>
      cases right with
      | nil =>
        obtain ⟨b, none, _⟩ := congruent.there a List.mem_cons_self
        cases none
      | cons b right =>
        obtain ⟨above, ascends⟩ := List.pairwise_cons.mp ascends
        obtain ⟨above', ascends'⟩ := List.pairwise_cons.mp ascends'
        have first : rel a b := by
          obtain ⟨b', member, alike⟩ := congruent.there a List.mem_cons_self
          obtain ⟨a', member', alike'⟩ := congruent.back b List.mem_cons_self
          rcases List.mem_cons.mp member with rfl | later
          · exact alike
          rcases List.mem_cons.mp member' with rfl | later'
          · exact alike'
          -- each of the two would come before the other
          have less : r.compare b a = .lt := by
            rw [← lawful.gt_iff, lawful.class_left a b' b (refines a b' alike), lawful.gt_iff]
            exact above' b' later
          have greater : r.compare b a = .gt := by
            rw [← lawful.class_left a' b a (refines a' b alike'), lawful.gt_iff]
            exact above a' later'
          cases less.symm.trans greater
        refine .cons first (ih ascends ascends' ?_)
        refine congruent.of_cons equivalent refines first ?_ ?_
        · exact fun a' member equal => by cases (above a' member).symm.trans equal
        · exact fun b' member equal => by cases (above' b' member).symm.trans equal

namespace TreeSet

variable {α ω : Type} {r : PureOrder α} {rel : α → α → Prop} {same : α → α → Query (TreeSet α) ω Bool}
  {s other : TreeSet α} {t t' : Tree}

theorem agree_decides (decides : ∀ a b, (same a b).Decides s (rel a b)) (sound : Sound t s) (sound' : Sound t' other) {n : Nat}
    {mine theirs : Cursor} {items items' : List (Handle × α)} (tracks : Cursor.Tracks t s mine items)
    (tracks' : Cursor.Tracks t' other theirs items') (length : items.length = n) (length' : items'.length = n) :
    (agree same other n mine theirs).Decides s (List.Forall₂ rel (items.map (·.2)) (items'.map (·.2))) := by
  induction n generalizing mine theirs items items' with
  | zero =>
    cases List.length_eq_zero_iff.mp length
    cases List.length_eq_zero_iff.mp length'
    exact Query.decides_pure (iff_of_true rfl .nil)
  | succ n ih =>
    obtain ⟨item, items, rfl⟩ := List.exists_cons_of_length_eq_add_one length
    obtain ⟨item', items', rfl⟩ := List.exists_cons_of_length_eq_add_one length'
    obtain ⟨mine', ran, onward⟩ := Cursor.next_run sound tracks
    obtain ⟨theirs', ran', onward'⟩ := Cursor.next_run sound' tracks'
    have decides' := (decides item.2 item'.2).and fun _ => ih onward onward' (Nat.succ.inj length) (Nat.succ.inj length')
    unfold agree
    refine Query.Decides.read ?_
    rw [ran]
    refine Query.Decides.lifted ?_
    dsimp only [List.head?_cons]
    rw [ran']
    refine Query.Decides.lifted (decides'.congr ?_)
    simp only [List.map_cons, List.forall₂_cons, List.tail_cons]

theorem Ascending.pairwise (proper : Proper (Ascending r) t s) :
    s.pool.contents.Pairwise fun a b => ¬ r.compare a b = .eq := by
  refine ⟨_, (lists_listing proper).all, (lists_listing proper).ordered.imp ?_⟩
  exact fun less equal => by cases less.symm.trans equal

theorem sameElementsBy_decides (lawful : r.Lawful) (refines : ∀ a b, rel a b → r.compare a b = .eq)
    (decides : ∀ a b, (same a b).Decides s (rel a b)) (proper : Proper (Ascending r) t s)
    (proper' : Proper (Ascending r) t' other) :
    (sameElementsBy same other).Decides s (Congruent rel s.pool.contents other.pool.contents) := by
  obtain ⟨mine, started, tracks⟩ := Cursor.start_tracks proper.sound
  obtain ⟨theirs, started', tracks'⟩ := Cursor.start_tracks proper'.sound
  have listed := lists_listing proper
  have listed' := lists_listing proper'
  unfold sameElementsBy
  refine Query.Decides.read ?_
  split
  · rename_i differ
    refine Query.decides_pure (iff_of_false Bool.false_ne_true fun congruent => differ ?_)
    have sizes := (congruent_iff lawful.alike refines (Ascending.pairwise proper) (Ascending.pairwise proper')).mp congruent
    exact proper.sound.card_eq.symm.trans (sizes.1.trans proper'.sound.card_eq)
  · rename_i equal
    have length := (inOrder proper.sound).1.counted
    have length' := (inOrder proper'.sound).1.counted.trans (not_not.mp equal).symm
    rw [started, started']
    refine Query.Decides.lifted (Query.Decides.lifted ?_)
    refine (agree_decides decides proper.sound proper'.sound tracks tracks' length length').congr ?_
    rw [listed.all, listed'.all]
    exact lawful.paired_iff refines listed.ordered listed'.ordered

theorem sameElements_decides (lawful : r.Lawful) (proper : Proper (Ascending r) t s) (proper' : Proper (Ascending r) t' other) :
    (sameElements r.rule other : Query (TreeSet α) ω Bool).Decides s
      (Congruent (r.compare · · = .eq) s.pool.contents other.pool.contents) :=
  sameElementsBy_decides lawful (fun _ _ equal => equal) (fun _ _ => ⟨_, .of_run fun _ => rfl, decide_eq_true_iff⟩) proper proper'

end TreeSet

variable {κ ν ω : Type} {r : PureOrder κ} {s other : TreeMap κ ν} {t t' : Tree}

theorem TreeMap.sameEntries_decides (lawful : r.Lawful) (proper : Proper (TreeSet.Ascending r.onKeys) t s)
    (proper' : Proper (TreeSet.Ascending r.onKeys) t' other) (sameValue : ν → ν → Bool) :
    (TreeMap.sameEntries r.rule sameValue other : Query (TreeMap κ ν) ω Bool).Decides s
      (Congruent (Entry.Agrees (r.compare · · = .eq) (sameValue · · = true)) s.pool.contents other.pool.contents) := by
  refine TreeSet.sameElementsBy_decides lawful.onKeys (fun _ _ agrees => agrees.1) (fun a b => ?_) proper proper'
  change (if r.compare a.key b.key = .eq then pure (sameValue a.value b.value) else pure false :
    Query (TreeMap κ ν) ω Bool).Decides s _
  split
  · rename_i equal
    exact Query.decides_pure (and_iff_right equal).symm
  · rename_i differ
    exact Query.decides_pure (iff_of_false Bool.false_ne_true fun agrees => differ agrees.1)

end Order

end Slotted
