import Slotted.Proofs.Action.Meaning
namespace Slotted

variable {α : Type} {same rel : α → α → Prop}

def Covered (rel : α → α → Prop) (left right : Multiset α) : Prop := ∀ a ∈ left, ∃ b ∈ right, rel a b

namespace Covered

variable {left middle right : Multiset α} {a b : α}

theorem trans (transitive : ∀ {a b c}, rel a b → rel b c → rel a c) (first : Covered rel left middle)
    (second : Covered rel middle right) : Covered rel left right := by
  intro a member
  obtain ⟨b, within, alike⟩ := first a member
  obtain ⟨c, beyond, alike'⟩ := second b within
  exact ⟨c, beyond, transitive alike alike'⟩

theorem cons (alike : rel a b) (covered : Covered rel left right) : Covered rel (a ::ₘ left) (b ::ₘ right) := by
  intro a' member
  rcases Multiset.mem_cons.mp member with rfl | member
  · exact ⟨b, Multiset.mem_cons_self b right, alike⟩
  · obtain ⟨b', within, alike'⟩ := covered a' member
    exact ⟨b', Multiset.mem_cons_of_mem within, alike'⟩

theorem of_cons (equivalent : Equivalence same) (refines : ∀ a b, rel a b → same a b) (met : same a b)
    (alone : ∀ a' ∈ left, ¬ same a a') (covered : Covered rel (a ::ₘ left) (b ::ₘ right)) : Covered rel left right := by
  intro a' member
  obtain ⟨b', within, alike⟩ := covered a' (Multiset.mem_cons_of_mem member)
  rcases Multiset.mem_cons.mp within with rfl | within
  · exact absurd (equivalent.trans met (equivalent.symm (refines a' b' alike))) (alone a' member)
  · exact ⟨b', within, alike⟩

end Covered

-- Everything on either side has a counterpart on the other.
structure Congruent (rel : α → α → Prop) (left right : Multiset α) : Prop where
  there : ∀ a ∈ left, ∃ b ∈ right, rel a b
  back : ∀ b ∈ right, ∃ a ∈ left, rel a b

namespace Congruent

variable {left middle right : Multiset α} {a b : α}

theorem refl (equivalent : Equivalence rel) (held : Multiset α) : Congruent rel held held :=
  ⟨fun a member => ⟨a, member, equivalent.refl a⟩, fun a member => ⟨a, member, equivalent.refl a⟩⟩

theorem symm (equivalent : Equivalence rel) (congruent : Congruent rel left right) : Congruent rel right left := by
  refine ⟨fun b member => ?_, fun a member => ?_⟩
  · obtain ⟨a, within, alike⟩ := congruent.back b member
    exact ⟨a, within, equivalent.symm alike⟩
  · obtain ⟨b, within, alike⟩ := congruent.there a member
    exact ⟨b, within, equivalent.symm alike⟩

theorem backward (congruent : Congruent rel left right) : Covered (fun b a => rel a b) right left := congruent.back

theorem trans (equivalent : Equivalence rel) (first : Congruent rel left middle) (second : Congruent rel middle right) :
    Congruent rel left right := by
  refine ⟨Covered.trans equivalent.trans first.there second.there, ?_⟩
  exact second.backward.trans (fun alike alike' => equivalent.trans alike' alike) first.backward

theorem cons (alike : rel a b) (congruent : Congruent rel left right) : Congruent rel (a ::ₘ left) (b ::ₘ right) :=
  ⟨Covered.cons alike congruent.there, congruent.backward.cons alike⟩

theorem of_cons (equivalent : Equivalence same) (refines : ∀ a b, rel a b → same a b) (alike : rel a b)
    (alone : ∀ a' ∈ left, ¬ same a a') (alone' : ∀ b' ∈ right, ¬ same b b')
    (congruent : Congruent rel (a ::ₘ left) (b ::ₘ right)) : Congruent rel left right := by
  have met := refines a b alike
  refine ⟨Covered.of_cons equivalent refines met alone congruent.there, ?_⟩
  refine congruent.backward.of_cons equivalent (fun b a alike => ?_) (equivalent.symm met) alone'
  exact equivalent.symm (refines a b alike)

end Congruent

-- No counterpart serves twice, because those that it would serve are the same. So the other side is no shorter, and if it is
-- no longer either, all of it serves. The induction takes each element away together with its counterpart.
theorem counterparts {left right : List α} (equivalent : Equivalence same) (refines : ∀ a b, rel a b → same a b)
    (apart : left.Pairwise fun a b => ¬ same a b) (there : ∀ a ∈ left, ∃ b ∈ right, rel a b) :
    left.length ≤ right.length ∧ (right.length ≤ left.length → ∀ b ∈ right, ∃ a ∈ left, rel a b) := by
  induction left generalizing right with
  | nil =>
    refine ⟨Nat.zero_le _, fun none b member => ?_⟩
    rw [List.length_eq_zero_iff.mp (Nat.le_zero.mp none)] at member
    cases member
  | cons a left ih =>
    obtain ⟨unlike, apart⟩ := List.pairwise_cons.mp apart
    obtain ⟨b, member, alike⟩ := there a List.mem_cons_self
    obtain ⟨before, after, rfl⟩ := List.append_of_mem member
    have others : ∀ a' ∈ left, ∃ b' ∈ before ++ after, rel a' b' := by
      intro a' within
      obtain ⟨b', member', alike'⟩ := there a' (List.mem_cons_of_mem _ within)
      rcases List.mem_append.mp member' with front | behind
      · exact ⟨b', List.mem_append_left _ front, alike'⟩
      rcases List.mem_cons.mp behind with rfl | behind
      · exact absurd (equivalent.trans (refines a b' alike) (equivalent.symm (refines a' b' alike'))) (unlike a' within)
      · exact ⟨b', List.mem_append_right _ behind, alike'⟩
    obtain ⟨shorter, all⟩ := ih apart others
    simp only [List.length_append, List.length_cons] at shorter all ⊢
    refine ⟨by omega, fun longer b' member' => ?_⟩
    have rest : b' ∈ before ++ after → ∃ a' ∈ a :: left, rel a' b' := by
      intro within
      obtain ⟨a', there', alike'⟩ := all (by omega) b' within
      exact ⟨a', List.mem_cons_of_mem _ there', alike'⟩
    rcases List.mem_append.mp member' with front | behind
    · exact rest (List.mem_append_left _ front)
    rcases List.mem_cons.mp behind with rfl | behind
    · exact ⟨a, List.mem_cons_self, alike⟩
    · exact rest (List.mem_append_right _ behind)

theorem congruent_iff {left right : Multiset α} (equivalent : Equivalence same) (refines : ∀ a b, rel a b → same a b)
    (apart : left.Pairwise fun a b => ¬ same a b) (apart' : right.Pairwise fun a b => ¬ same a b) :
    Congruent rel left right ↔ left.card = right.card ∧ ∀ a ∈ left, ∃ b ∈ right, rel a b := by
  obtain ⟨items, rfl, apart⟩ := apart
  obtain ⟨items', rfl, apart'⟩ := apart'
  constructor
  · intro congruent
    refine ⟨Nat.le_antisymm (counterparts equivalent refines apart congruent.there).1 ?_, congruent.there⟩
    exact (counterparts equivalent (fun b a alike => equivalent.symm (refines a b alike)) apart' congruent.back).1
  · intro given
    obtain ⟨sizes, there⟩ := given
    exact ⟨there, (counterparts equivalent refines apart there).2 (Nat.le_of_eq sizes.symm)⟩

-- What was held stays, and of the values that came those are there to which nothing was the same.
theorem Gathers.kept {values : List α} {held result : Multiset α} (gathers : Gathers same values held result) :
    held ⊆ result := by
  induction gathers with
  | nil => exact Multiset.Subset.refl _
  | known _ _ _ ih => exact ih
  | fresh _ _ ih => exact fun a member => ih (Multiset.mem_cons_of_mem member)

theorem Gathers.source {values : List α} {held result : Multiset α} (gathers : Gathers same values held result) :
    ∀ a ∈ result, a ∈ held ∨ a ∈ values := by
  induction gathers with
  | nil => exact fun a member => .inl member
  | known _ _ _ ih => exact fun a member => (ih a member).imp_right (List.mem_cons_of_mem _)
  | fresh _ _ ih =>
    intro a member
    rcases ih a member with there | later
    · rcases Multiset.mem_cons.mp there with rfl | there
      · exact .inr List.mem_cons_self
      · exact .inl there
    · exact .inr (List.mem_cons_of_mem _ later)

theorem Gathers.covers {values : List α} {held result : Multiset α} (alike : Equivalence same)
    (gathers : Gathers same values held result) : ∀ a ∈ values, ∃ b ∈ result, same b a := by
  induction gathers with
  | nil => exact fun a none => absurd none List.not_mem_nil
  | known there equal rest ih =>
    intro a member
    rcases List.mem_cons.mp member with rfl | member
    · exact ⟨_, rest.kept there, equal⟩
    · exact ih a member
  | fresh _ rest ih =>
    intro a member
    rcases List.mem_cons.mp member with rfl | member
    · exact ⟨a, rest.kept (Multiset.mem_cons_self a _), alike.refl a⟩
    · exact ih a member

-- Filled with the same values, in whatever order and however often, as long as those that are the same agree.
theorem Gathers.congruent {values values' : List α} {left right : Multiset α} (alike : Equivalence same)
    (values_iff : ∀ value, value ∈ values ↔ value ∈ values') (agree : ∀ a ∈ values, ∀ b ∈ values, same a b → rel a b)
    (gathers : Gathers same values 0 left) (gathers' : Gathers same values' 0 right) : Congruent rel left right := by
  have source : ∀ a ∈ left, a ∈ values := fun a member => (gathers.source a member).resolve_left (Multiset.notMem_zero a)
  have source' : ∀ b ∈ right, b ∈ values := by
    intro b member
    exact (values_iff b).mpr ((gathers'.source b member).resolve_left (Multiset.notMem_zero b))
  refine ⟨fun a member => ?_, fun b member => ?_⟩
  · obtain ⟨b, there, equal⟩ := gathers'.covers alike a ((values_iff a).mp (source a member))
    exact ⟨b, there, agree a (source a member) b (source' b there) (alike.symm equal)⟩
  · obtain ⟨a, there, equal⟩ := gathers.covers alike b (source' b member)
    exact ⟨a, there, agree a (source a there) b (source' b member) equal⟩

end Slotted
