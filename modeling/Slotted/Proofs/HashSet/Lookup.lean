import Slotted.Proofs.HashSet.Rebucket
import Slotted.HashSet.Rekey
namespace Slotted.HashSet

open Query

variable {α ω : Type} {order : List Nat} {s : HashSet α} {hash : UInt32} {accepted : α → Bool}

def wanted (hash : UInt32) (accepted : α → Bool) (p : Pool α ChainLink) (i : Nat) : Bool :=
  decide ((p.linkAt i).hash = hash) && (p.get? i).any accepted

theorem walk_run {prev head fuel : Nat} {chain : List Nat} (chained : Chained s.pool.linkAt prev head chain)
    (live : ∀ i ∈ chain, ∃ value, s.pool.get? i = some value) (enough : chain.length ≤ fuel) (gate : Gate ω) :
    walk hash (fun value => pure (accepted value)) fuel head s gate =
      .ok (chain.find? (wanted hash accepted s.pool)) gate := by
  induction chain generalizing prev head fuel with
  | nil =>
    rw [Chained] at chained
    subst chained
    unfold walk
    rw [if_pos rfl]
    rfl
  | cons i chain ih =>
    obtain ⟨rfl, some, _, tail⟩ := chained
    obtain ⟨value, held⟩ := live head List.mem_cons_self
    cases fuel with
    | zero => simp at enough
    | succ fuel =>
      have rest := ih tail (fun i member => live i (List.mem_cons_of_mem _ member)) (by simpa using enough)
      have inside := Pool.isActive_lt (Pool.isActive_of_get? held)
      unfold walk
      rw [if_neg some, List.find?_cons]
      dsimp only
      rw [bind_run, read_run]
      dsimp only
      rw [Pool.link_eq inside, bind_run, lift_run]
      dsimp only
      split
      · rename_i same
        rw [bind_run, read_run]
        dsimp only
        rw [Pool.value_of_get? held, bind_run, lift_run]
        dsimp only
        rw [bind_run, pure_run]
        dsimp only
        have here : wanted hash accepted s.pool head = accepted value := by simp [wanted, same, held]
        rw [here]
        cases accepted value
        · exact rest
        · rfl
      · rename_i other
        have here : wanted hash accepted s.pool head = false := by simp [wanted, other]
        rw [here]
        exact rest

-- What a search may answer: an accepted element remembered under the hash, or that there is none.
def Found (hash : UInt32) (accepted : α → Bool) (p : Pool α ChainLink) : Option Nat → Prop
  | some i => ∃ value, p.get? i = some value ∧ (p.linkAt i).hash = hash ∧ accepted value = true
  | none => ∀ i value, p.get? i = some value → (p.linkAt i).hash = hash → accepted value = false

theorem Found.positive {p : Pool α ChainLink} {i : Nat} (found : Found hash accepted p (some i))
    (idle : p.isActive 0 = false) : 0 < i := by
  obtain ⟨value, held, _⟩ := found
  apply Nat.pos_of_ne_zero
  intro same
  subst same
  simp [Pool.isActive_of_get? held] at idle

-- The chain that the hash selects is searched, and an element remembered under it can be nowhere else.
theorem findHashed_answers (sound : Store.Sound order s) (hash : UInt32) (accepted : α → Bool) :
    ∃ found, Found hash accepted s.pool found ∧
      (findHashed (ω := ω) hash fun value => pure (accepted value)).Answers s found := by
  obtain ⟨chains, linked⟩ := sound.threads
  by_cases bare : s.index.heads.isEmpty = true
  · refine ⟨none, ?_, .of_run fun gate => ?_⟩
    · intro i value held
      have member := sound.mem_iff.mpr ⟨value, held⟩
      have bound := (linked.mem_own member).1
      have empty : s.index.heads.size = 0 := by simpa using bare
      omega
    · rw [findHashed, bind_run, read_run]
      dsimp only
      rw [if_pos bare]
      rfl
  · have wide : 0 < s.index.heads.size := Nat.pos_of_ne_zero fun empty => bare (by simpa using empty)
    have bound := Nat.mod_lt hash.toNat wide
    have chained := linked.chained _ bound
    have live : ∀ i ∈ chains (hash.toNat % s.index.heads.size), ∃ value, s.pool.get? i = some value :=
      fun i member => sound.mem_iff.mp ((linked.covers i).mpr ⟨_, bound, member⟩)
    have enough : (chains (hash.toNat % s.index.heads.size)).length ≤ s.pool.walkLimit := by
      have fewer : (chains (hash.toNat % s.index.heads.size)).length ≤ (List.range s.pool.slots.size).length := by
        apply ((linked.nodup _ bound).subperm _).length_le
        intro i member
        obtain ⟨value, held⟩ := live i member
        exact List.mem_range.mpr (Pool.isActive_lt (Pool.isActive_of_get? held))
      rw [List.length_range] at fewer
      exact Nat.le_succ_of_le fewer
    refine ⟨(chains (hash.toNat % s.index.heads.size)).find? (wanted hash accepted s.pool), ?_, ?_⟩
    · cases search : (chains (hash.toNat % s.index.heads.size)).find? (wanted hash accepted s.pool) with
      | none =>
        intro i value held same
        have member := (linked.mem_own (sound.mem_iff.mpr ⟨value, held⟩)).2
        rw [same] at member
        have passed := List.find?_eq_none.mp search i member
        simpa [wanted, same, held] using passed
      | some i =>
        have stops := List.find?_some search
        obtain ⟨value, held⟩ := live i (List.mem_of_find?_eq_some search)
        simp only [wanted, held, Option.any_some, Bool.and_eq_true, decide_eq_true_eq] at stops
        exact ⟨value, held, stops.1, stops.2⟩
    · intro gate
      rw [findHashed, bind_run, read_run]
      dsimp only
      rw [if_neg bare]
      refine answers_guarded (fun gate => ?_) gate
      rw [bind_run, read_run]
      dsimp only
      rw [select_run wide, bind_run, lift_run]
      dsimp only
      rw [bind_run, read_run]
      exact walk_run chained live enough gate

theorem findBy_answers (sound : Store.Sound order s) (hash : UInt32) (accepted : α → Bool) :
    ∃ answer : Option Handle, Found hash accepted s.pool (answer.map (·.index)) ∧
      (findBy (ω := ω) hash fun value => pure (accepted value)).Answers s answer := by
  obtain ⟨found, finds, answers⟩ := findHashed_answers (ω := ω) sound hash accepted
  cases found with
  | none => exact ⟨none, finds, answers.bind (.of_run fun gate => rfl)⟩
  | some i =>
    have positive := finds.positive sound.tidy.idle
    refine ⟨some ⟨i, positive⟩, finds, answers.bind (.of_run fun gate => ?_)⟩
    dsimp only
    rw [Handle.ofIndex_run positive]
    rfl

variable {r : PureHash α}

theorem hashOf_answers (value : α) : (hashOf (ω := ω) r.rule value).Answers s (r.hash value) :=
  answers_guarded fun _ => rfl

theorem find_answers (sound : Store.Sound order s) (value : α) :
    ∃ answer : Option Handle, Found (r.hash value) (r.equal · value) s.pool (answer.map (·.index)) ∧
      (find (ω := ω) r.rule value).Answers s answer := by
  obtain ⟨answer, finds, answers⟩ := findBy_answers (ω := ω) sound (r.hash value) (r.equal · value)
  exact ⟨answer, finds, (hashOf_answers value).bind answers⟩

end Slotted.HashSet
