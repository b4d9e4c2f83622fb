import Slotted.Proofs.Store.Lawful
import Slotted.Store.Audit
namespace Slotted

open Query

namespace Audit

variable {κ ω β γ : Type} {store : κ} {gate : Gate ω} {goes : β → Prop} {stops : CheckError → Prop}

def Judges (audit : Audit κ ω β) (store : κ) (gate : Gate ω) (goes : β → Prop) (stops : CheckError → Prop) : Prop :=
  (∃ value, audit.run store gate = .ok (.ok value) gate ∧ goes value) ∨
    ∃ error, audit.run store gate = .ok (.error error) gate ∧ stops error

theorem run_bind (audit : Audit κ ω γ) (rest : γ → Audit κ ω β) :
    (audit >>= rest).run store gate = match audit.run store gate with
      | .ok (.ok value) gate => (rest value).run store gate
      | .ok (.error error) gate => .ok (.error error) gate
      | .error fault gate => .error fault gate := by
  rw [ExceptT.run_bind, Query.bind_run]
  cases audit.run store gate with
  | ok verdict after => cases verdict <;> rfl
  | error fault after => rfl

theorem judges_pure {value : β} (holds : goes value) : Judges (pure value : Audit κ ω β) store gate goes stops :=
  .inl ⟨value, rfl, holds⟩

theorem Judges.bind {audit : Audit κ ω γ} {rest : γ → Audit κ ω β} {between : γ → Prop}
    (first : Judges audit store gate between stops)
    (second : ∀ value, between value → Judges (rest value) store gate goes stops) :
    Judges (audit >>= rest) store gate goes stops := by
  unfold Judges
  rw [run_bind]
  rcases first with ⟨value, ran, holds⟩ | ⟨error, ran, holds⟩
  · rw [ran]
    exact second value holds
  · rw [ran]
    exact .inr ⟨error, rfl, holds⟩

theorem judges_throw_bind {error : CheckError} {rest : γ → Audit κ ω β} (holds : stops error) :
    Judges (throw error >>= rest) store gate goes stops := .inr ⟨error, rfl, holds⟩

theorem judges_unless {c : Prop} [Decidable c] {error : CheckError} {rest : Unit → Audit κ ω β} (blames : c → stops error)
    (further : ¬ c → Judges (rest ()) store gate goes stops) :
    Judges (if c then throw error >>= rest else rest ()) store gate goes stops := by
  split
  · exact judges_throw_bind (blames ‹_›)
  · exact further ‹_›

theorem Judges.imp {audit : Audit κ ω β} {goes' : β → Prop} {stops' : CheckError → Prop}
    (judges : Judges audit store gate goes stops) (ok : ∀ value, goes value → goes' value)
    (error : ∀ found, stops found → stops' found) : Judges audit store gate goes' stops' := by
  rcases judges with ⟨value, ran, holds⟩ | ⟨found, ran, holds⟩
  · exact .inl ⟨value, ran, ok value holds⟩
  · exact .inr ⟨found, ran, error found holds⟩

theorem judges_read (rest : κ → Audit κ ω β) :
    Judges (read >>= rest) store gate goes stops ↔ Judges (rest store) store gate goes stops := Iff.rfl

theorem judges_lift (value : γ) (rest : γ → Audit κ ω β) :
    Judges (liftM (.ok value : Except Fault γ) >>= rest) store gate goes stops ↔
      Judges (rest value) store gate goes stops := Iff.rfl

theorem judges_query {query : Query κ ω γ} {value : γ} (ran : query store gate = .ok value gate)
    (rest : γ → Audit κ ω β) :
    Judges (liftM query >>= rest) store gate goes stops ↔ Judges (rest value) store gate goes stops := by
  have asked : (liftM query : Audit κ ω γ).run store gate = .ok (.ok value) gate := by
    change (Except.ok <$> query : Query κ ω (Except CheckError γ)) store gate = _
    rw [map_eq_pure_bind, bind_run, ran]
    rfl
  unfold Judges
  rw [run_bind, asked]

theorem Judges.guarded {audit : Audit κ ω β} (judges : Judges audit store { gate with busy := true } goes stops)
    (lowered : gate.busy = false) : Judges (ExceptT.mk (Query.guarded audit.run)) store gate goes stops := by
  obtain ⟨busy, world⟩ := gate
  subst lowered
  have ran : ∀ verdict, audit.run store ⟨true, world⟩ = .ok verdict ⟨true, world⟩ →
      Query.guarded audit.run store ⟨false, world⟩ = .ok verdict ⟨false, world⟩ := by
    intro verdict ran
    simp only [Query.guarded, ran]
    rfl
  rcases judges with ⟨value, ended, holds⟩ | ⟨error, ended, holds⟩
  · exact .inl ⟨value, ran _ ended, holds⟩
  · exact .inr ⟨error, ran _ ended, holds⟩

theorem judges_verdict (value : γ) (rest : γ → Audit κ ω β) :
    Judges (ExceptT.mk (pure (.ok value)) >>= rest) store gate goes stops ↔
      Judges (rest value) store gate goes stops := Iff.rfl

theorem judges_verdict_ends (verdict : Except CheckError β) :
    Judges (ExceptT.mk (pure verdict) : Audit κ ω β) store gate (fun _ => True) fun _ => True := by
  cases verdict with
  | error error => exact .inr ⟨error, rfl, trivial⟩
  | ok value => exact .inl ⟨value, rfl, trivial⟩

-- What a check has found out when it goes on, whatever the container and the callers' code are like.
def Vouches (audit : Audit κ ω β) (store : κ) (goes : β → Prop) : Prop :=
  ∀ gate value left, audit.run store gate = .ok (.ok value) left → goes value

theorem vouches_pure {value : β} (holds : goes value) : Vouches (pure value : Audit κ ω β) store goes := by
  intro gate told left ran
  cases ran
  exact holds

theorem vouches_throw (error : CheckError) : Vouches (throw error : Audit κ ω β) store goes := by
  intro gate told left ran
  cases ran

theorem Vouches.bind {audit : Audit κ ω γ} {rest : γ → Audit κ ω β} {between : γ → Prop}
    (first : Vouches audit store between) (second : ∀ value, between value → Vouches (rest value) store goes) :
    Vouches (audit >>= rest) store goes := by
  intro gate value left ran
  rw [run_bind] at ran
  cases begun : audit.run store gate with
  | error fault middle =>
    rw [begun] at ran
    cases ran
  | ok verdict middle =>
    rw [begun] at ran
    cases verdict with
    | error error => cases ran
    | ok told => exact second told (first gate told middle begun) middle value left ran

theorem Vouches.imp {audit : Audit κ ω β} {goes' : β → Prop} (vouches : Vouches audit store goes)
    (weaker : ∀ value, goes value → goes' value) : Vouches audit store goes' :=
  fun gate value left ran => weaker value (vouches gate value left ran)

theorem Vouches.read {rest : κ → Audit κ ω β} (vouches : Vouches (rest store) store goes) :
    Vouches (MonadReaderOf.read >>= rest) store goes := vouches

theorem vouches_unless {c : Prop} [Decidable c] {error : CheckError} {rest : Unit → Audit κ ω β}
    (further : ¬ c → Vouches (rest ()) store goes) :
    Vouches (if c then throw error >>= rest else rest ()) store goes := by
  split
  · intro gate value left ran
    cases ran
  · exact further ‹_›

theorem vouches_query (query : Query κ ω β) : Vouches (liftM query : Audit κ ω β) store fun _ => True := fun _ _ _ _ => trivial

theorem vouches_lift (read : Except Fault β) : Vouches (liftM read : Audit κ ω β) store fun value => read = .ok value := by
  intro gate value left ran
  cases read with
  | error fault => cases ran
  | ok told =>
    cases ran
    rfl

theorem vouches_verdict (verdict : Except CheckError β) :
    Vouches (ExceptT.mk (pure verdict) : Audit κ ω β) store fun value => verdict = .ok value := by
  intro gate value left ran
  cases ran
  rfl

end Audit

-- What an audit has seen: of the first `n` slots, those with the property.
structure Marks (visited : Nat → Prop) (n : Nat) (seen : Array Bool) : Prop where
  size : seen.size = n
  marked : ∀ i, i < n → (seen.getD i false = true ↔ visited i)

theorem Marks.none (n : Nat) : Marks (fun _ => False) n (Array.replicate n false) := by
  refine ⟨Array.size_replicate, ?_⟩
  intro i inside
  simp [Array.getD_eq_getD_getElem?, inside]

theorem Marks.congr {visited visited' : Nat → Prop} {n : Nat} {seen : Array Bool} (marks : Marks visited n seen)
    (same : ∀ i, visited' i ↔ visited i) : Marks visited' n seen :=
  ⟨marks.size, fun i inside => (marks.marked i inside).trans (same i).symm⟩

theorem Marks.mark {visited : Nat → Prop} {n : Nat} {seen : Array Bool} (marks : Marks visited n seen) (i : Nat) :
    Marks (fun j => j = i ∨ visited j) n (seen.setIfInBounds i true) := by
  refine ⟨by rw [Array.size_setIfInBounds, marks.size], ?_⟩
  intro j bound
  rw [← marks.marked j bound, Array.getD_eq_getD_getElem?, Array.getElem?_setIfInBounds, Array.getD_eq_getD_getElem?]
  by_cases same : i = j
  · simp [same, marks.size, bound]
  · simp [same, Ne.symm same]

-- How many slots an audit can still come to for the first time. Each step that goes on leaves one less.
def unmarked (seen : Array Bool) : Nat := seen.countP (! ·)

theorem unmarked_mark {seen : Array Bool} {i : Nat} (inside : i < seen.size) (fresh : seen.getD i false = false) :
    unmarked (seen.setIfInBounds i true) < unmarked seen := by
  have clear : seen[i] = false := by simpa [Array.getD_eq_getD_getElem?, inside] using fresh
  have some : 0 < seen.countP (! ·) := Array.countP_pos_iff.mpr ⟨seen[i], Array.getElem_mem inside, by rw [clear]; rfl⟩
  rw [unmarked, unmarked, Array.setIfInBounds, dif_pos inside, Array.countP_set inside, clear]
  simp only [Bool.not_false, Bool.not_true, if_true, Bool.false_eq_true, if_false, Nat.add_zero]
  omega

namespace Pool

variable {α μ : Type} {p : Pool α μ}

-- What is live holds a value.
def Filled (p : Pool α μ) : Prop := ∀ i, p.isActive i = true → ∃ value, p.get? i = some value

theorem checkCount_ok_iff : p.checkCount = .ok () ↔ p.isActive 0 = false ∧ p.count = p.slots.countP (·.active) := by
  unfold checkCount
  cases p.isActive 0 <;> simp [eq_comm]

theorem countP_isActive (p : Pool α μ) : p.slots.countP (·.active) = (List.range p.slots.size).countP p.isActive := by
  rw [← Array.countP_toList, countP_range, Array.length_toList]
  apply List.countP_congr
  intro i _
  rw [Array.getElem?_toList]
  rfl

theorem countP_marks {seen : Array Bool} {visited : Nat → Prop} {n : Nat} (marks : Marks visited n seen) :
    seen.countP id = (List.range n).countP (seen.getD · false) := by
  rw [← Array.countP_toList, countP_range, Array.length_toList, marks.size]
  apply List.countP_congr
  intro i _
  rw [Array.getElem?_toList, Array.getD_eq_getD_getElem?]
  cases seen[i]? <;> simp

theorem checkReached_ok {seen : Array Bool} (marks : Marks (p.isActive · = true) p.slots.size seen) :
    p.checkReached seen = .ok () := by
  have same : seen.countP id = p.slots.countP (·.active) := by
    rw [countP_marks marks, countP_isActive]
    apply List.countP_congr
    intro i member
    exact marks.marked i (List.mem_range.mp member)
  unfold checkReached
  rw [if_pos same]

-- As many marks as live slots, and all of them on live ones, leave no live slot out.
theorem reached_of_check {seen : Array Bool} {visited : Nat → Prop} (marks : Marks visited p.slots.size seen)
    (live : ∀ i, visited i → p.isActive i = true) (passed : p.checkReached seen = .ok ()) (i : Nat) :
    p.isActive i = true ↔ visited i := by
  have same : seen.countP id = p.slots.countP (·.active) := by
    by_contra differs
    rw [checkReached, if_neg differs] at passed
    cases passed
  rw [countP_marks marks, countP_isActive, List.countP_eq_length_filter, List.countP_eq_length_filter] at same
  have within : ((List.range p.slots.size).filter (seen.getD · false)).Sublist ((List.range p.slots.size).filter p.isActive) := by
    refine List.monotone_filter_right _ fun i marked => ?_
    by_cases inside : i < p.slots.size
    · exact live i ((marks.marked i inside).mp marked)
    · simp [Array.getD_eq_getD_getElem?, marks.size, inside] at marked
  have all := within.eq_of_length same
  refine ⟨fun active => ?_, live i⟩
  have member : i ∈ (List.range p.slots.size).filter p.isActive :=
    List.mem_filter.mpr ⟨List.mem_range.mpr (isActive_lt active), active⟩
  rw [← all, List.mem_filter, List.mem_range] at member
  exact (marks.marked i member.1).mp member.2

end Pool
end Slotted
