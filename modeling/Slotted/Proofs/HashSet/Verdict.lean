import Slotted.Proofs.HashSet.Passed
namespace Slotted.HashSet

open Audit

variable {α ω : Type} {r : PureHash α} {rule : HashRule (HashSet α) ω α} {s : HashSet α} {gate : Gate ω}

-- All that a check may ask of a set. The chains of all buckets together list the live slots.
structure Intact (r : PureHash α) (chains : Nat → List Nat) (s : HashSet α) : Prop where
  idle : s.pool.isActive 0 = false
  counted : s.pool.count = s.pool.slots.countP (·.active)
  chained : ∀ k < s.index.heads.size, Chained s.pool.linkAt 0 (s.index.head k) (chains k)
  enumerates : s.pool.Enumerates ((List.range s.index.heads.size).flatMap chains)
  selects : ∀ k < s.index.heads.size, ∀ i ∈ chains k, s.index.select (s.pool.linkAt i).hash = .ok k
  current : ∀ i value, s.pool.get? i = some value → (s.pool.linkAt i).hash = r.hash value

-- That no slot is in two chains need not be asked apart: its remembered hash selects one bucket.
theorem Strung.enumerates {chains : Nat → List Nat} (strung : Strung chains s) :
    s.pool.Enumerates ((List.range s.index.heads.size).flatMap chains) := by
  refine ⟨List.nodup_flatMap.mpr ⟨fun k member => (strung.followed k (List.mem_range.mp member)).nodup, ?_⟩, fun i => ?_⟩
  · refine List.nodup_range.pairwise_of_forall_ne fun k first l second apart => ?_
    intro i here there
    refine apart ?_
    rw [← (strung.followed k (List.mem_range.mp first)).selects i here,
      (strung.followed l (List.mem_range.mp second)).selects i there]
  · rw [strung.covers, List.mem_flatMap]
    simp only [List.mem_range]

theorem intact_iff {chains : Nat → List Nat} : Intact r chains s ↔ Strung chains s ∧ ∀ i, ¬ Stale r s.pool i := by
  constructor
  · intro intact
    have once := (List.nodup_flatMap.mp intact.enumerates.nodup).1
    have covers (i : Nat) : s.pool.isActive i = true ↔ ∃ k < s.index.heads.size, i ∈ chains k := by
      rw [← intact.enumerates.mem, List.mem_flatMap]
      simp only [List.mem_range]
    refine ⟨⟨intact.idle, intact.counted, fun k inside => ?_, covers⟩, fun i stale => ?_⟩
    · exact ⟨intact.chained k inside, once k (List.mem_range.mpr inside), fun i member => (covers i).mpr ⟨k, inside, member⟩,
        fun i member => select_mod (intact.selects k inside i member)⟩
    · obtain ⟨value, held, differs⟩ := stale
      exact differs (intact.current i value held)
  · intro given
    obtain ⟨strung, current⟩ := given
    refine ⟨strung.idle, strung.counted, fun k inside => (strung.followed k inside).chained, strung.enumerates, ?_, ?_⟩
    · intro k inside i member
      rw [select_run (Nat.lt_of_le_of_lt (Nat.zero_le _) inside), (strung.followed k inside).selects i member]
    · intro i value held
      by_contra differs
      exact current i ⟨value, held, differs⟩

theorem checkLinked_ends (filled : s.pool.Filled) (lowered : gate.busy = false) (wide : 0 < s.index.heads.size)
    (bucket prev i : Nat) (seen : Array Bool) :
    Judges (checkLinked r.rule bucket prev i seen) s gate (fun _ => True) fun _ => True := by
  rw [checkLinked, judges_read]
  cases there : s.pool.slots[i]? with
  | none => exact .inr ⟨_, rfl, trivial⟩
  | some slot =>
    refine judges_unless (fun _ => trivial) fun active => ?_
    have live : s.pool.isActive i = true := by simpa [Pool.isActive, there] using active
    obtain ⟨value, held⟩ := filled i live
    have hashed : (hashOf (ω := ω) r.rule value) s gate = .ok (r.hash value) gate :=
      Query.Answers.lowered (Query.answers_guarded fun _ => rfl) lowered
    refine judges_unless (fun _ => trivial) fun _ => judges_unless (fun _ => trivial) fun _ => ?_
    rw [judges_read, select_run wide, judges_lift]
    refine judges_unless (fun _ => trivial) fun _ => ?_
    rw [judges_read, Pool.value_of_get? held, judges_lift, judges_query hashed]
    exact judges_unless (fun _ => trivial) fun _ => judges_pure trivial

theorem checkChain_ends (filled : s.pool.Filled) (lowered : gate.busy = false) (wide : 0 < s.index.heads.size)
    (bucket fuel prev i : Nat) (seen : Array Bool) :
    Judges (checkChain r.rule bucket fuel prev i seen) s gate (fun _ => True) fun _ => True := by
  induction fuel generalizing prev i seen with
  | zero =>
    unfold checkChain
    split
    · exact judges_pure trivial
    · exact .inr ⟨_, rfl, trivial⟩
  | succ fuel ih =>
    unfold checkChain
    split
    · exact judges_pure trivial
    · exact (checkLinked_ends filled lowered wide bucket prev i seen).bind fun next _ => ih i next _

theorem checkChains_ends (filled : s.pool.Filled) (lowered : gate.busy = false) (heads : List (Nat × Nat))
    (wide : heads ≠ [] → 0 < s.index.heads.size) (seen : Array Bool) :
    Judges (heads.foldlM (fun seen (head, bucket) => checkChain r.rule bucket s.pool.walkLimit 0 head seen) seen) s gate
      (fun _ => True) fun _ => True := by
  induction heads generalizing seen with
  | nil => exact judges_pure trivial
  | cons head heads ih =>
    have wide := wide (List.cons_ne_nil _ _)
    rw [List.foldlM_cons]
    exact (checkChain_ends filled lowered wide head.2 s.pool.walkLimit 0 head.1 seen).bind fun seen _ => ih (fun _ => wide) seen

theorem audit_ends (filled : s.pool.Filled) (lowered : gate.busy = false) :
    Judges (audit r.rule) s gate (fun _ => True) fun _ => True := by
  rw [audit, judges_read]
  refine (judges_verdict_ends _).bind fun _ _ => ?_
  refine (checkChains_ends filled lowered _ (fun some => ?_) _).bind fun seen _ => ?_
  · by_contra none
    have empty : s.index.heads = #[] := Array.eq_empty_of_size_eq_zero (Nat.eq_zero_of_not_pos none)
    simp [empty] at some
  · exact judges_verdict_ends _

-- With steps enough for every slot not yet seen, how many more there are is all one. The induction is on the steps.
theorem checkChain_allowance {bucket fuel more prev i : Nat} {seen : Array Bool} (size : seen.size = s.pool.slots.size)
    (enough : unmarked seen < fuel) (enough' : unmarked seen < more) :
    (checkChain rule bucket fuel prev i seen).run s gate = (checkChain rule bucket more prev i seen).run s gate := by
  induction fuel generalizing more prev i seen gate with
  | zero => omega
  | succ fuel ih =>
    obtain ⟨more, rfl⟩ := Nat.exists_eq_succ_of_ne_zero (Nat.ne_of_gt (Nat.zero_lt_of_lt enough'))
    unfold checkChain
    split
    · rfl
    · rw [run_bind, run_bind]
      cases told : (checkLinked rule bucket prev i seen).run s gate with
      | error fault left => rfl
      | ok verdict left =>
        cases verdict with
        | error error => rfl
        | ok next =>
          obtain ⟨here, unseen, _⟩ := checkLinked_vouches bucket prev i seen gate next left told
          have fewer := unmarked_mark (size ▸ Pool.isActive_lt here.live) unseen
          exact ih (by rw [Array.size_setIfInBounds, size]) (by omega) (by omega)

-- A check of any state comes to a verdict, and the verdict is good exactly when there is nothing to blame. The limit on the
-- steps along a chain is never what ends it: with any higher limit all goes the same.
theorem check_decides_chains (r : PureHash α) (s : HashSet α) (gate : Gate ω) (filled : s.pool.Filled)
    (lowered : gate.busy = false) :
    (∃ verdict, check r.rule s gate = .ok verdict gate ∧ (verdict = .ok () ↔ ∃ chains, Intact r chains s)) ∧
      ∀ bucket head limit seen, seen.size = s.pool.slots.size → s.pool.walkLimit ≤ limit →
        (checkChain r.rule bucket limit 0 head seen).run s gate =
          (checkChain r.rule bucket s.pool.walkLimit 0 head seen).run s gate := by
  constructor
  · have passes {chains : Nat → List Nat} (strung : Strung chains s) :
        check r.rule s gate = .ok (.ok ()) gate ↔ ∀ i, ¬ Stale r s.pool i := strung.check_ok_iff filled lowered
    rcases audit_ends (r := r) filled lowered with ⟨_, ran, _⟩ | ⟨error, ran, _⟩
    · obtain ⟨chains, strung⟩ := audit_vouches gate () gate ran
      exact ⟨_, ran, ⟨fun _ => ⟨chains, intact_iff.mpr ⟨strung, (passes strung).mp ran⟩⟩, fun _ => rfl⟩⟩
    · refine ⟨_, ran, ⟨fun good => (nomatch good), fun given => ?_⟩⟩
      obtain ⟨chains, intact⟩ := given
      obtain ⟨strung, current⟩ := intact_iff.mp intact
      cases ran.symm.trans ((passes strung).mpr current)
  · intro bucket head limit seen size long
    have few : unmarked seen ≤ seen.size := Array.countP_le_size
    have enough : unmarked seen < s.pool.walkLimit := Nat.lt_succ_of_le (size ▸ few)
    exact checkChain_allowance size (Nat.lt_of_lt_of_le enough long) enough

-- Two elements in one chain, and two slots in a circle. The count is right in both.
theorem check_decides_chains_of_numbers :
    let r : PureHash Nat := ⟨fun n => UInt32.ofNat n, (· == ·)⟩
    let two (first second : ChainLink) : HashSet Nat :=
      ⟨⟨#[.sentinel, ⟨true, first, some 6⟩, ⟨true, second, some 8⟩], 3, 2⟩, ⟨#[1, 0], 60⟩⟩
    (∀ first second, (two first second).pool.Filled) ∧ (∃ chains, Intact r chains (two ⟨0, 2, 6⟩ ⟨1, 0, 8⟩)) ∧
      ¬ ∃ chains, Intact r chains (two ⟨0, 2, 6⟩ ⟨1, 1, 8⟩) := by
  intro r two
  have filled : ∀ first second, (two first second).pool.Filled := by
    intro first second i active
    have inside : i < 3 := Pool.isActive_lt active
    obtain rfl | rfl | rfl : i = 0 ∨ i = 1 ∨ i = 2 := by omega
    · cases active
    · exact ⟨6, rfl⟩
    · exact ⟨8, rfl⟩
  refine ⟨filled, ?_, fun given => ?_⟩
  · obtain ⟨⟨verdict, ran, decides⟩, _⟩ := check_decides_chains r (two ⟨0, 2, 6⟩ ⟨1, 0, 8⟩) ⟨false, ()⟩ (filled _ _) rfl
    have passed : check r.rule (two ⟨0, 2, 6⟩ ⟨1, 0, 8⟩) ⟨false, ()⟩ = .ok (.ok ()) ⟨false, ()⟩ := by with_unfolding_all rfl
    cases ran.symm.trans passed
    exact decides.mp rfl
  · obtain ⟨⟨verdict, ran, decides⟩, _⟩ := check_decides_chains r (two ⟨0, 2, 6⟩ ⟨1, 1, 8⟩) ⟨false, ()⟩ (filled _ _) rfl
    have blamed : check r.rule (two ⟨0, 2, 6⟩ ⟨1, 1, 8⟩) ⟨false, ()⟩ = .ok (.error (.revisited 1)) ⟨false, ()⟩ := by
      with_unfolding_all rfl
    cases ran.symm.trans blamed
    cases decides.mpr given

end Slotted.HashSet
