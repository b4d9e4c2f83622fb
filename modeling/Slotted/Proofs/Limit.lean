import Slotted.Proofs.Reserve
import Slotted.Proofs.Store.Grants
import Slotted.Proofs.TreeSet.Unsteady
namespace Slotted

open Store Pool Session LawfulIndex

variable {ι α μ ω : Type}

-- A value goes in unless the pool is packed. Then it comes back, and nothing has changed.
structure GoesIn (tryInsert : α → Update (Store ι α μ) ω (Except (Rejected α) (Handle × Bool))) (value : α)
    (s : Session (Store ι α μ) ω) : Prop where
  enters : ¬ s.store.pool.Packed → ∃ h after, tryInsert value s = .ok (.ok (h, true)) after ∧
    after.store.get? h = some value ∧ after.store.pool.contents = value ::ₘ s.store.pool.contents
  refuses : s.store.pool.Packed → ∃ after, tryInsert value s = .ok (.error ⟨.overflow (maxCapacity + 1), value⟩) after ∧
    after.store = s.store

namespace Access

variable [Inhabited μ] [Index ι μ] [lawful : LawfulIndex ι μ] {access : Access ι α μ ω} {same : α → α → Prop}
  {s : Session (Store ι α μ) ω} {t : lawful.Shape}

theorem Entered.not_packed {value : α} {after : Session (Store ι α μ) ω} (entered : Entered value s after)
    (sound : Sound t s.store) : ¬ s.store.pool.Packed := by
  obtain ⟨middle, renumbered, roomed, longer⟩ := entered.sizes
  obtain ⟨t', sound'⟩ := entered.sound
  exact roomed.not_packed sound.tidy (longer.capacity ▸ sound'.tidy.limit)

-- So many values went in, and as many slots are in use that were not.
structure Filled (values : List α) (s after : Session (Store ι α μ) ω) : Prop where
  next : after.store.pool.next = s.store.pool.next + values.length
  count : after.store.pool.count = s.store.pool.count + values.length
  contents : after.store.pool.contents = values + s.store.pool.contents
  sound : ∃ t, Sound t after.store
  lowered : after.gate.busy = false

-- While there are slots that were never used, values that are missing and differ from each other go there. The induction is
-- on the values.
theorem fills (admitting : access.Admitting same) (values : List α) (sound : Sound t s.store) (lowered : s.gate.busy = false)
    (apart : values.Pairwise fun a b => ¬ same a b) (missing : ∀ value ∈ values, Missing same value s.store)
    (fits : s.store.pool.next + values.length ≤ s.store.pool.capacity) :
    Returns (values.forM fun value => do let _ ← access.insert value) s fun _ after => Filled values s after := by
  induction values generalizing s t with
  | nil => exact ⟨rfl, rfl, (zero_add _).symm, ⟨t, sound⟩, lowered⟩
  | cons value values ih =>
    rw [List.length_cons] at fits
    have room : s.store.pool.isFull = false := decide_eq_false (by omega)
    change Returns ((do let _ ← access.insert value) >>= fun _ => values.forM fun value => do let _ ← access.insert value) s _
    rw [Returns, ends_bind, ends_bind]
    refine Ends.imp (admitting t s value sound lowered (missing value List.mem_cons_self)) ?_ ?_
    · intro placed after told
      obtain ⟨_, entered⟩ := told
      obtain ⟨middle, _, roomed, longer⟩ := entered.sizes
      obtain ⟨t', sound'⟩ := entered.sound
      cases roomed with
      | closed slack _ _ _ => exact absurd slack.full (by simp [room])
      | grown full _ _ => exact absurd full (by simp [room])
      | free _ =>
        have capacity := longer.capacity
        have next := longer.next
        have count := longer.count
        refine (ih sound' entered.lowered (List.pairwise_cons.mp apart).2 (missing_after entered apart missing)
          (by omega)).returning ?_
        intro _ last filled
        refine ⟨?_, ?_, ?_, filled.sound, filled.lowered⟩
        · rw [filled.next, next, List.length_cons, Nat.add_right_comm, Nat.add_assoc]
        · rw [filled.count, count, List.length_cons, Nat.add_right_comm, Nat.add_assoc]
        · rw [filled.contents, entered.contents, ← Multiset.cons_coe, Multiset.add_cons, Multiset.cons_add]
    · intro _ _ told
      obtain ⟨_, _, roomed⟩ := told
      cases roomed with
      | refused full _ => exact absurd full (by simp [room])

variable [Allocator ω]

theorem goesIn (generous : Generous ω) (sound : Sound t s.store) {value : α}
    {tryInsert : α → Update (Store ι α μ) ω (Except (Rejected α) (Handle × Bool))}
    (enters : Returns (tryInsert value) s (Enters value s)) : GoesIn tryInsert value s := by
  obtain ⟨answer, after, ran, told⟩ := enters.exists
  cases answer with
  | ok placed =>
    obtain ⟨h, fresh⟩ := placed
    obtain ⟨rfl, entered, here⟩ := told
    have loose := entered.not_packed sound
    exact ⟨fun _ => ⟨h, after, ran, here, entered.contents⟩, fun packed => absurd packed loose⟩
  | error refused =>
    obtain ⟨error, given⟩ := refused
    obtain ⟨⟨gate, middle, roomy⟩, rfl, same⟩ := told
    obtain ⟨rfl, packed⟩ := (makeRoom_unless_packed generous (s := ⟨s.store, gate⟩) sound).returned roomy
    exact ⟨fun loose => absurd packed loose, fun _ => ⟨after, ran, same⟩⟩

-- Every slot number is given out, and then one element is removed.
def exhausting (values : List α) : List (SetAction α) := [.resize maxCapacity, .extend values, .remove ⟨1, Nat.one_pos⟩]

structure Crammed (values : List α) (s : Session (Store ι α μ) ω) : Prop where
  next : s.store.pool.next = maxCapacity + 1
  count : s.store.pool.count = maxCapacity
  contents : s.store.pool.contents = values
  sound : ∃ t, Sound t s.store
  lowered : s.gate.busy = false

theorem crams (generous : Generous ω) (admitting : access.Admitting same) {values : List α} (sound : Sound t s.store)
    (lowered : s.gate.busy = false) (unused : s.store.pool.next = 1) (length : values.length = maxCapacity)
    (apart : values.Pairwise fun a b => ¬ same a b) :
    Crammed values (performed access.run [.resize maxCapacity, .extend values] s) := by
  have none : s.store.pool.count = 0 := by
    have fewer := sound.count_lt
    omega
  have bare : s.store.pool.contents = 0 := by
    rw [sound.contents_eq, List.length_eq_zero_iff.mp (sound.counted.symm.trans none)]
    rfl
  have slots : slotsFor maxCapacity = maxCapacity + 1 := rfl
  have wide : s.store.pool.next ≤ slotsFor maxCapacity := by omega
  obtain ⟨answer, middle, resized, _, ⟨carries, capacity, next⟩, gate⟩ :=
    (resize_grants generous sound wide (Nat.le_refl _)).exists
  have bare' : middle.store.pool.contents = 0 := (carries.contents_eq sound).trans bare
  obtain ⟨_, after, extended, filled⟩ := (fills admitting values carries.sound (gate.trans lowered) apart
    (missing_of_bare bare' same values) (by omega)).exists
  have first : access.run (.resize maxCapacity) s = .ok (.room answer) middle := bind_ok resized _
  have second : access.run (.extend values) middle = .ok .done after := bind_ok extended _
  have reached : performed access.run [.resize maxCapacity, .extend values] s = after := by
    simp only [performed, performAll, perform, first, second]
  rw [reached]
  refine ⟨?_, ?_, ?_, filled.sound, filled.lowered⟩
  · rw [filled.next, next, unused, length, Nat.add_comm]
  · rw [filled.count, carries.relabels.count, none, length, Nat.zero_add]
  · rw [filled.contents, bare', add_zero]

-- There are fewer elements than there may be, but no number for another one.
structure Exhausted (same : α → α → Prop) (value : α) (s : Session (Store ι α μ) ω) : Prop where
  fewer : s.store.len < maxCapacity
  packed : s.store.pool.Packed
  missing : Missing same value s.store
  sound : ∃ t, Sound t s.store
  lowered : s.gate.busy = false

theorem Crammed.exhausts {values : List α} {value : α} (crammed : Crammed values s)
    (strange : ∀ stored ∈ values, ¬ same stored value) :
    Exhausted same value (s.perform (access.run (.remove ⟨1, Nat.one_pos⟩))).2 := by
  obtain ⟨t, sound⟩ := crammed.sound
  have next := crammed.next
  have count := crammed.count
  have gapless : s.store.pool.Gapless := next.trans (congrArg (· + 1) count.symm)
  have live : s.store.pool.isActive 1 = true := (sound.dense gapless 1).mpr ⟨Nat.one_pos, count ▸ by decide⟩
  obtain ⟨removed, held⟩ : ∃ removed, s.store.pool.get? 1 = some removed := by
    rw [← Option.isSome_iff_exists, ← Option.ne_none_iff_isSome, Ne, sound.tidy.get?_none, live]
    decide
  obtain ⟨_, after, taken, _, rest, parts⟩ := (remove_returns (h := ⟨1, Nat.one_pos⟩) sound held).exists
  have ran : access.run (.remove ⟨1, Nat.one_pos⟩) s = .ok (.element _) ⟨after, s.gate⟩ := bind_ok (Update.edit_ok taken) _
  have reached : (s.perform (access.run (.remove ⟨1, Nat.one_pos⟩))).2 = ⟨after, s.gate⟩ := by
    simp only [perform, ran]
  have fewer : after.pool.count = maxCapacity - 1 := by
    rw [parts.sound.counted, parts.slots, List.length_erase_of_mem ((sound.enumerates.mem 1).mpr live), ← sound.counted,
      count]
  have numbered : after.pool.used = maxCapacity := by
    unfold used Pool.next at *
    rw [parts.size, next, Nat.add_sub_cancel]
  have missing : Missing same value after := by
    intro stored inside
    refine strange stored ?_
    rw [← Multiset.mem_coe, ← crammed.contents, parts.contents_eq sound held]
    exact Multiset.mem_cons_of_mem inside
  rw [reached]
  have few : after.len < maxCapacity := fewer.trans_lt (by decide)
  exact ⟨few, ⟨numbered, .inr (fewer ▸ by decide)⟩, missing, ⟨rest, parts.sound⟩, crammed.lowered⟩

theorem exhausts (generous : Generous ω) (admitting : access.Admitting same) {values : List α} {value : α}
    (sound : Sound t s.store) (lowered : s.gate.busy = false) (unused : s.store.pool.next = 1)
    (length : values.length = maxCapacity) (apart : values.Pairwise fun a b => ¬ same a b)
    (strange : ∀ stored ∈ values, ¬ same stored value) :
    Exhausted same value (performed access.run (exhausting values) s) := by
  have crammed := crams generous admitting sound lowered unused length apart
  have last := performed_concat access.run [.resize maxCapacity, .extend values] (.remove ⟨1, Nat.one_pos⟩) s
  exact last ▸ crammed.exhausts strange

def Decides (tryInsert : α → Update (Store ι α μ) ω (Except (Rejected α) (Handle × Bool))) (same : α → α → Prop) : Prop :=
  ∀ t (s : Session (Store ι α μ) ω) value, Sound t s.store → s.gate.busy = false → Missing same value s.store →
    GoesIn tryInsert value s

theorem stops {access : Access ι Nat μ ω} {same : Nat → Nat → Prop} {start s : Session (Store ι Nat μ) ω} {γ : Type}
    {act : γ → Update (Store ι Nat μ) ω (Reply Nat)} {common : SetAction Nat → γ}
    {tryInsert : Nat → Update (Store ι Nat μ) ω (Except (Rejected Nat) (Handle × Bool))}
    (runs : ∀ action, act (common action) = access.run action) (generous : Generous ω)
    (admitting : access.Admitting same) (decides : Decides tryInsert same) (exact : ∀ a b, same a b → a = b)
    (sound : Sound t start.store) (lowered : start.gate.busy = false) (unused : start.store.pool.next = 1)
    (reached : s = performed act ((exhausting (List.range maxCapacity)).map common) start) :
    s.store.len < maxCapacity ∧ Missing same maxCapacity s.store ∧
      ∃ after, tryInsert maxCapacity s = .ok (.error ⟨.overflow (maxCapacity + 1), maxCapacity⟩) after := by
  have apart : (List.range maxCapacity).Pairwise fun a b => ¬ same a b :=
    List.nodup_range.imp fun differ alike => differ (exact _ _ alike)
  have strange : ∀ stored ∈ List.range maxCapacity, ¬ same stored maxCapacity := fun stored member alike =>
    Nat.ne_of_lt (List.mem_range.mp member) (exact _ _ alike)
  have exhausted := exhausts generous admitting sound lowered unused List.length_range apart strange
  rw [← performed_map runs, ← reached] at exhausted
  obtain ⟨t', sound'⟩ := exhausted.sound
  have goesIn := decides t' s _ sound' exhausted.lowered exhausted.missing
  obtain ⟨after, ran, _⟩ := goesIn.refuses exhausted.packed
  exact ⟨exhausted.fewer, exhausted.missing, after, ran⟩

end Access

variable [Allocator ω]

theorem HashSet.tryInsert_decides (generous : Generous ω) (r : PureHash α) :
    Access.Decides (tryInsert (ω := ω) r.rule) (r.equal · · = true) :=
  fun _ _ _ sound lowered missing => Access.goesIn generous sound (tryInsert_enters sound lowered missing)

theorem TreeSet.tryInsert_decides (generous : Generous ω) (r : PureOrder α) :
    Access.Decides (tryInsert (ω := ω) r.rule) (r.compare · · = .eq) :=
  fun _ _ _ sound lowered missing => Access.goesIn generous sound (tryInsert_enters sound lowered missing)

-- In any history of a hash set, and of a tree set as long as the tree stands. It does unless an insertion was misplaced.
theorem tryInsert_unless_packed (generous : Generous ω) :
    (∀ (r : PureHash α) (s : Session (HashSet α) ω) (value : α), HashSet.Reached (HashSet.act r.rule) (fun _ => True) s →
      s.gate.busy = false → Missing (r.equal · · = true) value s.store → GoesIn (HashSet.tryInsert r.rule) value s) ∧
    ∀ (r : PureOrder α) (rule : OrderRule (TreeSet α) ω α) (s : Session (TreeSet α) ω),
      (TreeSet.Reached (TreeSet.act rule) (fun _ => True) s → TreeSet.WellGrown s.store → s.gate.busy = false →
        ∀ value, Missing (r.compare · · = .eq) value s.store → GoesIn (TreeSet.tryInsert r.rule) value s) ∧
      (rule.Follows (fun _ => True) r → TreeSet.Tended rule s → TreeSet.WellGrown s.store ∧ s.gate.busy = false) := by
  refine ⟨fun r s value reached lowered missing => ?_, fun r rule s => ⟨fun reached grown lowered value missing => ?_, ?_⟩⟩
  · obtain ⟨config, origin, start, actions, _, configured, _, rfl⟩ := reached
    obtain ⟨empty, _⟩ := (HashSet.configure_returns config origin).returned configured rfl
    obtain ⟨order, sound⟩ := HashSet.performed_sound (r := r) empty actions
    exact HashSet.tryInsert_decides generous r order _ value sound lowered missing
  · obtain ⟨t, sound⟩ := reached.sound grown
    exact TreeSet.tryInsert_decides generous r t s value sound lowered missing
  · exact fun follows tended => ⟨tended.grown follows, (tended.settled follows).lowered⟩

-- Both sets are far from the limit, and a number that they do not hold goes in.
theorem tryInsert_unless_packed_of_numbers :
    let hashing : PureHash Nat := ⟨fun n => UInt32.ofNat n, fun a b => a == b⟩
    let ordering : PureOrder Nat := ⟨compare⟩
    let chained : Session (HashSet Nat) Boundless := ⟨HashSet.empty 60, false, ⟨⟩⟩
    let sorted : Session (TreeSet Nat) Boundless := ⟨TreeSet.empty, false, ⟨⟩⟩
    let s := performed (HashSet.act hashing.rule) [.common (.extend [3, 1, 2]), .common (.take 1)] chained
    let s' := performed (TreeSet.act ordering.rule) [.common (.extend [3, 1, 2]), .common (.take 1)] sorted
    Generous Boundless ∧
      (HashSet.Reached (HashSet.act hashing.rule) (fun _ => True) s ∧ ¬ s.store.pool.Packed ∧
        ∃ h after, HashSet.tryInsert hashing.rule 4 s = .ok (.ok (h, true)) after ∧ after.store.get? h = some 4) ∧
      TreeSet.Tended ordering.rule s' ∧ TreeSet.WellGrown s'.store ∧ ¬ s'.store.pool.Packed ∧
        ∃ h after, TreeSet.tryInsert ordering.rule 4 s' = .ok (.ok (h, true)) after ∧ after.store.get? h = some 4 := by
  intro hashing ordering chained sorted s s'
  have reached : HashSet.Reached (HashSet.act hashing.rule) (fun _ => True) s :=
    ⟨⟨0, 60⟩, chained, chained, [.common (.extend [3, 1, 2]), .common (.take 1)], rfl, by with_unfolding_all rfl,
      fun _ _ => trivial, rfl⟩
  have tended : TreeSet.Tended ordering.rule s' :=
    ⟨⟨0⟩, sorted, sorted, [.common (.extend [3, 1, 2]), .common (.take 1)], rfl, rfl, ⟨trivial, trivial, trivial⟩, rfl⟩
  have lowered : s.gate.busy = false := by decide +kernel
  have missing : Missing (hashing.equal · · = true) 4 s.store := by
    change ∀ stored ∈ s.store.pool.contents, ¬ _
    decide +kernel
  have missing' : Missing (ordering.compare · · = .eq) 4 s'.store := by
    change ∀ stored ∈ s'.store.pool.contents, ¬ _
    decide +kernel
  have loose : ¬ s.store.pool.Packed := fun packed => absurd packed.numbered (by decide +kernel)
  have loose' : ¬ s'.store.pool.Packed := fun packed => absurd packed.numbered (by decide +kernel)
  -- how the sets came about does not matter any more
  clear_value s s'
  have sets := (tryInsert_unless_packed Boundless.generous).1 hashing s 4 reached lowered missing
  obtain ⟨trees, stands⟩ := (tryInsert_unless_packed Boundless.generous).2 ordering ordering.rule s'
  obtain ⟨grown, lowered'⟩ := stands ordering.rule_follows tended
  obtain ⟨h, after, ran, here, _⟩ := sets.enters loose
  obtain ⟨h', after', ran', here', _⟩ := (trees tended.reached grown lowered' 4 missing').enters loose'
  exact ⟨Boundless.generous, ⟨reached, loose, h, after, ran, here⟩, tended, grown, loose', h', after', ran', here'⟩

-- One element is short of the limit, and more than half of the slots are live, so that the one gap is not closed. And where
-- an insertion was misplaced and its element hangs below itself, a gap cannot be closed even far from the limit.
theorem tryInsert_stops_early :
    let hashing : PureHash Nat := ⟨fun n => UInt32.ofNat n, fun a b => a == b⟩
    let ordering : PureOrder Nat := ⟨compare⟩
    let chained : Session (HashSet Nat) Boundless := ⟨HashSet.empty 60, false, ⟨⟩⟩
    let sorted : Session (TreeSet Nat) Boundless := ⟨TreeSet.empty, false, ⟨⟩⟩
    let s := performed (HashSet.act hashing.rule) ((Access.exhausting (List.range maxCapacity)).map .common) chained
    let s' := performed (TreeSet.act ordering.rule) ((Access.exhausting (List.range maxCapacity)).map .common) sorted
    let small : Session (TreeSet Nat) Script := ⟨⟨⟨#[.sentinel], 3, 0⟩, ⟨0⟩⟩, false, ⟨[.lt, .eq]⟩⟩
    let actions : List (TreeSetAction Nat Script) := [.common (.insert 1), .common (.insert 2), .common (.take 1),
      .insertWith (Script.probe 2) (pure 3), .common (.take 2)]
    let broken := performed (TreeSet.act ordering.rule) actions small
    Generous Boundless ∧
      (HashSet.Reached (HashSet.act hashing.rule) (fun _ => True) s ∧ s.store.len < maxCapacity ∧
        Missing (hashing.equal · · = true) maxCapacity s.store ∧
        ∃ after, HashSet.tryInsert hashing.rule maxCapacity s =
          .ok (.error ⟨.overflow (maxCapacity + 1), maxCapacity⟩) after) ∧
      (TreeSet.Tended ordering.rule s' ∧ s'.store.len < maxCapacity ∧
        Missing (ordering.compare · · = .eq) maxCapacity s'.store ∧
        ∃ after, TreeSet.tryInsert ordering.rule maxCapacity s' =
          .ok (.error ⟨.overflow (maxCapacity + 1), maxCapacity⟩) after) ∧
      Generous Script ∧ TreeSet.Reached (TreeSet.act ordering.rule) (fun _ => True) broken ∧
        broken.store.len < maxCapacity ∧ Missing (ordering.compare · · = .eq) 5 broken.store ∧
        (broken.perform (TreeSet.tryInsert ordering.rule 5)).1 = .error (.disagreement .movedChild 0 2) := by
  intro hashing ordering chained sorted s s' small actions broken
  have configured : HashSet.configure ⟨0, 60⟩ chained = .ok (.ok ()) chained := by with_unfolding_all rfl
  have configured' : TreeSet.configure ⟨0⟩ sorted = .ok (.ok ()) sorted := rfl
  have reached : HashSet.Reached (HashSet.act hashing.rule) (fun _ => True) s :=
    ⟨⟨0, 60⟩, chained, chained, _, rfl, configured, fun _ _ => trivial, rfl⟩
  have tended : TreeSet.Tended ordering.rule s' :=
    ⟨⟨0⟩, sorted, sorted, (Access.exhausting (List.range maxCapacity)).map .common, rfl, configured',
      ⟨trivial, trivial, trivial, trivial⟩, rfl⟩
  have empty := ((HashSet.configure_returns _ _).returned configured rfl).1
  have empty' := ((TreeSet.configure_returns _ _).returned configured' rfl).1
  have runs : ∀ action, HashSet.act (ω := Boundless) hashing.rule (.common action) =
      (HashSet.access hashing.rule).run action := fun _ => rfl
  have runs' : ∀ action, TreeSet.act (ω := Boundless) ordering.rule (.common action) =
      (TreeSet.access ordering.rule).run action := fun _ => rfl
  have sets := Access.stops runs Boundless.generous (HashSet.access_admitting hashing)
    (HashSet.tryInsert_decides Boundless.generous hashing) (fun _ _ => eq_of_beq) empty rfl rfl (rfl : s = _)
  have trees := Access.stops runs' Boundless.generous (TreeSet.access_admitting ordering)
    (TreeSet.tryInsert_decides Boundless.generous ordering) (fun _ _ => Nat.compare_eq_eq.mp) empty' rfl rfl (rfl : s' = _)
  have spoilt : TreeSet.Reached (TreeSet.act ordering.rule) (fun _ => True) broken :=
    ⟨⟨2⟩, ⟨TreeSet.empty, false, ⟨[.lt, .eq]⟩⟩, small, actions, rfl, rfl, fun _ _ => trivial, rfl⟩
  have missing : Missing (ordering.compare · · = .eq) 5 broken.store := by
    change ∀ stored ∈ broken.store.pool.contents, ¬ _
    decide +kernel
  have stuck : broken.store.len < maxCapacity ∧
      (broken.perform (TreeSet.tryInsert ordering.rule 5)).1 = .error (.disagreement .movedChild 0 2) := by
    decide +kernel
  exact ⟨Boundless.generous, ⟨reached, sets⟩, ⟨tended, trees⟩, Script.generous, spoilt, stuck.1, missing, stuck.2⟩

end Slotted
