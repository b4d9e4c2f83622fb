import Slotted.Proofs.Reached
import Slotted.Proofs.HashSet.Passed
import Slotted.Proofs.TreeSet.Passed
namespace Slotted

open Store LawfulIndex

variable {ι α β γ μ ω : Type} {slots capacity : Nat}

section Housed

def Pool.Housed (slots capacity : Nat) (p : Pool α μ) : Prop := p.slots.size = slots ∧ p.capacity = capacity

def Store.Housed (slots capacity : Nat) (s : Store ι α μ) : Prop := s.pool.Housed slots capacity

namespace Pool

theorem modifySlot_housed (i : Nat) (f : Slot α μ → Slot α μ) : Upholds (Housed slots capacity) (modifySlot i f) := by
  intro p housed
  simp only [Always, Ends, modifySlot]
  split
  · rename_i ran
    split at ran
    · cases ran
      exact ⟨(Array.size_modify ..).trans housed.1, housed.2⟩
    · cases ran
  · rename_i ran
    split at ran
    · cases ran
    · cases ran
      exact housed

theorem takeFromCount_housed : Upholds (Housed slots capacity) (takeFromCount : Edit (Pool α μ) Unit) := by
  intro p housed
  simp only [Always, Ends, takeFromCount]
  cases p.count with
  | zero => exact housed
  | succ n => exact housed

theorem detach_housed (i : Nat) : Upholds (Housed slots capacity) (detach i : Edit (Pool α μ) Unit) := by
  refine Upholds.bind .get fun p => ?_
  cases p.slots[i]? with
  | none => exact Upholds.bind .get fun _ => .throw _
  | some slot =>
    dsimp only
    split
    · exact Upholds.bind (modifySlot_housed i _) fun _ => takeFromCount_housed
    · exact Upholds.throw_bind _ _

theorem reattach_housed (i : Nat) : Upholds (Housed slots capacity) (reattach i : Edit (Pool α μ) Unit) := by
  refine Upholds.bind .get fun p => ?_
  cases p.slots[i]? with
  | none => exact Upholds.bind .get fun _ => .throw _
  | some slot =>
    dsimp only
    split
    · exact Upholds.bind (modifySlot_housed i _) fun _ => .modify fun _ housed => housed
    · exact Upholds.throw_bind _ _

theorem discard_housed (i : Nat) : Upholds (Housed slots capacity) (discard i : Edit (Pool α μ) (Option α)) := by
  refine Upholds.bind .get fun p => ?_
  cases p.slots[i]? with
  | none => exact Upholds.bind .get fun _ => .throw _
  | some slot =>
    dsimp only
    split
    · exact Upholds.throw_bind _ _
    · exact Upholds.bind (modifySlot_housed i _) fun _ => .pure _

end Pool

namespace Store

theorem onPool_housed {change : Edit (Pool α μ) β} (kept : Upholds (Pool.Housed slots capacity) change) :
    Upholds (Housed slots capacity) (onPool change : Edit (Store ι α μ) β) := by
  intro s housed
  rw [Always, ends_onPool]
  exact kept s.pool housed

theorem drop_housed (d : Detached) : Upholds (Housed slots capacity) (drop d : Edit (Store ι α μ) Unit) :=
  Upholds.bind (onPool_housed (Pool.discard_housed _)) fun _ => .pure _

variable [Inhabited μ]

theorem Relinks.housed {program : Edit (Store ι α μ) β} (relinks : Relinks program) :
    Upholds (Housed slots capacity) program := by
  intro s housed
  refine (relinks.always s).imp fun after same => ?_
  exact ⟨same.size.trans housed.1, same.capacity.trans housed.2⟩

theorem extract_housed [Index ι μ] [LinkingIndex ι μ] (h : Handle) :
    Upholds (Housed slots capacity) (extract h : Edit (Store ι α μ) (Option Detached)) := by
  refine Upholds.bind .get fun s => ?_
  split
  · refine Upholds.bind (LinkingIndex.unlink h.index).housed fun _ => ?_
    exact Upholds.bind (onPool_housed (Pool.detach_housed h.index)) fun _ => .pure _
  · exact .pure _

end Store

theorem HashSet.reinsert_housed (rule : HashRule (HashSet α) ω α) (d : Detached) :
    Guards (Housed slots capacity) (HashSet.reinsert rule d) := by
  refine Upholds.bind .get fun s => Upholds.bind (.lift _) fun value => ?_
  refine Upholds.bind (Update.guards_ask _) fun hash => Upholds.bind (Update.guards_ask _) fun found => ?_
  cases found with
  | some i => exact Upholds.bind (Update.guards_edit (drop_housed d)) fun _ => Handle.upholds_ofIndex i _
  | none =>
    refine Upholds.bind (Update.guards_edit (onPool_housed (Pool.reattach_housed _))) fun _ => ?_
    exact Upholds.bind (Update.guards_edit (linkHead_relinks _ hash).housed) fun _ => Handle.upholds_ofIndex _ _

theorem TreeSet.reinsert_housed (rule : OrderRule (TreeSet α) ω α) (d : Detached) :
    Guards (Housed slots capacity) (TreeSet.reinsert rule d) := by
  refine Upholds.bind .get fun s => Upholds.bind (.lift _) fun value => Upholds.bind (Update.guards_ask _) fun place => ?_
  cases place with
  | found i => exact Upholds.bind (Update.guards_edit (drop_housed d)) fun _ => Handle.upholds_ofIndex i _
  | vacant parent side =>
    refine Upholds.bind (Update.guards_edit (onPool_housed (Pool.reattach_housed _))) fun _ => ?_
    exact Upholds.bind (Update.guards_edit (attach_relinks _ parent side).housed) fun _ => Handle.upholds_ofIndex _ _

end Housed

-- No two handles lead to the same element.
def Apart (same : α → α → Prop) (s : Store ι α μ) : Prop := ∀ h k value other, s.get? h = some value →
  s.get? k = some other → same value other → h = k

theorem Apart.pairwise [Inhabited μ] [Index ι μ] [lawful : LawfulIndex ι μ] {same : α → α → Prop} {t : lawful.Shape}
    {s : Store ι α μ} (apart : Apart same s) (sound : Sound t s) :
    ((LawfulIndex.slots t).filterMap s.pool.get?).Pairwise fun a b => ¬ same a b := by
  rw [List.pairwise_filterMap]
  refine sound.enumerates.nodup.imp_of_mem ?_
  intro i j member member' differ a held b found alike
  have positive := (sound.linkable.inside i member).1
  have positive' := (sound.linkable.inside j member').1
  exact differ (congrArg Handle.index (apart ⟨i, positive⟩ ⟨j, positive'⟩ a b held found alike))

-- An element that was out comes back: into its slot if nothing that is stored is the same, and else not at all.
structure Returned (same : α → α → Prop) (i : Nat) (value : α) (s after : Store ι α μ) (placed : Handle × Bool) : Prop where
  put : Placed same value s after placed.1 placed.2
  home : placed.2 = true → placed.1.index = i
  others : ∀ j, (placed.2 = true → j ≠ i) → after.pool.get? j = s.pool.get? j

-- What it comes to that the element under a handle was another one when it came back.
structure Rekeys (same : α → α → Prop) (h : Handle) (old new : α) (s after : Store ι α μ) (placed : Handle × Bool) :
    Prop where
  back : placed = (h, true) ↔ ∀ k stored, k ≠ h → s.get? k = some stored → ¬ same stored new
  here : placed = (h, true) → after.get? h = some new
  met : placed ≠ (h, true) → after.get? h = none ∧ ∃ k stored, k ≠ h ∧ s.get? k = some stored ∧ same stored new ∧
    placed = (k, false)
  others : ∀ k, k ≠ h → after.get? k = s.get? k
  contents : ∃ rest, s.pool.contents = old ::ₘ rest ∧ Gathers same [new] rest after.pool.contents ∧
    (placed = (h, true) → after.pool.contents = new ::ₘ rest)
  housed : after.Housed s.pool.slots.size s.pool.capacity

namespace Access

variable [Inhabited μ] [Index ι μ] [lawful : LawfulIndex ι μ] {promise : List (α × lawful.Memory) → Prop}
  {same : α → α → Prop} {access : Access ι α μ ω} {s : Session (Store ι α μ) ω} {h : Handle} {old : α}

structure Restores (promise : List (α × lawful.Memory) → Prop) (same : α → α → Prop) (access : Access ι α μ ω) : Prop where
  inherited : Inherited promise
  reinsert : ∀ t i value s, Loose i value t s.store → promise (bodies t s.store) → s.gate.busy = false →
    Returns (access.reinsert ⟨i⟩) s fun placed after =>
      Returned same i value s.store after.store placed ∧ Settled promise after
  housed : ∀ d slots capacity, Guards (Housed slots capacity) (access.reinsert d)

omit [Inhabited μ] [Index ι μ] lawful in
theorem rekeys {out after : Store ι α μ} {new : α} {placed : Handle × Bool} (held : s.store.get? h = some old)
    (gone : out.pool.get? h.index = none) (stayed : ∀ j, j ≠ h.index → out.pool.get? j = s.store.pool.get? j)
    (contents : s.store.pool.contents = old ::ₘ out.pool.contents) (returned : Returned same h.index new out after placed)
    (housed : after.Housed s.store.pool.slots.size s.store.pool.capacity) :
    Rekeys same h old new s.store after placed := by
  obtain ⟨k, fresh⟩ := placed
  obtain ⟨put, home, others⟩ := returned
  have outside : ∀ k : Handle, k ≠ h → out.get? k = s.store.get? k :=
    fun k other => stayed k.index fun equal => other (Handle.ext_index equal)
  cases fresh with
  | true =>
    obtain ⟨missing, joined, here⟩ := put
    obtain rfl : k = h := Handle.ext_index (home rfl)
    refine ⟨⟨fun _ k stored other found alike => ?_, fun _ => rfl⟩, fun _ => here, fun absent => absurd rfl absent, ?_,
      ⟨_, contents, .fresh missing (joined ▸ .nil), fun _ => joined⟩, housed⟩
    · rw [← outside k other] at found
      exact missing stored (Pool.mem_contents.mpr ⟨_, found⟩) alike
    · intro k' other
      rw [← outside k' other]
      exact others k'.index fun _ equal => other (Handle.ext_index equal)
  | false =>
    obtain ⟨kept, stored, alike, found⟩ := put
    have whole : ∀ j, after.pool.get? j = out.pool.get? j := fun j => others j nofun
    have met : out.get? k = some stored := (whole k.index).symm.trans found
    have other : k ≠ h := by
      rintro rfl
      cases gone.symm.trans met
    have there : s.store.get? k = some stored := (outside k other).symm.trans met
    have apart : (k, false) ≠ (h, true) := fun equal => Bool.false_ne_true (congrArg Prod.snd equal)
    refine ⟨⟨fun equal => absurd equal apart, fun none => absurd alike (none k stored other there)⟩,
      fun equal => absurd equal apart, fun _ => ⟨?_, k, stored, other, there, alike, rfl⟩,
      fun k' other => (whole k'.index).trans (outside k' other), ⟨_, contents, ?_, fun equal => absurd equal apart⟩, housed⟩
    · exact (whole h.index).trans gone
    · exact .known (Pool.mem_contents.mpr ⟨_, met⟩) alike (kept ▸ .nil)

variable [LinkingIndex ι μ]

theorem rekey_returns (restores : access.Restores promise same) (settled : Settled promise s)
    (held : s.store.get? h = some old) (change : α → α) :
    Returns (do access.settle change .reinsert (← Update.edit (Store.extract h))) s fun reply after =>
      ∃ placed, reply = .ended old (.reinserted placed.1 placed.2) ∧
        Rekeys same h old (change old) s.store after.store placed ∧ Settled promise after := by
  obtain ⟨⟨t, proper⟩, lowered⟩ := settled
  have stays : Housed s.store.pool.slots.size s.store.pool.capacity s.store := ⟨rfl, rfl⟩
  rw [Returns, ends_bind, Update.ends_edit]
  refine ((extract_returns proper.sound held).both (extract_housed h s.store stays)).ends ?_
  intro _ out told
  obtain ⟨⟨rfl, rest, parts, loose⟩, stays⟩ := told
  obtain ⟨changed, ran, loose', still⟩ := loose.modify_run change
  have left : Proper promise rest changed := (proper.parts restores.inherited parts).same_live loose'.sound still
  have contents : s.store.pool.contents = old ::ₘ changed.pool.contents := by
    rw [parts.contents_eq proper.sound held]
    exact congrArg (fun entries => old ::ₘ (entries.map (·.2) : Multiset α)) still.entries_eq.symm
  have stays : Housed s.store.pool.slots.size s.store.pool.capacity changed :=
    ⟨still.size.trans stays.1, still.capacity.trans stays.2⟩
  rw [settle, ends_bind, ends_get, loose.value_eq, ends_bind, ends_lift, ends_bind, Update.ends_edit]
  refine Ends.of_ok ran ?_
  rw [finish, bind_assoc]
  refine ((restores.reinsert rest h.index (change old) ⟨changed, s.gate⟩ loose' left.body lowered).both
    (restores.housed ⟨h.index⟩ _ _ ⟨changed, s.gate⟩ stays)).bind ?_
  intro placed after told
  obtain ⟨⟨returned, settled⟩, housed⟩ := told
  refine ⟨placed, rfl, rekeys held ?_ ?_ contents returned housed, settled⟩
  · exact (still.get? h.index).trans (parts.gone proper.sound)
  · exact fun j other => (still.get? j).trans (parts.held j other)

omit [LinkingIndex ι μ] in
theorem Exact.apart {ordered : List α → Prop} {container : Container} (exact : access.Exact promise same ordered container)
    (settled : Settled promise s) : Apart same s.store := by
  obtain ⟨t, proper⟩ := settled.proper
  have distinct := exact.distinct _ proper.body
  rw [bodies_values, List.pairwise_filterMap] at distinct
  intro h k value other held found alike
  by_contra differ
  have indices : h.index ≠ k.index := fun equal => differ (Handle.ext_index equal)
  have symmetric : Std.Symm fun i j => ∀ a, s.store.pool.get? i = some a → ∀ b, s.store.pool.get? j = some b →
      ¬ same a b := ⟨fun i j unlike b right a left alike => unlike a left b right (exact.alike.symm alike)⟩
  have unlike := distinct.forall (proper.sound.mem_iff.mpr ⟨value, held⟩) (proper.sound.mem_iff.mpr ⟨other, found⟩) indices
  exact unlike value held other found alike

-- Taken out under its handle and put back, whatever it was changed into meanwhile.
def Rekeyable [Allocator ω] (access : Access ι α μ ω) (same : α → α → Prop) (valid : Session (Store ι α μ) ω → Prop)
    (h : Handle) (old : α) (s : Session (Store ι α μ) ω) : Prop :=
  ∀ change : α → α, ∃ placed after,
    access.run (.extract h change .reinsert) s = .ok (.ended old (.reinserted placed.1 placed.2)) after ∧
      Rekeys same h old (change old) s.store after.store placed ∧ valid after

-- The same when it was not changed: nothing shows that it was out.
def Returnable [Allocator ω] (access : Access ι α μ ω) (valid : Session (Store ι α μ) ω → Prop) (h : Handle) (old : α)
    (s : Session (Store ι α μ) ω) : Prop :=
  ∀ change : α → α, change old = old → ∃ after,
    access.run (.extract h change .reinsert) s = .ok (.ended old (.reinserted h true)) after ∧
      after.store.pool.contents = s.store.pool.contents ∧ (∀ k, after.store.get? k = s.store.get? k) ∧ valid after

theorem rekeyable [Allocator ω] {valid : Session (Store ι α μ) ω → Prop} (restores : access.Restores promise same)
    (upright : ∀ after, Settled promise after → valid after) (settled : Settled promise s)
    (held : s.store.get? h = some old) : access.Rekeyable same valid h old s := by
  intro change
  obtain ⟨_, after, ran, placed, rfl, rekeys, settled⟩ := (rekey_returns restores settled held change).exists
  exact ⟨placed, after, ran, rekeys, upright after settled⟩

omit [LinkingIndex ι μ] lawful in
theorem Rekeyable.returnable [Allocator ω] {valid : Session (Store ι α μ) ω → Prop}
    (rekeyable : access.Rekeyable same valid h old s) (held : s.store.get? h = some old) (apart : Apart same s.store) :
    access.Returnable valid h old s := by
  intro change kept
  obtain ⟨placed, after, ran, rekeys, upright⟩ := rekeyable change
  rw [kept] at rekeys
  have alone : ∀ k stored, k ≠ h → s.store.get? k = some stored → ¬ same stored old :=
    fun k stored other found alike => other (apart k h stored old found held alike)
  obtain rfl : placed = (h, true) := rekeys.back.mpr alone
  refine ⟨after, ran, ?_, fun k => ?_, upright⟩
  · obtain ⟨rest, contents, _, joined⟩ := rekeys.contents
    exact (joined rfl).trans contents.symm
  · by_cases here : k = h
    · rw [here, rekeys.here rfl, held]
    · exact rekeys.others k here

end Access

theorem Store.Adds.others [Inhabited μ] [Index ι μ] [lawful : LawfulIndex ι μ] {t t' : lawful.Shape} {i j : Nat} {value : α}
    {s after : Store ι α μ} (adds : Adds id i value t t' s after) (sound : Sound t s) (other : j ≠ i) :
    after.pool.get? j = s.pool.get? j := by
  by_cases member : j ∈ LawfulIndex.slots t
  · exact adds.held j member
  · have absent : j ∉ LawfulIndex.slots t' := by
      rw [adds.perm.mem_iff, List.map_id, List.mem_cons]
      exact not_or.mpr ⟨other, member⟩
    rw [sound.mem_iff, ← Option.ne_none_iff_exists', not_not] at member
    rw [adds.sound.mem_iff, ← Option.ne_none_iff_exists', not_not] at absent
    rw [member, absent]

section Hash

open HashSet

variable {r : PureHash α} [Allocator ω]

omit [Allocator ω] in
theorem HashSet.Reinserts.returned {order : List Nat} {i : Nat} {value : α} {s after : Session (HashSet α) ω}
    {placed : Handle × Bool} (lawful : r.Lawful) (proper : Proper (Fresh r) order s.store)
    (reinserts : Reinserts (r.hash value) (r.equal · value) i value order s.store after.store placed) :
    Returned (r.equal · · = true) i value s.store after.store placed := by
  refine ⟨reinserts.placed lawful proper.sound proper.body, ?_, ?_⟩
  · obtain ⟨h, fresh⟩ := placed
    cases fresh with
    | false => nofun
    | true => exact fun _ => reinserts.2.1
  · obtain ⟨h, fresh⟩ := placed
    intro j other
    cases fresh with
    | false => exact reinserts.2.2.get? j
    | true =>
      obtain ⟨_, _, _, order', adds⟩ := reinserts
      exact adds.others proper.sound (other rfl)

theorem HashSet.access_restores (lawful : r.Lawful) :
    (HashSet.access (ω := ω) r.rule).Restores (Fresh r) (r.equal · · = true) where
  inherited := (welcomes_fresh r).inherited
  reinsert order i value s loose body lowered := by
    refine (reinsert_ends loose).imp ?_ fun _ _ barred => Session.not_barred lowered barred
    intro placed after told
    obtain ⟨reinserts, gate⟩ := told
    have proper : Proper (Fresh r) order s.store := ⟨loose.sound, body⟩
    exact ⟨reinserts.returned lawful proper, reinserts.settles (welcomes_fresh r) proper (gate.trans lowered)⟩
  housed d _ _ := HashSet.reinsert_housed r.rule d

end Hash

section Order

open TreeSet

variable {r : PureOrder α} [Allocator ω]

omit [Allocator ω] in
theorem TreeSet.Reinserts.returned {t : Tree} {i : Nat} {value : α} {s after : Session (TreeSet α) ω}
    {placed : Handle × Bool} (lawful : r.Lawful) (proper : Proper (Ascending r) t s.store)
    (reinserts : Reinserts (r.compare · value) i value t s.store after.store placed) :
    Returned (r.compare · · = .eq) i value s.store after.store placed := by
  refine ⟨(reinserts.meets lawful proper).1, ?_, ?_⟩
  · obtain ⟨h, fresh⟩ := placed
    cases fresh with
    | false => nofun
    | true => exact fun _ => reinserts.2.1
  · obtain ⟨h, fresh⟩ := placed
    intro j other
    cases fresh with
    | false => exact reinserts.2.2.get? j
    | true =>
      obtain ⟨_, _, t', lands⟩ := reinserts
      exact lands.adds.others proper.sound (other rfl)

theorem TreeSet.access_restores (lawful : r.Lawful) :
    (TreeSet.access (ω := ω) r.rule).Restores (Ascending r) (r.compare · · = .eq) where
  inherited := Ascending.inherited r
  reinsert t i value s loose body lowered := by
    refine (reinsert_ends loose).imp ?_ fun _ _ barred => Session.not_barred lowered barred
    intro placed after told
    obtain ⟨reinserts, gate⟩ := told
    have proper : Proper (Ascending r) t s.store := ⟨loose.sound, body⟩
    exact ⟨reinserts.returned lawful proper, reinserts.settles (welcomes_ascending lawful) proper (gate.trans lowered)⟩
  housed d _ _ := TreeSet.reinsert_housed r.rule d

end Order

theorem HashSet.Reached.distinct {r : PureHash α} [Allocator ω] {act : γ → Update (HashSet α) ω β} {fair : γ → Prop}
    {s : Session (HashSet α) ω} (reached : HashSet.Reached act fair s)
    (kept : ∀ action, fair action → ∀ s, Settled (HashSet.Distinct r) s →
      Settled (HashSet.Distinct r) (s.perform (act action)).2) : Settled (HashSet.Distinct r) s := by
  refine reached.keeps (fun start sound lowered => ⟨⟨[], sound, ⟨?_, .nil⟩⟩, lowered⟩) kept
  exact fun _ none => absurd none List.not_mem_nil

theorem HashSet.reached_distinct {r : PureHash α} [Allocator ω] {s : Session (HashSet α) ω} (lawful : r.Lawful)
    (reached : HashSet.Reached (HashSet.act r.rule) (HashSet.Keeping r) s) : Settled (HashSet.Distinct r) s :=
  reached.distinct fun _ keeping _ settled => (HashSet.act_performed lawful keeping settled).2

theorem HashSet.upright {r : PureHash α} [Allocator ω] {s : Session (HashSet α) ω} (lawful : r.Lawful)
    (settled : Settled (HashSet.Distinct r) s) : HashSet.Valid r s ∧ Apart (r.equal · · = true) s.store := by
  obtain ⟨⟨order, proper⟩, lowered⟩ := id settled
  exact ⟨HashSet.valid_of_settled ⟨⟨order, proper.sound, proper.body.own⟩, lowered⟩,
    (HashSet.access_exact lawful).apart settled⟩

-- After any history whatsoever, as long as the container passes its check. A hash set may pass it with equal elements, which
-- were made so in place and hashed anew; one that was left alone never holds any, and a tree that passes never does.
theorem extract_reinsert_rekeys [Allocator ω] :
    (∀ (r : PureHash α) (s : Session (HashSet α) ω), r.Lawful → HashSet.Reached (HashSet.act r.rule) (fun _ => True) s →
      HashSet.Valid r s → ∀ h old, s.store.get? h = some old →
        (HashSet.access r.rule).Rekeyable (r.equal · · = true) (HashSet.Valid r) h old s ∧
        (Apart (r.equal · · = true) s.store → (HashSet.access r.rule).Returnable (HashSet.Valid r) h old s)) ∧
    (∀ (r : PureHash α) (s : Session (HashSet α) ω), r.Lawful → HashSet.Reached (HashSet.act r.rule) (HashSet.Keeping r) s →
      HashSet.Valid r s ∧ Apart (r.equal · · = true) s.store) ∧
    ∀ (r : PureOrder α) (s : Session (TreeSet α) ω), r.Lawful → TreeSet.Reached (TreeSet.act r.rule) (fun _ => True) s →
      TreeSet.Valid r s → ∀ h old, s.store.get? h = some old →
        (TreeSet.access r.rule).Rekeyable (r.compare · · = .eq) (TreeSet.Valid r) h old s ∧
        (TreeSet.access r.rule).Returnable (TreeSet.Valid r) h old s := by
  refine ⟨?_, ?_, ?_⟩
  · intro r s lawful reached valid h old held
    have rekeyable := Access.rekeyable (HashSet.access_restores lawful) (fun _ => HashSet.valid_of_settled)
      (valid.settled reached.booked) held
    exact ⟨rekeyable, rekeyable.returnable held⟩
  · exact fun r s lawful reached => HashSet.upright lawful (HashSet.reached_distinct lawful reached)
  · intro r s lawful reached valid h old held
    have settled := valid.settled lawful reached.booked
    have rekeyable := Access.rekeyable (TreeSet.access_restores lawful) (fun _ => TreeSet.valid_of_settled lawful)
      settled held
    exact ⟨rekeyable, rekeyable.returnable held ((TreeSet.access_exact lawful).apart settled)⟩

-- Two sets that are full. The second element is changed into another one that is stored, and left as it is.
theorem extract_reinsert_rekeys_of_numbers :
    let r : PureHash Nat := ⟨fun n => UInt32.ofNat (n % 3), fun a b => a == b⟩
    let order : PureOrder Nat := ⟨compare⟩
    let chained : Session (HashSet Nat) World := ⟨⟨⟨#[.sentinel], 5, 0⟩, ⟨#[0, 0, 0], 60⟩⟩, false, World.fresh⟩
    let sorted : Session (TreeSet Nat) World := ⟨⟨⟨#[.sentinel], 5, 0⟩, ⟨0⟩⟩, false, World.fresh⟩
    let s := Session.performed (HashSet.act r.rule) [.common (.extend [3, 6, 9, 1])] chained
    let t := Session.performed (TreeSet.act order.rule) [.common (.extend [3, 6, 9, 1])] sorted
    let h : Handle := ⟨2, Nat.two_pos⟩
    s.store.pool.isFull = true ∧ t.store.pool.isFull = true ∧
      (∃ after, (HashSet.access r.rule).run (.extract h (· + 3) .reinsert) s =
        .ok (.ended 6 (.reinserted ⟨3, by decide⟩ false)) after ∧ HashSet.Valid r after) ∧
      (∃ after, (HashSet.access r.rule).run (.extract h id .reinsert) s = .ok (.ended 6 (.reinserted h true)) after ∧
        after.store.pool.contents = s.store.pool.contents) ∧
      ∃ after, (TreeSet.access order.rule).run (.extract h (fun _ => 0) .reinsert) t =
        .ok (.ended 6 (.reinserted h true)) after ∧ after.store.get? h = some 0 := by
  intro r order chained sorted s t h
  have told := extract_reinsert_rekeys (α := Nat) (ω := World)
  have fair : r.Lawful := PureHash.lawful_beq _
  have lawful : order.Lawful := PureOrder.lawful_numbers
  have left : HashSet.Reached (HashSet.act r.rule) (HashSet.Keeping r) s := by
    refine ⟨⟨4, 60⟩, ⟨HashSet.empty 0, false, World.fresh⟩, chained, _, rfl, by with_unfolding_all rfl, ?_, rfl⟩
    intro action member
    cases List.mem_singleton.mp member
    exact .common nofun
  have chains : HashSet.Reached (HashSet.act r.rule) (fun _ => True) s :=
    ⟨⟨4, 60⟩, ⟨HashSet.empty 0, false, World.fresh⟩, chained, _, rfl, by with_unfolding_all rfl, fun _ _ => trivial, rfl⟩
  have grows : TreeSet.Reached (TreeSet.act order.rule) (fun _ => True) t :=
    ⟨⟨4⟩, ⟨TreeSet.empty, false, World.fresh⟩, sorted, _, rfl, rfl, fun _ _ => trivial, rfl⟩
  have upright : TreeSet.Valid order t := by
    have passed : (TreeSet.check order.rule t.store).run' t.gate = some (.ok ()) := by decide +kernel
    obtain ⟨_, ran⟩ := ran_of_run' passed
    exact TreeSet.valid_of_check lawful grows.booked (by decide +kernel) ran
  obtain ⟨valid, apart⟩ := told.2.1 r s fair left
  obtain ⟨rekeyable, returnable⟩ := told.1 r s fair chains valid h 6 (by decide +kernel)
  obtain ⟨rekeyable', _⟩ := told.2.2 order t lawful grows upright h 6 (by decide +kernel)
  have there : s.store.get? ⟨3, by decide⟩ = some 9 := by decide +kernel
  have unlike : ∀ value ∈ t.store.pool.entries.map (·.2), order.compare value 0 ≠ .eq := by decide +kernel
  refine ⟨by decide +kernel, by decide +kernel, ?_, ?_, ?_⟩
  · clear_value s
    obtain ⟨placed, after, ran, rekeys, valid⟩ := rekeyable (· + 3)
    have met : placed ≠ (h, true) := fun back => rekeys.back.mp back ⟨3, by decide⟩ 9 (by decide) there rfl
    obtain ⟨_, k, stored, _, found, alike, rfl⟩ := rekeys.met met
    obtain rfl : stored = 9 := by simpa [r] using alike
    have same : k = ⟨3, by decide⟩ := apart k _ 9 9 found there rfl
    exact ⟨after, same ▸ ran, valid⟩
  · clear_value s
    obtain ⟨after, ran, contents, _⟩ := returnable apart id rfl
    exact ⟨after, ran, contents⟩
  · clear_value t
    obtain ⟨placed, after, ran, rekeys, _⟩ := rekeyable' fun _ => 0
    have back : placed = (h, true) := by
      refine rekeys.back.mpr fun k stored _ found => unlike stored ?_
      exact Multiset.mem_coe.mp (Pool.mem_contents.mpr ⟨_, found⟩)
    subst back
    exact ⟨after, ran, rekeys.here rfl⟩

-- Two equal numbers in a set that passes its check: the second was changed into the first, and all were hashed anew. Taken
-- out and put back as it is, it meets the other one and is gone.
theorem extract_reinsert_meets_equal :
    let r : PureHash Nat := ⟨fun n => UInt32.ofNat n, fun a b => a == b⟩
    let chained : Session (HashSet Nat) World := ⟨⟨⟨#[.sentinel], 5, 0⟩, ⟨#[0, 0, 0], 60⟩⟩, false, World.fresh⟩
    let h : Handle := ⟨2, Nat.two_pos⟩
    let s := Session.performed (HashSet.act r.rule)
      [.common (.extend [1, 2]), .common (.change h fun _ => 1), .rehash] chained
    r.Lawful ∧ HashSet.Reached (HashSet.act r.rule) (fun _ => True) s ∧
      (HashSet.check r.rule s.store).run' s.gate = some (.ok ()) ∧ ∃ after,
        (HashSet.access r.rule).run (.extract h id .reinsert) s = .ok (.ended 1 (.reinserted ⟨1, Nat.one_pos⟩ false)) after ∧
        after.store.get? h = none := by
  intro r chained h s
  have fair : r.Lawful := PureHash.lawful_beq _
  have reached : HashSet.Reached (HashSet.act r.rule) (fun _ => True) s :=
    ⟨⟨4, 60⟩, ⟨HashSet.empty 0, false, World.fresh⟩, chained, _, rfl, by with_unfolding_all rfl, fun _ _ => trivial, rfl⟩
  have passed : (HashSet.check r.rule s.store).run' s.gate = some (.ok ()) := by decide +kernel
  obtain ⟨_, ran⟩ := ran_of_run' passed
  have settled := HashSet.settled_of_check reached.booked (by decide +kernel) ran
  have held : s.store.get? h = some 1 := by decide +kernel
  have first : s.store.get? ⟨1, Nat.one_pos⟩ = some 1 := by decide +kernel
  have within : s.store.pool.slots.size = 3 := by decide +kernel
  refine ⟨fair, reached, passed, ?_⟩
  clear_value s
  obtain ⟨placed, after, ran, rekeys, _⟩ :=
    Access.rekeyable (HashSet.access_restores fair) (fun _ => HashSet.valid_of_settled) settled held id
  have met : placed ≠ (h, true) := fun back => rekeys.back.mp back ⟨1, Nat.one_pos⟩ 1 (by decide) first rfl
  obtain ⟨gone, k, stored, other, found, _, rfl⟩ := rekeys.met met
  have inside : k.index < 3 := within ▸ Pool.isActive_lt (Pool.isActive_of_get? found)
  have apart : k.index ≠ 2 := fun same => other (Handle.ext_index same)
  have positive := k.pos
  obtain rfl : k = ⟨1, Nat.one_pos⟩ := Handle.ext_index (show k.index = 1 by omega)
  exact ⟨after, ran, gone⟩

end Slotted
