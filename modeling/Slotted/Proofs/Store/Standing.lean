import Slotted.Proofs.Pool.Standing
import Slotted.Proofs.Store.Relinking
import Slotted.Proofs.Store.Workings
namespace Slotted

variable {ι α μ β ω : Type}

-- What a query would tell whoever asked it now.
def Session.Finds {κ : Type} (s : Session κ ω) (query : Query κ ω β) (answer : β) : Prop :=
  ∃ gate, query s.store s.gate = .ok answer gate

theorem Session.finds_of_ask {κ : Type} {s after : Session κ ω} {query : Query κ ω β} {answer : β}
    (asked : Update.ask query s = .ok answer after) : s.Finds query answer := ⟨_, (ran_of_ask asked).1⟩

theorem Session.Finds.unique {κ : Type} {s : Session κ ω} {query : Query κ ω β} {a b : β} (first : s.Finds query a)
    (second : s.Finds query b) : a = b := by
  obtain ⟨_, ran⟩ := first
  obtain ⟨_, ran'⟩ := second
  rw [ran] at ran'
  cases ran'
  rfl

def Pool.used (p : Pool α μ) : Nat := p.next - 1

-- A full pool that holds a tombstone and is at most half filled is not grown.
structure Pool.Slack (p : Pool α μ) : Prop where
  full : p.isFull = true
  tombstone : p.count < p.used
  sparse : 2 * p.count ≤ p.capacity

namespace Store

open Pool

section Edits

variable {i : Nat} {s : Store ι α μ}

theorem Relinks.stands [Inhabited μ] {program : Edit (Store ι α μ) β} (relinks : Relinks program)
    (bounded : s.pool.Bounded) : Always program s fun after => Stands False still s.pool after.pool :=
  (relinks.always s).imp fun _ same => .of_same_bodies same bounded

theorem push_stands (bounded : s.pool.Bounded) (value : α) (link : μ) :
    Always (onPool (Pool.push value link)) s fun after => Stands False still s.pool after.pool := by
  rw [Always, ends_onPool]
  exact Pool.push_stands bounded value link

theorem onSlot_stands {program : Edit (Pool α μ) β} (spares : Spares i program) (bounded : s.pool.Bounded) :
    Always (onPool program) s fun after => Stands False (sparing i) s.pool after.pool := by
  rw [Always, ends_onPool]
  exact spares s.pool bounded

theorem modifyValue_stands (bounded : s.pool.Bounded) (i : Nat) (change : Nat → α → α) :
    Always (onPool (Pool.modifyValue i (change i))) s fun after => Stands False (repeating change) s.pool after.pool := by
  rw [Always, ends_onPool]
  refine (modifyValue_ends i (change i) s.pool).imp ?_ ?_
  · intro _ q same
    rw [same]
    exact (Stands.of_change bounded i (change i)).imp id fun _ _ _ => changing_repeats
  · intro _ q same
    rw [same]
    exact .refl bounded fun _ _ => ⟨0, by simp⟩

theorem modifyAt_stands (bounded : s.pool.Bounded) (h : Handle) (change : α → α) :
    Always (modifyAt h change) s fun after => Stands False (changing h.index change) s.pool after.pool := by
  cases held : s.get? h with
  | none =>
    have absent : s.pool.get? h.index = none := held
    refine Ends.of_ok (modifyAt_none held change) ⟨bounded, fun _ => ⟨fun _ inside => inside, ?_⟩⟩
    intro g _
    unfold changing
    by_cases same : g.index = h.index
    · rw [same, absent]
      rfl
    · rw [if_neg same, Option.map_id]
      rfl
  | some value =>
    have ran := Pool.modifyValue_run (stored_of_get? held) change
    unfold modifyAt
    rw [Always, ends_bind, ends_get, held]
    dsimp only
    rw [ends_bind]
    exact Ends.of_ok (onPool_ok ran) (.of_change bounded h.index change)

theorem discard_stands (bounded : s.pool.Bounded) (i : Nat) :
    Ends (onPool (Pool.discard i)) s
      (fun _ after => Stands False (sparing i) s.pool after.pool ∧ after.pool.isActive i = false)
      fun _ after => Stands False (sparing i) s.pool after.pool := by
  rw [ends_onPool]
  refine (Ends.both (Spares.discard i s.pool bounded) (discard_idles i s.pool)).imp ?_ ?_
  · exact fun _ _ told => told
  · exact fun _ _ told => told.1

theorem drop_stands (bounded : s.pool.Bounded) (d : Detached) :
    Ends (drop d) s
      (fun _ after => Stands False (sparing d.slot) s.pool after.pool ∧ after.pool.isActive d.slot = false)
      fun _ after => Stands False (sparing d.slot) s.pool after.pool := by
  rw [drop]
  exact (discard_stands bounded d.slot).bind fun _ _ told => told

theorem release_stands (bounded : s.pool.Bounded) (d : Detached) :
    Ends (release d) s
      (fun _ after => Stands False (sparing d.slot) s.pool after.pool ∧ after.pool.isActive d.slot = false)
      fun _ after => Stands False (sparing d.slot) s.pool after.pool := by
  rw [release]
  refine (discard_stands bounded d.slot).bind ?_
  intro value after told
  cases value with
  | none => exact told.1
  | some value => exact told

theorem leaving_of_idle {p q : Pool α μ} (stands : Stands False (sparing i) p q) (idle : q.isActive i = false) :
    Stands False (leaving i) p q := by
  refine ⟨stands.bounded, fun calm => ⟨(stands.keeps calm).inside, ?_⟩⟩
  intro h inside
  cases (stands.keeps calm).fate h inside with
  | inl here =>
    rw [leaving, here]
    exact .inr ⟨rfl, get?_idle idle⟩
  | inr same => exact .inl same

theorem leaving_of_still {p q : Pool α μ} (stands : Stands False still p q) : Stands False (leaving i) p q :=
  stands.imp id fun _ _ _ => .inl

variable [Inhabited μ] [Index ι μ] [LinkingIndex ι μ]

theorem unlink_bodies (i : Nat) (s : Store ι α μ) :
    Always (Index.unlink i) s fun after => SameBodies (fun _ => ()) s.pool after.pool := (LinkingIndex.unlink i).always s

theorem remove_stands (bounded : s.pool.Bounded) (h : Handle) :
    Ends (remove h) s
      (fun _ after => Stands False (leaving h.index) s.pool after.pool ∧ after.pool.isActive h.index = false)
      fun _ after => Stands False (leaving h.index) s.pool after.pool := by
  unfold remove
  rw [ends_bind, ends_get]
  by_cases live : s.pool.isActive h.index = true
  · rw [if_pos live]
    refine Ends.bind (Ends.faulting (unlink_bodies h.index s) ?_) ?_
    · intro _ middle same
      exact leaving_of_still (.of_same_bodies same bounded)
    · intro _ middle same
      have first : Stands False still s.pool middle.pool := .of_same_bodies same bounded
      have spared := Spares.take h.index middle.pool first.bounded
      have idle := take_idles ((same.isActive h.index).trans live)
      rw [ends_onPool]
      refine (Ends.both spared idle).imp ?_ ?_
      · intro _ q told
        exact ⟨first.after_still (leaving_of_idle told.1 told.2), told.2⟩
      · intro _ q told
        exact first.after_still (leaving_of_idle told.1 told.2)
  · rw [if_neg live, ends_pure]
    exact ⟨leaving_of_still (.stay bounded), by simpa using live⟩

theorem extract_stands (bounded : s.pool.Bounded) (h : Handle) :
    Ends (extract h) s
      (fun answer after => match answer with
        | none => s.get? h = none ∧ Stands False still s.pool after.pool
        | some d => d.slot = h.index ∧ s.get? h ≠ none ∧ Stands False (sparing h.index) s.pool after.pool ∧
            after.pool.isActive h.index = false)
      fun _ after => Stands False (leaving h.index) s.pool after.pool := by
  unfold extract
  rw [ends_bind, ends_get]
  by_cases live : s.pool.isActive h.index = true
  · rw [if_pos live]
    refine Ends.bind (Ends.faulting (unlink_bodies h.index s) ?_) ?_
    · intro _ middle same
      exact leaving_of_still (.of_same_bodies same bounded)
    · intro _ middle same
      have first : Stands False still s.pool middle.pool := .of_same_bodies same bounded
      rw [ends_bind, ends_onPool]
      cases held : middle.pool.get? h.index with
      | none =>
        refine (detach_absent held).imp (fun _ _ => False.elim) ?_
        intro _ q unchanged
        rw [unchanged]
        exact leaving_of_still first
      | some value =>
        have spared := Spares.detach h.index middle.pool first.bounded
        have idle := detach_idles held
        refine (Ends.both spared idle).imp ?_ ?_
        · intro _ q told
          refine ⟨rfl, ?_, first.after_still told.1, told.2⟩
          intro absent
          have there : s.pool.get? h.index = some value := by rw [← same.get?, held]
          rw [Store.get?, there] at absent
          cases absent
        · intro _ q told
          exact first.after_still (leaving_of_idle told.1 told.2)
  · have idle : s.pool.isActive h.index = false := by simpa using live
    rw [if_neg live, ends_pure]
    exact ⟨get?_idle idle, .stay bounded⟩

end Edits

theorem swap_bounded {p : Pool α μ} (bounded : p.Bounded) (i j : Nat) : (p.swap i j).Bounded := by
  refine ⟨?_, bounded.limit⟩
  rw [Pool.size_swap]
  exact bounded.fits

theorem stands_of_same {shifts : Prop} {s after : Session (Store ι α μ) ω} (bounded : s.store.pool.Bounded)
    (same : after.store = s.store) : Stands shifts still s.store.pool after.store.pool := by
  rw [same]
  exact .stay bounded

theorem ask_stands (shifts : Prop) {s : Session (Store ι α μ) ω} (bounded : s.store.pool.Bounded)
    (query : Query (Store ι α μ) ω β) :
    Always (Update.ask query) s fun after => Stands shifts still s.store.pool after.store.pool :=
  (Update.ask_keeps_store query).imp fun _ => stands_of_same bounded

theorem ofIndex_stands {shifts : Prop} {s middle : Session (Store ι α μ) ω} (bounded : s.store.pool.Bounded)
    (same : middle.store = s.store) (i : Nat) (answer : Handle → β) :
    Always (do return answer (← Handle.ofIndex i) : Update (Store ι α μ) ω β) middle fun after =>
      Stands shifts still s.store.pool after.store.pool := by
  refine (Handle.ofIndex_ends i answer middle).imp ?_ ?_
  · intro _ after told
    rw [told.2]
    exact stands_of_same bounded same
  · intro _ after stay
    rw [stay]
    exact stands_of_same bounded same

section Placing

variable {s : Session (Store ι α μ) ω}

theorem added_stands [Inhabited μ] {link : Nat → Edit (Store ι α μ) Unit} (relinks : ∀ i, Relinks (link i))
    (bounded : s.store.pool.Bounded) (value : α) (blank : μ) (answer : Handle → β) :
    Always (do
        let i ← Update.edit (do
          let i ← onPool (Pool.push value blank)
          link i
          return i)
        return answer (← Handle.ofIndex i) : Update (Store ι α μ) ω β) s fun after =>
      Stands False still s.store.pool after.store.pool := by
  have added : Always (Update.edit (do
      let i ← onPool (Pool.push value blank)
      link i
      return i)) s fun after => Stands False still s.store.pool after.store.pool := by
    rw [Always, Update.ends_edit]
    refine Always.then (push_stands bounded value blank) ?_
    intro i middle first
    have linked := (relinks i).stands first.bounded
    exact (linked.imp fun _ later => first.after_still later).then fun _ _ stands => stands
  refine added.then ?_
  intro i middle first
  exact (ofIndex_stands first.bounded rfl i answer).imp fun after later => first.after_still later

theorem dropped_stands (bounded : s.store.pool.Bounded) (d : Detached) (i : Nat) :
    Ends (do
        Update.edit (drop d)
        return (← Handle.ofIndex i, false) : Update (Store ι α μ) ω (Handle × Bool)) s
      (fun placed after => Stands False (sparing d.slot) s.store.pool after.store.pool ∧
        (placed.2 = false → after.store.pool.isActive d.slot = false))
      fun _ after => Stands False (sparing d.slot) s.store.pool after.store.pool := by
  rw [ends_bind, Update.ends_edit]
  refine (drop_stands bounded d).returning ?_
  intro _ middle told
  refine (Handle.ofIndex_ends i _ _).imp ?_ ?_
  · intro placed after last
    rw [last.2]
    exact ⟨told.1, fun _ => told.2⟩
  · intro _ after last
    rw [last]
    exact told.1

theorem reattached_stands [Inhabited μ] {link : Edit (Store ι α μ) Unit} (relinks : Relinks link)
    (bounded : s.store.pool.Bounded) (d : Detached) :
    Ends (do
        Update.edit (onPool (Pool.reattach d.slot))
        Update.edit link
        return (← Handle.ofIndex d.slot, true) : Update (Store ι α μ) ω (Handle × Bool)) s
      (fun placed after => Stands False (sparing d.slot) s.store.pool after.store.pool ∧
        (placed.2 = false → after.store.pool.isActive d.slot = false))
      fun _ after => Stands False (sparing d.slot) s.store.pool after.store.pool := by
  have put : Always (Update.edit (onPool (Pool.reattach d.slot))) s fun after =>
      Stands False (sparing d.slot) s.store.pool after.store.pool := by
    rw [Always, Update.ends_edit]
    exact onSlot_stands (Spares.reattach d.slot) bounded
  refine Ends.bind put ?_
  intro _ middle back
  have linked : Always (Update.edit link) middle fun after =>
      Stands False (sparing d.slot) s.store.pool after.store.pool := by
    rw [Always, Update.ends_edit]
    refine Always.imp (relinks.stands back.bounded) ?_
    intro after relinked
    exact back.trans (relinked.imp id fun _ _ _ => .inr) (sparing_transitive _)
  refine Ends.bind linked ?_
  intro _ third stands
  refine (Handle.ofIndex_ends d.slot _ _).imp ?_ ?_
  · intro placed after last
    obtain ⟨⟨h, told⟩, same⟩ := last
    rw [same, told]
    exact ⟨stands, fun away => by cases away⟩
  · intro _ after last
    rw [last]
    exact stands

end Placing

section Room

variable [Inhabited μ] [Index ι μ] [LinkingIndex ι μ] {s : Store ι α μ}

theorem compact_bounded (bounded : s.pool.Bounded) : Always compact s fun after => after.pool.Bounded := by
  have relinks : ∀ {program : Edit (Store ι α μ) Unit}, Relinks program → Upholds (fun s => s.pool.Bounded) program :=
    fun relinks s bounded => (relinks.always s).imp fun _ same => same.bounded bounded
  have kept : Upholds (fun s => s.pool.Bounded) (compact : Edit (Store ι α μ) Unit) := by
    refine compact_keeps (fun s i j bounded => swap_bounded bounded i j) (fun s bounded => ⟨?_, bounded.limit⟩)
      (fun i j => relinks (LinkingIndex.moved i j)) (relinks LinkingIndex.settled)
    rw [Pool.size_dropTail]
    exact Nat.le_trans (Nat.min_le_right _ _) bounded.fits
  exact kept s bounded

theorem reorder_bounded (bounded : s.pool.Bounded) :
    Always reorder s fun after => after.pool.Bounded ∧ (¬ s.pool.count < s.pool.used → after = s) := by
  rw [reorder, Always, ends_bind, ends_get]
  unfold Pool.tombstones Pool.used
  by_cases counted : s.pool.count ≤ s.pool.next - 1
  · rw [if_pos counted, ends_bind, ends_lift]
    split
    · rename_i some
      refine (compact_bounded bounded).imp ?_
      intro after bounded'
      exact ⟨bounded', fun none => absurd (by omega) none⟩
    · exact ⟨bounded, fun _ => rfl⟩
  · rw [if_neg counted]
    exact ⟨bounded, fun _ => rfl⟩

theorem reorder_stands (bounded : s.pool.Bounded) :
    Always reorder s fun after => Stands (s.pool.count < s.pool.used) still s.pool after.pool := by
  refine (reorder_bounded bounded).imp ?_
  intro after told
  refine ⟨told.1, ?_⟩
  intro calm
  rw [told.2 calm]
  exact (Stands.stay bounded : Stands False still _ _).keeps id

omit [Index ι μ] [LinkingIndex ι μ] in
theorem setCapacity_stands {p : Pool α μ} {n : Nat} (allowed : p.refusal n = none) :
    Stands (n = 0 ∧ 1 < p.slots.size) still p (p.setCapacity n) := by
  obtain ⟨limit, counted, fits⟩ := Pool.refusal_none allowed
  unfold Pool.setCapacity
  by_cases none : n = 0
  · rw [if_pos none]
    refine ⟨⟨Nat.le_refl 0, Nat.zero_le _⟩, ?_⟩
    intro calm
    have bare : ∀ h : Handle, ¬ h.index < p.slots.size := by
      intro h inside
      have positive := h.pos
      exact calm ⟨none, by omega⟩
    exact ⟨fun h inside => absurd inside (bare h), fun h inside => absurd inside (bare h)⟩
  · rw [if_neg none]
    by_cases bare : p.slots.isEmpty = true
    · have empty : p.slots.size = 0 := by simpa using bare
      rw [if_pos bare]
      refine ⟨⟨?_, limit⟩, fun _ => ⟨?_, ?_⟩⟩
      · exact Nat.pos_of_ne_zero none
      · intro h inside
        omega
      · intro h inside
        omega
    · rw [if_neg bare]
      refine ⟨⟨?_, limit⟩, fun _ => ⟨fun _ inside => inside, fun _ _ => rfl⟩⟩
      change p.slots.size ≤ n
      omega

variable {s : Session (Store ι α μ) ω} [Allocator ω]

theorem resizeSlots_stands (bounded : s.store.pool.Bounded) (n : Nat) :
    Always (resizeSlots n) s fun after =>
      Stands (n = 0 ∧ 1 < s.store.pool.slots.size) still s.store.pool after.store.pool := by
  have stay : ∀ after : Session (Store ι α μ) ω, after.store = s.store →
      Stands (n = 0 ∧ 1 < s.store.pool.slots.size) still s.store.pool after.store.pool := by
    intro after same
    rw [same]
    exact .stay bounded
  have secured : ∀ (needed : Bool) (request : Request) (s' : Session (Store ι α μ) ω), s'.store = s.store →
      Always (secure needed request) s' fun after => after.store = s.store := by
    intro needed request s' same
    exact (secure_returns needed request s').imp (fun _ _ told => told.1.trans same) fun _ _ => False.elim
  rw [resizeSlots, Always, ends_bind, ends_get]
  dsimp only
  refine Always.bind (secured _ _ s rfl) stay ?_
  intro granted first same
  split
  · rw [Always, ends_bind, ends_get, same]
    cases refused : s.store.pool.refusal n with
    | some error => exact stay first same
    | none =>
      dsimp only
      rw [ends_bind, ends_get]
      refine Always.bind (secured _ _ first same) stay ?_
      intro granted second same'
      split
      · have sized := setCapacity_stands refused
        have linked : Relinks (Index.resized n : Edit (Store ι α μ) Unit) := LinkingIndex.resized n
        have adopted : Always (Update.edit (adopt n)) second fun after =>
            Stands (n = 0 ∧ 1 < s.store.pool.slots.size) still s.store.pool after.store.pool := by
          rw [Always, Update.ends_edit, same', adopt, ends_bind, ends_modify]
          refine Always.imp (linked.stands (s := ⟨s.store.pool.setCapacity n, s.store.index⟩) sized.bounded) ?_
          intro after relinked
          exact sized.after_still (relinked.imp False.elim fun _ _ _ => id)
        exact adopted.then fun _ _ done => done
      · exact stay second same'
  · exact stay first same

theorem resize_stands (bounded : s.store.pool.Bounded) (capacity : Nat) :
    Always (resize capacity) s fun after =>
      Stands (capacity < s.store.pool.used) still s.store.pool after.store.pool := by
  have some : 1 ≤ s.store.pool.next := Nat.le_max_right _ _
  have within : s.store.pool.slots.size ≤ s.store.pool.next := Nat.le_max_left _ _
  rw [resize, Always, ends_bind, ends_get]
  dsimp only
  split
  · exact .stay bounded
  · rename_i enough
    split
    · exact .stay bounded
    · rw [ends_bind, ends_get]
      unfold Store.len at enough
      have uncut : ¬ capacity < s.store.pool.used → ¬ (slotsFor capacity = 0 ∧ 1 < s.store.pool.slots.size) := by
        unfold Pool.used slotsFor
        split <;> omega
      split
      · rename_i narrow
        have full : ¬ capacity < s.store.pool.used → ¬ s.store.pool.count < s.store.pool.used := by
          unfold slotsFor at narrow
          unfold Pool.used
          split at narrow
          · omega
          · omega
        have reordered : Always (Update.edit reorder) s fun after => after.store.pool.Bounded ∧
            (¬ capacity < s.store.pool.used → after.store = s.store) := by
          rw [Always, Update.ends_edit]
          exact Always.imp (reorder_bounded bounded) fun after told => ⟨told.1, fun calm => told.2 (full calm)⟩
        refine Always.bind reordered ?_ ?_
        · intro after told
          refine ⟨told.1, ?_⟩
          intro calm
          rw [told.2 calm]
          exact (Stands.stay bounded : Stands False still _ _).keeps id
        · intro _ middle told
          refine (resizeSlots_stands told.1 _).imp ?_
          intro after stands
          refine ⟨stands.bounded, ?_⟩
          intro calm
          rw [told.2 calm] at stands
          exact stands.keeps (uncut calm)
      · refine (resizeSlots_stands bounded _).imp ?_
        intro after stands
        refine ⟨stands.bounded, ?_⟩
        intro calm
        exact stands.keeps (uncut calm)

theorem reserve_stands (bounded : s.store.pool.Bounded) (additional : Nat) :
    Always (reserve additional) s fun after =>
      Stands (s.store.capacity < s.store.pool.used + additional ∧ s.store.len + additional ≤ s.store.capacity) still
        s.store.pool after.store.pool := by
  have fits := bounded.fits
  have limit := bounded.limit
  rw [reserve, Always, ends_bind, ends_get, ends_bind, ends_get, ends_bind, ends_get]
  dsimp only
  split
  · exact .stay bounded
  · rename_i short
    split
    · rename_i sparse
      have shifts : s.store.capacity < s.store.pool.used + additional ∧
          s.store.len + additional ≤ s.store.capacity := by
        unfold saturatingAdd maxRequest Store.capacity maxCapacity Pool.used at *
        omega
      have reordered : Always (Update.edit reorder) s fun after => after.store.pool.Bounded := by
        rw [Always, Update.ends_edit]
        exact Always.imp (reorder_bounded bounded) fun after told => told.1
      exact (reordered.imp fun after bounded' => ⟨bounded', fun calm => absurd shifts calm⟩).then fun _ _ done => done
    · rename_i dense
      rw [ends_bind, ends_get]
      refine (resize_stands bounded _).imp ?_
      intro after stands
      refine stands.imp ?_ fun _ _ _ => id
      intro narrow
      unfold Store.capacity Pool.used Pool.next at *
      omega

theorem makeRoom_stands (bounded : s.store.pool.Bounded) :
    Always makeRoom s fun after => Stands s.store.pool.Slack still s.store.pool after.store.pool := by
  rw [makeRoom, Always, ends_bind, ends_get]
  dsimp only
  rw [ends_bind, ends_get]
  split
  · exact .stay bounded
  · rename_i full
    have full : s.store.pool.isFull = true := by simpa using full
    rw [ends_bind, ends_get]
    unfold Pool.tombstones
    by_cases counted : s.store.pool.count ≤ s.store.pool.next - 1
    · rw [if_pos counted, ends_bind, ends_lift, ends_bind, ends_get]
      split
      · rename_i gaps
        simp only [Bool.and_eq_true, decide_eq_true_eq] at gaps
        have slack : s.store.pool.Slack := by
          refine ⟨full, ?_, ?_⟩
          · rw [Pool.used]
            omega
          · have sparse : s.store.pool.count * 2 ≤ s.store.pool.capacity := gaps.2
            omega
        have compacted : Always (Update.edit compact) s fun after =>
            Stands s.store.pool.Slack still s.store.pool after.store.pool := by
          rw [Always, Update.ends_edit]
          exact Always.imp (compact_bounded bounded) fun after bounded' => ⟨bounded', fun calm => absurd slack calm⟩
        exact compacted.then fun _ _ done => done
      · split
        · exact .stay bounded
        · rename_i growing
          have grown : Always (resizeSlots (grownSlots s.store.pool.capacity)) s fun after =>
              Stands s.store.pool.Slack still s.store.pool after.store.pool := by
            refine (resizeSlots_stands bounded _).imp ?_
            intro after stands
            refine stands.imp ?_ fun _ _ _ => id
            intro cut
            omega
          exact grown.then fun _ _ done => done
    · rw [if_neg counted]
      exact .stay bounded

end Room
end Store
end Slotted
