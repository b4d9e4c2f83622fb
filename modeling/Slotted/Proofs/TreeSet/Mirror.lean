import Slotted.Proofs.BareSet.Mirror
import Slotted.Proofs.TreeSet.Refinement
namespace Slotted.TreeSet

open Store LawfulIndex

variable {α ω : Type} {r : PureOrder α} {same : α → α → Bool} {t : Tree} {s : Session (TreeSet α) ω} {value : α}

theorem linkNew_views (value : α) (parent : Nat) (side : Side) (s : TreeSet α) :
    Views Store.bare (linkNew value parent side) (onPool (Pool.push value ())) s :=
  append_views (fun i => attach_relinks i parent side) value default s

variable [Allocator ω]

theorem access_exactly (lawful : r.Lawful) (alike : ∀ a b, same a b = true ↔ r.compare a b = .eq) :
    (access (ω := ω) r.rule).Exact (Ascending r) (same · · = true) r.Ascends .treeSet := by
  have agree : (same · · = true) = (r.compare · · = .eq) := funext fun a => funext fun b => propext (alike a b)
  exact agree ▸ access_exact lawful

theorem locate_found (lawful : r.Lawful) (alike : ∀ a b, same a b = true ↔ r.compare a b = .eq)
    (settled : Settled (Ascending r) s) (value : α) :
    (∃ h : Handle, Update.ask (locate (r.rule.probe value)) s = .ok (.found h.index) s ∧
      Update.ask (BareSet.find same value) s.bare = .ok (some h) s.bare) ∨
    ∃ parent side, Update.ask (locate (r.rule.probe value)) s = .ok (.vacant parent side) s ∧
      Update.ask (BareSet.find same value) s.bare = .ok none s.bare := by
  obtain ⟨⟨t, proper⟩, lowered⟩ := id settled
  have exact := access_exactly (ω := ω) lawful alike
  have asked := (locate_answers (ω := ω) proper.sound (r.compare · value) 0).ask_run lowered
  rcases sought_cases (r.compare · value) t s.store.pool with ⟨i, member, _, ends⟩ | ⟨path, shape, steered, ends⟩
  · rw [ends] at asked
    have positive := (proper.sound.linkable.inside i member).1
    obtain ⟨stored, held, equal⟩ := sought_found proper.sound ends
    exact .inl ⟨⟨i, positive⟩, asked, exact.sought settled ⟨stored, (alike _ _).mpr equal, held⟩⟩
  · rw [ends] at asked
    have missing := Misses.missing lawful proper ⟨path, shape, steered⟩
    refine .inr ⟨_, _, asked, exact.sought settled ?_⟩
    exact fun stored member alike' => missing stored member ((alike _ _).mp alike')

theorem tryInsert_views (lawful : r.Lawful) (alike : ∀ a b, same a b = true ↔ r.compare a b = .eq)
    (generous : Generous ω) (settled : Settled (Ascending r) s) (value : α) :
    Views Session.bare (tryInsert r.rule value) (BareSet.tryInsert same value) s := by
  rcases locate_found lawful alike settled value with ⟨h, asked, sought⟩ | ⟨parent, side, asked, sought⟩
  · refine Views.asked asked (Views.asking sought ?_)
    exact Views.asked (lift_ok (Handle.ofIndex_run h.pos) s) (Views.pure rfl)
  · refine Views.asked asked (Views.asking sought ?_)
    refine (makeRoom_views generous s).bind fun answer middle _ => ?_
    cases answer with
    | error error => exact Views.pure rfl
    | ok renumbered =>
      refine Views.unseen (Update.ask_unmoved _ middle) fun place found _ => ?_
      refine (Update.edit_views (linkNew_views value place.1 place.2 found.store)).bind fun i _ _ => ?_
      exact Views.lift rfl fun _ _ => Views.pure rfl

theorem insert_mirrors (lawful : r.Lawful) (alike : ∀ a b, same a b = true ↔ r.compare a b = .eq) (generous : Generous ω)
    {rename : Fault → Fault} {name : Container}
    (renamed : ∀ error, rename (.growth .treeSet .insert error) = .growth name .insert error)
    (settled : Settled (Ascending r) s) (value : α) :
    Mirrors rename (insert r.rule value) (BareSet.insert name same value) s := by
  have ends := (access_exact lawful).tryInsert s value settled
  refine (Mirrors.of_views (tryInsert_views lawful alike generous settled value) ends).bind fun answer after _ => ?_
  cases answer with
  | ok placed => exact .pure _
  | error refused => exact Ends.of_error rfl (congrArg (EStateM.Result.error · after.bare) (renamed refused.error).symm)

theorem reinsert_views (lawful : r.Lawful) (alike : ∀ a b, same a b = true ↔ r.compare a b = .eq) {i : Nat}
    (loose : Loose i value t s.store) (body : Ascending r (bodies t s.store)) (lowered : s.gate.busy = false) :
    Views Session.bare (reinsert r.rule ⟨i⟩) (BareSet.reinsert same ⟨i⟩) s := by
  have settled : Settled (Ascending r) s := ⟨⟨t, loose.sound, body⟩, lowered⟩
  refine Views.get (Views.lift (s.store.detachedValue_bare ⟨i⟩) fun stored told => ?_)
  rcases locate_found lawful alike settled stored with ⟨h, asked, sought⟩ | ⟨parent, side, asked, sought⟩
  · refine Views.asked asked (Views.asking sought ?_)
    refine (Update.edit_views (drop_views _ _)).bind fun _ after _ => ?_
    exact Views.asked (lift_ok (Handle.ofIndex_run h.pos) after) (Views.pure rfl)
  · refine Views.asked asked (Views.asking sought ?_)
    refine (Update.edit_views (onPool_views (Pool.reattach_views i s.store.pool))).bind fun _ after _ => ?_
    refine Views.unseen (Update.edit_unmoved (attach_relinks _ _ _) after) fun _ _ _ => ?_
    exact Views.lift rfl fun _ _ => Views.pure rfl

theorem access_mirrored (lawful : r.Lawful) (alike : ∀ a b, same a b = true ↔ r.compare a b = .eq) (generous : Generous ω)
    {rename : Fault → Fault} {name : Container}
    (renamed : ∀ error, rename (.growth .treeSet .insert error) = .growth name .insert error) :
    (access (ω := ω) r.rule).Mirrored (Ascending r) rename name same where
  insert _ value settled := insert_mirrors lawful alike generous renamed settled value
  tryInsert _ value settled := tryInsert_views lawful alike generous settled value
  reinsert _ _ _ _ loose body lowered := reinsert_views lawful alike loose body lowered

end Slotted.TreeSet
