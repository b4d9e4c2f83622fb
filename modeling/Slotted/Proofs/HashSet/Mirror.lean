import Slotted.Proofs.BareSet.Mirror
import Slotted.Proofs.HashSet.Refinement
namespace Slotted.HashSet

open Store LawfulIndex

variable {α ω : Type} {r : PureHash α} {order : List Nat} {s : Session (HashSet α) ω} {value : α}

theorem linkNew_views (hash : UInt32) (value : α) (s : HashSet α) :
    Views Store.bare (linkNew hash value) (onPool (Pool.push value ())) s :=
  append_views (fun i => linkHead_relinks i hash) value default s

variable [Allocator ω]

theorem findHashed_found (lawful : r.Lawful) (settled : Settled (Distinct r) s) (value : α) :
    ∃ found : Option Handle, Update.ask (findHashed (r.hash value) (r.rule.equal · value)) s = .ok (found.map (·.index)) s ∧
      Update.ask (BareSet.find r.equal value) s.bare = .ok found s.bare := by
  obtain ⟨⟨order, proper⟩, lowered⟩ := id settled
  obtain ⟨found, finds, answers⟩ := findHashed_answers (ω := ω) proper.sound (r.hash value) (r.equal · value)
  have sound := finds.sound lawful proper
  cases found with
  | none => exact ⟨none, answers.ask_run lowered, (access_exact lawful).sought settled sound⟩
  | some i =>
    let h : Handle := ⟨i, finds.positive proper.sound.tidy.idle⟩
    have sound' : FoundIn (r.equal · · = true) value s.store (some h) := sound
    exact ⟨some h, answers.ask_run lowered, (access_exact lawful).sought settled sound'⟩

theorem tryInsert_views (lawful : r.Lawful) (generous : Generous ω) (settled : Settled (Distinct r) s) (value : α) :
    Views Session.bare (tryInsert r.rule value) (BareSet.tryInsert r.equal value) s := by
  obtain ⟨found, asked, sought⟩ := findHashed_found lawful settled value
  refine Views.asked ((hashOf_answers value).ask_run settled.lowered) (Views.asked asked (Views.asking sought ?_))
  cases found with
  | some h => exact Views.asked (lift_ok (Handle.ofIndex_run h.pos) s) (Views.pure rfl)
  | none =>
    refine (makeRoom_views generous s).bind fun answer middle _ => ?_
    cases answer with
    | error error => exact Views.pure rfl
    | ok renumbered =>
      refine (Update.edit_views (linkNew_views _ value middle.store)).bind fun i _ _ => ?_
      exact Views.lift rfl fun _ _ => Views.pure rfl

theorem insert_mirrors (lawful : r.Lawful) (generous : Generous ω) {rename : Fault → Fault} {name : Container}
    (renamed : ∀ error, rename (.growth .hashSet .insert error) = .growth name .insert error)
    (settled : Settled (Distinct r) s) (value : α) :
    Mirrors rename (insert r.rule value) (BareSet.insert name r.equal value) s := by
  have ends := (access_exact lawful).tryInsert s value settled
  refine (Mirrors.of_views (tryInsert_views lawful generous settled value) ends).bind fun answer after _ => ?_
  cases answer with
  | ok placed => exact .pure _
  | error refused => exact Ends.of_error rfl (congrArg (EStateM.Result.error · after.bare) (renamed refused.error).symm)

theorem reinsert_views (lawful : r.Lawful) {i : Nat} (loose : Loose i value order s.store)
    (body : Distinct r (bodies order s.store)) (lowered : s.gate.busy = false) :
    Views Session.bare (reinsert r.rule ⟨i⟩) (BareSet.reinsert r.equal ⟨i⟩) s := by
  have settled : Settled (Distinct r) s := ⟨⟨order, loose.sound, body⟩, lowered⟩
  refine Views.get (Views.lift (s.store.detachedValue_bare ⟨i⟩) fun stored told => ?_)
  obtain ⟨found, asked, sought⟩ := findHashed_found lawful settled stored
  refine Views.asked ((hashOf_answers stored).ask_run lowered) (Views.asked asked (Views.asking sought ?_))
  cases found with
  | some h =>
    refine (Update.edit_views (drop_views _ _)).bind fun _ after _ => ?_
    exact Views.asked (lift_ok (Handle.ofIndex_run h.pos) after) (Views.pure rfl)
  | none =>
    refine (Update.edit_views (onPool_views (Pool.reattach_views i s.store.pool))).bind fun _ after _ => ?_
    refine Views.unseen (Update.edit_unmoved (linkHead_relinks _ _) after) fun _ _ _ => ?_
    exact Views.lift rfl fun _ _ => Views.pure rfl

theorem access_mirrored (lawful : r.Lawful) (generous : Generous ω) {rename : Fault → Fault} {name : Container}
    (renamed : ∀ error, rename (.growth .hashSet .insert error) = .growth name .insert error) :
    (access (ω := ω) r.rule).Mirrored (Distinct r) rename name r.equal where
  insert _ value settled := insert_mirrors lawful generous renamed settled value
  tryInsert _ value settled := tryInsert_views lawful generous settled value
  reinsert _ _ _ _ loose body lowered := reinsert_views lawful loose body lowered

end Slotted.HashSet
