import Slotted.Proofs.Action.History
import Slotted.Proofs.HashSet.Start
import Slotted.Proofs.HashSet.Upkeep
import Slotted.Proofs.TreeSet.Structure
import Slotted.Proofs.TreeSet.Upkeep
namespace Slotted

variable {α κ ν ω β γ : Type}

-- Some history leads there from a container that was configured while nobody looked.
def HashSet.Reached [Allocator ω] (act : γ → Update (HashSet α) ω β) (fair : γ → Prop) (s : Session (HashSet α) ω) : Prop :=
  ∃ config origin start actions, origin.gate.busy = false ∧ HashSet.configure config origin = .ok (.ok ()) start ∧
    (∀ action ∈ actions, fair action) ∧ s = Session.performed act actions start

def TreeSet.Reached [Allocator ω] (act : γ → Update (TreeSet α) ω β) (fair : γ → Prop) (s : Session (TreeSet α) ω) : Prop :=
  ∃ config origin start actions, origin.gate.busy = false ∧ TreeSet.configure config origin = .ok (.ok ()) start ∧
    (∀ action ∈ actions, fair action) ∧ s = Session.performed act actions start

open Store Session

theorem HashSet.Reached.keeps [Allocator ω] {act : γ → Update (HashSet α) ω β} {fair : γ → Prop} {s : Session (HashSet α) ω}
    {holds : Session (HashSet α) ω → Prop} (reached : HashSet.Reached act fair s)
    (first : ∀ start : Session (HashSet α) ω, Sound [] start.store → start.gate.busy = false → holds start)
    (kept : ∀ action, fair action → ∀ s, holds s → holds (s.perform (act action)).2) : holds s := by
  obtain ⟨config, origin, start, actions, lowered, configured, fair, rfl⟩ := reached
  obtain ⟨sound, gate⟩ := (HashSet.configure_returns config origin).returned configured rfl
  exact performed_keeps (first start sound (gate.trans lowered)) actions fun action member => kept action (fair action member)

theorem TreeSet.Reached.keeps [Allocator ω] {act : γ → Update (TreeSet α) ω β} {fair : γ → Prop} {s : Session (TreeSet α) ω}
    {holds : Session (TreeSet α) ω → Prop} (reached : TreeSet.Reached act fair s)
    (first : ∀ start : Session (TreeSet α) ω, Sound Tree.nil start.store → start.gate.busy = false → holds start)
    (kept : ∀ action, fair action → ∀ s, holds s → holds (s.perform (act action)).2) : holds s := by
  obtain ⟨config, origin, start, actions, lowered, configured, fair, rfl⟩ := reached
  obtain ⟨sound, gate⟩ := (TreeSet.configure_returns config origin).returned configured rfl
  exact performed_keeps (first start sound (gate.trans lowered)) actions fun action member => kept action (fair action member)

theorem HashSet.booked_of_sound {order : List Nat} {s : HashSet α} (sound : Sound order s) : Booked s := by
  obtain ⟨chains, linked⟩ := sound.threads
  exact ⟨Pool.booked_of sound.tidy sound.enumerates sound.counted, linked.width⟩

-- The chains may have been left behind, but the table is as wide as it should be.
theorem HashSet.ready_of_booked {s : HashSet α} (booked : Booked s) : ∃ order : List Nat, Ready order s := by
  obtain ⟨tidy, order, enumerates, counted⟩ := booked.pool.within
  exact ⟨order, tidy, booked.fits, enumerates, counted⟩

theorem TreeSet.booked_of_sound {t : Tree} {s : TreeSet α} (sound : Sound t s) : Booked s :=
  ⟨Pool.booked_of sound.tidy sound.enumerates sound.counted, trivial⟩

-- The books and the links together are all that there is to be right about.
theorem TreeSet.sound_of_booked {t : Tree} {s : TreeSet α} (booked : s.pool.Booked) (rooted : Rooted t s.pool s.index)
    (enumerates : s.pool.Enumerates t.slots) : Sound t s := by
  obtain ⟨tidy, live, enumerates', counted⟩ := booked.within
  have same : live.Perm t.slots := (List.perm_ext_iff_of_nodup enumerates'.nodup enumerates.nodup).mpr fun i => by
    rw [enumerates'.mem, enumerates.mem]
  exact ⟨tidy, rooted, enumerates, counted.trans same.length_eq⟩

theorem TreeSet.WellGrown.sound {s : TreeSet α} (grown : WellGrown s) (booked : s.pool.Booked) : ∃ t, Sound t s := by
  obtain ⟨t, rooted, enumerates⟩ := grown
  exact ⟨t, sound_of_booked booked rooted enumerates⟩

variable [Allocator ω]

theorem HashSet.Reached.booked {rule : HashRule (HashSet α) ω α} {fair : HashSetAction α ω → Prop} {s : Session (HashSet α) ω}
    (reached : HashSet.Reached (HashSet.act rule) fair s) : Booked s.store :=
  reached.keeps (fun _ sound _ => HashSet.booked_of_sound sound)
    fun action _ s booked => perform_keeps (HashSet.act_upholds rule action s booked)

theorem HashMap.reached_booked {rule : HashRule (HashMap κ ν) ω κ} {fair : HashMapAction κ ν ω → Prop}
    {s : Session (HashMap κ ν) ω} (reached : HashSet.Reached (HashMap.act rule) fair s) : Booked s.store :=
  reached.keeps (fun _ sound _ => HashSet.booked_of_sound sound)
    fun action _ s booked => perform_keeps (HashMap.act_upholds rule action s booked)

theorem TreeSet.Reached.booked {rule : OrderRule (TreeSet α) ω α} {fair : TreeSetAction α ω → Prop} {s : Session (TreeSet α) ω}
    (reached : TreeSet.Reached (TreeSet.act rule) fair s) : Booked s.store :=
  reached.keeps (fun _ sound _ => TreeSet.booked_of_sound sound)
    fun action _ s booked => perform_keeps (TreeSet.act_upholds rule action s booked)

theorem TreeSet.Reached.sound {rule : OrderRule (TreeSet α) ω α} {fair : TreeSetAction α ω → Prop} {s : Session (TreeSet α) ω}
    (reached : TreeSet.Reached (TreeSet.act rule) fair s) (grown : WellGrown s.store) : ∃ t, Sound t s.store :=
  grown.sound reached.booked.pool

theorem TreeMap.reached_booked {rule : OrderRule (TreeMap κ ν) ω κ} {fair : TreeMapAction κ ν ω → Prop}
    {s : Session (TreeMap κ ν) ω} (reached : TreeSet.Reached (TreeMap.act rule) fair s) : Booked s.store :=
  reached.keeps (fun _ sound _ => TreeSet.booked_of_sound sound)
    fun action _ s booked => perform_keeps (TreeMap.act_upholds rule action s booked)

end Slotted
