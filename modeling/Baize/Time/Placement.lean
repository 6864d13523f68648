import Baize.Time.Schedule

namespace Baize.Time

open Lib

namespace TimeWheel

variable {w w' : TimeWheel} {t : TimerId}

/-- Every linked timer stands in the slot of its level that its expiration gives. -/
def Placed (w : TimeWheel) : Prop :=
  ∀ {i k x}, x ∈ w.slots i k → calcTime (w.expiration x) i = k

theorem delTimer_placed (hu : w.Unique) (h : w.Placed) : (w.delTimer t).Placed :=
  fun hx ↦ h ((mem_delTimer hu).mp hx).2

theorem arm_placed {us : ℕ} (hu : w.Unique) (h : w.Placed) : ((w.setUs t us).addTimer t).Placed := by
  intro i k x hx
  obtain hfiled | ⟨hx, hsame⟩ := mem_arm hu hx
  · exact hfiled.index.symm
  · rw [hsame]
    exact h hx

/-- All timers of the slot that is moved belong into one slot, and none is overdue. -/
def MoveCall.Uniform (c : MoveCall) : Prop :=
  c.wheel.Uniform c.level c.index ∧ ∀ x ∈ c.wheel.slots c.level c.index, (c.wheel.findHead x).isSome

def MoveCall.Refiles (c : MoveCall) : Prop :=
  ∃ v, c.move = some v ∧ ∀ x ∈ c.wheel.slots c.level c.index, ∃ i k,
    c.wheel.findHead x = some (i, k) ∧ x ∈ v.slots i k

theorem MoveCall.refiles_iff (c : MoveCall) (hu : c.wheel.Unique) : c.Refiles ↔ c.Uniform := by
  cases hslot : c.wheel.slots c.level c.index with
  | nil =>
    refine iff_of_true ⟨c.wheel, ?_, ?_⟩ ⟨?_, ?_⟩
    · rw [MoveCall.move, moveTimerList, hslot]
    all_goals
      intro x hx
      rw [hslot] at hx
      cases hx
  | cons t ts =>
    have ht : t ∈ c.wheel.slots c.level c.index := by rw [hslot]; exact List.mem_cons_self
    constructor
    · rintro ⟨v, hmove, hall⟩
      obtain ⟨hnil, -⟩ | ⟨t', ts', i, k, hslot', hfind, rfl⟩ := moveTimerList_cases hmove
      · rw [hslot] at hnil
        cases hnil
      · have hone {x : TimerId} (hx : x ∈ c.wheel.slots c.level c.index) :
            c.wheel.findHead x = some (i, k) := by
          obtain ⟨i', k', hfind', hmem⟩ := hall x hx
          obtain ⟨rfl, rfl⟩ := (moved_unique hu c.level c.index i k).disjoint hmem
            (mem_moved.mpr (.inr ⟨hx, rfl, rfl⟩))
          exact hfind'
        refine ⟨fun a ha b hb ↦ (hone ha).trans (hone hb).symm, fun x hx ↦ ?_⟩
        rw [hone hx, Option.isSome_some]
    · rintro ⟨huni, hsome⟩
      obtain ⟨⟨i, k⟩, hfind⟩ := Option.isSome_iff_exists.mp (hsome t ht)
      refine ⟨_, moveTimerList_cons hslot hfind, fun x hx ↦ ⟨i, k, ?_, ?_⟩⟩
      · rw [huni x hx t ht, hfind]
      · exact mem_moved.mpr (.inr ⟨hx, rfl, rfl⟩)

theorem MoveCall.Uniform.placed {c : MoveCall} (h : c.Uniform) (hp : c.wheel.Placed) {v : TimeWheel}
    (hmove : c.move = some v) : v.Placed := by
  obtain ⟨-, rfl⟩ | ⟨t, ts, i, k, hslot, hfind, rfl⟩ := moveTimerList_cases hmove
  · exact hp
  · intro a b x hmem
    obtain ⟨hx, -⟩ | ⟨hx, rfl, rfl⟩ := mem_moved.mp hmem
    · exact hp hx
    · have ht : t ∈ c.wheel.slots c.level c.index := by rw [hslot]; exact List.mem_cons_self
      exact (findHead_eq_some ((h.1 x hx t ht).trans hfind)).1.index.symm

theorem advance_placed (hp : w.Placed) (hall : ∀ c ∈ w.tickCalls, c.Uniform) (hadv : w.advance = some w') :
    w'.Placed :=
  (tickCalls_invariant (P := Placed) hp fun c hc hp _ hmove ↦ (hall c hc).placed hp hmove).2 w' hadv

end TimeWheel

namespace Machine

variable {m m' : Machine} {a : Action}

def Calls (P : TimeWheel.MoveCall → Prop) (m : Machine) (a : Action) : Prop :=
  a = .tick → ∀ c ∈ m.wheel.tickCalls, P c

theorem Transition.placed (ht : Transition m a m') (hu : m.wheel.Unique) (hp : m.wheel.Placed)
    (hcalls : m.Calls TimeWheel.MoveCall.Uniform a) : m'.wheel.Placed := by
  cases ht with
  | add => exact TimeWheel.arm_placed hu hp
  | del => exact TimeWheel.delTimer_placed hu hp
  | tick hadv => exact TimeWheel.advance_placed hp (hcalls rfl) hadv
  | fire => exact TimeWheel.delTimer_placed hu hp
  | again => exact TimeWheel.arm_placed hu hp
  | _ => exact hp

theorem calls_refiles_iff (hu : m.wheel.Unique) :
    m.Calls TimeWheel.MoveCall.Refiles a ↔ m.Calls TimeWheel.MoveCall.Uniform a :=
  forall_congr' fun _ ↦ forall₂_congr fun c hc ↦ c.refiles_iff (TimeWheel.tickCalls_unique hu c hc)

/-- The runs in which every linked timer stands in the slot of its expiration, and every timer that
is moved goes to the slot that `FindHead` gives for it, are those in which each slot that is moved
holds timers of one slot only. -/
theorem run_placed_iff (start : ℕ) (as : List Action) (m : Machine) :
    Run (fun m a m' ↦ m.step a = some m' ∧ m'.wheel.Placed ∧ m.Calls TimeWheel.MoveCall.Refiles a)
        (Machine.empty start) as m ↔
      Run (Guarded step (Calls TimeWheel.MoveCall.Uniform)) (Machine.empty start) as m := by
  refine Run.iff_guarded (I := fun m ↦ m.wheel.Unique ∧ m.wheel.Placed)
    (fun m a m' hI hstep ↦ ⟨fun hgood ↦ (calls_refiles_iff hI.1).mp hgood.2, fun hcalls ↦ ?_⟩)
    (fun m a m' hI hcalls hstep ↦ ?_) ⟨TimeWheel.empty_unique start, nofun⟩
  · exact ⟨(transition_of_step hstep).placed hI.1 hI.2 hcalls, (calls_refiles_iff hI.1).mpr hcalls⟩
  · have ht := transition_of_step hstep
    exact ⟨ht.unique hI.1, ht.placed hI.1 hI.2 hcalls⟩

/-- Timers with the expirations 511 and 256 share `time_wheel_[1][1]`. -/
def oneSlot : List Action :=
  [.add 0 511000, .add 1 256000, .turn 256] ++ (List.replicate 255 [.tick, .tickDone]).flatten ++ [.tick]

theorem oneSlot_misplaced :
    ∃ m, Run (fun m a m' ↦ m.step a = some m') (Machine.empty 0) oneSlot m ∧
      0 ∈ m.wheel.slots 0 0 ∧ calcTime (m.wheel.expiration 0) 0 = 255 := by
  obtain ⟨m, hrun, hm⟩ : ∃ m, Run (fun m a m' ↦ m.step a = some m') (Machine.empty 0) oneSlot m ∧
      (decide (0 ∈ m.wheel.slots 0 0), calcTime (m.wheel.expiration 0) 0) = (true, 255) :=
    exists_run_of_steps _ (by decide +kernel)
  simp only [Prod.mk.injEq, decide_eq_true_eq] at hm
  exact ⟨m, hrun, hm⟩

end Machine

end Baize.Time
