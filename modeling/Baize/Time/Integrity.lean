import Baize.Time.Surgery

namespace Baize.Time

open Lib

namespace PointerWheel

/-- What a caller relies on: besides the lists themselves, the pointers of each linked timer and
its neighbours agree, and `prev_` is null for the timers that are in no list. -/
structure Intact (v : PointerWheel) (w : TimeWheel) : Prop extends Represents v w where
  next_prev : ∀ t b, w.Linked t → v.cells.next (.timer t) = some b → v.cells.prev b = some (.timer t)
  prev_next : ∀ t, w.Linked t → ∃ a, v.cells.prev (.timer t) = some a ∧ v.cells.next a = some (.timer t)
  null_iff : ∀ t, v.cells.prev (.timer t) = none ↔ ¬w.Linked t

theorem Represents.intact {v : PointerWheel} {w : TimeWheel} (h : Represents v w) : v.Intact w where
  toRepresents := h
  next_prev t b ht hb := by
    obtain ⟨i, k, hmem⟩ := ht
    exact ((h.hangs i k).next_of_mem (List.mem_cons_of_mem _ (timer_mem_map.mpr hmem)) hb).2.2
  prev_next t ht := by
    obtain ⟨i, k, hmem⟩ := ht
    obtain ⟨a, -, hnext, hprev⟩ := (h.hangs i k).prev_of_mem (timer_mem_map.mpr hmem)
    exact ⟨a, hprev, hnext⟩
  null_iff t := by
    refine ⟨fun hprev ht ↦ ?_, fun ht ↦ (h.free t ht).1⟩
    obtain ⟨i, k, hmem⟩ := ht
    obtain ⟨a, -, -, ha⟩ := (h.hangs i k).prev_of_mem (timer_mem_map.mpr hmem)
    cases hprev.symm.trans ha

end PointerWheel

namespace PointerMachine

variable {p p' : PointerMachine} {m m' : Machine} {a : Action} {rounds : ℕ}

def running : Phase → Option TimerId
  | .callback t _ => some t
  | _ => none

/-- The pointers make up the lists of `m`, and no list is longer than the rounds for it. -/
structure Simulates (rounds : ℕ) (p : PointerMachine) (m : Machine) : Prop where
  endless : p.endless = false
  phase : p.phase = m.phase
  wheel : p.wheel.Represents m.wheel
  linked : ∀ t, m.wheel.Linked t → t < rounds
  running : ∀ t, running m.phase = some t → t < rounds

theorem Simulates.arm (h : Simulates rounds p m) {t : TimerId} (ht : t < rounds) (us : ℕ) :
    (((p.wheel.setUs t us).addTimer (.timer t)).Represents ((m.wheel.setUs t us).addTimer t)) ∧
      ∀ x, ((m.wheel.setUs t us).addTimer t).Linked x → x < rounds := by
  have hset := h.wheel.setUs t us
  refine ⟨hset.addTimer t, fun x hx ↦ ?_⟩
  obtain ⟨rfl, -⟩ | ⟨-, hx⟩ := ((TimeWheel.addTimer_links hset.unique t).linked x).mp hx
  · exact ht
  · exact h.linked x hx

theorem Simulates.del (h : Simulates rounds p m) (t : TimerId) :
    (p.wheel.delTimer (.timer t)).Represents (m.wheel.delTimer t) ∧
      ∀ x, (m.wheel.delTimer t).Linked x → x < rounds :=
  ⟨h.wheel.delTimer t, fun x hx ↦ h.linked x ((TimeWheel.linked_delTimer h.wheel.unique).mp hx).2⟩

theorem not_running {ph : Phase} (h : running ph = none) (t : TimerId) (ht : running ph = some t) :
    t < rounds := by
  cases h.symm.trans ht

section Phases

variable {v : PointerWheel} {w : TimeWheel} {left : ℕ} {t : TimerId}

theorem Simulates.tick (h : Simulates rounds ⟨v, .turning (left + 1), false⟩ ⟨w, .turning (left + 1)⟩)
    (hstep : step rounds ⟨v, .turning (left + 1), false⟩ .tick = some p') :
    ∃ m', Machine.step ⟨w, .turning (left + 1)⟩ .tick = some m' ∧ Simulates rounds p' m' := by
  have hadv := h.wheel.advance h.linked
  simp only [step, Bool.false_eq_true, if_false] at hstep hadv
  simp only [Machine.step]
  revert hadv hstep
  generalize v.advance rounds = r
  generalize hw : w.advance = s
  intro hadv hstep
  cases hadv with
  | abort =>
    obtain rfl := Option.some.inj hstep
    exact ⟨_, rfl, rfl, rfl, h.wheel, h.linked, not_running rfl⟩
  | @done v' w' h' =>
    have hlinks := TimeWheel.advance_links h.wheel.unique hw
    obtain rfl := Option.some.inj hstep
    exact ⟨_, rfl, rfl, rfl, h', fun t ht ↦ h.linked t ((hlinks.linked t).mp ht), not_running rfl⟩

theorem Simulates.fire (h : Simulates rounds ⟨v, .draining left, false⟩ ⟨w, .draining left⟩)
    (hstep : step rounds ⟨v, .draining left, false⟩ (.fire t) = some p') :
    ∃ m', Machine.step ⟨w, .draining left⟩ (.fire t) = some m' ∧ Simulates rounds p' m' := by
  simp only [step, Bool.false_eq_true, if_false] at hstep
  obtain ⟨hnext, hs⟩ := Option.ite_none_right_eq_some.mp hstep
  obtain rfl := Option.some.inj hs
  have hhead : w.current.head? = some t := by
    rw [h.wheel.next_current, Option.map_eq_some_iff] at hnext
    obtain ⟨t', ht', heq⟩ := hnext
    exact Node.timer.inj heq ▸ ht'
  obtain ⟨hrep, hlinked⟩ := h.del t
  refine ⟨_, if_pos hhead, rfl, rfl, hrep, hlinked, fun t' ht' ↦ ?_⟩
  obtain rfl := Option.some.inj ht'
  exact h.linked t ⟨_, _, List.mem_of_head? hhead⟩

theorem Simulates.ret {nextMs : ℤ}
    (h : Simulates rounds ⟨v, .callback t left, false⟩ ⟨w, .callback t left⟩)
    (hstep : step rounds ⟨v, .callback t left, false⟩ (.ret nextMs) = some p') :
    ∃ m', Machine.step ⟨w, .callback t left⟩ (.ret nextMs) = some m' ∧ Simulates rounds p' m' := by
  simp only [step, Bool.false_eq_true, if_false] at hstep
  simp only [Machine.step]
  split at hstep
  · next hle =>
    obtain rfl := Option.some.inj hstep
    exact ⟨_, if_pos hle, rfl, rfl, h.wheel, h.linked, not_running rfl⟩
  · next hlt =>
    obtain rfl := Option.some.inj hstep
    obtain ⟨hrep, hlinked⟩ := h.arm (h.running t rfl) (v.us t + 1000 * nextMs.toNat)
    have hus : v.us = w.us := h.wheel.us
    rw [hus] at hrep hlinked
    refine ⟨_, if_neg hlt, rfl, rfl, ?_, hlinked, not_running rfl⟩
    rw [hus]
    exact hrep

theorem Simulates.tickDone (h : Simulates rounds ⟨v, .draining left, false⟩ ⟨w, .draining left⟩)
    (hstep : step rounds ⟨v, .draining left, false⟩ .tickDone = some p') :
    ∃ m', Machine.step ⟨w, .draining left⟩ .tickDone = some m' ∧ Simulates rounds p' m' := by
  simp only [step, Bool.false_eq_true, if_false] at hstep
  obtain ⟨hnext, hs⟩ := Option.ite_none_right_eq_some.mp hstep
  obtain rfl := Option.some.inj hs
  have hempty : w.current = [] := by
    rw [h.wheel.next_current, Option.map_eq_none_iff, List.head?_eq_none_iff] at hnext
    exact hnext
  exact ⟨_, if_pos hempty, rfl, rfl, h.wheel, h.linked, not_running rfl⟩

end Phases

theorem Simulates.step (h : Simulates rounds p m) (hadd : ∀ t us, a = .add t us → t < rounds)
    (hstep : p.step rounds a = some p') : ∃ m', m.step a = some m' ∧ Simulates rounds p' m' := by
  obtain ⟨v, ph, e⟩ := p
  obtain ⟨w, ph'⟩ := m
  obtain rfl : e = false := h.endless
  obtain rfl : ph = ph' := h.phase
  cases a with
  | add t us =>
    obtain ⟨hcall, hs⟩ := Option.ite_none_right_eq_some.mp hstep
    obtain rfl := Option.some.inj hs
    obtain ⟨hrep, hlinked⟩ := h.arm (hadd t us rfl) us
    exact ⟨_, if_pos hcall, rfl, rfl, hrep, hlinked, h.running⟩
  | del t =>
    obtain ⟨hcall, hs⟩ := Option.ite_none_right_eq_some.mp hstep
    obtain rfl := Option.some.inj hs
    obtain ⟨hrep, hlinked⟩ := h.del t
    exact ⟨_, if_pos hcall, rfl, rfl, hrep, hlinked, h.running⟩
  | turn now =>
    cases ph with
    | idle =>
      have hlast : v.lastMs = w.lastMs := h.wheel.lastMs
      simp only [PointerMachine.step, Bool.false_eq_true, if_false, hlast] at hstep
      simp only [Machine.step]
      split at hstep
      · next hlt =>
        obtain rfl := Option.some.inj hstep
        exact ⟨_, if_pos hlt, rfl, rfl, h.wheel, h.linked, not_running rfl⟩
      · next hge =>
        obtain rfl := Option.some.inj hstep
        exact ⟨_, if_neg hge, rfl, rfl, h.wheel, h.linked, not_running rfl⟩
    | _ => cases hstep
  | endTurn =>
    cases ph with
    | turning left =>
      cases left with
      | zero =>
        obtain rfl := Option.some.inj hstep
        exact ⟨_, rfl, rfl, rfl, h.wheel, h.linked, not_running rfl⟩
      | succ left => cases hstep
    | _ => cases hstep
  | tick =>
    cases ph with
    | turning left =>
      cases left with
      | zero => cases hstep
      | succ left => exact h.tick hstep
    | _ => cases hstep
  | fire t =>
    cases ph with
    | draining left => exact h.fire hstep
    | _ => cases hstep
  | ret nextMs =>
    cases ph with
    | callback t left => exact h.ret hstep
    | _ => cases hstep
  | tickDone =>
    cases ph with
    | draining left => exact h.tickDone hstep
    | _ => cases hstep

def Fits (rounds : ℕ) : Action → Prop
  | .add t _ => t < rounds
  | _ => True

instance (rounds : ℕ) : (a : Action) → Decidable (Fits rounds a)
  | .add t _ => inferInstanceAs (Decidable (t < rounds))
  | .del _ | .turn _ | .endTurn | .tick | .fire _ | .ret _ | .tickDone => .isTrue trivial

theorem run_simulates {start : ℕ} {as : List Action}
    (hrun : Run (Guarded (PointerMachine.step rounds) fun _ a ↦ Fits rounds a)
      (PointerMachine.empty start) as p) :
    ∃ m, Run (fun m a m' ↦ m.step a = some m') (Machine.empty start) as m ∧ Simulates rounds p m := by
  refine hrun.simulates (fun p a p' m hR hstep ↦ ?_) ⟨rfl, rfl, ?_, nofun, nofun⟩
  · refine hR.step ?_ hstep.2
    rintro t us rfl
    exact hstep.1
  · exact ⟨TimeWheel.empty_unique start, rfl, rfl, fun _ _ ↦ Cells.hangs_nil.mpr rfl, fun _ _ ↦ ⟨rfl, rfl⟩⟩

/-- The pointers of the wheel make up the lists of `TimeWheel` in every reachable state: the list
machine takes the same steps. `DelTimer` erases one timer from these lists, and `MoveTimerList`
hangs one list behind another, the end of which its search reaches. -/
theorem run_intact {start : ℕ} {as : List Action}
    (hrun : Run (Guarded (PointerMachine.step rounds) fun _ a ↦ Fits rounds a)
      (PointerMachine.empty start) as p) :
    p.endless = false ∧
      (p.phase ≠ .aborted → ∃ m, Run (fun m a m' ↦ m.step a = some m') (Machine.empty start) as m ∧
        p.phase = m.phase ∧ p.wheel.Intact m.wheel) ∧
      (∀ v w t, PointerWheel.Intact v w → (v.delTimer (.timer t)).Intact (w.delTimer t)) ∧
      ∀ v w i k, PointerWheel.Intact v w → (∀ t, w.Linked t → t < rounds) →
        v.moveTimerList rounds (.head i k) ≠ none ∧
        ∀ v', v.moveTimerList rounds (.head i k) = some (some v') → ∃ i' k',
          v'.Intact (w.moved i k i' k') ∧ ∀ t, (w.moved i k i' k').Linked t ↔ w.Linked t := by
  obtain ⟨m, hm, hsim⟩ := run_simulates hrun
  refine ⟨hsim.endless, fun _ ↦ ⟨m, hm, hsim.phase, hsim.wheel.intact⟩, fun v w t h ↦ ?_, fun v w i k h hn ↦ ?_⟩
  · exact (h.toRepresents.delTimer t).intact
  · have hmove := h.toRepresents.moveTimerList hn i k
    revert hmove
    generalize v.moveTimerList rounds (.head i k) = r
    generalize hw : w.moveTimerList i k = s
    intro hmove
    cases hmove with
    | abort => exact ⟨Option.some_ne_none _, fun v' hv' ↦ by cases hv'⟩
    | @done v₁ w₁ h₁ =>
      refine ⟨Option.some_ne_none _, ?_⟩
      rintro v' ⟨rfl⟩
      obtain ⟨i', k', rfl⟩ := TimeWheel.moveTimerList_moved hw
      exact ⟨i', k', h₁.intact, (TimeWheel.moved_links h.unique i k i' k').linked⟩

theorem run_intact_oneSlot :
    ∃ p : PointerMachine, Run (Guarded (PointerMachine.step 2) fun _ a ↦ Fits 2 a) (PointerMachine.empty 255)
      [.add 0 511000, .add 1 256000, .turn 256, .tick, .fire 1] p ∧
      p.phase = .callback 1 0 ∧ ∃ w, p.wheel.Intact w := by
  obtain ⟨p, hrun, hphase⟩ : ∃ p : PointerMachine, Run (Guarded (PointerMachine.step 2) fun _ a ↦ Fits 2 a)
      (PointerMachine.empty 255) [.add 0 511000, .add 1 256000, .turn 256, .tick, .fire 1] p ∧
      p.phase = .callback 1 0 := exists_run_of_foldlM _ (by decide +kernel)
  obtain ⟨m, -, -, hm⟩ := (run_intact hrun).2.1 (by rw [hphase]; exact nofun)
  exact ⟨p, hrun, hphase, m.wheel, hm⟩

end PointerMachine

end Baize.Time
