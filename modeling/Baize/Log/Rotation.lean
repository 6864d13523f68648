import Baize.Log.Order

namespace Baize.Log

open Lib

def kept (batch : List Buffer) : List Buffer :=
  let batch := if 25 < batch.length then batch.take 2 else batch
  if 2 < batch.length then batch.take 2 else batch

theorem kept_eq_take (batch : List Buffer) : kept batch = batch.take 2 := by
  unfold kept
  by_cases hmany : 25 < batch.length
  · rw [if_pos hmany, if_neg (by rw [List.length_take]; omega)]
  · rw [if_neg hmany]
    dsimp only
    split
    · rfl
    · exact (List.take_of_length_le (by omega)).symm

namespace AsyncLogging

/-- What `Append` and the assertions of `ThreadFunc` rely on: at the top of an iteration, behind
the critical section, and where each of the two spare buffers is taken back. -/
structure Asserts (s : AsyncLogging) : Prop where
  current : s.currentBuffer ≠ none
  top : s.phase = .test → (∃ b, s.newBuffer1 = some b ∧ b.length = 0) ∧
    (∃ b, s.newBuffer2 = some b ∧ b.length = 0) ∧ s.buffersToWrite = []
  swapped : s.phase = .write → s.buffersToWrite ≠ []
  spare1 : s.phase = .write → s.newBuffer1 = none → kept s.buffersToWrite ≠ []
  spare2 : s.phase = .write → s.newBuffer2 = none →
    (if s.newBuffer1 = none then (kept s.buffersToWrite).dropLast else kept s.buffersToWrite) ≠ []

theorem Inv.asserts {s : AsyncLogging} (h : Inv s) : Asserts s where
  current := h.current
  top hp := by
    obtain ⟨h₁, h₂, hw⟩ := h.idle (by rw [hp]; decide)
    exact ⟨⟨_, h₁, rfl⟩, ⟨_, h₂, rfl⟩, hw⟩
  swapped hp := (h.writing hp).2.1
  spare1 hp _ := by
    have hpos := List.length_pos_of_ne_nil (h.writing hp).2.1
    rw [kept_eq_take, ← List.length_pos_iff, List.length_take]
    omega
  spare2 hp hnone := by
    obtain ⟨h₁, -, h₂ | ⟨-, htwo⟩⟩ := h.writing hp
    · cases hnone.symm.trans h₂
    · rw [if_pos h₁, kept_eq_take, ← List.length_pos_iff, List.length_dropLast, List.length_take]
      omega

/-- Lines of any length keep the pointers in order. -/
theorem step_inv {s : AsyncLogging} {a : Action} {r : Checked AsyncLogging} (hs : Inv s)
    (h : s.step a = some r) : ∃ s', r = .ok s' ∧ Inv s' := by
  cases a with
  | append line =>
    obtain ⟨s', hs', hinv⟩ := append_inv hs line
    exact ⟨s', (Option.some.inj h).symm.trans hs', hinv⟩
  | stop | test | swap | write =>
    obtain ⟨s', hs', hinv, -⟩ := step_refines hs (by trivial) h
    exact ⟨s', hs', hinv⟩

/-- However fast the lines come and however long they are, no assertion of the writer fails and `Append`
always finds a buffer. -/
theorem run_asserts {as : List Action} {r : Checked AsyncLogging}
    (hrun : Run (Steps fun _ _ ↦ True) (.ok start) as r) : ∃ s, r = .ok s ∧ Asserts s := by
  obtain ⟨s, hs, hinv⟩ := hrun.invariant (I := fun r ↦ ∃ s, r = .ok s ∧ Inv s)
    (by
      rintro _ a r' ⟨s, rfl, hs⟩ ⟨t, ht, -, hstep⟩
      obtain rfl := Except.ok.inj ht
      exact step_inv hs hstep)
    ⟨start, rfl, start_inv⟩
  exact ⟨s, hs, hinv.asserts⟩

theorem run_asserts_oneIteration : ∃ s,
    Run (Steps fun _ _ ↦ True) (.ok start) [.append [65], .test, .swap, .append [66], .write] (.ok s) ∧
      s.phase = .test ∧ Asserts s := by
  obtain ⟨s, hrun, hphase⟩ : ∃ s,
      Run (Steps fun _ _ ↦ True) (.ok start) [.append [65], .test, .swap, .append [66], .write] (.ok s) ∧
      s.phase = .test :=
    ⟨_, .cons ⟨_, rfl, trivial, rfl⟩ (.cons ⟨_, rfl, trivial, rfl⟩ (.cons ⟨_, rfl, trivial, rfl⟩
      (.cons ⟨_, rfl, trivial, rfl⟩ (.cons ⟨_, rfl, trivial, rfl⟩ (.nil _))))), rfl⟩
  obtain ⟨t, ht, hasserts⟩ := run_asserts hrun
  obtain rfl := Except.ok.inj ht
  exact ⟨s, hrun, hphase, hasserts⟩

end AsyncLogging

end Baize.Log
