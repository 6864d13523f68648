import Baize.Log.Order

namespace Baize.Log

open Lib

namespace Journal

def taken (j : Journal) : List Bytes := j.output.flatMap Entry.lines ++ linesOf j.batch

theorem lines_written {batch : List Buffer} (h : batch.length ≤ 25) :
    (written batch).flatMap Entry.lines = linesOf batch := by
  rw [written, if_neg (not_lt.mpr h), List.flatMap_map]
  rfl

variable {j j' : Journal} {a : Action}

theorem Next.batch_le (h : j.Next a j') (ha : a ≠ .swap) : j'.batch.length ≤ j.batch.length := by
  cases h with
  | append line => exact Nat.le_refl _
  | stop hrun => exact Nat.le_refl _
  | test hp => exact Nat.le_refl _
  | swap batch hp hb => exact absurd rfl ha
  | write hp => exact Nat.zero_le _

theorem Next.history (h : j.Next a j') (hidle : j.phase ≠ .write → j.batch = [])
    (hsmall : j.batch.length ≤ 25) :
    j'.taken ++ j'.pending = j.taken ++ j.pending ++ a.lines := by
  cases h with
  | append line => exact (List.append_assoc _ _ _).symm
  | stop hrun => exact (List.append_nil _).symm
  | test hp => exact (List.append_nil _).symm
  | swap batch hp hb =>
    have hbatch := hidle (by rw [hp]; decide)
    simp [taken, hbatch, hb, Action.lines]
  | write hp => simp [taken, lines_written hsmall, Action.lines]

/-- Behind its critical section a writer that was told to stop takes no more lines. -/
theorem Next.stopped_taken (h : j.Next a j') (hrun : j.running = false) (hp : j.phase ≠ .swap)
    (hsmall : j.batch.length ≤ 25) :
    j'.running = false ∧ j'.phase ≠ .swap ∧ j'.taken = j.taken := by
  cases h with
  | append line => exact ⟨hrun, hp, rfl⟩
  | stop hrun' => exact absurd (hrun'.symm.trans hrun) (by decide)
  | test _ =>
    refine ⟨hrun, ?_, rfl⟩
    simp [hrun]
  | swap batch hp' hb => exact absurd hp' hp
  | write _ =>
    refine ⟨hrun, fun h ↦ Phase.noConfusion h, ?_⟩
    simp [taken, lines_written hsmall]

/-- In front of it, the writer takes everything that waits. -/
theorem Next.stopped_waiting (h : j.Next a j') (hrun : j.running = false) (hp : j.phase = .swap)
    (hbatch : j.batch = []) :
    j'.running = false ∧
      (j'.phase = .swap ∧ j'.taken = j.taken ∧ j.pending <+: j'.pending ∨
        j'.phase ≠ .swap ∧ j'.taken = j.taken ++ j.pending) := by
  cases h with
  | append line => exact ⟨hrun, .inl ⟨hp, rfl, List.prefix_append _ _⟩⟩
  | stop hrun' => exact absurd (hrun'.symm.trans hrun) (by decide)
  | test hp' => exact absurd (hp.symm.trans hp') (by decide)
  | swap batch _ hb =>
    refine ⟨hrun, .inr ⟨fun h ↦ Phase.noConfusion h, ?_⟩⟩
    simp [taken, hbatch, hb]
  | write hp' => exact absurd (hp.symm.trans hp') (by decide)

end Journal

namespace AsyncLogging

/-- Short lines, and no swap takes more than 25 buffers. -/
def Unhurried (s : AsyncLogging) (a : Action) : Prop :=
  Short s a ∧ (a = .swap → s.buffers.length + 1 ≤ 25)

def Whole (s : AsyncLogging) : Prop := Inv s ∧ s.buffersToWrite.length ≤ 25

theorem Whole.idle {s : AsyncLogging} (h : Whole s) (hp : s.phase ≠ .write) : s.buffersToWrite = [] :=
  (h.1.idle hp).2.2

theorem steps_whole {s : AsyncLogging} {a : Action} {r : Checked AsyncLogging} (hs : Whole s)
    (h : Steps Unhurried (.ok s) a r) :
    ∃ s', r = .ok s' ∧ Whole s' ∧ s.journal.Next a s'.journal := by
  obtain ⟨t, ht, ⟨hshort, hfew⟩, hstep⟩ := h
  obtain rfl := Except.ok.inj ht
  obtain ⟨s', hr, hs', hnext, hlen⟩ := step_refines hs.1 hshort hstep
  refine ⟨s', hr, ⟨hs', ?_⟩, hnext⟩
  by_cases hswap : a = .swap
  · rw [hlen hswap]
    exact hfew hswap
  · exact (hnext.batch_le hswap).trans hs.2

theorem run_whole {I : List Bytes → Journal → Prop}
    (hnext : ∀ l (s s' : AsyncLogging) a, Whole s → s.journal.Next a s'.journal →
      I l s.journal → I (l ++ a.lines) s'.journal)
    {l : List Bytes} {s s' : AsyncLogging} {as : List Action} (hs : Whole s)
    (hrun : Run (Steps Unhurried) (.ok s) as (.ok s')) (h : I l s.journal) :
    Whole s' ∧ I (l ++ as.flatMap Action.lines) s'.journal := by
  obtain ⟨t, ht, hw, hi⟩ := hrun.invariant_history Action.lines (l := l)
    (I := fun l r ↦ ∃ s, r = .ok s ∧ Whole s ∧ I l s.journal)
    (by
      rintro l _ a r' ⟨s, rfl, hs, hi⟩ hstep
      obtain ⟨s', hr', hs', hn⟩ := steps_whole hs hstep
      exact ⟨s', hr', hs', hnext l s s' a hs hn hi⟩)
    ⟨s, rfl, hs, h⟩
  obtain rfl := Except.ok.inj ht
  exact ⟨hw, hi⟩

theorem run_history {as : List Action} {s : AsyncLogging}
    (hrun : Run (Steps Unhurried) (.ok start) as (.ok s)) :
    Whole s ∧ as.flatMap Action.lines = s.journal.taken ++ s.pending :=
  run_whole (I := fun l j ↦ l = j.taken ++ j.pending) (l := [])
    (by
      rintro _ s s' a hs hn rfl
      exact (hn.history hs.idle hs.2).symm)
    ⟨start_inv, Nat.zero_le _⟩ hrun rfl

theorem run_stopped_taken {as : List Action} {s s' : AsyncLogging} (hs : Whole s)
    (hrun : s.running = false) (hp : s.phase ≠ .swap)
    (h : Run (Steps Unhurried) (.ok s) as (.ok s')) : s'.journal.taken = s.journal.taken := by
  obtain ⟨-, -, -, htaken⟩ := run_whole (l := [])
    (I := fun _ j ↦ j.running = false ∧ j.phase ≠ .swap ∧ j.taken = s.journal.taken)
    (by
      rintro _ t t' a ht hn ⟨hrun, hp, htaken⟩
      obtain ⟨hrun', hp', htaken'⟩ := hn.stopped_taken hrun hp ht.2
      exact ⟨hrun', hp', htaken'.trans htaken⟩)
    hs h ⟨hrun, hp, rfl⟩
  exact htaken

theorem run_stopped_waiting {as : List Action} {s s' : AsyncLogging} (hs : Whole s)
    (hrun : s.running = false) (hp : s.phase = .swap) (hp' : s'.phase ≠ .swap)
    (h : Run (Steps Unhurried) (.ok s) as (.ok s')) :
    s.journal.taken ++ s.pending <+: s'.journal.taken := by
  obtain ⟨-, -, hcase⟩ := run_whole (l := [])
    (I := fun _ j ↦ j.running = false ∧
      (j.phase = .swap ∧ j.taken = s.journal.taken ∧ s.pending <+: j.pending ∨
        j.phase ≠ .swap ∧ s.journal.taken ++ s.pending <+: j.taken))
    (by
      rintro _ t t' a ht hn ⟨hrun, ⟨hp, htaken, hpre⟩ | ⟨hp, hpre⟩⟩
      · have hbatch := ht.idle (by rw [show t.phase = .swap from hp]; decide)
        obtain ⟨hrun', ⟨hp', htaken', hpre'⟩ | ⟨hp', htaken'⟩⟩ := hn.stopped_waiting hrun hp hbatch
        · exact ⟨hrun', .inl ⟨hp', htaken'.trans htaken, hpre.trans hpre'⟩⟩
        · refine ⟨hrun', .inr ⟨hp', ?_⟩⟩
          rw [htaken', htaken]
          exact (List.prefix_append_right_inj _).mpr hpre
      · obtain ⟨hrun', hp', htaken'⟩ := hn.stopped_taken hrun hp ht.2
        exact ⟨hrun', .inr ⟨hp', htaken' ▸ hpre⟩⟩)
    hs h ⟨hrun, .inl ⟨hp, rfl, List.prefix_refl _⟩⟩
  obtain ⟨hswap, -⟩ | ⟨-, hpre⟩ := hcase
  · exact absurd hswap hp'
  · exact hpre

/-- When `Stop` returns, the file has every line appended before it exactly if
the writer was in front of its critical section, or nothing was waiting. -/
theorem stop_flushes_iff {before after : List Action} {s s' : AsyncLogging}
    (hbefore : Run (Steps Unhurried) (.ok start) before (.ok s))
    (hafter : Run (Steps Unhurried) (.ok s) (.stop :: after) (.ok s')) (hdone : s'.phase = .done) :
    before.flatMap Action.lines <+: s'.output.flatMap Entry.lines ↔
      s.phase = .swap ∨ s.pending = [] := by
  obtain ⟨hw, hlines⟩ := run_history hbefore
  obtain ⟨hstop, hrest⟩ : s.running = true ∧ Run (Steps Unhurried) (.ok s.stop) after (.ok s') := by
    cases hafter with
    | cons hstep hrest =>
      obtain ⟨t, ht, -, hstep⟩ := hstep
      obtain rfl := Except.ok.inj ht
      obtain ⟨hrun, hstep⟩ := Option.ite_none_right_eq_some.mp hstep
      exact ⟨hrun, Option.some.inj hstep ▸ hrest⟩
  have hwstop : Whole s.stop :=
    ⟨⟨hw.1.current, hw.1.next_empty, hw.1.next_none, hw.1.idle, hw.1.writing⟩, hw.2⟩
  have hout : s'.journal.taken = s'.output.flatMap Entry.lines := by
    have hw' := (run_whole (I := fun _ _ ↦ True) (l := []) (fun _ _ _ _ _ _ _ ↦ trivial) hwstop
      hrest trivial).1
    have hbatch : s'.journal.batch = [] := hw'.idle (by rw [hdone]; decide)
    rw [Journal.taken, hbatch, linesOf_nil, List.append_nil]
    rfl
  have hne : s'.phase ≠ .swap := by rw [hdone]; decide
  rw [hlines, ← hout]
  constructor
  · intro hpre
    by_cases hp : s.phase = .swap
    · exact .inl hp
    · rw [run_stopped_taken hwstop rfl hp hrest] at hpre
      exact .inr (List.eq_nil_of_length_eq_zero (by
        have := hpre.length_le
        rw [List.length_append] at this
        change s.journal.taken.length + _ ≤ s.journal.taken.length at this
        omega))
  · intro h
    by_cases hp : s.phase = .swap
    · have hall := run_stopped_waiting hwstop rfl hp hne hrest
      exact hall
    · rw [run_stopped_taken hwstop rfl hp hrest, h.resolve_left hp, List.append_nil]
      exact List.prefix_refl _

theorem steps_append (s : AsyncLogging) (c : UInt8) :
    Steps Unhurried (.ok s) (.append [c]) (s.append [c]) :=
  ⟨s, rfl, ⟨show 1 < 4096 * 1024 by decide, fun h ↦ by cases h⟩, rfl⟩

theorem steps_swap {s : AsyncLogging} (h : s.buffers.length + 1 ≤ 25) (hp : s.phase = .swap) :
    Steps Unhurried (.ok s) .swap s.swap :=
  ⟨s, rfl, ⟨trivial, fun _ ↦ h⟩, if_pos hp⟩

theorem steps_of {s : AsyncLogging} {a : Action} {r : Checked AsyncLogging} (hs : Short s a)
    (ha : a ≠ .swap) (h : s.step a = some r) : Steps Unhurried (.ok s) a r :=
  ⟨s, rfl, ⟨hs, fun he ↦ absurd he ha⟩, h⟩

theorem stop_flushes_waiting_writer : ∃ s s',
    Run (Steps Unhurried) (.ok start) [.append [65], .test] (.ok s) ∧
    Run (Steps Unhurried) (.ok s) [.stop, .swap, .write, .test] (.ok s') ∧
    [[65]] <+: s'.output.flatMap Entry.lines := by
  obtain ⟨s, s', hbefore, hafter, hphase, hdone⟩ : ∃ s s',
      Run (Steps Unhurried) (.ok start) [.append [65], .test] (.ok s) ∧
      Run (Steps Unhurried) (.ok s) [.stop, .swap, .write, .test] (.ok s') ∧
      s.phase = .swap ∧ s'.phase = .done :=
    ⟨_, _, .cons (steps_append start 65) (.cons (steps_of trivial (by decide) rfl) (.nil _)),
      .cons (steps_of trivial (by decide) rfl) (.cons (steps_swap (by decide) rfl)
        (.cons (steps_of trivial (by decide) rfl) (.cons (steps_of trivial (by decide) rfl) (.nil _)))),
      rfl, rfl⟩
  exact ⟨s, s', hbefore, hafter, (stop_flushes_iff hbefore hafter hdone).mpr (.inl hphase)⟩

/-- The writer has swapped the first line out and is writing it when the second
one is appended and `Stop` is called: the second line is lost. -/
theorem lostLine_not_flushed : ∃ s s',
    Run (Steps Unhurried) (.ok start) [.append [65], .test, .swap, .append [66]] (.ok s) ∧
    Run (Steps Unhurried) (.ok s) [.stop, .write, .test] (.ok s') ∧ s'.phase = .done ∧
    s'.output.flatMap Entry.lines = [[65]] :=
  ⟨_, _, .cons (steps_append start 65) (.cons (steps_of trivial (by decide) rfl)
      (.cons (steps_swap (by decide) rfl) (.cons (steps_append _ 66) (.nil _)))),
    .cons (steps_of trivial (by decide) rfl) (.cons (steps_of trivial (by decide) rfl)
      (.cons (steps_of trivial (by decide) rfl) (.nil _))), rfl, rfl⟩

end AsyncLogging

end Baize.Log
