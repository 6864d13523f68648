import Baize.Time.Overdue

namespace Baize.Time

open Lib

namespace TimeWheel

variable {w w' : TimeWheel} {t : TimerId}

def Served (i k : ℕ) : Prop := i = 0 ∨ Upper i k

theorem FiledOn.served_lt (h : w.FiledOn Served) (hquiet : ∀ {k x}, x ∈ w.slots 0 k → w.lastMs < w.expiration x)
    {i k : ℕ} {x : TimerId} (hserved : Served i k) (hx : x ∈ w.slots i k) : w.lastMs < w.expiration x := by
  obtain rfl | hupper := hserved
  · exact hquiet hx
  · have hf : w.FiledOn Upper := ⟨h.toUnique, fun hupper hx ↦ h.filed (.inr hupper) hx⟩
    exact hf.upper_lt hupper hx

theorem FiledOn.advance_served (h : w.FiledOn Served)
    (hquiet : ∀ {k x}, x ∈ w.slots 0 k → w.lastMs < w.expiration x)
    (huni : ∀ c ∈ w.tickCalls, c.wheel.Uniform c.level c.index) :
    ∃ w', w.advance = some w' ∧ w'.FiledOn Served := by
  obtain ⟨w', hadv, hfiled, -⟩ := h.advance (fun hserved hpos ↦ hserved.resolve_left hpos.ne')
    (h.served_lt hquiet) fun c hc ↦ ⟨.inr (tickCalls_upper hc), .inl (huni c hc)⟩
  exact ⟨w', hadv, hfiled⟩

theorem FiledOn.current_eq (h : w.FiledOn Served) {k : ℕ} {x : TimerId} (hx : x ∈ w.slots 0 k) :
    w.lastMs ≤ w.expiration x ∧ (x ∈ w.current ↔ w.expiration x = w.lastMs) := by
  have hf := h.filed (.inl rfl) hx
  refine ⟨hf.le, fun hcur ↦ ?_, fun heq ↦ ?_⟩
  · exact (h.filed (.inl rfl) hcur).eq_of_current
  · have hk := hf.index
    rw [heq] at hk
    rw [current, ← hk]
    exact hx

end TimeWheel

namespace Machine

variable {m m' : Machine} {a : Action}

def Starts (m : Machine) : Action → Prop
  | .add _ us => InRange m.wheel (us / 1000)
  | _ => True

instance (m : Machine) : (a : Action) → Decidable (Starts m a)
  | .add _ us => inferInstanceAs (Decidable (InRange m.wheel (us / 1000)))
  | .del _ | .turn _ | .endTurn | .tick | .fire _ | .ret _ | .tickDone => .isTrue trivial

def Sorted (c : TimeWheel.MoveCall) : Prop := c.wheel.Uniform c.level c.index

instance : DecidablePred Sorted := fun c ↦ inferInstanceAs (Decidable (c.wheel.Uniform _ _))

/-- Between ticks no timer of level 0 is due, and the timer in its callback has not been missed. -/
structure Punctual (m : Machine) : Prop where
  filed : m.wheel.FiledOn TimeWheel.Served
  quiet : (m.phase = .idle ∨ ∃ left, m.phase = .turning left) →
    ∀ {k x}, x ∈ m.wheel.slots 0 k → m.wheel.lastMs < m.wheel.expiration x
  running : ∀ {t left}, m.phase = .callback t left → m.wheel.lastMs ≤ m.wheel.expiration t
  alive : m.phase ≠ .aborted

theorem not_between {ph : Phase} {P : Prop} (hidle : ph ≠ .idle) (hturning : ∀ left, ph ≠ .turning left)
    (h : ph = .idle ∨ ∃ left, ph = .turning left) : P := by
  obtain h | ⟨left, h⟩ := h
  · exact absurd h hidle
  · exact absurd h (hturning left)

theorem Punctual.arm {w : TimeWheel} {ph ph' : Phase} (h : Punctual ⟨w, ph⟩) {t us : ℕ}
    (hphase : ph' = ph ∨ ∃ left, ph' = .draining left) (hr : ph' = ph → w.lastMs < us / 1000) :
    Punctual ⟨(w.setUs t us).addTimer t, ph'⟩ := by
  have hlast := TimeWheel.addTimer_lastMs (w.setUs t us) t
  have hexp := TimeWheel.arm_expiration w t us
  obtain rfl | ⟨left, rfl⟩ := hphase
  · refine ⟨h.filed.arm t us, fun hph {k x} hx ↦ ?_, fun {t' left} hph ↦ ?_, h.alive⟩
    · simp only [hlast, hexp]
      split
      · exact hr rfl
      · next hne =>
        obtain ⟨heq, -⟩ | ⟨-, hx⟩ := (TimeWheel.mem_addTimer (h.filed.setUs t us)).mp hx
        · exact absurd heq hne
        · exact h.quiet hph hx
    · simp only [hlast, hexp]
      split
      · exact (hr rfl).le
      · exact h.running hph
  · exact ⟨h.filed.arm t us, not_between nofun nofun, nofun, nofun⟩

theorem Transition.punctual (ht : Transition m a m') (h : Punctual m) (hstart : m.Starts a)
    (hcalls : m.Calls Sorted a) : Punctual m' := by
  cases ht with
  | add t us => exact h.arm (.inl rfl) fun _ ↦ hstart.1
  | del t =>
    exact ⟨h.filed.delTimer t, fun hph _ _ hx ↦
      h.quiet hph ((TimeWheel.mem_delTimer h.filed.toUnique).mp hx).2, h.running, h.alive⟩
  | turn now => exact ⟨h.filed, fun _ ↦ h.quiet (.inl rfl), nofun, nofun⟩
  | overflow now => exact ⟨h.filed, fun _ ↦ h.quiet (.inl rfl), nofun, nofun⟩
  | endTurn => exact ⟨h.filed, fun _ ↦ h.quiet (.inr ⟨_, rfl⟩), nofun, nofun⟩
  | @tick w w' left hadv =>
    obtain ⟨w₁, hadv₁, hfiled⟩ := h.filed.advance_served (h.quiet (.inr ⟨_, rfl⟩)) (hcalls rfl)
    obtain rfl := Option.some.inj (hadv.symm.trans hadv₁)
    exact ⟨hfiled, not_between nofun nofun, nofun, nofun⟩
  | @abort w left hadv =>
    obtain ⟨w₁, hadv₁, -⟩ := h.filed.advance_served (h.quiet (.inr ⟨_, rfl⟩)) (hcalls rfl)
    cases hadv.symm.trans hadv₁
  | @fire w t left hhead =>
    have hmem : t ∈ w.current := List.mem_of_head? hhead
    refine ⟨h.filed.delTimer t, not_between nofun nofun, fun hph ↦ ?_, nofun⟩
    cases hph
    exact (h.filed.current_eq hmem).1
  | stop => exact ⟨h.filed, not_between nofun nofun, nofun, nofun⟩
  | again => exact h.arm (.inr ⟨_, rfl⟩) nofun
  | @tickDone w left hempty =>
    refine ⟨h.filed, fun _ k x hx ↦ ?_, nofun, nofun⟩
    obtain ⟨hle, hcur⟩ := h.filed.current_eq hx
    refine lt_of_le_of_ne hle fun heq ↦ ?_
    have hmem := hcur.mpr heq.symm
    rw [hempty] at hmem
    cases hmem

theorem ret_linked_iff (hu : m.wheel.Unique) {t : TimerId} {left : ℕ} {nextMs : ℤ}
    (hph : m.phase = .callback t left) (hn : 0 < nextMs) (hstep : m.step (.ret nextMs) = some m') :
    m'.wheel.Linked t ↔ m.wheel.lastMs ≤ m.wheel.expiration t + nextMs.toNat ∧
      m.wheel.expiration t + nextMs.toNat < m.wheel.lastMs + 2 ^ 32 := by
  obtain ⟨w, ph⟩ := m
  obtain rfl : ph = .callback t left := hph
  cases transition_of_step hstep with
  | stop hle => omega
  | again =>
    have hus : (w.us t + 1000 * nextMs.toNat) / 1000 = w.expiration t + nextMs.toNat :=
      Nat.add_mul_div_left _ _ (by decide)
    exact hus ▸ TimeWheel.arm_linked_iff hu t (w.us t + 1000 * nextMs.toNat)

def InCallback : Action → Prop
  | .add _ _ | .del _ => True
  | _ => False

theorem Punctual.callback {cs : List Action} (h : Punctual m) (hrun : Run (Guarded step Starts) m cs m')
    (hcs : ∀ a ∈ cs, InCallback a) {t : TimerId} :
    Punctual m' ∧ m'.phase = m.phase ∧ m'.wheel.lastMs = m.wheel.lastMs ∧
      ((∀ us, .add t us ∉ cs) → m'.wheel.expiration t = m.wheel.expiration t) := by
  induction hrun with
  | nil m => exact ⟨h, rfl, rfl, fun _ ↦ rfl⟩
  | @cons m m₁ m' a cs hg _ ih =>
    obtain ⟨ha, hcs⟩ := List.forall_mem_cons.mp hcs
    have ht := transition_of_step hg.2
    have hpunctual : Punctual m₁ := ht.punctual h hg.1 fun htick ↦ by rw [htick] at ha; cases ha
    obtain ⟨hend, hphase, hlast, hexp⟩ := ih hpunctual hcs
    have hone : m₁.phase = m.phase ∧ m₁.wheel.lastMs = m.wheel.lastMs ∧
        ((∀ us, .add t us ≠ a) → m₁.wheel.expiration t = m.wheel.expiration t) := by
      cases ht with
      | add x us =>
        refine ⟨rfl, TimeWheel.addTimer_lastMs _ _, fun hne ↦ ?_⟩
        rw [TimeWheel.arm_expiration, if_neg]
        rintro rfl
        exact hne us rfl
      | del x => exact ⟨rfl, rfl, fun _ ↦ rfl⟩
      | _ => cases ha
    refine ⟨hend, hphase.trans hone.1, hlast.trans hone.2.1, fun hnot ↦ ?_⟩
    rw [hexp fun us hmem ↦ hnot us (List.mem_cons_of_mem _ hmem)]
    exact hone.2.2 fun us heq ↦ hnot us (heq ▸ List.mem_cons_self)

/-- In every run in which each slot that is moved holds timers of one slot only: a timer whose
callback returns a positive number is linked again, unless the callback has started it itself and
the number takes it out of range. -/
theorem run_rearms {start : ℕ} {as cs : List Action} {m m₁ m₂ m₃ : Machine} {t : TimerId} {nextMs : ℤ}
    (hrun : Run (Guarded step fun m a ↦ m.Starts a ∧ m.Calls Sorted a) (Machine.empty start) as m)
    (hfire : m.step (.fire t) = some m₁)
    (hcallback : Run (Guarded step Starts) m₁ cs m₂) (hcs : ∀ a ∈ cs, InCallback a)
    (hn : 0 < nextMs) (hret : m₂.step (.ret nextMs) = some m₃) :
    (m₃.wheel.Linked t ↔ m₂.wheel.expiration t + nextMs.toNat < m₂.wheel.lastMs + 2 ^ 32) ∧
      (nextMs < 2 ^ 31 → (∀ us, .add t us ∉ cs) → m₃.wheel.Linked t) := by
  have hm : Punctual m := hrun.invariant (I := Punctual)
    (fun _ _ _ hI hg ↦ (transition_of_step hg.2).punctual hI hg.1.1 hg.1.2)
    ⟨TimeWheel.empty_filedOn start _, nofun, nofun, nofun⟩
  have ht := transition_of_step hfire
  have hm₁ : Punctual m₁ := ht.punctual hm trivial nofun
  obtain ⟨hm₂, hphase, hlast, hexp⟩ := hm₁.callback (t := t) hcallback hcs
  obtain ⟨left, hph, hdue⟩ : ∃ left, m₁.phase = .callback t left ∧
      m₁.wheel.expiration t = m₁.wheel.lastMs := by
    cases ht with
    | @fire w _ left hhead =>
      have hmem : t ∈ w.current := List.mem_of_head? hhead
      exact ⟨left, rfl, (hm.filed.current_eq hmem).2.mp hmem⟩
  rw [hph] at hphase
  have hlinked := ret_linked_iff hm₂.filed.toUnique hphase hn hret
  have hle := hm₂.running hphase
  refine ⟨hlinked.trans ⟨And.right, fun hlt ↦ ⟨by omega, hlt⟩⟩, fun hint hnot ↦ hlinked.mpr ?_⟩
  rw [hexp hnot, hlast, hdue]
  omega

theorem run_rearms_everyTick : ∃ m m₁ m₃,
    Run (Guarded step fun m a ↦ m.Starts a ∧ m.Calls Sorted a) (Machine.empty 0)
      [.add 0 2000, .turn 3, .tick, .tickDone, .tick] m ∧
    m.step (.fire 0) = some m₁ ∧ m₁.step (.ret 1) = some m₃ ∧ m₃.wheel.Linked 0 := by
  obtain ⟨m, hrun, hm⟩ : ∃ m, Run (Guarded step fun m a ↦ m.Starts a ∧ m.Calls Sorted a)
      (Machine.empty 0) [.add 0 2000, .turn 3, .tick, .tickDone, .tick] m ∧
        ((m.step (.fire 0)).bind fun m₁ ↦ m₁.step (.ret 1)).isSome = true :=
    exists_run_of_foldlM _ (by decide +kernel)
  obtain ⟨m₃, hm₃⟩ := Option.isSome_iff_exists.mp hm
  obtain ⟨m₁, hfire, hret⟩ := Option.bind_eq_some_iff.mp hm₃
  exact ⟨m, m₁, m₃, hrun, hfire, hret,
    (run_rearms hrun hfire (.nil m₁) nofun (by decide) hret).2 (by decide) nofun⟩

/-- Timers with the expirations 256 and 258 share `time_wheel_[1][1]`. Both are run at 258. -/
def late : List Action :=
  [.add 0 256000, .add 1 258000, .turn 258] ++ idleTicks 257 ++ [.tick, .fire 1, .ret 0, .fire 0]

theorem late_dropped : ∃ m m', Run (Guarded step Starts) (Machine.empty 0) late m ∧
    m.phase = .callback 0 0 ∧ m.step (.ret 1) = some m' ∧ ¬m'.wheel.Linked 0 := by
  obtain ⟨m, hrun, hm⟩ : ∃ m, Run (Guarded step Starts) (Machine.empty 0) late m ∧
      (m.phase, m.wheel.lastMs, m.wheel.expiration 0, (m.step (.ret 1)).isSome) =
        (.callback 0 0, 258, 256, true) :=
    exists_run_of_foldlM _ (by decide +kernel)
  simp only [Prod.mk.injEq] at hm
  obtain ⟨hph, hlast, hexp, hret⟩ := hm
  have hu := run_unique hrun.of_guarded
  obtain ⟨m', hm'⟩ := Option.isSome_iff_exists.mp hret
  refine ⟨m, m', hrun, hph, hm', fun hlinked ↦ ?_⟩
  have hle := ((ret_linked_iff hu hph (by decide) hm').mp hlinked).1
  rw [hlast, hexp] at hle
  exact absurd hle (by decide)

end Machine

end Baize.Time
