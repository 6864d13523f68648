import Baize.Time.Cascade

namespace Baize.Time

open Lib

/-- A timer service without a wheel: a clock, and for each timer whether it is armed and
when it expires. -/
@[ext]
structure Ideal where
  now : ℕ
  deadline : TimerId → ℕ
  armed : Set TimerId
  phase : Phase

namespace Ideal

def empty (now : ℕ) : Ideal := ⟨now, fun _ ↦ 0, ∅, .idle⟩

def setDeadline (σ : Ideal) (t : TimerId) (e : ℕ) : TimerId → ℕ :=
  fun t' ↦ if t' = t then e else σ.deadline t'

/-- A timer is run only while it is armed and at the tick it expires at, which disarms it; a
tick is over only when every timer that is still armed expires later. -/
inductive Step : Ideal → Action → Ideal → Prop
  | add {σ : Ideal} {t us : ℕ} (hphase : Machine.callable σ.phase) :
    Step σ (.add t us) { σ with deadline := σ.setDeadline t (us / 1000), armed := insert t σ.armed }
  | del {σ : Ideal} {t : ℕ} (hphase : Machine.callable σ.phase) :
    Step σ (.del t) { σ with armed := σ.armed \ {t} }
  | turn {σ : Ideal} {now : ℕ} (hphase : σ.phase = .idle) :
    Step σ (.turn now) { σ with phase := .turning (now - σ.now) }
  | endTurn {σ : Ideal} (hphase : σ.phase = .turning 0) :
    Step σ .endTurn { σ with phase := .idle }
  | tick {σ : Ideal} {left : ℕ} (hphase : σ.phase = .turning (left + 1)) :
    Step σ .tick { σ with now := σ.now + 1, phase := .draining left }
  | fire {σ : Ideal} {t left : ℕ} (hphase : σ.phase = .draining left) (harmed : t ∈ σ.armed)
    (hnow : σ.deadline t = σ.now) :
    Step σ (.fire t) { σ with armed := σ.armed \ {t}, phase := .callback t left }
  | stop {σ : Ideal} {t left : ℕ} {nextMs : ℤ} (hphase : σ.phase = .callback t left)
    (hnext : nextMs ≤ 0) : Step σ (.ret nextMs) { σ with phase := .draining left }
  | again {σ : Ideal} {t left : ℕ} {nextMs : ℤ} (hphase : σ.phase = .callback t left)
    (hnext : 0 < nextMs) :
    Step σ (.ret nextMs) { σ with
      deadline := σ.setDeadline t (σ.deadline t + nextMs.toNat)
      armed := insert t σ.armed
      phase := .draining left }
  | tickDone {σ : Ideal} {left : ℕ} (hphase : σ.phase = .draining left)
    (hdone : ∀ t ∈ σ.armed, σ.now < σ.deadline t) :
    Step σ .tickDone { σ with phase := .turning left }

def Quiet (σ : Ideal) : Prop := ∀ t ∈ σ.armed, σ.now < σ.deadline t

def Inv (σ : Ideal) : Prop :=
  match σ.phase with
  | .idle | .turning _ => σ.Quiet
  | .draining _ | .callback _ _ => True
  | .aborted | .overflow => False

theorem Quiet.arm {σ : Ideal} (h : σ.Quiet) {t e : ℕ} (he : σ.now < e) :
    { σ with deadline := σ.setDeadline t e, armed := insert t σ.armed }.Quiet := by
  intro x hx
  simp only [setDeadline]
  split
  · exact he
  · next hne => exact h x (hx.resolve_left hne)

theorem Quiet.disarm {σ : Ideal} (h : σ.Quiet) (t : TimerId) :
    { σ with armed := σ.armed \ {t} }.Quiet :=
  fun x hx ↦ h x hx.1

end Ideal

namespace Machine

/-- The service that the wheel stands for: a timer is armed when it is linked. -/
def ideal (m : Machine) : Ideal :=
  ⟨m.wheel.lastMs, m.wheel.expiration, {t | m.wheel.Linked t}, m.phase⟩

def InRange (w : TimeWheel) (e : ℕ) : Prop := w.lastMs < e ∧ e < w.lastMs + 2 ^ 32

instance (w : TimeWheel) (e : ℕ) : Decidable (InRange w e) := inferInstanceAs (Decidable (_ ∧ _))

/-- Every timer is added with an expiration that is ahead and in range. -/
def Ahead (m : Machine) : Action → Prop
  | .add _ us => InRange m.wheel (us / 1000)
  | .ret nextMs =>
    match m.phase with
    | .callback t _ => 0 < nextMs → InRange m.wheel (m.wheel.expiration t + nextMs.toNat)
    | _ => True
  | _ => True

instance (m : Machine) (a : Action) : Decidable (Ahead m a) := by
  unfold Ahead
  cases a <;> first | infer_instance | (cases m.phase <;> infer_instance)

/-- No call of `TurnWheel` has to catch up with `2 ^ 31` ticks, and the ticks meet `TickOk`. -/
def TurnOk (m : Machine) : Action → Prop
  | .turn now => now < m.wheel.lastMs + 2147483648
  | .tick => m.wheel.TickOk
  | _ => True

instance (m : Machine) (a : Action) : Decidable (TurnOk m a) := by
  unfold TurnOk
  cases a <;> infer_instance

def Ok (m : Machine) (a : Action) : Prop := Ahead m a ∧ TurnOk m a

instance (m : Machine) (a : Action) : Decidable (Ok m a) := inferInstanceAs (Decidable (_ ∧ _))

def Inv (m : Machine) : Prop := m.wheel.Settled ∧ m.ideal.Inv

theorem ideal_arm {w : TimeWheel} {t us : ℕ} (hw : w.Settled) (hr : InRange w (us / 1000)) (ph ph' : Phase) :
    ((w.setUs t us).addTimer t).Settled ∧
      (Machine.mk ((w.setUs t us).addTimer t) ph').ideal =
        { (Machine.mk w ph).ideal with
          deadline := (Machine.mk w ph).ideal.setDeadline t (us / 1000)
          armed := insert t (Machine.mk w ph).ideal.armed
          phase := ph' } := by
  obtain ⟨hs, hlast, hus, hlinked⟩ := TimeWheel.arm_spec (t := t) hw hr.1.le hr.2
  refine ⟨hs, Ideal.ext hlast (funext fun x ↦ ?_) (Set.ext hlinked) rfl⟩
  simp only [ideal, TimeWheel.expiration, Ideal.setDeadline, hus]
  simp only [TimeWheel.setUs]
  split <;> rfl

theorem ideal_del {w : TimeWheel} {t : ℕ} (hw : w.Settled) (ph ph' : Phase) :
    (Machine.mk (w.delTimer t) ph').ideal =
      { (Machine.mk w ph).ideal with armed := (Machine.mk w ph).ideal.armed \ {t}, phase := ph' } := by
  refine Ideal.ext rfl rfl (Set.ext fun x ↦ ?_) rfl
  exact (TimeWheel.linked_delTimer hw.toUnique).trans and_comm

theorem add_refines {m : Machine} {t us : ℕ} (hinv : m.Inv) (hr : InRange m.wheel (us / 1000))
    (hphase : callable m.phase = true) :
    (Machine.mk ((m.wheel.setUs t us).addTimer t) m.phase).Inv ∧
      Ideal.Step m.ideal (.add t us) (Machine.mk ((m.wheel.setUs t us).addTimer t) m.phase).ideal := by
  obtain ⟨hs, hideal⟩ := ideal_arm (t := t) hinv.1 hr m.phase m.phase
  obtain ⟨-, hinv⟩ := hinv
  refine ⟨⟨hs, ?_⟩, ?_⟩
  · rw [hideal]
    obtain ⟨w, ph⟩ := m
    cases ph with
    | idle =>
      have hquiet : (Machine.mk w .idle).ideal.Quiet := hinv
      exact hquiet.arm hr.1
    | callback _ _ => trivial
    | _ => cases hphase
  · rw [hideal]
    exact .add hphase

theorem del_refines {m : Machine} {t : ℕ} (hinv : m.Inv) (hphase : callable m.phase = true) :
    (Machine.mk (m.wheel.delTimer t) m.phase).Inv ∧
      Ideal.Step m.ideal (.del t) (Machine.mk (m.wheel.delTimer t) m.phase).ideal := by
  have hideal := ideal_del (t := t) hinv.1 m.phase m.phase
  obtain ⟨hs, hinv⟩ := hinv
  refine ⟨⟨TimeWheel.delTimer_settled hs, ?_⟩, ?_⟩
  · rw [hideal]
    obtain ⟨w, ph⟩ := m
    cases ph with
    | idle =>
      have hquiet : (Machine.mk w .idle).ideal.Quiet := hinv
      exact hquiet.disarm t
    | callback _ _ => trivial
    | _ => cases hphase
  · rw [hideal]
    exact .del hphase

theorem tick_refines {w : TimeWheel} {left : ℕ} (hinv : (Machine.mk w (.turning (left + 1))).Inv)
    (hok : w.TickOk) :
    ∃ w', w.advance = some w' ∧ (Machine.mk w' (.draining left)).Inv ∧
      Ideal.Step (Machine.mk w (.turning (left + 1))).ideal .tick (Machine.mk w' (.draining left)).ideal := by
  obtain ⟨hs, hquiet⟩ := hinv
  obtain ⟨w', hadv, hs', hsame⟩ := TimeWheel.advance_spec hs hquiet hok
  have hideal : (Machine.mk w' (.draining left)).ideal =
      { (Machine.mk w (.turning (left + 1))).ideal with now := w.lastMs + 1, phase := .draining left } :=
    Ideal.ext hsame.lastMs (funext hsame.expiration) (Set.ext hsame.linked) rfl
  refine ⟨w', hadv, ⟨hs', trivial⟩, ?_⟩
  rw [hideal]
  exact .tick rfl

theorem fire_refines {w : TimeWheel} {t left : ℕ} (hinv : (Machine.mk w (.draining left)).Inv)
    (hhead : w.current.head? = some t) :
    (Machine.mk (w.delTimer t) (.callback t left)).Inv ∧
      Ideal.Step (Machine.mk w (.draining left)).ideal (.fire t)
        (Machine.mk (w.delTimer t) (.callback t left)).ideal := by
  obtain ⟨hs, -⟩ := hinv
  obtain ⟨hlinked, hnow⟩ := hs.mem_current.mp (List.mem_of_head? hhead)
  refine ⟨⟨TimeWheel.delTimer_settled hs, trivial⟩, ?_⟩
  rw [ideal_del hs (.draining left)]
  exact .fire rfl hlinked hnow

theorem ret_refines {w : TimeWheel} {t left : ℕ} {nextMs : ℤ}
    (hinv : (Machine.mk w (.callback t left)).Inv) (hnext : 0 < nextMs)
    (hr : InRange w (w.expiration t + nextMs.toNat)) :
    (Machine.mk ((w.setUs t (w.us t + 1000 * nextMs.toNat)).addTimer t) (.draining left)).Inv ∧
      Ideal.Step (Machine.mk w (.callback t left)).ideal (.ret nextMs)
        (Machine.mk ((w.setUs t (w.us t + 1000 * nextMs.toNat)).addTimer t) (.draining left)).ideal := by
  obtain ⟨hs, -⟩ := hinv
  have hus : (w.us t + 1000 * nextMs.toNat) / 1000 = w.expiration t + nextMs.toNat :=
    Nat.add_mul_div_left _ _ (by decide)
  obtain ⟨hs', hideal⟩ := ideal_arm (t := t) hs (hus ▸ hr) (.callback t left) (.draining left)
  refine ⟨⟨hs', trivial⟩, ?_⟩
  rw [hideal, hus]
  exact .again rfl hnext

theorem tickDone_refines {w : TimeWheel} {left : ℕ} (hinv : (Machine.mk w (.draining left)).Inv)
    (hempty : w.current = []) :
    (Machine.mk w (.turning left)).Inv ∧
      Ideal.Step (Machine.mk w (.draining left)).ideal .tickDone (Machine.mk w (.turning left)).ideal := by
  obtain ⟨hs, -⟩ := hinv
  have hquiet : ∀ x, w.Linked x → w.lastMs < w.expiration x := by
    rintro x ⟨i, k, hx⟩
    refine (hs.filed hx).le.lt_of_ne fun heq ↦ ?_
    have hcur := hs.mem_current.mpr ⟨⟨i, k, hx⟩, heq.symm⟩
    rw [hempty] at hcur
    cases hcur
  exact ⟨⟨hs, hquiet⟩, .tickDone rfl hquiet⟩

theorem step_refines {m m' : Machine} {a : Action} (hinv : m.Inv) (hok : m.Ok a)
    (hstep : m.step a = some m') : m'.Inv ∧ Ideal.Step m.ideal a m'.ideal := by
  cases transition_of_step hstep with
  | add t us hphase => exact add_refines (m := Machine.mk _ _) hinv hok.1 hphase
  | del t hphase => exact del_refines (m := Machine.mk _ _) hinv hphase
  | @turn w now hlt =>
    have hleft : ((now : ℤ) - w.lastMs).toNat = now - w.lastMs := by omega
    rw [hleft]
    exact ⟨hinv, .turn rfl⟩
  | @overflow w now hge =>
    have : now < w.lastMs + 2147483648 := hok.2
    omega
  | endTurn => exact ⟨hinv, .endTurn rfl⟩
  | tick hadv =>
    obtain ⟨w', hadv', hresult⟩ := tick_refines hinv hok.2
    obtain rfl := Option.some.inj (hadv.symm.trans hadv')
    exact hresult
  | abort hadv =>
    obtain ⟨w', hadv', -⟩ := tick_refines hinv hok.2
    cases hadv.symm.trans hadv'
  | fire hhead => exact fire_refines hinv hhead
  | stop hle => exact ⟨⟨hinv.1, trivial⟩, .stop rfl hle⟩
  | again hlt => exact ret_refines hinv hlt (hok.1 hlt)
  | tickDone hempty => exact tickDone_refines hinv hempty

theorem length_current_arm {w : TimeWheel} {t us : ℕ} (hw : w.Settled) (hr : InRange w (us / 1000)) :
    ((w.setUs t us).addTimer t).current.length ≤ w.current.length := by
  obtain ⟨hs, hlast, hus, hlinked⟩ := TimeWheel.arm_spec (t := t) hw hr.1.le hr.2
  refine (List.subperm_of_subset (hs.nodup _ _) fun x hx ↦ ?_).length_le
  obtain ⟨hx, he⟩ := hs.mem_current.mp hx
  rw [TimeWheel.expiration, hus, hlast] at he
  simp only [TimeWheel.setUs] at he
  split at he
  · exact absurd he hr.1.ne'
  · next hne => exact hw.mem_current.mpr ⟨((hlinked x).mp hx).resolve_left hne, he⟩

/-- Within a tick no step brings a timer into the slot that is drained, and running one takes
it out: the draining loop ends. -/
theorem length_current_step {m m' : Machine} {a : Action} (hinv : m.Inv) (hok : m.Ok a) (ha : a ≠ .tick)
    (hstep : m.step a = some m') :
    m'.wheel.current.length ≤ m.wheel.current.length ∧
      ∀ t, a = .fire t → m'.wheel.current.length + 1 = m.wheel.current.length := by
  cases transition_of_step hstep with
  | add t us => exact ⟨length_current_arm hinv.1 hok.1, nofun⟩
  | del t => exact ⟨List.length_erase_le, nofun⟩
  | tick => exact absurd rfl ha
  | abort => exact absurd rfl ha
  | @fire w t left hhead =>
    refine ⟨List.length_erase_le, fun _ _ ↦ ?_⟩
    have hmem : t ∈ w.current := List.mem_of_head? hhead
    have hlen : (w.delTimer t).current.length = w.current.length - 1 := List.length_erase_of_mem hmem
    have hpos := List.length_pos_of_mem hmem
    exact (congrArg (· + 1) hlen).trans (Nat.sub_add_cancel hpos)
  | @again w t left nextMs hlt =>
    have hus : (w.us t + 1000 * nextMs.toNat) / 1000 = w.expiration t + nextMs.toNat :=
      Nat.add_mul_div_left _ _ (by decide)
    exact ⟨length_current_arm hinv.1 (hus ▸ hok.1 hlt), nofun⟩
  | _ => exact ⟨le_rfl, nofun⟩

theorem ideal_empty (now : ℕ) : (Machine.empty now).ideal = Ideal.empty now := by
  refine Ideal.ext rfl (funext fun _ ↦ Nat.zero_div 1000) (Set.eq_empty_iff_forall_notMem.mpr ?_) rfl
  rintro x ⟨i, k, hx⟩
  cases hx

theorem inv_empty (now : ℕ) : (Machine.empty now).Inv := by
  refine ⟨⟨TimeWheel.empty_unique now, nofun⟩, ?_⟩
  rw [ideal_empty]
  exact fun x hx ↦ absurd hx (Set.notMem_empty x)

theorem run_refines_ideal {start : ℕ} {as : List Action} {m : Machine}
    (hrun : Run (Guarded step Ok) (Machine.empty start) as m) :
    Run Ideal.Step (Ideal.empty start) as m.ideal ∧ m.ideal.Inv ∧
      ∀ a m', a ≠ .tick → Guarded step Ok m a m' →
        m'.wheel.current.length ≤ m.wheel.current.length ∧
        ∀ t, a = .fire t → m'.wheel.current.length + 1 = m.wheel.current.length := by
  have hstep (s : Machine) (a : Action) (s' : Machine) (σ : Ideal) (hR : s.Inv ∧ σ = s.ideal)
      (hg : Guarded step Ok s a s') : ∃ σ', Ideal.Step σ a σ' ∧ s'.Inv ∧ σ' = s'.ideal := by
    obtain ⟨hinv, rfl⟩ := hR
    obtain ⟨hinv', hideal⟩ := step_refines hinv hg.1 hg.2
    exact ⟨_, hideal, hinv', rfl⟩
  obtain ⟨σ, hideal, hinv, rfl⟩ := hrun.simulates hstep ⟨inv_empty start, (ideal_empty start).symm⟩
  exact ⟨hideal, hinv.2, fun a m' ha hg ↦ length_current_step hinv hg.1 ha hg.2⟩

/-- Two timers of level 1 that share a slot: both go to the slot of the first when it is moved. -/
def sharedSlot : List Action :=
  [.add 0 511000, .add 1 256000, .turn 256] ++ (List.replicate 255 [.tick, .tickDone]).flatten ++
    [.tick, .fire 1, .ret 0]

theorem sharedSlot_fires_early :
    ∃ m m', Run (Guarded step Ahead) (Machine.empty 0) sharedSlot m ∧ m.step (.fire 0) = some m' ∧
      m.wheel.lastMs = 256 ∧ m.wheel.expiration 0 = 511 := by
  obtain ⟨m, hrun, hm⟩ : ∃ m, Run (Guarded step Ahead) (Machine.empty 0) sharedSlot m ∧
      (m.wheel.lastMs, m.wheel.expiration 0, (m.step (.fire 0)).isSome) = (256, 511, true) :=
    exists_run_of_foldlM _ (by decide +kernel)
  simp only [Prod.mk.injEq] at hm
  obtain ⟨m', hfire⟩ := Option.isSome_iff_exists.mp hm.2.2
  exact ⟨m, m', hrun, hfire, hm.1, hm.2.1⟩

def periodic : List Action :=
  [.add 0 2000, .add 1 3000, .turn 4, .tick, .tickDone, .tick, .fire 0, .del 1, .ret 1, .tickDone, .tick,
    .fire 0, .ret 0, .tickDone]

theorem run_refines_ideal_periodic :
    ∃ m, Run (Guarded step Ok) (Machine.empty 0) periodic m ∧
      Run Ideal.Step (Ideal.empty 0) periodic m.ideal ∧ m.ideal.Inv := by
  obtain ⟨m, hrun, -⟩ : ∃ m, Run (Guarded step Ok) (Machine.empty 0) periodic m ∧ m.phase = .turning 1 :=
    exists_run_of_foldlM _ (by decide +kernel)
  have h := run_refines_ideal hrun
  exact ⟨m, hrun, h.1, h.2.1⟩

end Machine

end Baize.Time
