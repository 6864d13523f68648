import Baize.Lib.Checked
import Baize.Threads.WaitGroup

namespace Baize.Threads

open Lib WaitGroup

inductive Party
  | owner
  | thread
  deriving DecidableEq

/-- Where the owner is: outside the class, in `Start` in front of `pthread_create` or in
`waitgroup_.Wait()`, or in the `pthread_join` of `Join`. -/
inductive OwnerPhase
  | outside
  | creating
  | waiting
  | joining
  deriving DecidableEq

inductive ThreadPhase
  | absent
  | entered
  | counting
  | running
  | ended
  deriving DecidableEq

structure Thread where
  tid : ℕ
  started : Bool
  joined : Bool
  waitgroup : MonitorState ℤ WaitGroup.Call Party
  owner : OwnerPhase
  thread : ThreadPhase
  returned : Bool

namespace Thread

inductive Action
  | start
  | create
  | identify (tid : ℕ)
  | group (a : MonitorAction WaitGroup.Call Party)
  | finish
  | join
  | joined

def new : Thread := ⟨0, false, false, .init 1, .outside, .absent, false⟩

def settle (s : Thread) : Thread :=
  { s with
    owner := if s.owner = .waiting ∧ (s.waitgroup.point .owner).inCall = none then .outside else s.owner
    returned := s.returned || decide (s.owner = .waiting ∧ (s.waitgroup.point .owner).inCall = none)
    thread := if s.thread = .counting ∧ (s.waitgroup.point .thread).inCall = none then .running else s.thread }

/-- `gettid` is positive. What the wait group does between its calls is left to `group`. -/
def step (s : Thread) : Action → Option (Checked Thread)
  | .start =>
    if s.owner = .outside then
      some (do check (s.started = false) .assertion; pure { s with started := true, owner := .creating })
    else none
  | .create =>
    if s.owner = .creating then do
      let waitgroup ← monitor.step s.waitgroup (.call .owner none)
      some (.ok { s with thread := .entered, owner := .waiting, waitgroup := waitgroup })
    else none
  | .identify tid =>
    if s.thread = .entered ∧ 0 < tid then do
      let waitgroup ← monitor.step s.waitgroup (.call .thread (some .done))
      some (.ok { s with tid := tid, thread := .counting, waitgroup := waitgroup })
    else none
  | .group (.call _ _) => none
  | .group a => do
    let waitgroup ← monitor.step s.waitgroup a
    some (.ok (settle { s with waitgroup := waitgroup }))
  | .finish => if s.thread = .running then some (.ok { s with thread := .ended }) else none
  | .join =>
    if s.owner = .outside then
      some (do
        check (s.started = true) .assertion
        check (s.joined = false) .assertion
        pure { s with joined := true, owner := .joining })
    else none
  | .joined =>
    if s.owner = .joining ∧ s.thread = .ended then some (.ok { s with owner := .outside }) else none

def Steps (s : Thread) (a : Action) (s' : Thread) : Prop := s.step a = some (.ok s')

/-- Who is in which call of the wait group, and what the thread has done by then. -/
structure Kept (s : Thread) : Prop where
  group : monitor.Inv 1 s.waitgroup
  ownerCall : (s.waitgroup.point .owner).inCall = if s.owner = .waiting then some none else none
  threadCall : (s.waitgroup.point .thread).inCall = if s.thread = .counting then some (some .done) else none
  fresh : s.started = false → s.thread = .absent
  creating : s.owner = .creating → s.started = true ∧ s.thread = .absent
  created : s.owner = .waiting → s.thread ≠ .absent
  early : s.thread = .absent ∨ s.thread = .entered → s.waitgroup.updates = []
  identified : s.thread = .counting ∨ s.thread = .running ∨ s.thread = .ended → 0 < s.tid
  late : s.thread = .running ∨ s.thread = .ended → .done ∈ s.waitgroup.updates
  returned : s.returned = true → .done ∈ s.waitgroup.updates

theorem new_kept : new.Kept where
  group := Monitor.init_inv 1
  ownerCall := rfl
  threadCall := rfl
  fresh _ := rfl
  creating h := by cases h
  created h := by cases h
  early _ := rfl
  identified h := by rcases h with h | h | h <;> cases h
  late h := by rcases h with h | h <;> cases h
  returned h := by cases h

variable {s s' : Thread}

theorem Kept.start (h : s.Kept) (ho : s.owner = .outside) (hs : s.started = false) :
    Kept { s with started := true, owner := .creating } where
  group := h.group
  ownerCall := by
    have hcall := h.ownerCall
    rwa [ho] at hcall
  threadCall := h.threadCall
  fresh hf := by cases hf
  creating _ := ⟨rfl, h.fresh hs⟩
  created hf := by cases hf
  early := h.early
  identified := h.identified
  late := h.late
  returned := h.returned

theorem Kept.create (h : s.Kept) (ho : s.owner = .creating) :
    Kept { s with
      thread := .entered, owner := .waiting, waitgroup := s.waitgroup.move .owner (.locking none) } where
  group := h.group.call (Point.inCall_eq_none (by rw [h.ownerCall, ho]; rfl))
  ownerCall := congrArg Point.inCall (MonitorState.point_move_self ..)
  threadCall := by
    have hcall := h.threadCall
    rw [(h.creating ho).2] at hcall
    exact (congrArg Point.inCall (MonitorState.point_move_of_ne _ (by decide))).trans hcall
  fresh hf := by cases (h.creating ho).1.symm.trans hf
  creating hf := by cases hf
  created _ hf := by cases hf
  early _ := h.early (.inl (h.creating ho).2)
  identified hf := by rcases hf with hf | hf | hf <;> cases hf
  late hf := by rcases hf with hf | hf <;> cases hf
  returned := h.returned

theorem Kept.identify (h : s.Kept) (ht : s.thread = .entered) {tid : ℕ} (htid : 0 < tid) :
    Kept { s with
      tid := tid, thread := .counting, waitgroup := s.waitgroup.move .thread (.locking (some .done)) } where
  group := h.group.call (Point.inCall_eq_none (by rw [h.threadCall, ht]; rfl))
  ownerCall := (congrArg Point.inCall (MonitorState.point_move_of_ne _ (by decide))).trans h.ownerCall
  threadCall := congrArg Point.inCall (MonitorState.point_move_self ..)
  fresh hf := by cases ht.symm.trans (h.fresh hf)
  creating hf := by cases ht.symm.trans (h.creating hf).2
  created _ hf := by cases hf
  early hf := by rcases hf with hf | hf <;> cases hf
  identified _ := htid
  late hf := by rcases hf with hf | hf <;> cases hf
  returned := h.returned

variable {a : MonitorAction WaitGroup.Call Party} {waitgroup : MonitorState ℤ WaitGroup.Call Party}

theorem done_mem_of_passed (h : monitor.Inv 1 waitgroup) (hp : waitgroup.passed .owner = true) :
    .done ∈ waitgroup.updates := by
  have hgo := (go_data_iff h).mp (h.passed .owner hp)
  exact List.count_pos_iff.mp (by omega)

theorem Kept.settle_owner (h : s.Kept) (ht : monitor.Transition s.waitgroup a waitgroup)
    (ha : Monitor.Continues a) :
    ((settle { s with waitgroup := waitgroup }).owner = s.owner ∧
      (settle { s with waitgroup := waitgroup }).returned = s.returned ∧
      (waitgroup.point .owner).inCall = if s.owner = .waiting then some none else none) ∨
    ((settle { s with waitgroup := waitgroup }).owner = .outside ∧
      (waitgroup.point .owner).inCall = none ∧ .done ∈ waitgroup.updates) := by
  have hcall := ht.inCall h.group ha .owner
  rw [h.ownerCall] at hcall
  dsimp only [settle]
  by_cases hw : s.owner = .waiting
  · rw [if_pos hw] at hcall ⊢
    obtain hsame | ⟨hout, hpassed, -⟩ := hcall
    · refine .inl ⟨if_neg fun hc ↦ ?_, ?_, hsame⟩
      · cases hsame.symm.trans hc.2
      · rw [decide_eq_false fun hc ↦ (by cases hsame.symm.trans hc.2), Bool.or_false]
    · have hnone : (waitgroup.point .owner).inCall = none := by rw [hout]; rfl
      exact .inr ⟨if_pos ⟨hw, hnone⟩, hnone, done_mem_of_passed (ht.inv h.group) (hpassed rfl)⟩
  · rw [if_neg hw] at hcall ⊢
    refine .inl ⟨if_neg fun hc ↦ hw hc.1, ?_, ?_⟩
    · rw [decide_eq_false fun hc ↦ hw hc.1, Bool.or_false]
    · obtain hsame | ⟨hout, -⟩ := hcall
      · exact hsame
      · rw [hout]; rfl

theorem Kept.settle_thread (h : s.Kept) (ht : monitor.Transition s.waitgroup a waitgroup)
    (ha : Monitor.Continues a) :
    ((settle { s with waitgroup := waitgroup }).thread = s.thread ∧
      (waitgroup.point .thread).inCall = if s.thread = .counting then some (some .done) else none) ∨
    (s.thread = .counting ∧ (settle { s with waitgroup := waitgroup }).thread = .running ∧
      (waitgroup.point .thread).inCall = none ∧ .done ∈ waitgroup.updates) := by
  have hcall := ht.inCall h.group ha .thread
  rw [h.threadCall] at hcall
  dsimp only [settle]
  by_cases hw : s.thread = .counting
  · rw [if_pos hw] at hcall ⊢
    obtain hsame | ⟨hout, -, hmade⟩ := hcall
    · exact .inl ⟨if_neg fun hc ↦ (by cases hsame.symm.trans hc.2), hsame⟩
    · have hnone : (waitgroup.point .thread).inCall = none := by rw [hout]; rfl
      exact .inr ⟨hw, if_pos ⟨hw, hnone⟩, hnone, hmade _ rfl⟩
  · rw [if_neg hw] at hcall ⊢
    refine .inl ⟨if_neg fun hc ↦ hw hc.1, ?_⟩
    obtain hsame | ⟨hout, -⟩ := hcall
    · exact hsame
    · rw [hout]; rfl

theorem Kept.updates_early (h : s.Kept) (ht : monitor.Transition s.waitgroup a waitgroup)
    (hearly : s.thread = .absent ∨ s.thread = .entered) : waitgroup.updates = [] := by
  obtain hsame | ⟨t, k, hcall, -⟩ := ht.updates
  · rw [hsame]
    exact h.early hearly
  · cases t with
    | owner =>
      rw [h.ownerCall] at hcall
      split at hcall <;> cases hcall
    | thread =>
      rw [h.threadCall, if_neg (by rcases hearly with hearly | hearly <;> rw [hearly] <;> decide)] at hcall
      cases hcall

theorem mem_updates {k : WaitGroup.Call} (ht : monitor.Transition s.waitgroup a waitgroup)
    (hk : k ∈ s.waitgroup.updates) : k ∈ waitgroup.updates := by
  obtain hsame | ⟨t, k', -, hmore⟩ := ht.updates
  · rwa [hsame]
  · rw [hmore]
    exact List.mem_append_left _ hk

theorem Kept.group_step (h : s.Kept) (ht : monitor.Transition s.waitgroup a waitgroup)
    (ha : Monitor.Continues a) : Kept (settle { s with waitgroup := waitgroup }) := by
  have howner := h.settle_owner ht ha
  have hthread := h.settle_thread ht ha
  constructor
  case group => exact ht.inv h.group
  case ownerCall =>
    obtain ⟨ho, -, hcall⟩ | ⟨ho, hcall, -⟩ := howner <;> rw [ho] <;> exact hcall
  case threadCall =>
    obtain ⟨ht', hcall⟩ | ⟨-, ht', hcall, -⟩ := hthread <;> rw [ht'] <;> exact hcall
  case fresh =>
    intro hs
    obtain ⟨ht', -⟩ | ⟨hc, -⟩ := hthread
    · exact ht'.trans (h.fresh hs)
    · cases hc.symm.trans (h.fresh hs)
  case creating =>
    intro hc
    obtain ⟨ho, -⟩ | ⟨ho, -⟩ := howner
    · obtain ⟨hs, habsent⟩ := h.creating (ho.symm.trans hc)
      obtain ⟨ht', -⟩ | ⟨hcount, -⟩ := hthread
      · exact ⟨hs, ht'.trans habsent⟩
      · cases hcount.symm.trans habsent
    · cases ho.symm.trans hc
  case created =>
    intro hw
    obtain ⟨ho, -⟩ | ⟨ho, -⟩ := howner
    · obtain ⟨ht', -⟩ | ⟨-, ht', -⟩ := hthread <;> rw [ht']
      · exact h.created (ho.symm.trans hw)
      · decide
    · cases ho.symm.trans hw
  case early =>
    intro hearly
    obtain ⟨ht', -⟩ | ⟨-, ht', -⟩ := hthread <;> rw [ht'] at hearly
    · exact h.updates_early ht hearly
    · rcases hearly with hearly | hearly <;> cases hearly
  case identified =>
    intro hlate
    obtain ⟨ht', -⟩ | ⟨hc, -⟩ := hthread
    · rw [ht'] at hlate
      exact h.identified hlate
    · exact h.identified (.inl hc)
  case late =>
    intro hlate
    obtain ⟨ht', -⟩ | ⟨-, -, -, hdone⟩ := hthread
    · rw [ht'] at hlate
      exact mem_updates ht (h.late hlate)
    · exact hdone
  case returned =>
    intro hr
    obtain ⟨-, hr', -⟩ | ⟨-, -, hdone⟩ := howner
    · exact mem_updates ht (h.returned (hr'.symm.trans hr))
    · exact hdone

theorem Kept.finish (h : s.Kept) (ht : s.thread = .running) : Kept { s with thread := .ended } where
  group := h.group
  ownerCall := h.ownerCall
  threadCall := by
    have hcall := h.threadCall
    rwa [ht] at hcall
  fresh hf := by cases ht.symm.trans (h.fresh hf)
  creating hf := by cases ht.symm.trans (h.creating hf).2
  created _ hf := by cases hf
  early hf := by rcases hf with hf | hf <;> cases hf
  identified _ := h.identified (.inr (.inl ht))
  late _ := h.late (.inl ht)
  returned := h.returned

theorem Kept.setOwner (h : s.Kept) {owner : OwnerPhase} {joined : Bool} (hold : s.owner ≠ .waiting)
    (howner : owner = .outside ∨ owner = .joining) : Kept { s with joined := joined, owner := owner } where
  group := h.group
  ownerCall := by
    have hcall := h.ownerCall
    rw [if_neg hold] at hcall
    rcases howner with rfl | rfl <;> exact hcall
  threadCall := h.threadCall
  fresh := h.fresh
  creating hf := by rcases howner with rfl | rfl <;> cases hf
  created hf := by rcases howner with rfl | rfl <;> cases hf
  early := h.early
  identified := h.identified
  late := h.late
  returned := h.returned

theorem call_eq {t : Party} {call : Option WaitGroup.Call}
    (h : monitor.step s.waitgroup (.call t call) = some waitgroup) :
    waitgroup = s.waitgroup.move t (.locking call) := by
  cases Monitor.transition_of_step h
  rfl

theorem Kept.step (h : s.Kept) {a : Action} (hstep : Steps s a s') : s'.Kept := by
  unfold Steps at hstep
  cases a with
  | start =>
    simp only [Thread.step] at hstep
    split at hstep
    next ho =>
      obtain ⟨_, hcheck, heq⟩ := bind_eq_ok.mp (Option.some.inj hstep)
      exact Except.ok.inj heq ▸ h.start ho (check_eq_ok hcheck)
    next => cases hstep
  | create =>
    simp only [Thread.step] at hstep
    split at hstep
    next ho =>
      obtain ⟨waitgroup, hcall, heq⟩ := Option.bind_eq_some_iff.mp hstep
      rw [call_eq hcall] at heq
      exact Except.ok.inj (Option.some.inj heq) ▸ h.create ho
    next => cases hstep
  | identify tid =>
    simp only [Thread.step] at hstep
    split at hstep
    next ht =>
      obtain ⟨waitgroup, hcall, heq⟩ := Option.bind_eq_some_iff.mp hstep
      rw [call_eq hcall] at heq
      exact Except.ok.inj (Option.some.inj heq) ▸ h.identify ht.1 ht.2
    next => cases hstep
  | group a =>
    cases a with
    | call t call => cases hstep
    | spurious t | step t =>
      obtain ⟨waitgroup, hgroup, heq⟩ := Option.bind_eq_some_iff.mp hstep
      exact Except.ok.inj (Option.some.inj heq) ▸ h.group_step (Monitor.transition_of_step hgroup) trivial
  | finish =>
    simp only [Thread.step] at hstep
    split at hstep
    next ht => exact Except.ok.inj (Option.some.inj hstep) ▸ h.finish ht
    next => cases hstep
  | join =>
    simp only [Thread.step] at hstep
    split at hstep
    next ho =>
      obtain ⟨_, -, hrest⟩ := bind_eq_ok.mp (Option.some.inj hstep)
      obtain ⟨_, -, heq⟩ := bind_eq_ok.mp hrest
      exact Except.ok.inj heq ▸ h.setOwner (by rw [ho]; decide) (.inr rfl)
    next => cases hstep
  | joined =>
    simp only [Thread.step] at hstep
    split at hstep
    next ho => exact Except.ok.inj (Option.some.inj hstep) ▸ h.setOwner (by rw [ho.1]; decide) (.inl rfl)
    next => cases hstep

/-- While `Start` waits, the thread or the wait group can go on. -/
theorem Kept.start_goes_on (h : s.Kept) (hw : s.owner = .waiting) :
    s.thread = .entered ∨ ∃ t waitgroup, monitor.step s.waitgroup (.step t) = some waitgroup := by
  by_contra hnone
  rw [not_or, not_exists] at hnone
  have hstuck : ∀ t, monitor.step s.waitgroup (.step t) = none := fun t ↦
    Option.eq_none_iff_forall_ne_some.mpr fun waitgroup hs ↦ hnone.2 t ⟨waitgroup, hs⟩
  cases ht : s.thread with
  | absent => exact h.created hw ht
  | entered => exact hnone.1 ht
  | counting =>
    have hcall := h.threadCall
    rw [if_pos ht] at hcall
    obtain hout | ⟨hsleep, -⟩ := h.group.stuck hstuck .thread
    · rw [hout] at hcall; cases hcall
    · rw [hsleep] at hcall; cases hcall
  | running | ended =>
    have hdone := h.late (by rw [ht]; decide)
    have hgo := (go_data_iff h.group).mpr (by exact_mod_cast List.count_pos_iff.mpr hdone)
    have hcall := h.ownerCall
    rw [if_pos hw, h.group.outside_of_stuck hgo hstuck .owner] at hcall
    cases hcall

/-- `Start` returns only when the thread has set `tid_`, and `func_` runs only behind that; and `Start`
does not wait for ever: until it returns there is always a step that the thread, or one of the two inside
the wait group, can make. -/
theorem run_start_returns {as : List Action} (hrun : Run Steps new as s) :
    (s.returned = true → 0 < s.tid) ∧ (s.thread = .running ∨ s.thread = .ended → 0 < s.tid) ∧
      (s.owner = .waiting → (∀ tid > 0, ∃ s', Steps s (.identify tid) s') ∨
        ∃ t s', Steps s (.group (.step t)) s') := by
  have h : s.Kept := hrun.invariant (I := Kept) (fun _ _ _ hs hstep ↦ hs.step hstep) new_kept
  refine ⟨fun hr ↦ ?_, fun hrunning ↦ h.identified (.inr hrunning), fun hw ↦ ?_⟩
  · have hdone := h.returned hr
    cases ht : s.thread with
    | absent => rw [h.early (.inl ht)] at hdone; cases hdone
    | entered => rw [h.early (.inr ht)] at hdone; cases hdone
    | counting | running | ended => exact h.identified (by rw [ht]; decide)
  · obtain ht | ⟨t, waitgroup, hstep⟩ := h.start_goes_on hw
    · refine .inl fun tid htid ↦ ?_
      have hout := Point.inCall_eq_none (h.threadCall.trans (if_neg (by rw [ht]; decide)))
      refine ⟨{ s with
        tid := tid, thread := .counting, waitgroup := s.waitgroup.move .thread (.locking (some .done)) }, ?_⟩
      simp only [Steps, Thread.step, Monitor.step, ht, hout, htid, and_self, if_true]
      rfl
    · refine .inr ⟨t, settle { s with waitgroup := waitgroup }, ?_⟩
      simp only [Steps, Thread.step, hstep]
      rfl

def startWaits : List Action :=
  [.start, .create, .group (.step .owner), .group (.step .owner), .identify 7, .group (.step .thread),
    .group (.step .thread), .group (.step .thread), .group (.step .thread), .group (.step .owner),
    .group (.step .owner), .group (.step .owner)]

theorem run_start_returns_startWaits : ∃ s, Run Steps new startWaits s ∧ s.returned = true ∧ 0 < s.tid := by
  obtain ⟨s, hrun, hr⟩ : ∃ s, Run Steps new startWaits s ∧ s.returned = true :=
    ⟨_, .cons rfl (.cons rfl (.cons rfl (.cons rfl (.cons rfl (.cons rfl (.cons rfl (.cons rfl (.cons rfl
      (.cons rfl (.cons rfl (.cons rfl (.nil _)))))))))))), rfl⟩
  exact ⟨s, hrun, hr, (run_start_returns hrun).1 hr⟩

end Thread

end Baize.Threads
