import Baize.Runtime.Bookkeeping

namespace Baize.Runtime

open Baize.Lib

/-- Some routines, `finished_` of each, `tg_current_routine`, and the routine that control is in, none
for the main routine. `LOG_FATAL` ends the process. -/
structure Routines (ι : Type) where
  finished : ι → Bool
  current : Option ι
  control : Option ι
  aborted : Bool

inductive RoutineAction (ι : Type)
  | call (r : ι)
  | ret
  | complete
  deriving DecidableEq, Repr

namespace Routines

variable {ι : Type}

def new (ι : Type) : Routines ι := ⟨fun _ ↦ false, none, none, false⟩

def isMainRoutine (s : Routines ι) : Bool := s.current.isNone

def implCall (s : Routines ι) (r : ι) : Routines ι := if s.finished r then s else { s with control := some r }

def implReturn (s : Routines ι) (r : ι) : Routines ι := if s.finished r then s else { s with control := none }

def call (s : Routines ι) (r : ι) : Routines ι :=
  if !s.isMainRoutine then { s with aborted := true } else { s with current := some r }.implCall r

def ret (s : Routines ι) (r : ι) : Routines ι :=
  if s.isMainRoutine then { s with aborted := true } else { s with current := none }.implReturn r

def complete [DecidableEq ι] (s : Routines ι) (r : ι) : Routines ι :=
  { s with finished := Function.update s.finished r true, current := none, control := none }

def step [DecidableEq ι] (s : Routines ι) (a : RoutineAction ι) : Option (Routines ι) :=
  if s.aborted then none
  else
    match a, s.control with
    | .call r, none => some (s.call r)
    | .ret, some _ =>
      match s.current with
      | some r => some (s.ret r)
      -- a call through a null pointer
      | none => some { s with aborted := true }
    | .complete, some r => some (s.complete r)
    | _, _ => none

def Marked (s : Routines ι) : Prop := s.current = s.control

/-- `Call` is for a routine whose function has not ended. -/
def CallsUnfinished (s : Routines ι) : RoutineAction ι → Prop
  | .call r => s.finished r = false
  | .ret | .complete => True

structure Inv (s : Routines ι) : Prop where
  marked : s.Marked
  running : ∀ r, s.control = some r → s.finished r = false

theorem new_inv : Inv (new ι) := ⟨rfl, fun _ h ↦ by cases h⟩

variable {s : Routines ι}

theorem call_eq (hcur : s.current = none) (r : ι) :
    s.call r = if s.finished r then { s with current := some r }
      else { s with current := some r, control := some r } := by
  rw [call, isMainRoutine, hcur]
  rfl

theorem ret_eq {r k : ι} (hcur : s.current = some k) (hr : s.finished r = false) :
    s.ret r = { s with current := none, control := none } := by
  have hunfinished : { s with current := none }.finished r = false := hr
  rw [ret, isMainRoutine, hcur, Option.isNone_some, if_neg Bool.false_ne_true, implReturn, hunfinished]
  rfl

variable [DecidableEq ι] {s' : Routines ι} {a : RoutineAction ι}

theorem step_cases (h : Inv s) (hstep : s.step a = some s') :
    (∃ r, a = .call r ∧ s.control = none ∧
      s' = if s.finished r then { s with current := some r }
        else { s with current := some r, control := some r }) ∨
    (∃ r, a = .ret ∧ s.control = some r ∧ s' = { s with current := none, control := none }) ∨
    (∃ r, a = .complete ∧ s.control = some r ∧ s' = s.complete r) := by
  unfold step at hstep
  split at hstep
  · cases hstep
  split at hstep
  · next r hcontrol =>
    refine .inl ⟨r, rfl, hcontrol, ?_⟩
    rw [← Option.some.inj hstep, call_eq (h.marked.trans hcontrol)]
  · next r hcontrol =>
    have hcur : s.current = some r := h.marked.trans hcontrol
    rw [hcur] at hstep
    refine .inr (.inl ⟨r, rfl, hcontrol, ?_⟩)
    rw [← Option.some.inj hstep, ret_eq hcur (h.running r hcontrol)]
  · next r hcontrol => exact .inr (.inr ⟨r, rfl, hcontrol, (Option.some.inj hstep).symm⟩)
  · cases hstep

theorem step_inv (h : Inv s) (hpre : s.CallsUnfinished a) (hstep : s.step a = some s') : Inv s' := by
  obtain ⟨r, rfl, -, rfl⟩ | ⟨r, rfl, -, rfl⟩ | ⟨r, rfl, -, rfl⟩ := step_cases h hstep
  · rw [if_neg (Bool.eq_false_iff.mp hpre)]
    refine ⟨rfl, fun k hk ↦ ?_⟩
    obtain rfl := Option.some.inj hk
    exact hpre
  · exact ⟨rfl, fun k hk ↦ by cases hk⟩
  · exact ⟨rfl, fun k hk ↦ by cases hk⟩

/-- `Call` of a finished routine comes back with the marker set. -/
theorem callsUnfinished_of_marked (h : Inv s) (hstep : s.step a = some s') (hmarked : s'.Marked) :
    s.CallsUnfinished a := by
  obtain ⟨r, rfl, hcontrol, rfl⟩ | ⟨r, rfl, -, -⟩ | ⟨r, rfl, -, -⟩ := step_cases h hstep
  · rw [CallsUnfinished, Bool.eq_false_iff]
    intro hfinished
    rw [if_pos hfinished, Marked, hcontrol] at hmarked
    cases hmarked
  · trivial
  · trivial

/-- The runs in which the marker is right in every state that is reached are those that never call a
routine again that has finished. -/
theorem run_marked_iff (as : List (RoutineAction ι)) (s : Routines ι) :
    Run (fun s a s' ↦ s.step a = some s' ∧ s'.Marked) (new ι) as s ↔
      Run (Guarded step CallsUnfinished) (new ι) as s := by
  refine Run.iff_guarded (I := Inv) (fun s a s' h hstep ↦ ?_)
    (fun s a s' h hpre hstep ↦ step_inv h hpre hstep) new_inv
  exact ⟨callsUnfinished_of_marked h hstep, fun hpre ↦ (step_inv h hpre hstep).marked⟩

/-- A routine ends and is called once more, and then another one is called. -/
theorem marked_finished_again :
    ∃ s, Run (fun s a s' ↦ step s a = some s') (new ℕ) [.call 0, .complete, .call 0] s ∧
      (s.control = none ∧ s.current = some 0) ∧ (s.step (.call 1)).map aborted = some true := by
  obtain ⟨s, hrun, hobs⟩ : ∃ s, Run (fun s a s' ↦ step s a = some s') (new ℕ) [.call 0, .complete, .call 0] s ∧
      (s.control, s.current, (s.step (.call 1)).map aborted) = (none, some 0, some true) :=
    exists_run_of_steps _ (by decide)
  simp only [Prod.mk.injEq] at hobs
  exact ⟨s, hrun, ⟨hobs.1, hobs.2.1⟩, hobs.2.2⟩

section Pool

variable {Task : Type}

def ofPool (p : RoutinePool Task) : Routines RoutineId := ⟨fun _ ↦ false, p.current, p.current, false⟩

theorem ofPool_call {p p' : RoutinePool Task} {r : RoutineId} (hcur : p.current = none)
    (hcur' : p'.current = some r) : Run (Guarded step CallsUnfinished) (ofPool p) [.call r] (ofPool p') := by
  refine .cons ⟨rfl, ?_⟩ (.nil _)
  rw [ofPool, ofPool, hcur, hcur']
  rfl

theorem ofPool_ret {p p' : RoutinePool Task} {r : RoutineId} (hcur : p.current = some r)
    (hcur' : p'.current = none) : Run (Guarded step CallsUnfinished) (ofPool p) [.ret] (ofPool p') := by
  refine .cons ⟨trivial, ?_⟩ (.nil _)
  rw [ofPool, ofPool, hcur, hcur']
  rfl

theorem ofPool_startLoop {p : RoutinePool Task} (h : p.Sound) (hcur : p.current = none) (routineName : String) :
    ∃ bs, Run (Guarded step CallsUnfinished) (ofPool p) bs (ofPool (p.startLoop routineName)) := by
  obtain ⟨-, heq⟩ | ⟨func, tasks, id, -, -, heq⟩ := RoutinePool.startLoop_cases h routineName
  · rw [heq]
    exact ⟨[], .nil _⟩
  · rw [heq]
    exact ⟨_, ofPool_call hcur rfl⟩

theorem ofPool_leave {p : RoutinePool Task} (h : p.Sound) {r : RoutineId} (hcur : p.current = some r) :
    ∃ bs, Run (Guarded step CallsUnfinished) (ofPool p) bs (ofPool p.ret) := by
  have hret : Run (Guarded step CallsUnfinished) (ofPool p) [.ret] (ofPool { p with current := none }) :=
    ofPool_ret hcur rfl
  cases hs : p.starting with
  | none =>
    rw [RoutinePool.ret_of_not_starting hs]
    exact ⟨_, hret⟩
  | some routineName =>
    rw [RoutinePool.ret_of_starting hs]
    obtain ⟨bs, hrun⟩ := ofPool_startLoop (h.setCurrent none) rfl routineName
    exact ⟨_, hret.append hrun⟩

/-- A step of a pool is made of calls and returns under which the marker stays right. -/
theorem ofPool_step {p p' : RoutinePool Task} {a : RoutinePool.Action Task} (h : p.Consistent)
    (hstep : p.step a = some p') : ∃ bs, Run (Guarded step CallsUnfinished) (ofPool p) bs (ofPool p') := by
  obtain ⟨func, routineName, -, hcur, rfl⟩ | ⟨r, -, hcur, hr, rfl⟩ | ⟨r, -, hcur, rfl⟩ | ⟨r, -, hcur, rfl⟩ :=
    RoutinePool.step_cases hstep
  · exact ofPool_startLoop (h.toSound.push func) hcur routineName
  · rw [RoutinePool.call_eq hr]
    exact ⟨_, ofPool_call hcur rfl⟩
  · exact ofPool_leave h.toSound hcur
  · exact ofPool_leave (RoutinePool.release_sound h hcur).1 hcur

theorem ofPool_run {counter n : ℕ} {as : List (RoutinePool.Action Task)} {p : RoutinePool Task}
    (hrun : Run (fun p a p' ↦ p.step a = some p') (RoutinePool.new Task counter n) as p) :
    ∃ bs, Run (Guarded step CallsUnfinished) (new RoutineId) bs (ofPool p) := by
  have hinv := hrun.invariant
    (I := fun p ↦ p.Consistent ∧ ∃ bs, Run (Guarded step CallsUnfinished) (new RoutineId) bs (ofPool p))
    (by
      rintro p a p' ⟨h, bs, hbs⟩ hstep
      obtain ⟨cs, hcs⟩ := ofPool_step h hstep
      exact ⟨RoutinePool.step_consistent h hstep, _, hbs.append hcs⟩)
    ⟨RoutinePool.new_consistent counter n, [], .nil _⟩
  exact hinv.2

end Pool

end Routines

end Baize.Runtime
