import Baize.Runtime.Bookkeeping

namespace Baize.Runtime.RoutinePool

open Baize.Lib

variable {Task : Type}

/-- A task with the name that the `Start` call for it was given. -/
structure Submission (Task : Type) where
  func : Task
  routineName : String
  deriving DecidableEq, Repr

def Records : Action (Submission Task) → Prop
  | .start t routineName => t.routineName = routineName
  | .suspend | .resume _ | .finish => True

instance : (a : Action (Submission Task)) → Decidable (Records a)
  | .start t routineName => inferInstanceAs (Decidable (t.routineName = routineName))
  | .suspend | .resume _ | .finish => .isTrue trivial

def OwnNames (p : RoutinePool (Submission Task)) : Prop := ∀ r t, p.func r = some t → p.name r = t.routineName

/-- The pool in front of a turn of the loop in `Start`, with the name that this call was given, when the step
comes to such a turn. -/
def loopTurn (p : RoutinePool Task) : Action Task → Option (RoutinePool Task × String)
  | .start func routineName => some ({ p with tasks := p.tasks ++ [func] }, routineName)
  | .suspend => p.starting.map ({ p with current := none }, ·)
  | .finish => p.current.bind fun r ↦ p.starting.map ({ p.release r with current := none }, ·)
  | .resume _ => none

/-- If a routine is free, the task at the front of `tasks_` was submitted under this name. -/
def FrontIs (q : RoutinePool (Submission Task)) (routineName : String) : Prop :=
  q.freeList.entries ≠ [] → ∀ t ∈ q.tasks.head?, t.routineName = routineName

/-- A turn of the loop in `Start` finds a task of its own name. -/
def StartsOwn (p : RoutinePool (Submission Task)) (a : Action (Submission Task)) : Prop :=
  ∀ q routineName, p.loopTurn a = some (q, routineName) → q.FrontIs routineName

theorem startLoop_ownNames_iff {q : RoutinePool (Submission Task)} (h : q.Sound) (hq : q.OwnNames)
    (routineName : String) : (q.startLoop routineName).OwnNames ↔ q.FrontIs routineName := by
  obtain ⟨hbusy, heq⟩ | ⟨t, tasks, id, htasks, hfind, heq⟩ := startLoop_cases h routineName
  · rw [heq]
    refine ⟨fun _ hfree t ht ↦ ?_, fun _ ↦ hq⟩
    rw [hbusy.resolve_right hfree] at ht
    cases ht
  · rw [heq]
    have hfree := SortedMap.entries_ne_nil_of_find hfind
    constructor
    · intro hown _ t' ht'
      rw [htasks] at ht'
      obtain rfl := Option.some.inj ht'
      have hname := hown id t (Function.update_self ..)
      simp only [assign, Function.update_self] at hname
      exact hname.symm
    · intro hfront r t' hr
      by_cases hrid : r = id
      · subst hrid
        simp only [assign, Function.update_self] at hr ⊢
        obtain rfl := Option.some.inj hr
        exact (hfront hfree t (by rw [htasks]; rfl)).symm
      · simp only [assign, Function.update_of_ne hrid] at hr ⊢
        exact hq r t' hr

theorem OwnNames.release {p : RoutinePool (Submission Task)} (h : p.OwnNames) (r : RoutineId) :
    (p.release r).OwnNames := by
  intro k t hk
  by_cases hkr : k = r
  · subst hkr
    simp only [RoutinePool.release, Function.update_self] at hk
    cases hk
  · simp only [RoutinePool.release, Function.update_of_ne hkr] at hk
    exact h k t hk

theorem step_loopTurn {p p' : RoutinePool (Submission Task)} {a : Action (Submission Task)} (h : p.Consistent)
    (hp : p.OwnNames) (hstep : p.step a = some p') :
    (∃ q routineName, p.loopTurn a = some (q, routineName) ∧ q.Sound ∧ q.OwnNames ∧
      p' = q.startLoop routineName) ∨ p.loopTurn a = none ∧ p'.OwnNames := by
  obtain ⟨func, routineName, rfl, -, rfl⟩ | ⟨r, rfl, -, hr, rfl⟩ | ⟨r, rfl, -, rfl⟩ | ⟨r, rfl, hcur, rfl⟩ :=
    step_cases hstep
  · exact .inl ⟨_, routineName, rfl, h.toSound.push func, hp, rfl⟩
  · rw [call_eq hr]
    exact .inr ⟨rfl, hp⟩
  · cases hs : p.starting with
    | none =>
      rw [ret_of_not_starting hs]
      exact .inr ⟨Option.map_eq_none_iff.mpr hs, hp⟩
    | some routineName =>
      have hturn : p.loopTurn .suspend = some ({ p with current := none }, routineName) :=
        Option.map_eq_some_iff.mpr ⟨_, hs, rfl⟩
      exact .inl ⟨_, routineName, hturn, h.toSound.setCurrent none, hp, ret_of_starting hs⟩
  · have hsound := (release_sound h hcur).1
    cases hs : p.starting with
    | none =>
      have hturn : p.loopTurn .finish = none := by
        rw [loopTurn, hcur, Option.bind_some, hs]
        rfl
      rw [ret_of_not_starting (p := p.release r) hs]
      exact .inr ⟨hturn, hp.release r⟩
    | some routineName =>
      have hturn : p.loopTurn .finish = some ({ p.release r with current := none }, routineName) := by
        rw [loopTurn, hcur, Option.bind_some]
        exact Option.map_eq_some_iff.mpr ⟨_, hs, rfl⟩
      exact .inl ⟨_, routineName, hturn, hsound.setCurrent none, hp.release r,
        ret_of_starting (p := p.release r) hs⟩

theorem step_ownNames_iff {p p' : RoutinePool (Submission Task)} {a : Action (Submission Task)}
    (h : p.Consistent) (hp : p.OwnNames) (hstep : p.step a = some p') : p'.OwnNames ↔ p.StartsOwn a := by
  obtain ⟨q, routineName, hturn, hq, hnames, rfl⟩ | ⟨hturn, hnames⟩ := step_loopTurn h hp hstep
  · rw [startLoop_ownNames_iff hq hnames]
    refine ⟨fun hfront q' routineName' hturn' ↦ ?_, fun hown ↦ hown q routineName hturn⟩
    obtain ⟨rfl, rfl⟩ := Prod.mk.inj (Option.some.inj (hturn.symm.trans hturn'))
    exact hfront
  · refine ⟨fun _ q routineName hturn' ↦ ?_, fun _ ↦ hnames⟩
    cases hturn.symm.trans hturn'

/-- The runs in which every task runs under its own name are those in which a turn of the loop in `Start` that
finds a routine free finds a task of its own name at the front of `tasks_`. -/
theorem run_ownNames_iff (counter n : ℕ) (as : List (Action (Submission Task)))
    (p : RoutinePool (Submission Task)) :
    Run (fun s a s' ↦ s.step a = some s' ∧ Records a ∧ s'.OwnNames) (new (Submission Task) counter n) as p ↔
      Run (Guarded step fun s a ↦ Records a ∧ s.StartsOwn a) (new (Submission Task) counter n) as p := by
  refine Run.iff_guarded (I := fun s ↦ s.Consistent ∧ s.OwnNames) (fun s a s' hI hstep ↦ ?_)
    (fun s a s' hI hpre hstep ↦ ?_) ⟨new_consistent counter n, fun _ _ h ↦ by cases h⟩
  · exact and_congr_right fun _ ↦ step_ownNames_iff hI.1 hI.2 hstep
  · exact ⟨step_consistent hI.1 hstep, (step_ownNames_iff hI.1 hI.2 hstep).mpr hpre.2⟩

def renamed : List (Action (Submission ℕ)) :=
  [.start ⟨0, "first"⟩ "first", .suspend, .start ⟨1, "second"⟩ "second", .resume 1, .finish,
    .start ⟨2, "third"⟩ "third"]

theorem renamed_runs_second :
    ∃ p, Run (Guarded step fun _ a ↦ Records a) (new (Submission ℕ) 1 1) renamed p ∧ p.current = some 1 ∧
      p.func 1 = some ⟨1, "second"⟩ ∧ p.name 1 = "third" := by
  obtain ⟨p, hrun, hobs⟩ : ∃ p, Run (Guarded step fun _ a ↦ Records a) (new (Submission ℕ) 1 1) renamed p ∧
      (p.current, p.func 1, p.name 1) = (some 1, some ⟨1, "second"⟩, "third") :=
    exists_run_of_foldlM _ (by decide)
  simp only [Prod.mk.injEq] at hobs
  exact ⟨p, hrun, hobs⟩

end Baize.Runtime.RoutinePool
