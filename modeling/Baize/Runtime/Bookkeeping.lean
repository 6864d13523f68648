import Baize.Runtime.RoutinePool

namespace Baize.Runtime.RoutinePool

open Baize.Lib

variable {Task : Type}

/-- Every routine is in one list, under its own id, as its stack says. -/
structure Sound (p : RoutinePool Task) : Prop where
  fault : p.fault = none
  free : ∀ id ptr, p.freeList.find id = some ptr → ptr = some id ∧ p.func id = none
  active : ∀ id, p.activeList.find id = if (p.func id).isSome then some (some id) else none

/-- What holds between two steps: the running routine is at its task, and `Start` is on the
stack of the main routine only while it waits for a routine. -/
structure Consistent (p : RoutinePool Task) : Prop extends Sound p where
  current : ∀ r, p.current = some r → (p.func r).isSome
  starting : p.starting.isSome → p.current.isSome

theorem Sound.active_eq_none {p : RoutinePool Task} (h : p.Sound) {id : RoutineId} {ptr : Option RoutineId}
    (hfind : p.freeList.find id = some ptr) : p.activeList.find id = none := by
  rw [h.active, (h.free id ptr hfind).2]
  rfl

theorem Sound.free_eq_none {p : RoutinePool Task} (h : p.Sound) {id : RoutineId} (hfunc : (p.func id).isSome) :
    p.freeList.find id = none := by
  by_contra hne
  obtain ⟨ptr, hptr⟩ := Option.ne_none_iff_exists'.mp hne
  rw [(h.free id ptr hptr).2] at hfunc
  cases hfunc

theorem find_foldl_emplace (counter n id : ℕ) :
    ((List.range n).foldl (fun m i ↦ m.emplace (counter + i) (some (counter + i)))
      (SortedMap.empty : SortedMap RoutineId (Option RoutineId))).find id =
      if counter ≤ id ∧ id < counter + n then some (some id) else none := by
  induction n generalizing id with
  | zero =>
    have hnot : ¬(counter ≤ id ∧ id < counter + 0) := by omega
    rw [if_neg hnot]
    rfl
  | succ n ih =>
    have hnew : ¬(counter ≤ counter + n ∧ counter + n < counter + n) := by omega
    rw [List.range_succ, List.foldl_append, List.foldl_cons, List.foldl_nil,
      SortedMap.find_emplace ((ih _).trans (if_neg hnew)), ih]
    grind

theorem find_new (counter n : ℕ) (id : RoutineId) :
    (new Task counter n).freeList.find id =
      if counter ≤ id ∧ id < counter + n then some (some id) else none :=
  find_foldl_emplace counter n id

theorem new_consistent (counter n : ℕ) : (new Task counter n).Consistent where
  fault := rfl
  free id ptr h := by
    rw [find_new] at h
    split_ifs at h
    exact ⟨(Option.some.inj h).symm, rfl⟩
  active _ := rfl
  current _ h := nomatch h
  starting h := nomatch h

def assign (p : RoutinePool Task) (id : RoutineId) (routineName : String) (func : Task)
    (tasks : List Task) : RoutinePool Task :=
  { p with
    freeList := p.freeList.erase id
    activeList := p.activeList.emplace id (some id)
    tasks := tasks
    name := Function.update p.name id routineName
    func := Function.update p.func id (some func)
    current := some id
    starting := some routineName }

theorem startLoop_cases {p : RoutinePool Task} (h : p.Sound) (routineName : String) :
    ((p.tasks = [] ∨ p.freeList.entries = []) ∧ p.startLoop routineName = { p with starting := none }) ∨
    ∃ func tasks id, p.tasks = func :: tasks ∧ p.freeList.find id = some (some id) ∧
      p.startLoop routineName = p.assign id routineName func tasks := by
  cases htasks : p.tasks with
  | nil => exact .inl ⟨.inl rfl, by rw [startLoop, htasks]⟩
  | cons func tasks =>
    cases hfree : p.freeList.entries with
    | nil => exact .inl ⟨.inr rfl, by rw [startLoop, htasks, hfree]⟩
    | cons e es =>
      obtain ⟨id, ptr⟩ := e
      have hfind : p.freeList.find id = some ptr := SortedMap.find_head hfree
      obtain ⟨rfl, hfunc⟩ := h.free id ptr hfind
      refine .inr ⟨func, tasks, id, rfl, hfind, ?_⟩
      have hactive : p.activeList.find id = none := h.active_eq_none hfind
      simp only [startLoop, htasks, hfree, call, hfunc, routineProcess, hfind, hactive, assign,
        Option.isNone_some, Option.isSome_none, Bool.false_eq_true, if_false, Option.getD_some]

theorem assign_consistent {p : RoutinePool Task} (h : p.Sound) {id : RoutineId} {ptr : Option RoutineId}
    (hfind : p.freeList.find id = some ptr) (routineName : String) (func : Task) (tasks : List Task) :
    (p.assign id routineName func tasks).Consistent where
  fault := h.fault
  free k ptr' hk := by
    simp only [assign, SortedMap.find_erase] at hk
    split_ifs at hk with hne
    obtain ⟨rfl, hfunc⟩ := h.free k ptr' hk
    exact ⟨rfl, by simp only [assign, Function.update_of_ne hne, hfunc]⟩
  active k := by
    simp only [assign, SortedMap.find_emplace (h.active_eq_none hfind), Function.update_apply]
    by_cases hk : k = id
    · rw [if_pos hk, if_pos hk, hk]
      rfl
    · rw [if_neg hk, if_neg hk, h.active]
  current r hr := by
    obtain rfl := Option.some.inj hr
    simp only [assign, Function.update_self, Option.isSome_some]
  starting _ := rfl

theorem release_sound {p : RoutinePool Task} (h : p.Consistent) {r : RoutineId} (hr : p.current = some r) :
    (p.release r).Sound ∧ (p.release r).freeList.find r = some (some r) := by
  have hfunc := h.current r hr
  have hfree : p.freeList.find r = none := h.free_eq_none hfunc
  have hptr : (p.activeList.find r).getD none = some r := by rw [h.active, if_pos hfunc, Option.getD_some]
  have hfind (k : RoutineId) : (p.release r).freeList.find k =
      if k = r then some (some r) else p.freeList.find k := by
    simp only [release, hptr, SortedMap.find_emplace hfree]
  refine ⟨⟨h.fault, fun k ptr hk ↦ ?_, fun k ↦ ?_⟩, (hfind r).trans (if_pos rfl)⟩
  · rw [hfind] at hk
    by_cases hkr : k = r
    · rw [if_pos hkr] at hk
      simp only [release, hkr, Function.update_self, (Option.some.inj hk).symm, and_self]
    · rw [if_neg hkr] at hk
      simp only [release, Function.update_of_ne hkr, h.free k ptr hk, and_self]
  · by_cases hkr : k = r
    · simp [release, SortedMap.find_erase, hkr]
    · simp only [release, SortedMap.find_erase, if_neg hkr, Function.update_of_ne hkr, h.active]

theorem call_eq {p : RoutinePool Task} {r : RoutineId} (h : (p.func r).isSome) :
    p.call r = { p with current := some r } := by
  obtain ⟨func, hfunc⟩ := Option.isSome_iff_exists.mp h
  rw [call, hfunc]

theorem call_cases {p : RoutinePool Task} (h : p.Sound) {r : RoutineId} (hok : (p.call r).fault = none) :
    (p.func r).isSome ∧ p.call r = { p with current := some r } ∨
    ∃ func tasks, p.tasks = func :: tasks ∧ p.freeList.find r = some (some r) ∧
      p.call r = { p.assign r (p.name r) func tasks with starting := p.starting } := by
  cases hfunc : p.func r with
  | some func => exact .inl ⟨rfl, by rw [call, hfunc]⟩
  | none =>
    cases hfree : p.freeList.find r with
    | none => simp [call, hfunc, routineProcess, hfree] at hok
    | some ptr =>
      obtain ⟨rfl, -⟩ := h.free r ptr hfree
      have hactive := h.active_eq_none hfree
      cases htasks : p.tasks with
      | nil => simp [call, hfunc, routineProcess, hfree, hactive, htasks] at hok
      | cons func tasks =>
        refine .inr ⟨func, tasks, rfl, rfl, ?_⟩
        simp only [call, hfunc, routineProcess, hfree, hactive, htasks, assign, Option.isNone_some,
          Option.isSome_none, Bool.false_eq_true, if_false, Option.getD_some, Function.update_eq_self]

theorem call_faulted {p : RoutinePool Task} (h : p.Sound) {r : RoutineId} (hbad : (p.call r).fault ≠ none) :
    (p.call r).current = some r ∧ (p.call r).func = p.func ∧ p.func r = none := by
  cases hfunc : p.func r with
  | some func =>
    rw [call, hfunc] at hbad
    exact absurd h.fault hbad
  | none =>
    simp only [call, hfunc, routineProcess] at hbad ⊢
    split_ifs at hbad ⊢
    · exact ⟨rfl, rfl, trivial⟩
    · exact ⟨rfl, rfl, trivial⟩
    · split at hbad
      · exact ⟨rfl, rfl, trivial⟩
      · exact absurd h.fault hbad

theorem call_consistent {p : RoutinePool Task} (h : p.Consistent) {r : RoutineId}
    (hok : (p.call r).fault = none) : (p.call r).Consistent := by
  obtain ⟨hr, heq⟩ | ⟨func, tasks, -, hfind, heq⟩ := call_cases h.toSound hok
  · rw [heq]
    refine ⟨⟨h.fault, h.free, h.active⟩, fun k hk ↦ ?_, fun _ ↦ rfl⟩
    obtain rfl := Option.some.inj hk
    exact hr
  · obtain ⟨⟨hfault, hfree, hactive⟩, hcur, -⟩ := assign_consistent h.toSound hfind (p.name r) func tasks
    rw [heq]
    exact ⟨⟨hfault, hfree, hactive⟩, hcur, fun _ ↦ rfl⟩

theorem startLoop_consistent {p : RoutinePool Task} (h : p.Sound) (hcur : p.current = none)
    (routineName : String) : (p.startLoop routineName).Consistent := by
  obtain ⟨-, heq⟩ | ⟨func, tasks, id, -, hfind, heq⟩ := startLoop_cases h routineName
  · rw [heq]
    exact ⟨⟨h.fault, h.free, h.active⟩, fun r hr ↦ (Option.some_ne_none r (hr.symm.trans hcur)).elim, nofun⟩
  · rw [heq]
    exact assign_consistent h hfind routineName func tasks

theorem Sound.push {p : RoutinePool Task} (h : p.Sound) (func : Task) :
    Sound { p with tasks := p.tasks ++ [func] } :=
  ⟨h.fault, h.free, h.active⟩

theorem start_consistent {p : RoutinePool Task} (h : p.Sound) (hcur : p.current = none) (func : Task)
    (routineName : String) : (p.start func routineName).Consistent :=
  startLoop_consistent (h.push func) hcur routineName

theorem Sound.setCurrent {p : RoutinePool Task} (h : p.Sound) (c : Option RoutineId) :
    Sound { p with current := c } :=
  ⟨h.fault, h.free, h.active⟩

theorem ret_consistent {p : RoutinePool Task} (h : p.Sound) : p.ret.Consistent := by
  rw [ret]
  split
  · exact startLoop_consistent (h.setCurrent none) rfl _
  · next hs => exact ⟨h.setCurrent none, nofun, fun hsome ↦ by simp [hs] at hsome⟩

theorem ret_of_not_starting {p : RoutinePool Task} (h : p.starting = none) :
    p.ret = { p with current := none } := by
  rw [ret, h]

theorem ret_of_starting {p : RoutinePool Task} {routineName : String} (h : p.starting = some routineName) :
    p.ret = { p with current := none }.startLoop routineName := by
  unfold ret
  split
  · next hs => rw [Option.some.inj (hs.symm.trans h)]
  · next hs => cases hs.symm.trans h

def Suspended (p : RoutinePool Task) (r : RoutineId) : Prop := (p.func r).isSome ∧ p.current ≠ some r

theorem startLoop_suspended {p : RoutinePool Task} (h : p.Sound) (hcur : p.current = none)
    (routineName : String) (r : RoutineId) : (p.startLoop routineName).Suspended r ↔ p.Suspended r := by
  obtain ⟨-, heq⟩ | ⟨func, tasks, id, -, hfind, heq⟩ := startLoop_cases h routineName
  · rw [heq]
    rfl
  · have hfunc := (h.free id _ hfind).2
    rw [heq]
    by_cases hr : r = id
    · simp [Suspended, assign, hr, hfunc]
    · simp [Suspended, assign, Function.update_of_ne hr, hcur, Ne.symm hr]

theorem start_suspended {p : RoutinePool Task} (h : p.Sound) (hcur : p.current = none) (func : Task)
    (routineName : String) (r : RoutineId) : (p.start func routineName).Suspended r ↔ p.Suspended r :=
  startLoop_suspended (h.push func) hcur routineName r

theorem ret_suspended {p : RoutinePool Task} (h : p.Sound) (r : RoutineId) :
    p.ret.Suspended r ↔ (p.func r).isSome := by
  cases hs : p.starting with
  | none =>
    rw [ret_of_not_starting hs]
    exact and_iff_left nofun
  | some routineName =>
    rw [ret_of_starting hs, startLoop_suspended (h.setCurrent none) rfl]
    exact and_iff_left nofun

theorem call_suspended {p : RoutinePool Task} (h : p.Sound) {r : RoutineId} (hok : (p.call r).fault = none)
    (k : RoutineId) : (p.call r).Suspended k ↔ (p.func k).isSome ∧ k ≠ r := by
  obtain ⟨hr, heq⟩ | ⟨func, tasks, -, hfind, heq⟩ := call_cases h hok
  · rw [heq]
    exact and_congr_right fun _ ↦ not_congr ⟨fun hk ↦ (Option.some.inj hk).symm, fun hk ↦ congrArg some hk.symm⟩
  · rw [heq]
    by_cases hk : k = r
    · simp [Suspended, assign, hk]
    · simp [Suspended, assign, hk, Ne.symm hk]

theorem step_cases {p p' : RoutinePool Task} {a : Action Task} (h : p.step a = some p') :
    (∃ func routineName, a = .start func routineName ∧ p.current = none ∧ p' = p.start func routineName) ∨
    (∃ r, a = .resume r ∧ p.current = none ∧ (p.func r).isSome ∧ p' = p.call r) ∨
    (∃ r, a = .suspend ∧ p.current = some r ∧ p' = p.ret) ∨
    (∃ r, a = .finish ∧ p.current = some r ∧ p' = (p.release r).ret) := by
  unfold step at h
  split at h
  · cases h
  · split at h
    · next hc => exact .inl ⟨_, _, rfl, hc, (Option.some.inj h).symm⟩
    · next r hc =>
      split at h
      · next hr => exact .inr (.inl ⟨r, rfl, hc, hr, (Option.some.inj h).symm⟩)
      · cases h
    · next r hc => exact .inr (.inr (.inl ⟨r, rfl, hc, (Option.some.inj h).symm⟩))
    · next r hc => exact .inr (.inr (.inr ⟨r, rfl, hc, (Option.some.inj h).symm⟩))
    · cases h

theorem step_consistent {p p' : RoutinePool Task} {a : Action Task} (h : p.Consistent)
    (hstep : p.step a = some p') : p'.Consistent := by
  obtain ⟨func, routineName, -, hcur, rfl⟩ | ⟨r, -, -, hr, rfl⟩ | ⟨r, -, -, rfl⟩ | ⟨r, -, hcur, rfl⟩ :=
    step_cases hstep
  · exact start_consistent h.toSound hcur func routineName
  · exact call_consistent h (by rw [call_eq hr]; exact h.fault)
  · exact ret_consistent h.toSound
  · exact ret_consistent (release_sound h hcur).1

end Baize.Runtime.RoutinePool
