import Baize.Time.Cascade

namespace Baize.Time.TimeWheel

variable {w w' : TimeWheel}

structure MoveCall where
  wheel : TimeWheel
  level : ℕ
  index : ℕ

def MoveCall.move (c : MoveCall) : Option TimeWheel := c.wheel.moveTimerList c.level c.index

def moveCalls : List ℕ → TimeWheel → List MoveCall
  | [], _ => []
  | j :: js, w =>
    let movedIndex := calcTime w.lastMs 1
    ⟨w, j, movedIndex⟩ ::
      match w.moveTimerList j movedIndex with
      | none => []
      | some w' => if movedIndex ≠ 0 then [] else moveCalls js w'

def tickCalls (w : TimeWheel) : List MoveCall :=
  if calcTime w.next.lastMs 0 = 0 then moveCalls [1, 2, 3] w.next else []

def TickMoves (w : TimeWheel) (j k : ℕ) : Prop := ∃ c ∈ w.tickCalls, c.level = j ∧ c.index = k

/-- What every call keeps holds in front of each of them, and behind the last one. -/
theorem moveCalls_invariant {P : TimeWheel → Prop} {js : List ℕ} (h : P w)
    (hstep : ∀ c ∈ moveCalls js w, P c.wheel → ∀ v, c.move = some v → P v) :
    (∀ c ∈ moveCalls js w, P c.wheel) ∧ ∀ w', moveLevels js w = some w' → P w' := by
  induction js generalizing w with
  | nil =>
    refine ⟨List.forall_mem_nil _, fun w' hw' ↦ ?_⟩
    obtain rfl := Option.some.inj hw'
    exact h
  | cons j js ih =>
    simp only [moveCalls, moveLevels] at hstep ⊢
    cases hmove : w.moveTimerList j (calcTime w.lastMs 1) with
    | none =>
      simp only [List.mem_singleton, forall_eq]
      exact ⟨h, fun w' hw' ↦ by cases hw'⟩
    | some w₁ =>
      simp only [hmove, List.forall_mem_cons] at hstep ⊢
      have h₁ : P w₁ := hstep.1 h w₁ hmove
      split
      · refine ⟨⟨h, List.forall_mem_nil _⟩, fun w' hw' ↦ ?_⟩
        obtain rfl := Option.some.inj hw'
        exact h₁
      · next hzero =>
        rw [if_neg hzero] at hstep
        obtain ⟨hcalls, hend⟩ := ih h₁ hstep.2
        exact ⟨⟨h, hcalls⟩, hend⟩

theorem moveLevels_isSome_iff {js : List ℕ} :
    (moveLevels js w).isSome ↔ ∀ c ∈ moveCalls js w, c.move.isSome := by
  induction js generalizing w with
  | nil => exact iff_of_true rfl nofun
  | cons j js ih =>
    simp only [moveCalls, moveLevels, List.forall_mem_cons, MoveCall.move]
    cases hmove : w.moveTimerList j (calcTime w.lastMs 1) with
    | none => simp only [Option.isSome_none, Bool.false_eq_true, false_and]
    | some w₁ =>
      dsimp only
      split
      · simp only [Option.isSome_some, List.not_mem_nil, false_implies, implies_true, and_self]
      · rw [ih]
        simp only [Option.isSome_some, true_and, MoveCall.move]

theorem tickCalls_invariant {P : TimeWheel → Prop} (h : P w.next)
    (hstep : ∀ c ∈ w.tickCalls, P c.wheel → ∀ v, c.move = some v → P v) :
    (∀ c ∈ w.tickCalls, P c.wheel) ∧ ∀ w', w.advance = some w' → P w' := by
  rw [advance_eq]
  unfold tickCalls at hstep ⊢
  split
  · next hzero =>
    rw [if_pos hzero] at hstep
    exact moveCalls_invariant h hstep
  · refine ⟨nofun, fun w' hw' ↦ ?_⟩
    obtain rfl := Option.some.inj hw'
    exact h

theorem advance_isSome_iff : w.advance.isSome ↔ ∀ c ∈ w.tickCalls, c.move.isSome := by
  rw [advance_eq]
  unfold tickCalls
  split
  · exact moveLevels_isSome_iff
  · exact iff_of_true rfl nofun

theorem tickCalls_unique (h : w.Unique) : ∀ c ∈ w.tickCalls, c.wheel.Unique :=
  (tickCalls_invariant (P := Unique) h.next fun _ _ hu _ hmove ↦ (moveTimerList_links hu hmove).toUnique).1

theorem moveLevels_of_append (pre post : List ℕ) (h : (moveLevels (pre ++ post) w).isSome) :
    (moveLevels pre w).isSome := by
  induction pre generalizing w with
  | nil => rfl
  | cons j pre ih =>
    rw [List.cons_append] at h
    simp only [moveLevels] at h ⊢
    cases hmove : w.moveTimerList j (calcTime w.lastMs 1) with
    | none => rw [hmove] at h; cases h
    | some w₁ =>
      simp only [hmove] at h ⊢
      split
      · rfl
      · next hzero =>
        rw [if_neg hzero] at h
        exact ih h

theorem moveTimerList_lastMs {i k : ℕ} (h : w.moveTimerList i k = some w') : w'.lastMs = w.lastMs := by
  obtain ⟨-, rfl⟩ | ⟨t, ts, i', k', -, -, rfl⟩ := moveTimerList_cases h <;> rfl

theorem calcTime_eq_iff_mod {t j k : ℕ} (hk : k < 256) :
    256 ^ j ∣ t ∧ k = calcTime t j ↔ t % 256 ^ (j + 1) = k * 256 ^ j := by
  rw [calcTime_eq, Nat.pow_succ, Nat.mod_mul]
  have hpos : 0 < 256 ^ j := by positivity
  constructor
  · rintro ⟨hdvd, rfl⟩
    rw [Nat.mod_eq_zero_of_dvd hdvd, Nat.zero_add, Nat.mul_comm]
  · intro h
    have hdiv := congrArg (· / 256 ^ j) h
    have hmod := congrArg (· % 256 ^ j) h
    simp only [Nat.add_mul_mod_self_left, Nat.mod_mod, Nat.mul_mod_left] at hmod
    simp only [hmod, Nat.zero_add, Nat.mul_div_cancel_left _ hpos, Nat.mul_div_cancel _ hpos] at hdiv
    exact ⟨Nat.dvd_of_mod_eq_zero hmod, hdiv.symm⟩

theorem calcTime_zero_eq_zero_iff {t : ℕ} : calcTime t 0 = 0 ↔ 256 ∣ t := by
  rw [calcTime_eq]
  omega

theorem mem_tickCalls {c : MoveCall} :
    c ∈ w.tickCalls ↔ 256 ∣ w.next.lastMs ∧ c ∈ moveCalls [1, 2, 3] w.next := by
  rw [tickCalls, ← calcTime_zero_eq_zero_iff]
  split
  · next hzero => exact ⟨fun hc ↦ ⟨hzero, hc⟩, And.right⟩
  · next hne => exact iff_of_false List.not_mem_nil fun hc ↦ hne hc.1

theorem dvd_sq_iff {t : ℕ} : 256 ^ 2 ∣ t ↔ 256 ∣ t ∧ calcTime t 1 = 0 := by
  rw [calcTime_eq]
  omega

theorem moveCalls_slot {js : List ℕ} {c : MoveCall} (hc : c ∈ moveCalls js w) :
    c.level ∈ js ∧ c.index = calcTime w.lastMs 1 := by
  induction js generalizing w with
  | nil => cases hc
  | cons j js ih =>
    simp only [moveCalls] at hc
    obtain rfl | hc := List.mem_cons.mp hc
    · exact ⟨List.mem_cons_self, rfl⟩
    · cases hmove : w.moveTimerList j (calcTime w.lastMs 1) with
      | none => rw [hmove] at hc; cases hc
      | some w₁ =>
        simp only [hmove] at hc
        split at hc
        · cases hc
        · obtain ⟨hlevel, hindex⟩ := ih hc
          exact ⟨List.mem_cons_of_mem j hlevel, by rw [hindex, moveTimerList_lastMs hmove]⟩

theorem moveCalls_first {j : ℕ} {js : List ℕ} {c : MoveCall} (hc : c ∈ moveCalls (j :: js) w)
    (hj : j ∉ js) (hlevel : c.level = j) : c.wheel = w := by
  simp only [moveCalls] at hc
  obtain rfl | hc := List.mem_cons.mp hc
  · rfl
  · split at hc
    · cases hc
    · split at hc
      · cases hc
      · exact absurd (hlevel ▸ (moveCalls_slot hc).1) hj

theorem exists_moveCalls_iff (pre post : List ℕ) {j : ℕ} (hzero : calcTime w.lastMs 1 = 0)
    (hj : j ∉ pre) :
    (∃ c ∈ moveCalls (pre ++ j :: post) w, c.level = j) ↔ (moveLevels pre w).isSome := by
  induction pre generalizing w with
  | nil => exact iff_of_true ⟨_, List.mem_cons_self, rfl⟩ rfl
  | cons i pre ih =>
    obtain ⟨hne, hj⟩ := not_or.mp (mt List.mem_cons.mpr hj)
    simp only [List.cons_append, moveCalls, moveLevels, List.exists_mem_cons_iff]
    have hlevel : ¬i = j := fun h ↦ hne h.symm
    cases hmove : w.moveTimerList i (calcTime w.lastMs 1) with
    | none => simp [hlevel]
    | some w₁ =>
      have hzero₁ : calcTime w₁.lastMs 1 = 0 := by rw [moveTimerList_lastMs hmove, hzero]
      have hstay : ¬calcTime w.lastMs 1 ≠ 0 := not_not.mpr hzero
      simp only [if_neg hstay, hlevel, false_or]
      exact ih hzero₁ hj

theorem tickMoves_one {k : ℕ} :
    w.TickMoves 1 k ↔ 256 ∣ w.next.lastMs ∧ k = calcTime w.next.lastMs 1 := by
  simp only [TickMoves, mem_tickCalls]
  constructor
  · rintro ⟨c, ⟨hdvd, hc⟩, -, hindex⟩
    exact ⟨hdvd, hindex.symm.trans (moveCalls_slot hc).2⟩
  · rintro ⟨hdvd, rfl⟩
    exact ⟨_, ⟨hdvd, List.mem_cons_self⟩, rfl, rfl⟩

/-- On the levels above only the first slot is moved, whenever level 1 begins a revolution. -/
theorem tickMoves_upper (pre post : List ℕ) {j k : ℕ} (hsplit : [1, 2, 3] = pre ++ j :: post)
    (hone : 1 ∈ pre) (hj : j ∉ pre) :
    w.TickMoves j k ↔ 256 ^ 2 ∣ w.next.lastMs ∧ k = 0 ∧ (moveLevels pre w.next).isSome := by
  simp only [TickMoves, mem_tickCalls, dvd_sq_iff]
  by_cases hzero : calcTime w.next.lastMs 1 = 0
  · rw [← exists_moveCalls_iff pre post hzero hj, ← hsplit]
    constructor
    · rintro ⟨c, ⟨hdvd, hc⟩, hlevel, hindex⟩
      exact ⟨⟨hdvd, hzero⟩, by rw [← hindex, (moveCalls_slot hc).2, hzero], c, hc, hlevel⟩
    · rintro ⟨⟨hdvd, -⟩, rfl, c, hc, hlevel⟩
      exact ⟨c, ⟨hdvd, hc⟩, hlevel, by rw [(moveCalls_slot hc).2, hzero]⟩
  · refine iff_of_false ?_ fun h ↦ hzero h.1.2
    rintro ⟨c, ⟨-, hc⟩, rfl, -⟩
    simp only [moveCalls, ne_eq, hzero, not_false_eq_true, if_true] at hc
    obtain rfl | hc := List.mem_cons.mp hc
    · exact hj hone
    · split at hc <;> cases hc

theorem tickMoves_two {k : ℕ} :
    w.TickMoves 2 k ↔ 256 ^ 2 ∣ w.next.lastMs ∧ k = 0 ∧ (moveLevels [1] w.next).isSome :=
  tickMoves_upper [1] [3] rfl List.mem_cons_self (by decide)

theorem tickMoves_three {k : ℕ} :
    w.TickMoves 3 k ↔ 256 ^ 2 ∣ w.next.lastMs ∧ k = 0 ∧ (moveLevels [1, 2] w.next).isSome :=
  tickMoves_upper [1, 2] [] rfl List.mem_cons_self (by decide)

/-- `FindHead` has a place for the timer, so that the assertion of `MoveTimerList` holds. -/
def InReach (w : TimeWheel) (t : TimerId) : Prop :=
  w.lastMs ≤ w.expiration t ∧ w.expiration t < w.lastMs + 2 ^ 32

theorem moveTimerList_isSome_iff {i k : ℕ} :
    (w.moveTimerList i k).isSome ↔ ∀ t ∈ (w.slots i k).head?, w.InReach t := by
  cases hslot : w.slots i k with
  | nil =>
    rw [moveTimerList, hslot]
    exact iff_of_true rfl fun t ht ↦ by cases ht
  | cons t ts =>
    simp only [List.head?_cons, Option.mem_some_iff, forall_eq', InReach, ← findHead_isSome_iff]
    cases hfind : w.findHead t with
    | none =>
      have hfind' : (w.setSlot i k []).findHead t = none := hfind
      rw [moveTimerList, hslot]
      simp only [hfind', Option.isSome_none]
    | some ik =>
      rw [moveTimerList_cons hslot hfind]
      rfl

theorem head_moved {i k i' k' a b : ℕ} (hab : ¬(a = i ∧ b = k)) : ((w.moved i k i' k').slots a b).head? =
    (w.slots a b).head?.or (if a = i' ∧ b = k' then (w.slots i k).head? else none) := by
  by_cases hto : a = i' ∧ b = k'
  · obtain ⟨rfl, rfl⟩ := hto
    simp only [moved, setSlot, and_self, if_true, if_neg hab, List.head?_append]
  · simp only [moved, setSlot, if_neg hto, if_neg hab, Option.or_none]

theorem moveLevels_two_isSome_iff (hzero : calcTime w.lastMs 1 = 0) :
    (moveLevels [1, 2] w).isSome ↔ ∀ j ∈ [1, 2], ∀ t ∈ (w.slots j 0).head?, w.InReach t := by
  rw [List.forall_mem_cons, List.forall_mem_singleton, ← moveTimerList_isSome_iff]
  simp only [moveLevels, hzero]
  cases hmove : w.moveTimerList 1 0 with
  | none => exact iff_of_false Bool.false_ne_true fun h ↦ Bool.false_ne_true h.1
  | some w₁ =>
    have hzero₁ : calcTime w₁.lastMs 1 = 0 := by rw [moveTimerList_lastMs hmove, hzero]
    have hsecond : (∀ t ∈ (w₁.slots 2 0).head?, w₁.InReach t) ↔ ∀ t ∈ (w.slots 2 0).head?, w.InReach t := by
      obtain ⟨-, rfl⟩ | ⟨t, ts, i', k', hslot, -, rfl⟩ := moveTimerList_cases hmove
      · rfl
      · have ht : w.InReach t := by
          have hfirst := moveTimerList_isSome_iff.mp (Option.isSome_of_eq_some hmove)
          exact hfirst t (by rw [hslot]; rfl)
        rw [head_moved (by decide), hslot]
        cases (w.slots 2 0).head? with
        | some x => rfl
        | none =>
          refine iff_of_true (fun x hx ↦ ?_) fun x hx ↦ by cases hx
          rw [Option.none_or] at hx
          split_ifs at hx
          · obtain rfl := Option.mem_some.mp hx
            exact ht
          · cases hx
    rw [← hsecond, ← moveTimerList_isSome_iff]
    simp only [ne_eq, not_true_eq_false, if_false, hzero₁, Option.isSome_some, true_and]
    cases w₁.moveTimerList 2 0 with
    | none => rfl
    | some w₂ => rfl

/-- The slots that the tick to `t` has to move: on each level the one whose range begins at `t`. -/
def OnSchedule (w : TimeWheel) : Prop :=
  ∀ j ∈ [1, 2, 3], ∀ k,
    w.TickMoves j k ↔ 256 ^ j ∣ w.next.lastMs ∧ k = calcTime w.next.lastMs j

/-- `TurnWheel` takes the index of level 1 on every level. So a tick moves the right slots when
level 1 does not begin a revolution, or all wheels do and `FindHead` has a place for the first timers
of the two slots below; on level 1 they are always right, each slot once in a revolution. -/
theorem onSchedule_iff (w : TimeWheel) :
    (w.OnSchedule ↔ ¬256 ^ 2 ∣ w.lastMs + 1 ∨
      256 ^ 4 ∣ w.lastMs + 1 ∧ ∀ j ∈ [1, 2], ∀ t ∈ (w.slots j 0).head?, w.next.InReach t) ∧
    ∀ k < 256, w.TickMoves 1 k ↔ (w.lastMs + 1) % 256 ^ 2 = k * 256 := by
  have hlast : w.next.lastMs = w.lastMs + 1 := rfl
  refine ⟨?_, fun k hk ↦ ?_⟩
  · constructor
    · intro h
      refine or_iff_not_imp_left.mpr fun hnot ↦ ?_
      have hsq : 256 ^ 2 ∣ w.next.lastMs := not_not.mp hnot
      obtain ⟨-, hindex₂, -⟩ := tickMoves_two.mp ((h 2 (by decide) _).mpr ⟨hsq, rfl⟩)
      have hcube : 256 ^ 3 ∣ w.next.lastMs := by
        rw [calcTime_eq] at hindex₂
        omega
      obtain ⟨-, hindex₃, hmoves⟩ := tickMoves_three.mp ((h 3 (by decide) _).mpr ⟨hcube, rfl⟩)
      have hzero : calcTime w.next.lastMs 1 = 0 := (dvd_sq_iff.mp hsq).2
      rw [moveLevels_two_isSome_iff hzero] at hmoves
      rw [calcTime_eq] at hindex₃
      exact ⟨by omega, hmoves⟩
    · intro h j hj k
      have hmoves : ¬256 ^ 2 ∣ w.next.lastMs ∨ 256 ^ 4 ∣ w.next.lastMs ∧ (moveLevels [1, 2] w.next).isSome := by
        refine h.imp_right fun hall ↦ ⟨hall.1, (moveLevels_two_isSome_iff ?_).mpr hall.2⟩
        exact (dvd_sq_iff.mp ((Nat.pow_dvd_pow 256 (by decide)).trans hall.1)).2
      obtain rfl | rfl | rfl : j = 1 ∨ j = 2 ∨ j = 3 := by simpa using hj
      · rw [tickMoves_one, pow_one]
      · rw [tickMoves_two, calcTime_eq]
        obtain hnot | ⟨hall, hmoves⟩ := hmoves
        · exact iff_of_false (fun hm ↦ hnot hm.1) fun hm ↦ hnot hm.1
        · have hbelow : (moveLevels [1] w.next).isSome := moveLevels_of_append [1] [2] hmoves
          simp only [hbelow, and_true]
          omega
      · rw [tickMoves_three, calcTime_eq]
        obtain hnot | ⟨hall, hmoves⟩ := hmoves
        · exact iff_of_false (fun hm ↦ hnot hm.1) fun hm ↦ hnot ((Nat.pow_dvd_pow 256 (by decide)).trans hm.1)
        · simp only [hmoves, and_true]
          omega
  · rw [tickMoves_one]
    exact (calcTime_eq_iff_mod (j := 1) hk).trans (by rw [hlast, pow_one])

/-- At the first revolution of level 1 the range of `time_wheel_[2][1]` begins, but the tick moves
`time_wheel_[2][0]` and `time_wheel_[3][0]`. -/
theorem firstRevolution_offSchedule :
    ((empty 65535).tickCalls.map fun c ↦ (c.level, c.index)) = [(1, 0), (2, 0), (3, 0)] ∧
      calcTime 65536 2 = 1 ∧ ¬(empty 65535).OnSchedule := by
  have hcalls : ((empty 65535).tickCalls.map fun c ↦ (c.level, c.index)) = [(1, 0), (2, 0), (3, 0)] := by
    decide +kernel
  refine ⟨hcalls, by decide, fun h ↦ ?_⟩
  obtain ⟨c, hc, hlevel, hindex⟩ := (h 2 (by decide) 1).mpr ⟨by decide, by decide⟩
  have hmem := List.mem_map_of_mem (f := fun c : MoveCall ↦ (c.level, c.index)) hc
  rw [hcalls] at hmem
  simp [hlevel, hindex] at hmem

end Baize.Time.TimeWheel
