import Baize.Time.Expiry
import Baize.Time.Placement

namespace Baize.Time

open Lib

namespace TimeWheel

variable {S : ℕ → ℕ → Prop} {w w' : TimeWheel} {t : TimerId}

structure FiledOn (S : ℕ → ℕ → Prop) (w : TimeWheel) : Prop extends Unique w where
  filed : ∀ {i k x}, S i k → x ∈ w.slots i k → FiledAt w.lastMs i k (w.expiration x)

theorem empty_filedOn (now : ℕ) (S : ℕ → ℕ → Prop) : (empty now).FiledOn S where
  toUnique := empty_unique now
  filed _ hx := absurd hx List.not_mem_nil

theorem FiledOn.delTimer (h : w.FiledOn S) (t : TimerId) : (w.delTimer t).FiledOn S where
  toUnique := delTimer_unique h.toUnique
  filed hS hx := h.filed hS ((mem_delTimer h.toUnique).mp hx).2

theorem FiledOn.arm (h : w.FiledOn S) (t : TimerId) (us : ℕ) :
    ((w.setUs t us).addTimer t).FiledOn S where
  toUnique := arm_unique h.toUnique t us
  filed {i k x} hS hx := by
    rw [addTimer_lastMs]
    obtain hfiled | ⟨hx, hsame⟩ := mem_arm h.toUnique hx
    · exact hfiled
    · rw [hsame]
      exact h.filed hS hx

def NearOn (S : ℕ → ℕ → Prop) (w : TimeWheel) : Prop :=
  ∀ {i k x}, S i k → x ∈ w.slots i k →
    i < 4 ∧ w.lastMs ≤ w.expiration x ∧ w.expiration x < w.lastMs + 256 ^ (i + 1)

theorem NearOn.findHead (h : w.NearOn S) {i k : ℕ} {x : TimerId} (hS : S i k) (hx : x ∈ w.slots i k) :
    (w.findHead x).isSome := by
  obtain ⟨hi, hle, hlt⟩ := h hS hx
  have : 256 ^ (i + 1) ≤ 256 ^ 4 := Nat.pow_le_pow_right (by decide) (by omega)
  exact findHead_isSome_iff.mpr ⟨hle, by omega⟩

def MoveCall.Keeps (S : ℕ → ℕ → Prop) (c : MoveCall) : Prop :=
  c.wheel.Uniform c.level c.index ∨
    ∀ x ∈ c.wheel.slots c.level c.index, ∀ i k, c.wheel.findHead x = some (i, k) → ¬S i k

theorem MoveCall.Keeps.spec {c : MoveCall} (hc : c.Keeps S) (hS : S c.level c.index)
    (hu : c.wheel.Unique) (hnear : c.wheel.NearOn S) :
    ∃ v, c.move = some v ∧ v.Unique ∧ SameTimers c.wheel v ∧ ∀ {i k x}, S i k → x ∈ v.slots i k →
      x ∈ c.wheel.slots i k ∧ ¬(i = c.level ∧ k = c.index) ∨ FiledAt v.lastMs i k (v.expiration x) := by
  cases hslot : c.wheel.slots c.level c.index with
  | nil =>
    refine ⟨c.wheel, by rw [MoveCall.move, moveTimerList, hslot], hu, .refl _, fun _ hx ↦ .inl ⟨hx, ?_⟩⟩
    rintro ⟨rfl, rfl⟩
    rw [hslot] at hx
    cases hx
  | cons t ts =>
    have ht : t ∈ c.wheel.slots c.level c.index := by rw [hslot]; exact List.mem_cons_self
    obtain ⟨⟨i', k'⟩, hfind⟩ := Option.isSome_iff_exists.mp (hnear.findHead hS ht)
    have hlinks := moved_links hu c.level c.index i' k'
    refine ⟨_, moveTimerList_cons hslot hfind, hlinks.toUnique, ⟨rfl, rfl, hlinks.linked⟩,
      fun {i k x} hS' hx ↦ ?_⟩
    obtain hold | ⟨hx', rfl, rfl⟩ := mem_moved.mp hx
    · exact .inl hold
    · obtain huni | hout := hc
      · exact .inr (findHead_eq_some (w := c.wheel) ((huni x hx' t ht).trans hfind)).1
      · exact absurd hS' (hout t ht i k hfind)

theorem moveLevels_keeps {js : List ℕ} (hu : w.Unique) (hnear : w.NearOn S)
    (hcalls : ∀ c ∈ moveCalls js w, S c.level c.index ∧ c.Keeps S) :
    ∃ w', moveLevels js w = some w' ∧ w'.Unique ∧ SameTimers w w' ∧
      ∀ {i k x}, S i k → w'.Misfiled i k x →
        w.Misfiled i k x ∧ ∀ c ∈ moveCalls js w, ¬(i = c.level ∧ k = c.index) := by
  induction js generalizing w with
  | nil => exact ⟨w, rfl, hu, .refl w, fun _ hx ↦ ⟨hx, List.forall_mem_nil _⟩⟩
  | cons j js ih =>
    simp only [moveCalls, List.forall_mem_cons] at hcalls ⊢
    obtain ⟨⟨hS, hkeeps⟩, hrest⟩ := hcalls
    obtain ⟨w₁, hmove, hu₁, hsame, hmem⟩ := hkeeps.spec hS hu hnear
    have hmove : w.moveTimerList j (calcTime w.lastMs 1) = some w₁ := hmove
    have hnear₁ : w₁.NearOn S := by
      intro i k x hS hx
      obtain ⟨hx, -⟩ | hfiled := hmem hS hx
      · rw [hsame.lastMs, hsame.expiration]
        exact hnear hS hx
      · exact ⟨hfiled.level, hfiled.le, hfiled.bound⟩
    have hmis {i k : ℕ} {x : TimerId} (hS : S i k) (hx : w₁.Misfiled i k x) :
        w.Misfiled i k x ∧ ¬(i = j ∧ k = calcTime w.lastMs 1) := by
      obtain ⟨hold, hne⟩ | hfiled := hmem hS hx.1
      · have hnot := hx.2
        rw [hsame.lastMs, hsame.expiration] at hnot
        exact ⟨⟨hold, hnot⟩, hne⟩
      · exact absurd hfiled hx.2
    rw [moveLevels]
    simp only [hmove] at hrest ⊢
    split
    · exact ⟨w₁, rfl, hu₁, hsame, fun hS hx ↦ ⟨(hmis hS hx).1, (hmis hS hx).2, List.forall_mem_nil _⟩⟩
    · next hzero =>
      rw [if_neg hzero] at hrest
      obtain ⟨w₂, hlevels, hu₂, hsame₂, hmis₂⟩ := ih hu₁ hnear₁ hrest
      refine ⟨w₂, hlevels, hu₂, hsame.trans hsame₂, fun hS hx ↦ ?_⟩
      obtain ⟨hx₁, hnot⟩ := hmis₂ hS hx
      exact ⟨(hmis hS hx₁).1, (hmis hS hx₁).2, hnot⟩

/-- The slots that ticks move when their range begins. -/
def Upper (i k : ℕ) : Prop := i = 1 ∨ (i = 2 ∨ i = 3) ∧ k = 0

theorem tickMoves_of_visit {i k : ℕ} (hupper : Upper i k) (hvisit : Visit i k w.next.lastMs)
    (hadv : w.advance.isSome) : w.TickMoves i k := by
  have hlevels (h : 256 ^ 2 ∣ w.next.lastMs) : (moveLevels [1, 2, 3] w.next).isSome := by
    rwa [advance_eq, if_pos (calcTime_zero_eq_zero_iff.mpr (dvd_sq_iff.mp h).1)] at hadv
  obtain rfl | ⟨rfl | rfl, rfl⟩ := hupper
  · exact tickMoves_one.mpr ⟨by simpa using hvisit.dvd, hvisit.index.symm⟩
  · have hsq : 256 ^ 2 ∣ w.next.lastMs := hvisit.dvd
    exact tickMoves_two.mpr ⟨hsq, rfl, moveLevels_of_append [1] [2, 3] (hlevels hsq)⟩
  · have hsq : 256 ^ 2 ∣ w.next.lastMs := (Nat.pow_dvd_pow 256 (by decide)).trans hvisit.dvd
    exact tickMoves_three.mpr ⟨hsq, rfl, moveLevels_of_append [1, 2] [3] (hlevels hsq)⟩

theorem FiledOn.advance (h : w.FiledOn S) (hS : ∀ {i k}, S i k → 0 < i → Upper i k)
    (hlt : ∀ {i k x}, S i k → x ∈ w.slots i k → w.lastMs < w.expiration x)
    (hcalls : ∀ c ∈ w.tickCalls, S c.level c.index ∧ c.Keeps S) :
    ∃ w', w.advance = some w' ∧ w'.FiledOn S ∧ SameTimers w.next w' := by
  have hnear : w.next.NearOn S := by
    intro i k x hS hx
    have hf := h.filed hS hx
    exact ⟨hf.level, hlt hS hx, hf.bound.trans (Nat.add_lt_add_right (Nat.lt_succ_self _) _)⟩
  obtain ⟨w', hadv, hu', hsame, hmis⟩ : ∃ w', w.advance = some w' ∧ w'.Unique ∧ SameTimers w.next w' ∧
      ∀ {i k x}, S i k → w'.Misfiled i k x → w.next.Misfiled i k x ∧ ¬w.TickMoves i k := by
    rw [advance_eq]
    unfold TickMoves
    unfold tickCalls at hcalls ⊢
    split
    · next hzero =>
      rw [if_pos hzero] at hcalls
      obtain ⟨w', hlevels, hu', hsame, hmis⟩ := moveLevels_keeps h.toUnique.next hnear hcalls
      refine ⟨w', hlevels, hu', hsame, fun hS hx ↦ ⟨(hmis hS hx).1, ?_⟩⟩
      rintro ⟨c, hc, hlevel, hindex⟩
      exact (hmis hS hx).2 c hc ⟨hlevel.symm, hindex.symm⟩
    · exact ⟨w.next, rfl, h.toUnique.next, .refl _, fun _ hx ↦ ⟨hx, fun ⟨c, hc, _⟩ ↦ by cases hc⟩⟩
  refine ⟨w', hadv, ⟨hu', fun {i k x} hSik hx ↦ ?_⟩, hsame⟩
  by_contra hnot
  obtain ⟨⟨hx, hnot⟩, hmoved⟩ := hmis hSik ⟨hx, hnot⟩
  obtain hf | ⟨hpos, hvisit⟩ := (h.filed hSik hx).succ (hlt hSik hx)
  · exact hnot hf
  · exact hmoved (tickMoves_of_visit (hS hSik hpos) hvisit (Option.isSome_of_eq_some hadv))

/-- The slots of the levels 2 and 3 that are moved hold timers of one slot only. -/
def MoveCall.UpperUniform (c : MoveCall) : Prop := 2 ≤ c.level → c.wheel.Uniform c.level c.index

instance (c : MoveCall) : Decidable c.UpperUniform := inferInstanceAs (Decidable (_ → _))

theorem tickCalls_upper {c : MoveCall} (hc : c ∈ w.tickCalls) : Upper c.level c.index := by
  have hmoves : w.TickMoves c.level c.index := ⟨c, hc, rfl, rfl⟩
  have hlevel : c.level ∈ [1, 2, 3] := (moveCalls_slot (mem_tickCalls.mp hc).2).1
  obtain hone | htwo | hthree : c.level = 1 ∨ c.level = 2 ∨ c.level = 3 := by simpa using hlevel
  · exact .inl hone
  · rw [htwo] at hmoves
    exact .inr ⟨.inl htwo, (tickMoves_two.mp hmoves).2.1⟩
  · rw [hthree] at hmoves
    exact .inr ⟨.inr hthree, (tickMoves_three.mp hmoves).2.1⟩

theorem FiledOn.upper_lt (h : w.FiledOn Upper) {i k : ℕ} {x : TimerId} (hupper : Upper i k)
    (hx : x ∈ w.slots i k) : w.lastMs < w.expiration x := by
  obtain hahead | ⟨rfl, -⟩ := (h.filed hupper hx).ahead
  · exact Nat.lt_of_div_lt_div hahead
  · simp [Upper] at hupper

theorem FiledOn.findHead_of_one (h : w.FiledOn Upper) {c : MoveCall} (hc : c ∈ w.tickCalls)
    (hone : c.level = 1) {x : TimerId} (hx : x ∈ c.wheel.slots c.level c.index) {i k : ℕ}
    (hfind : c.wheel.findHead x = some (i, k)) : i = 0 := by
  have hmoves : w.TickMoves 1 c.index := ⟨c, hc, hone, rfl⟩
  obtain ⟨hdvd, hindex⟩ := tickMoves_one.mp hmoves
  have hwheel : c.wheel = w.next := moveCalls_first (mem_tickCalls.mp hc).2 (by decide) hone
  rw [hwheel] at hx hfind
  rw [hone] at hx
  -- the range of the slot begins at this tick, and it is the first one that begins for the timer
  have hf : FiledAt w.lastMs 1 c.index (w.expiration x) := h.filed (.inl rfl) hx
  have hfirst := (hf.firstVisit (h.upper_lt (.inl rfl) hx).ne').first (Nat.lt_succ_self w.lastMs)
    ⟨by rw [pow_one]; exact hdvd, hindex.symm⟩
  have hlast : w.next.lastMs = w.lastMs + 1 := rfl
  have hexp : w.next.expiration x = w.expiration x := rfl
  refine Nat.le_zero.mp ((findHead_eq_some hfind).2 0 ?_)
  rw [hlast, hexp]
  omega

theorem FiledOn.keeps_upper (h : w.FiledOn Upper) {c : MoveCall} (hc : c ∈ w.tickCalls)
    (huni : c.UpperUniform) : c.Keeps Upper := by
  obtain hone | ⟨htwo, -⟩ := tickCalls_upper hc
  · refine .inr fun x hx i k hfind hupper ↦ ?_
    obtain rfl := h.findHead_of_one hc hone hx hfind
    simp [Upper] at hupper
  · exact .inl (huni (by omega))

theorem FiledOn.advance_upper (h : w.FiledOn Upper) (huni : ∀ c ∈ w.tickCalls, c.UpperUniform) :
    ∃ w', w.advance = some w' ∧ w'.FiledOn Upper ∧ SameTimers w.next w' :=
  h.advance (fun hupper _ ↦ hupper) h.upper_lt fun c hc ↦
    ⟨tickCalls_upper hc, h.keeps_upper hc (huni c hc)⟩

end TimeWheel

namespace Machine

variable {S : ℕ → ℕ → Prop} {m m' : Machine} {a : Action}

theorem Transition.filedOn (ht : Transition m a m') (h : m.wheel.FiledOn S)
    (htick : ∀ w, a = .tick → m.wheel.advance = some w → w.FiledOn S) : m'.wheel.FiledOn S := by
  cases ht with
  | add t us => exact h.arm t us
  | del t => exact h.delTimer t
  | tick hadv => exact htick _ rfl hadv
  | fire => exact h.delTimer _
  | again => exact h.arm _ _
  | _ => exact h

theorem Transition.filedOn_upper (ht : Transition m a m') (h : m.wheel.FiledOn TimeWheel.Upper)
    (hcalls : m.Calls TimeWheel.MoveCall.UpperUniform a) (hph : m.phase ≠ .aborted) :
    m'.wheel.FiledOn TimeWheel.Upper ∧ m'.phase ≠ .aborted := by
  have hadvance (ha : a = .tick) := h.advance_upper (hcalls ha)
  refine ⟨ht.filedOn h fun w ha hadv ↦ ?_, ?_⟩
  · obtain ⟨w', hadv', hw', -⟩ := hadvance ha
    obtain rfl := Option.some.inj (hadv.symm.trans hadv')
    exact hw'
  · cases ht with
    | add => exact hph
    | del => exact hph
    | abort hadv =>
      obtain ⟨w', hadv', -⟩ := hadvance rfl
      cases hadv.symm.trans hadv'
    | _ => exact nofun

instance (P : TimeWheel.MoveCall → Prop) [DecidablePred P] (m : Machine) (a : Action) :
    Decidable (m.Calls P a) :=
  inferInstanceAs (Decidable (_ → _))

/-- In every run in which the slots of the levels 2 and 3 that are moved hold timers of one slot only,
the assertion of `MoveTimerList` holds: no timer at the head of a moved slot is overdue. -/
theorem run_not_overdue {start : ℕ} {as : List Action} {m : Machine}
    (hrun : Run (Guarded step (Calls TimeWheel.MoveCall.UpperUniform)) (Machine.empty start) as m) :
    m.phase ≠ .aborted ∧ (m.Calls TimeWheel.MoveCall.UpperUniform .tick →
      ∀ c ∈ m.wheel.tickCalls, ∀ t ts, c.wheel.slots c.level c.index = t :: ts →
        (c.wheel.findHead t).isSome) := by
  have hinv : m.wheel.FiledOn TimeWheel.Upper ∧ m.phase ≠ .aborted :=
    hrun.invariant (I := fun m ↦ m.wheel.FiledOn TimeWheel.Upper ∧ m.phase ≠ .aborted)
      (fun _ _ _ hI hg ↦ (transition_of_step hg.2).filedOn_upper hI.1 hg.1 hI.2)
      ⟨TimeWheel.empty_filedOn start _, nofun⟩
  refine ⟨hinv.2, fun hcalls c hc t ts hslot ↦ ?_⟩
  obtain ⟨w', hadv, -⟩ := hinv.1.advance_upper (hcalls rfl)
  have hmove := TimeWheel.advance_isSome_iff.mp (Option.isSome_of_eq_some hadv) c hc
  obtain ⟨v, hv⟩ := Option.isSome_iff_exists.mp hmove
  obtain ⟨hnil, -⟩ | ⟨t', ts', i, k, hslot', hfind, -⟩ := TimeWheel.moveTimerList_cases hv
  · cases hslot.symm.trans hnil
  · obtain ⟨rfl, -⟩ := List.cons.inj (hslot.symm.trans hslot')
    rw [hfind, Option.isSome_some]

theorem run_not_overdue_oneSlot : ∃ m,
    Run (Guarded step (Calls TimeWheel.MoveCall.UpperUniform)) (Machine.empty 0) oneSlot m ∧
      m.phase ≠ .aborted := by
  obtain ⟨m, hrun, -⟩ : ∃ m,
      Run (Guarded step (Calls TimeWheel.MoveCall.UpperUniform)) (Machine.empty 0) oneSlot m ∧
        m.phase = .draining 0 :=
    exists_run_of_foldlM _ (by decide +kernel)
  exact ⟨m, hrun, (run_not_overdue hrun).1⟩

def idleTicks (n : ℕ) : List Action := (List.replicate n [.tick, .tickDone]).flatten

theorem run_idle {w : TimeWheel} {n : ℕ} (left : ℕ) (hzero : ∀ k, w.slots 0 k = [])
    (hone : ∀ k, w.slots 1 k = [])
    (hindex : ∀ d < n, 256 ∣ w.lastMs + d + 1 → calcTime (w.lastMs + d + 1) 1 ≠ 0) :
    Run (Guarded step Ahead) ⟨w, .turning (n + left)⟩ (idleTicks n)
      ⟨{ w with lastMs := w.lastMs + n }, .turning left⟩ := by
  induction n generalizing w with
  | zero =>
    rw [Nat.zero_add]
    exact .nil _
  | succ n ih =>
    have hadv : w.advance = some w.next := by
      rw [TimeWheel.advance_eq]
      split
      · next hz =>
        have hne := hindex 0 (Nat.succ_pos n) (TimeWheel.calcTime_zero_eq_zero_iff.mp hz)
        have hnil : w.next.slots 1 (calcTime w.next.lastMs 1) = [] := hone _
        have hne' : calcTime w.next.lastMs 1 ≠ 0 := hne
        simp only [TimeWheel.moveLevels, TimeWheel.moveTimerList, hnil, if_pos hne']
      · rfl
    have htick : step ⟨w, .turning (n + 1 + left)⟩ .tick = some ⟨w.next, .draining (n + left)⟩ := by
      rw [Nat.add_right_comm]
      simp only [step, hadv]
    have hdone : step ⟨w.next, .draining (n + left)⟩ .tickDone = some ⟨w.next, .turning (n + left)⟩ :=
      if_pos (hzero _)
    have hrest := ih (w := w.next) hzero hone fun d hd hdvd ↦ by
      have hsucc : w.next.lastMs + d + 1 = w.lastMs + (d + 1) + 1 := by
        simp only [TimeWheel.next]
        omega
      rw [hsucc] at hdvd ⊢
      exact hindex (d + 1) (by omega) hdvd
    have hend : { w.next with lastMs := w.next.lastMs + n } = { w with lastMs := w.lastMs + (n + 1) } := by
      simp only [TimeWheel.next]
      congr 1
      omega
    rw [hend] at hrest
    exact .cons ⟨trivial, htick⟩ (.cons ⟨trivial, hdone⟩ hrest)

/-- Timers with the expirations `2 ^ 24` and `2 ^ 24 + 256` stand in `time_wheel_[2][0]`. At the tick
`2 ^ 24` both go to `time_wheel_[1][1]`, where the second one belongs; then it is deleted. -/
def surfacing : List Action :=
  [.add 0 16777216000, .add 1 16777472000, .turn 16777471] ++ idleTicks 65535 ++
    (idleTicks 256 ++ [.endTurn, .del 1, .turn 16777472, .tick])

theorem surfacing_aborts :
    ∃ m, Run (Guarded step Ahead) (Machine.empty 16711680) surfacing m ∧ m.phase = .aborted := by
  let w := ((((TimeWheel.empty 16711680).setUs 0 16777216000).addTimer 0).setUs 1 16777472000).addTimer 1
  have hadd : Run (Guarded step Ahead) (Machine.empty 16711680)
      [.add 0 16777216000, .add 1 16777472000, .turn 16777471] ⟨w, .turning (65535 + 256)⟩ :=
    .cons ⟨by decide +kernel, rfl⟩ (.cons ⟨by decide +kernel, rfl⟩ (.cons ⟨trivial, rfl⟩ (.nil _)))
  have hidle := run_idle (w := w) (n := 65535) 256 (fun _ ↦ rfl) (fun _ ↦ rfl) fun d hd hdvd ↦ by
    have hlast : w.lastMs = 16711680 := rfl
    rw [hlast] at hdvd ⊢
    rw [calcTime_eq]
    omega
  obtain ⟨m, hrest, hm⟩ : ∃ m, Run (Guarded step Ahead)
      ⟨{ w with lastMs := w.lastMs + 65535 }, .turning 256⟩
      (idleTicks 256 ++ [.endTurn, .del 1, .turn 16777472, .tick]) m ∧ m.phase = .aborted :=
    exists_run_of_foldlM _ (by decide +kernel)
  exact ⟨m, (hadd.append hidle).append hrest, hm⟩

end Machine

end Baize.Time
