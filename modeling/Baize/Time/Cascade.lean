import Baize.Time.Visits

namespace Baize.Time.TimeWheel

variable {w w' : TimeWheel}

def Uniform (w : TimeWheel) (i k : ℕ) : Prop :=
  ∀ a ∈ w.slots i k, ∀ b ∈ w.slots i k, w.findHead a = w.findHead b

instance (i k : ℕ) : Decidable (w.Uniform i k) := inferInstanceAs (Decidable (∀ a ∈ _, _))

structure SameTimers (w w' : TimeWheel) : Prop where
  lastMs : w'.lastMs = w.lastMs
  us : w'.us = w.us
  linked : ∀ x, w'.Linked x ↔ w.Linked x

theorem SameTimers.refl (w : TimeWheel) : SameTimers w w := ⟨rfl, rfl, fun _ ↦ Iff.rfl⟩

theorem SameTimers.trans {w'' : TimeWheel} (h : SameTimers w w') (h' : SameTimers w' w'') :
    SameTimers w w'' :=
  ⟨h'.lastMs.trans h.lastMs, h'.us.trans h.us, fun x ↦ (h'.linked x).trans (h.linked x)⟩

theorem SameTimers.expiration (h : SameTimers w w') (x : TimerId) : w'.expiration x = w.expiration x := by
  rw [TimeWheel.expiration, h.us, TimeWheel.expiration]

theorem SameTimers.findHead (h : SameTimers w w') (x : TimerId) : w'.findHead x = w.findHead x := by
  simp only [TimeWheel.findHead, h.expiration, h.lastMs]

def Near (w : TimeWheel) : Prop :=
  ∀ {i k x}, x ∈ w.slots i k →
    i < 4 ∧ w.lastMs ≤ w.expiration x ∧ w.expiration x < w.lastMs + 256 ^ (i + 1)

theorem Near.findHead (h : w.Near) {i k : ℕ} {x : TimerId} (hx : x ∈ w.slots i k) :
    ∃ i' k', w.findHead x = some (i', k') ∧ FiledAt w.lastMs i' k' (w.expiration x) ∧
      ∀ j, w.expiration x < w.lastMs + 256 ^ (j + 1) → i' ≤ j := by
  obtain ⟨hi, hle, hlt⟩ := h hx
  have : 256 ^ (i + 1) ≤ 256 ^ 4 := Nat.pow_le_pow_right (by decide) (by omega)
  exact findHead_spec hle (by omega)

def Misfiled (w : TimeWheel) (i k : ℕ) (x : TimerId) : Prop :=
  x ∈ w.slots i k ∧ ¬FiledAt w.lastMs i k (w.expiration x)

structure Moves (w w' : TimeWheel) (i k : ℕ) : Prop extends SameTimers w w', Unique w' where
  mem : ∀ {i' k' x}, x ∈ w'.slots i' k' →
    (x ∈ w.slots i' k' ∧ ¬(i' = i ∧ k' = k)) ∨
      (x ∈ w.slots i k ∧ FiledAt w.lastMs i' k' (w.expiration x))
  above : ∀ {j k'}, i < j → w'.slots j k' = w.slots j k'

theorem moveTimerList_spec {i k : ℕ} (hu : w.Unique) (hnear : w.Near) (huni : w.Uniform i k) :
    ∃ w', w.moveTimerList i k = some w' ∧ Moves w w' i k := by
  cases hslot : w.slots i k with
  | nil =>
    refine ⟨w, by rw [moveTimerList, hslot], .refl w, hu, fun {i' k' x} hx ↦ Or.inl ⟨hx, ?_⟩, fun _ ↦ rfl⟩
    rintro ⟨rfl, rfl⟩
    rw [hslot] at hx
    cases hx
  | cons t ts =>
    have ht : t ∈ w.slots i k := by rw [hslot]; exact List.mem_cons_self
    obtain ⟨i', k', hfind, -, hlevel⟩ := hnear.findHead ht
    obtain ⟨-, -, hlt⟩ := hnear ht
    have hlinks := moved_links hu i k i' k'
    refine ⟨w.moved i k i' k', moveTimerList_cons hslot hfind, ⟨rfl, rfl, hlinks.linked⟩,
      hlinks.toUnique, fun hx ↦ ?_, fun hj ↦ ?_⟩
    · obtain h₁ | ⟨h₁, ha, hb⟩ := mem_moved.mp hx
      · exact Or.inl h₁
      · obtain ⟨a, b, hfind', hfiled, -⟩ := hnear.findHead h₁
        rw [huni _ h₁ t ht, hfind, Option.some_inj, Prod.mk.injEq] at hfind'
        rw [← hfind'.1, ← hfind'.2, ← ha, ← hb] at hfiled
        exact Or.inr ⟨h₁, hfiled⟩
    · have hle : i' ≤ i := hlevel i hlt
      simp only [moved, setSlot]
      rw [if_neg (by omega), if_neg (by omega)]

theorem Moves.near {i k : ℕ} (hm : Moves w w' i k) (h : w.Near) : w'.Near := by
  intro i' k' x hx
  rw [hm.lastMs, hm.expiration]
  obtain ⟨hx, -⟩ | ⟨-, hf⟩ := hm.mem hx
  · exact h hx
  · exact ⟨hf.level, hf.le, hf.bound⟩

theorem Moves.misfiled {i k i' k' : ℕ} {x : TimerId} (hm : Moves w w' i k) (h : w'.Misfiled i' k' x) :
    w.Misfiled i' k' x ∧ ¬(i' = i ∧ k' = k) := by
  obtain ⟨hx, hf⟩ := h
  rw [hm.lastMs, hm.expiration] at hf
  obtain ⟨hx, hne⟩ | ⟨-, hf'⟩ := hm.mem hx
  · exact ⟨⟨hx, hf⟩, hne⟩
  · exact absurd hf' hf

def visited (js : List ℕ) (movedIndex : ℕ) : List ℕ := if movedIndex ≠ 0 then js.take 1 else js

theorem moveLevels_spec {js : List ℕ} (hjs : js.Pairwise (· < ·)) (hu : w.Unique) (hnear : w.Near)
    (huni : ∀ j ∈ visited js (calcTime w.lastMs 1), w.Uniform j (calcTime w.lastMs 1)) :
    ∃ w', moveLevels js w = some w' ∧ SameTimers w w' ∧ w'.Unique ∧
      ∀ {i k x}, w'.Misfiled i k x → w.Misfiled i k x ∧
        ∀ j ∈ visited js (calcTime w.lastMs 1), ¬(i = j ∧ k = calcTime w.lastMs 1) := by
  induction js generalizing w with
  | nil =>
    refine ⟨w, rfl, .refl w, hu, fun hx ↦ ⟨hx, fun j hj ↦ ?_⟩⟩
    simp [visited] at hj
  | cons j js ih =>
    have hj : j ∈ visited (j :: js) (calcTime w.lastMs 1) := by
      unfold visited
      split <;> simp
    obtain ⟨w₁, hmove, hm⟩ := moveTimerList_spec hu hnear (huni j hj)
    have hindex : calcTime w₁.lastMs 1 = calcTime w.lastMs 1 := by rw [hm.lastMs]
    rw [moveLevels, hmove]
    by_cases hzero : calcTime w.lastMs 1 = 0
    · have hvisited (js : List ℕ) : visited js (calcTime w.lastMs 1) = js := by
        rw [visited, if_neg (not_not.mpr hzero)]
      obtain ⟨hlt, hjs⟩ := List.pairwise_cons.mp hjs
      have huni₁ : ∀ j' ∈ visited js (calcTime w₁.lastMs 1), w₁.Uniform j' (calcTime w₁.lastMs 1) := by
        rw [hindex, hvisited]
        intro j' hj'
        have := huni j' (by rw [hvisited]; exact List.mem_cons_of_mem j hj')
        unfold Uniform at this ⊢
        simpa only [hm.above (hlt j' hj'), hm.findHead] using this
      obtain ⟨w₂, hrest, hsame, hu₂, hmis⟩ := ih hjs hm.toUnique (hm.near hnear) huni₁
      refine ⟨w₂, ?_, hm.toSameTimers.trans hsame, hu₂, fun hx ↦ ?_⟩
      · simpa [hzero] using hrest
      · obtain ⟨hx₁, hnot⟩ := hmis hx
        obtain ⟨hx₀, hne⟩ := hm.misfiled hx₁
        rw [hindex, hvisited] at hnot
        rw [hvisited]
        exact ⟨hx₀, List.forall_mem_cons.mpr ⟨hne, hnot⟩⟩
    · have hvisited : visited (j :: js) (calcTime w.lastMs 1) = [j] := by
        rw [visited, if_pos hzero, List.take_succ_cons, List.take_zero]
      refine ⟨w₁, by simp [hzero], hm.toSameTimers, hm.toUnique, fun hx ↦ ?_⟩
      rw [hvisited]
      obtain ⟨hx₀, hne⟩ := hm.misfiled hx
      exact ⟨hx₀, List.forall_mem_singleton.mpr hne⟩

def next (w : TimeWheel) : TimeWheel := { w with lastMs := w.lastMs + 1 }

theorem advance_eq (w : TimeWheel) : w.advance =
    if calcTime w.next.lastMs 0 = 0 then moveLevels [1, 2, 3] w.next else some w.next :=
  rfl

theorem Unique.next (h : w.Unique) : w.next.Unique := ⟨h.nodup, h.disjoint⟩

/-- What the next tick needs to file every timer right: the slots it moves are uniform, and
the slots of levels 2 and 3 whose range begins, but which it does not move, are empty. -/
def TickOk (w : TimeWheel) : Prop :=
  calcTime w.next.lastMs 0 = 0 →
    (∀ j ∈ visited [1, 2, 3] (calcTime w.next.lastMs 1), w.next.Uniform j (calcTime w.next.lastMs 1)) ∧
    ∀ j ∈ [2, 3], w.next.lastMs % 256 ^ j = 0 → calcTime w.next.lastMs j ≠ 0 →
      w.next.slots j (calcTime w.next.lastMs j) = []

instance (w : TimeWheel) : Decidable w.TickOk := by
  unfold TickOk
  infer_instance

/-- After the clock has moved, the timers that stand wrong are those whose range on their
level begins now. -/
theorem misfiled_next {i k : ℕ} {x : TimerId} (h : w.Settled) (hlt : w.lastMs < w.expiration x)
    (hm : w.next.Misfiled i k x) :
    0 < i ∧ i < 4 ∧ w.next.lastMs % 256 ^ i = 0 ∧ k = calcTime w.next.lastMs i := by
  obtain ⟨hx, hnot⟩ := hm
  have hf := h.filed hx
  obtain hfiled | ⟨hpos, hvisit⟩ := hf.succ hlt
  · exact absurd hfiled hnot
  · exact ⟨hpos, hf.level, Nat.mod_eq_zero_of_dvd hvisit.dvd, hvisit.index.symm⟩

theorem calcTime_eq_zero_of_mod {ms i j : ℕ} (hij : i < j) (h : ms % 256 ^ j = 0) : calcTime ms i = 0 := by
  obtain ⟨c, rfl⟩ : 256 ^ (i + 1) ∣ ms :=
    (Nat.pow_dvd_pow 256 (show i + 1 ≤ j by omega)).trans (Nat.dvd_of_mod_eq_zero h)
  rw [calcTime_eq, pow_succ, Nat.mul_assoc, Nat.mul_div_cancel_left _ (by positivity), Nat.mul_mod_right]

theorem advance_spec (h : w.Settled) (hlt : ∀ x, w.Linked x → w.lastMs < w.expiration x) (hok : w.TickOk) :
    ∃ w', w.advance = some w' ∧ w'.Settled ∧ SameTimers w.next w' := by
  have hnear : w.next.Near := by
    intro i k x hx
    have hf := h.filed hx
    refine ⟨hf.level, hlt x ⟨i, k, hx⟩, hf.bound.trans ?_⟩
    exact Nat.add_lt_add_right (Nat.lt_succ_self _) _
  have hmisfiled {i k : ℕ} {x : TimerId} (hm : w.next.Misfiled i k x) :=
    misfiled_next h (hlt x ⟨i, k, hm.1⟩) hm
  rw [advance_eq]
  by_cases hzero : calcTime w.next.lastMs 0 = 0
  · obtain ⟨huni, hempty⟩ := hok hzero
    obtain ⟨w', hmove, hsame, hu', hmis⟩ := moveLevels_spec (by decide) h.toUnique.next hnear huni
    refine ⟨w', by rw [if_pos hzero, hmove], ⟨hu', fun {i k x} hx ↦ ?_⟩, hsame⟩
    by_contra hnot
    obtain ⟨hm, hvisited⟩ := hmis ⟨hx, hnot⟩
    obtain ⟨hpos, hlevel, hmod, hk⟩ := hmisfiled hm
    by_cases hone : i = 1
    · refine hvisited 1 ?_ ⟨hone, by rw [hk, hone]⟩
      unfold visited
      split <;> simp
    · -- the range of level 2 or 3 begins, and the index of level 1 is zero
      have hindex : calcTime w.next.lastMs 1 = 0 := calcTime_eq_zero_of_mod (by omega) hmod
      have hi : i ∈ [2, 3] := by simp; omega
      by_cases hki : calcTime w.next.lastMs i = 0
      · refine hvisited i ?_ ⟨rfl, by rw [hk, hki, hindex]⟩
        rw [hindex, visited, if_neg (by decide)]
        exact List.mem_cons_of_mem 1 hi
      · have hx' := hm.1
        rw [hk, hempty i hi hmod hki] at hx'
        cases hx'
  · refine ⟨w.next, by rw [if_neg hzero], ⟨h.toUnique.next, fun {i k x} hx ↦ ?_⟩, .refl _⟩
    by_contra hnot
    obtain ⟨hpos, -, hmod, -⟩ := hmisfiled ⟨hx, hnot⟩
    exact hzero (calcTime_eq_zero_of_mod hpos hmod)

end Baize.Time.TimeWheel
