import Baize.Time.Wheel

namespace Baize.Time

open Lib

namespace TimeWheel

variable {w w' : TimeWheel} {t : TimerId}

structure Unique (w : TimeWheel) : Prop where
  nodup : ∀ i k, (w.slots i k).Nodup
  disjoint : ∀ {x i k i' k'}, x ∈ w.slots i k → x ∈ w.slots i' k' → i' = i ∧ k' = k

theorem empty_unique (now : ℕ) : (empty now).Unique where
  nodup _ _ := List.nodup_nil
  disjoint hx := absurd hx List.not_mem_nil

theorem Unique.setUs (h : w.Unique) (t : TimerId) (us : ℕ) : (w.setUs t us).Unique := ⟨h.nodup, h.disjoint⟩

theorem mem_setSlot {i k i' k' : ℕ} {l : List TimerId} {x : TimerId} :
    x ∈ (w.setSlot i k l).slots i' k' ↔
      (i' = i ∧ k' = k ∧ x ∈ l) ∨ (¬(i' = i ∧ k' = k) ∧ x ∈ w.slots i' k') := by
  simp only [setSlot]
  split <;> simp_all

theorem mem_delTimer (h : w.Unique) {i k : ℕ} {x : TimerId} :
    x ∈ (w.delTimer t).slots i k ↔ x ≠ t ∧ x ∈ w.slots i k :=
  (h.nodup i k).mem_erase_iff

theorem linked_delTimer (h : w.Unique) {x : TimerId} :
    (w.delTimer t).Linked x ↔ x ≠ t ∧ w.Linked x := by
  simp only [Linked, mem_delTimer h, exists_and_left]

theorem delTimer_unique (h : w.Unique) : (w.delTimer t).Unique where
  nodup i k := (h.nodup i k).erase t
  disjoint hx hx' := h.disjoint ((mem_delTimer h).mp hx).2 ((mem_delTimer h).mp hx').2

theorem setSlot_unique (h : w.Unique) {i k : ℕ} {l : List TimerId} (hl : l.Nodup)
    (hnew : ∀ x ∈ l, ∀ i' k', x ∈ w.slots i' k' → i' = i ∧ k' = k) : (w.setSlot i k l).Unique where
  nodup i' k' := by
    simp only [setSlot]
    split_ifs
    · exact hl
    · exact h.nodup i' k'
  disjoint {x i₁ k₁ i₂ k₂} hx hx' := by
    rw [mem_setSlot] at hx hx'
    obtain ⟨rfl, rfl, hx⟩ | ⟨hne, hx⟩ := hx
    · obtain ⟨rfl, rfl, -⟩ | ⟨hne', hx'⟩ := hx'
      · exact ⟨rfl, rfl⟩
      · exact absurd (hnew x hx _ _ hx') hne'
    · obtain ⟨rfl, rfl, hx'⟩ | ⟨-, hx'⟩ := hx'
      · exact absurd (hnew x hx' _ _ hx) hne
      · exact h.disjoint hx hx'

theorem setSlot_nil_unique (h : w.Unique) (i k : ℕ) : (w.setSlot i k []).Unique :=
  setSlot_unique h List.nodup_nil (List.forall_mem_nil _)

theorem linked_of_setSlot_nil {i k : ℕ} (h : (w.setSlot i k []).Linked t) : w.Linked t := by
  obtain ⟨a, b, hmem⟩ := h
  obtain ⟨-, -, hnil⟩ | ⟨-, hmem⟩ := mem_setSlot.mp hmem
  · cases hnil
  · exact ⟨a, b, hmem⟩

theorem not_mem_setSlot_nil (h : w.Unique) {i k : ℕ} (ht : t ∈ w.slots i k) (a b : ℕ) :
    t ∉ (w.setSlot i k []).slots a b := by
  intro hmem
  obtain ⟨-, -, hnil⟩ | ⟨hne, hmem⟩ := mem_setSlot.mp hmem
  · cases hnil
  · exact hne (h.disjoint ht hmem)

theorem addTimer_eq (w : TimeWheel) (t : TimerId) :
    w.addTimer t = match w.findHead t with
      | none => w.delTimer t
      | some (i, k) => (w.delTimer t).setSlot i k (t :: (w.delTimer t).slots i k) :=
  rfl

theorem addTimer_lastMs (w : TimeWheel) (t : TimerId) : (w.addTimer t).lastMs = w.lastMs := by
  rw [addTimer_eq]
  split <;> rfl

theorem addTimer_us (w : TimeWheel) (t : TimerId) : (w.addTimer t).us = w.us := by
  rw [addTimer_eq]
  split <;> rfl

theorem mem_addTimer (h : w.Unique) {i k : ℕ} {x : TimerId} : x ∈ (w.addTimer t).slots i k ↔
    x = t ∧ w.findHead t = some (i, k) ∨ x ≠ t ∧ x ∈ w.slots i k := by
  rw [addTimer_eq]
  cases w.findHead t with
  | none => simp only [mem_delTimer h, reduceCtorEq, and_false, false_or]
  | some ik =>
    obtain ⟨i₀, k₀⟩ := ik
    simp only [mem_setSlot, List.mem_cons, mem_delTimer h, Option.some.injEq, Prod.mk.injEq]
    by_cases hik : i = i₀ ∧ k = k₀
    · obtain ⟨rfl, rfl⟩ := hik
      simp only [true_and, and_true, not_true_eq_false, false_and, or_false]
    · have hik' : ¬(i₀ = i ∧ k₀ = k) := fun heq ↦ hik ⟨heq.1.symm, heq.2.symm⟩
      simp only [hik, hik', and_false, false_or, not_false_eq_true, true_and]
      tauto

theorem addTimer_unique (h : w.Unique) (t : TimerId) : (w.addTimer t).Unique := by
  have hdel := delTimer_unique (t := t) h
  have hnot (i k : ℕ) : t ∉ (w.delTimer t).slots i k := fun ht ↦ ((mem_delTimer h).mp ht).1 rfl
  rw [addTimer_eq]
  split
  · exact hdel
  · next i k _ =>
    refine setSlot_unique hdel (List.nodup_cons.mpr ⟨hnot i k, hdel.nodup i k⟩) fun x hx i' k' hx' ↦ ?_
    rcases List.mem_cons.mp hx with rfl | hx
    · exact absurd hx' (hnot i' k')
    · exact hdel.disjoint hx hx'

theorem arm_unique (h : w.Unique) (t : TimerId) (us : ℕ) : ((w.setUs t us).addTimer t).Unique :=
  addTimer_unique (h.setUs t us) t

theorem arm_expiration (w : TimeWheel) (t : TimerId) (us : ℕ) (x : TimerId) :
    ((w.setUs t us).addTimer t).expiration x = if x = t then us / 1000 else w.expiration x := by
  rw [expiration, addTimer_us]
  simp only [setUs]
  split <;> rfl

structure Links (w : TimeWheel) (P : TimerId → Prop) : Prop extends Unique w where
  linked : ∀ x, w.Linked x ↔ P x

theorem addTimer_links (h : w.Unique) (t : TimerId) :
    (w.addTimer t).Links fun x ↦ x = t ∧ (w.findHead t).isSome ∨ x ≠ t ∧ w.Linked x where
  toUnique := addTimer_unique h t
  linked x := by
    simp only [Linked, mem_addTimer h]
    constructor
    · rintro ⟨i, k, ⟨hx, hfind⟩ | ⟨hne, hx⟩⟩
      · exact .inl ⟨hx, Option.isSome_of_eq_some hfind⟩
      · exact .inr ⟨hne, i, k, hx⟩
    · rintro (⟨hx, hfind⟩ | ⟨hne, i, k, hx⟩)
      · obtain ⟨⟨i, k⟩, hfind⟩ := Option.isSome_iff_exists.mp hfind
        exact ⟨i, k, .inl ⟨hx, hfind⟩⟩
      · exact ⟨i, k, .inr ⟨hne, hx⟩⟩

def moved (w : TimeWheel) (i k i' k' : ℕ) : TimeWheel :=
  (w.setSlot i k []).setSlot i' k' ((w.setSlot i k []).slots i' k' ++ w.slots i k)

theorem mem_moved {i k i' k' a b : ℕ} {x : TimerId} : x ∈ (w.moved i k i' k').slots a b ↔
    x ∈ w.slots a b ∧ ¬(a = i ∧ b = k) ∨ x ∈ w.slots i k ∧ a = i' ∧ b = k' := by
  rw [moved, mem_setSlot, List.mem_append, mem_setSlot, mem_setSlot]
  by_cases hab : a = i' ∧ b = k'
  · obtain ⟨rfl, rfl⟩ := hab
    simp
    tauto
  · simp [hab]
    tauto

theorem moved_unique (h : w.Unique) (i k i' k' : ℕ) : (w.moved i k i' k').Unique := by
  have hclear := setSlot_nil_unique h i k
  refine setSlot_unique hclear ?_ fun x hx a b hx' ↦ ?_
  · exact List.nodup_append.mpr ⟨hclear.nodup i' k', h.nodup i k, fun a ha b hb hab ↦
      not_mem_setSlot_nil h (hab ▸ hb) i' k' ha⟩
  · rcases List.mem_append.mp hx with hx | hx
    · exact hclear.disjoint hx hx'
    · exact absurd hx' (not_mem_setSlot_nil h hx a b)

theorem moved_links (h : w.Unique) (i k i' k' : ℕ) : (w.moved i k i' k').Links w.Linked where
  toUnique := moved_unique h i k i' k'
  linked x := by
    simp only [Linked, mem_moved]
    constructor
    · rintro ⟨a, b, ⟨hx, -⟩ | ⟨hx, -⟩⟩
      · exact ⟨a, b, hx⟩
      · exact ⟨i, k, hx⟩
    · rintro ⟨a, b, hx⟩
      by_cases hab : a = i ∧ b = k
      · obtain ⟨rfl, rfl⟩ := hab
        exact ⟨i', k', .inr ⟨hx, rfl, rfl⟩⟩
      · exact ⟨a, b, .inl ⟨hx, hab⟩⟩

theorem moveTimerList_cons {i k i' k' : ℕ} {ts : List TimerId} (hslot : w.slots i k = t :: ts)
    (hfind : w.findHead t = some (i', k')) : w.moveTimerList i k = some (w.moved i k i' k') := by
  have hfind' : (w.setSlot i k []).findHead t = some (i', k') := hfind
  rw [moveTimerList, moved, hslot]
  simp only [hfind']

/-- `MoveTimerList` leaves an empty slot alone, and takes the others where their first timer
belongs. -/
theorem moveTimerList_cases {i k : ℕ} (h : w.moveTimerList i k = some w') :
    w.slots i k = [] ∧ w' = w ∨ ∃ t ts i' k',
      w.slots i k = t :: ts ∧ w.findHead t = some (i', k') ∧ w' = w.moved i k i' k' := by
  cases hslot : w.slots i k with
  | nil =>
    rw [moveTimerList, hslot] at h
    exact .inl ⟨rfl, (Option.some.inj h).symm⟩
  | cons t ts =>
    cases hfind : w.findHead t with
    | none =>
      have hfind' : (w.setSlot i k []).findHead t = none := hfind
      rw [moveTimerList, hslot] at h
      simp only [hfind'] at h
      cases h
    | some ik =>
      obtain ⟨i', k'⟩ := ik
      rw [moveTimerList_cons hslot hfind] at h
      exact .inr ⟨t, ts, i', k', rfl, hfind, (Option.some.inj h).symm⟩

theorem moved_of_empty {i k : ℕ} (h : w.slots i k = []) : w.moved i k i k = w := by
  have hslots : (w.moved i k i k).slots = w.slots := by
    funext a b
    by_cases hab : a = i ∧ b = k
    · obtain ⟨rfl, rfl⟩ := hab
      simp [moved, setSlot, h]
    · simp [moved, setSlot, hab]
  exact congrArg (fun slots ↦ { w with slots }) hslots

theorem moveTimerList_moved {i k : ℕ} (h : w.moveTimerList i k = some w') :
    ∃ i' k', w' = w.moved i k i' k' := by
  obtain ⟨hslot, rfl⟩ | ⟨t, ts, i', k', -, -, rfl⟩ := moveTimerList_cases h
  · exact ⟨i, k, (moved_of_empty hslot).symm⟩
  · exact ⟨i', k', rfl⟩

theorem moveTimerList_links {i k : ℕ} (h : w.Unique) (hmove : w.moveTimerList i k = some w') :
    w'.Links w.Linked := by
  obtain ⟨-, rfl⟩ | ⟨t, ts, i', k', -, -, rfl⟩ := moveTimerList_cases hmove
  · exact ⟨h, fun _ ↦ Iff.rfl⟩
  · exact moved_links h i k i' k'

theorem moveLevels_links {js : List ℕ} (h : w.Unique) (hmove : moveLevels js w = some w') :
    w'.Links w.Linked := by
  induction js generalizing w with
  | nil =>
    obtain rfl := Option.some.inj hmove
    exact ⟨h, fun _ ↦ Iff.rfl⟩
  | cons j js ih =>
    simp only [moveLevels] at hmove
    split at hmove
    · cases hmove
    · next w₁ hw₁ =>
      have h₁ := moveTimerList_links h hw₁
      split at hmove
      · obtain rfl := Option.some.inj hmove
        exact h₁
      · have h₂ := ih h₁.toUnique hmove
        exact ⟨h₂.toUnique, fun x ↦ (h₂.linked x).trans (h₁.linked x)⟩

theorem advance_links (h : w.Unique) (hadv : w.advance = some w') : w'.Links w.Linked := by
  have hnext : Unique { w with lastMs := w.lastMs + 1 } := ⟨h.nodup, h.disjoint⟩
  simp only [advance] at hadv
  split at hadv
  · have hlinks := moveLevels_links hnext hadv
    exact ⟨hlinks.toUnique, hlinks.linked⟩
  · obtain rfl := Option.some.inj hadv
    exact ⟨hnext, fun _ ↦ Iff.rfl⟩

end TimeWheel

namespace Machine

variable {m m' : Machine} {a : Action}

theorem Transition.unique (ht : Transition m a m') (h : m.wheel.Unique) : m'.wheel.Unique := by
  cases ht with
  | add t us => exact TimeWheel.arm_unique h t us
  | del => exact TimeWheel.delTimer_unique h
  | tick hadv => exact (TimeWheel.advance_links h hadv).toUnique
  | fire => exact TimeWheel.delTimer_unique h
  | again => exact TimeWheel.arm_unique h _ _
  | _ => exact h

theorem run_unique {start : ℕ} {as : List Action}
    (hrun : Run (fun m a m' ↦ m.step a = some m') (Machine.empty start) as m) : m.wheel.Unique :=
  hrun.invariant (I := fun m ↦ m.wheel.Unique) (fun _ _ _ hI hstep ↦ (transition_of_step hstep).unique hI)
    (TimeWheel.empty_unique start)

end Machine

end Baize.Time
