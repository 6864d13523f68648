import Baize.Time.Links

namespace Baize.Time

theorem calcTime_eq (ms i : ℕ) : calcTime ms i = ms / 256 ^ i % 256 := by
  rw [calcTime, Nat.shiftRight_eq_div_pow, Nat.mul_comm, pow_mul]
  norm_num

theorem maxTime_eq (i : ℕ) : maxTime i = 256 ^ (i + 1) := by
  rw [maxTime, Nat.shiftLeft_eq, Nat.mul_comm (i + 1), pow_mul, Nat.one_mul]
  norm_num

/-- Where a timer with expiration `e` may stand when `now` is `last_ms_`: on level `i` its
range of `256 ^ i` milliseconds has not begun, and lies within one revolution. -/
structure FiledAt (now i k e : ℕ) : Prop where
  level : i < 4
  index : k = calcTime e i
  bound : e < now + 256 ^ (i + 1)
  ahead : now / 256 ^ i < e / 256 ^ i ∨ (i = 0 ∧ e = now)

theorem FiledAt.le {now i k e : ℕ} (h : FiledAt now i k e) : now ≤ e := by
  obtain h | ⟨-, rfl⟩ := h.ahead
  · exact (Nat.lt_of_div_lt_div h).le
  · exact le_rfl

theorem FiledAt.eq_of_current {now e : ℕ} (h : FiledAt now 0 (calcTime now 0) e) : e = now := by
  have hindex := h.index
  have hbound := h.bound
  have hle := h.le
  rw [calcTime_eq, calcTime_eq, pow_zero, Nat.div_one, Nat.div_one] at hindex
  omega

namespace TimeWheel

variable {w : TimeWheel} {t : TimerId}

theorem findHead_spec (hl : w.lastMs ≤ w.expiration t) (hu : w.expiration t < w.lastMs + 2 ^ 32) :
    ∃ i k, w.findHead t = some (i, k) ∧ FiledAt w.lastMs i k (w.expiration t) ∧
      ∀ j, w.expiration t < w.lastMs + 256 ^ (j + 1) → i ≤ j := by
  unfold findHead
  generalize w.expiration t = e at *
  generalize w.lastMs = now at *
  obtain ⟨i, hi, hbelow, hlt⟩ : ∃ i < 4, (i = 0 ∨ now + 256 ^ i ≤ e) ∧ e < now + 256 ^ (i + 1) := by
    by_cases h₁ : e < now + 256 ^ 1
    · exact ⟨0, by omega, Or.inl rfl, h₁⟩
    by_cases h₂ : e < now + 256 ^ 2
    · exact ⟨1, by omega, Or.inr (not_lt.mp h₁), h₂⟩
    by_cases h₃ : e < now + 256 ^ 3
    · exact ⟨2, by omega, Or.inr (not_lt.mp h₂), h₃⟩
    · exact ⟨3, by omega, Or.inr (not_lt.mp h₃), hu⟩
  have hmono {a b : ℕ} (hab : a ≤ b) : 256 ^ a ≤ 256 ^ b := Nat.pow_le_pow_right (by decide) hab
  have hfind : (List.range wheelNum).find? (fun i ↦ decide ((e : ℤ) - now < maxTime i)) = some i := by
    rw [List.find?_range_eq_some]
    simp only [decide_eq_true_eq, List.mem_range, wheelNum, Bool.not_eq_true', decide_eq_false_iff_not,
      maxTime_eq]
    refine ⟨by omega, hi, fun j hj ↦ ?_⟩
    obtain rfl | hge := hbelow
    · omega
    · have := hmono (show j + 1 ≤ i by omega)
      omega
  refine ⟨i, calcTime e i, ?_, ⟨hi, rfl, hlt, ?_⟩, ?_⟩
  · rw [if_neg (by omega), hfind]
    rfl
  · obtain rfl | hge := hbelow
    · rw [pow_zero, Nat.div_one, Nat.div_one]
      rcases hl.eq_or_lt with h | h
      · exact Or.inr ⟨rfl, h.symm⟩
      · exact Or.inl h
    · left
      calc now / 256 ^ i < now / 256 ^ i + 1 := Nat.lt_succ_self _
        _ = (now + 256 ^ i) / 256 ^ i := (Nat.add_div_right _ (by positivity)).symm
        _ ≤ e / 256 ^ i := Nat.div_le_div_right hge
  · intro j hj
    by_contra hij
    obtain rfl | hge := hbelow
    · omega
    · have := hmono (show j + 1 ≤ i by omega)
      omega

theorem findHead_isSome_iff : (w.findHead t).isSome ↔
    w.lastMs ≤ w.expiration t ∧ w.expiration t < w.lastMs + 2 ^ 32 := by
  constructor
  · intro h
    obtain ⟨ik, hik⟩ := Option.isSome_iff_exists.mp h
    unfold findHead at hik
    obtain ⟨hdiff, hfind⟩ := Option.ite_none_left_eq_some.mp hik
    obtain ⟨i, hi, -⟩ := Option.map_eq_some_iff.mp hfind
    obtain ⟨hlt, hmem, -⟩ := List.find?_range_eq_some.mp hi
    have hmax : maxTime i ≤ 2 ^ 32 := by
      rw [maxTime_eq]
      calc 256 ^ (i + 1) ≤ 256 ^ 4 := Nat.pow_le_pow_right (by decide) (List.mem_range.mp hmem)
        _ = 2 ^ 32 := by norm_num
    rw [decide_eq_true_eq] at hlt
    omega
  · intro h
    obtain ⟨i, k, hfind, -, -⟩ := findHead_spec h.1 h.2
    rw [hfind, Option.isSome_some]

theorem arm_linked_iff (h : w.Unique) (t : TimerId) (us : ℕ) :
    ((w.setUs t us).addTimer t).Linked t ↔ w.lastMs ≤ us / 1000 ∧ us / 1000 < w.lastMs + 2 ^ 32 := by
  have hexp : (w.setUs t us).expiration t = us / 1000 := by simp [expiration, setUs]
  have hlinks := (addTimer_links (h.setUs t us) t).linked t
  simp only [true_and, ne_eq, not_true_eq_false, false_and, or_false] at hlinks
  rw [hlinks, findHead_isSome_iff, hexp]
  exact Iff.rfl

theorem findHead_eq_some {i k : ℕ} (h : w.findHead t = some (i, k)) :
    FiledAt w.lastMs i k (w.expiration t) ∧
      ∀ j, w.expiration t < w.lastMs + 256 ^ (j + 1) → i ≤ j := by
  obtain ⟨hl, hu⟩ := findHead_isSome_iff.mp (Option.isSome_of_eq_some h)
  obtain ⟨i', k', hfind, hspec⟩ := findHead_spec hl hu
  obtain ⟨rfl, rfl⟩ := Prod.mk.inj (Option.some.inj (h.symm.trans hfind))
  exact hspec

theorem mem_arm (h : w.Unique) {us i k : ℕ} {x : TimerId} (hx : x ∈ ((w.setUs t us).addTimer t).slots i k) :
    FiledAt w.lastMs i k (((w.setUs t us).addTimer t).expiration x) ∨
      x ∈ w.slots i k ∧ ((w.setUs t us).addTimer t).expiration x = w.expiration x := by
  obtain ⟨rfl, hfind⟩ | ⟨hne, hx⟩ := (mem_addTimer (h.setUs t us)).mp hx
  · have hfiled := (findHead_eq_some hfind).1
    rw [expiration, addTimer_us]
    exact .inl hfiled
  · rw [arm_expiration, if_neg hne]
    exact .inr ⟨hx, rfl⟩

/-- Every linked timer stands where `FindHead` may have put it. -/
structure Settled (w : TimeWheel) : Prop extends Unique w where
  filed : ∀ {i k x}, x ∈ w.slots i k → FiledAt w.lastMs i k (w.expiration x)

theorem delTimer_settled (h : w.Settled) : (w.delTimer t).Settled where
  toUnique := delTimer_unique h.toUnique
  filed hx := h.filed ((mem_delTimer h.toUnique).mp hx).2

theorem arm_spec {us : ℕ} (h : w.Settled) (hl : w.lastMs ≤ us / 1000)
    (hu : us / 1000 < w.lastMs + 2 ^ 32) :
    ((w.setUs t us).addTimer t).Settled ∧ ((w.setUs t us).addTimer t).lastMs = w.lastMs ∧
      ((w.setUs t us).addTimer t).us = (w.setUs t us).us ∧
      ∀ x, ((w.setUs t us).addTimer t).Linked x ↔ x = t ∨ w.Linked x := by
  have hexp : (w.setUs t us).expiration t = us / 1000 := by simp [expiration, setUs]
  have hsome : ((w.setUs t us).findHead t).isSome := findHead_isSome_iff.mpr (hexp ▸ ⟨hl, hu⟩)
  have hlinks := addTimer_links (h.setUs t us) t
  have hlast := addTimer_lastMs (w.setUs t us) t
  have hus := addTimer_us (w.setUs t us) t
  refine ⟨⟨hlinks.toUnique, fun {i' k' x} hx ↦ ?_⟩, hlast, hus, fun x ↦ (hlinks.linked x).trans ?_⟩
  · rw [hlast]
    obtain hfiled | ⟨hx, hsame⟩ := mem_arm h.toUnique hx
    · exact hfiled
    · rw [hsame]
      exact h.filed hx
  · have hlinked : (w.setUs t us).Linked x ↔ w.Linked x := Iff.rfl
    by_cases hxt : x = t
    · simp only [hsome, hxt, true_and, true_or]
    · simp only [hxt, false_and, false_or, ne_eq, not_false_eq_true, true_and, hlinked]

theorem Settled.mem_current (h : w.Settled) {x : TimerId} :
    x ∈ w.current ↔ w.Linked x ∧ w.expiration x = w.lastMs := by
  constructor
  · intro hx
    exact ⟨⟨_, _, hx⟩, (h.filed hx).eq_of_current⟩
  · rintro ⟨⟨i, k, hx⟩, he⟩
    have hf := h.filed hx
    obtain hlt | ⟨rfl, -⟩ := hf.ahead
    · rw [he] at hlt
      exact absurd hlt (lt_irrefl _)
    · have hindex := hf.index
      rw [he] at hindex
      rw [current, ← hindex]
      exact hx

end TimeWheel

end Baize.Time
