import Baize.Time.Filing

namespace Baize.Time

/-- A tick at which the range of a slot begins. -/
structure Visit (i k t : ℕ) : Prop where
  dvd : 256 ^ i ∣ t
  index : calcTime t i = k

structure FirstVisit (now i k t : ℕ) : Prop extends Visit i k t where
  after : now < t
  first : ∀ {t'}, now < t' → Visit i k t' → t ≤ t'

theorem Visit.add_le {i k t t' : ℕ} (h : Visit i k t) (h' : Visit i k t') (hlt : t' < t) :
    t' + 256 ^ (i + 1) ≤ t := by
  obtain ⟨⟨c, rfl⟩, hc⟩ := h
  obtain ⟨⟨c', rfl⟩, hc'⟩ := h'
  have hpos : 0 < 256 ^ i := by positivity
  rw [calcTime_eq, Nat.mul_div_cancel_left _ hpos] at hc hc'
  have hlt : c' < c := Nat.lt_of_mul_lt_mul_left hlt
  calc 256 ^ i * c' + 256 ^ (i + 1) = 256 ^ i * (c' + 256) := by rw [pow_succ, Nat.mul_add]
    _ ≤ 256 ^ i * c := Nat.mul_le_mul_left _ (by omega)

/-- A timer that is not yet due is filed where its own range is the first one to begin. -/
theorem FiledAt.firstVisit {now i k e : ℕ} (h : FiledAt now i k e) (hne : e ≠ now) :
    FirstVisit now i k (e / 256 ^ i * 256 ^ i) := by
  have hpos : 0 < 256 ^ i := by positivity
  have hahead := h.ahead.resolve_right fun hnow ↦ hne hnow.2
  have hvisit : Visit i k (e / 256 ^ i * 256 ^ i) :=
    ⟨Nat.dvd_mul_left _ _, by rw [h.index, calcTime_eq, calcTime_eq, Nat.mul_div_cancel _ hpos]⟩
  refine ⟨hvisit, (Nat.div_lt_iff_lt_mul hpos).mp hahead, fun {t'} hafter h' ↦ ?_⟩
  by_contra hlt
  have hfar := hvisit.add_le h' (not_le.mp hlt)
  have hle := Nat.div_mul_le_self e (256 ^ i)
  have hbound := h.bound
  omega

theorem FiledAt.succ {now i k e : ℕ} (h : FiledAt now i k e) (hlt : now < e) :
    FiledAt (now + 1) i k e ∨ 0 < i ∧ Visit i k (now + 1) := by
  have hahead := h.ahead.resolve_right fun h0 ↦ hlt.ne' h0.2
  have hbound : e < now + 1 + 256 ^ (i + 1) := by have := h.bound; omega
  by_cases hnext : (now + 1) / 256 ^ i < e / 256 ^ i
  · exact .inl ⟨h.level, h.index, hbound, .inl hnext⟩
  · have hsucc : (now + 1) / 256 ^ i = now / 256 ^ i + _ := Nat.succ_div
    split at hsucc
    · next hdvd =>
      have heq : e / 256 ^ i = (now + 1) / 256 ^ i := by omega
      rcases Nat.eq_zero_or_pos i with rfl | hpos
      · rw [pow_zero, Nat.div_one, Nat.div_one] at heq
        exact .inl ⟨h.level, h.index, hbound, .inr ⟨rfl, heq⟩⟩
      · exact .inr ⟨hpos, hdvd, by rw [h.index, calcTime_eq, calcTime_eq, heq]⟩
    · omega

namespace TimeWheel

variable {w : TimeWheel} {t : TimerId}

/-- The slot that `FindHead` gives is visited in time, unless the timer is due at `last_ms_`: its
slot of level 0 has been drained, and comes up again after a whole revolution. On the levels above,
the timer has less than the range of its slot left when that is moved. -/
theorem findHead_inTime_iff (hl : w.lastMs ≤ w.expiration t) (hu : w.expiration t < w.lastMs + 2 ^ 32) :
    ∃ i k v, w.findHead t = some (i, k) ∧ FirstVisit w.lastMs i k v ∧
      (v ≤ max (w.expiration t) (w.lastMs + 1) ↔ w.expiration t ≠ w.lastMs) ∧
      (1 ≤ i → v = w.expiration t / 256 ^ i * 256 ^ i ∧ v ≤ w.expiration t ∧
        w.expiration t - v < 256 ^ i) := by
  obtain ⟨i, k, hfind, hfiled, hlevel⟩ := findHead_spec hl hu
  by_cases hdue : w.expiration t = w.lastMs
  · obtain rfl : i = 0 := Nat.le_zero.mp (hlevel 0 (by omega))
    have hvisit : Visit 0 k (w.lastMs + 256) := by
      refine ⟨one_dvd _, ?_⟩
      rw [hfiled.index, hdue, calcTime_eq, calcTime_eq]
      omega
    have hnow : Visit 0 k w.lastMs := ⟨one_dvd _, by rw [hfiled.index, hdue]⟩
    refine ⟨0, k, w.lastMs + 256, hfind, ⟨hvisit, by omega, fun hafter h' ↦ h'.add_le hnow hafter⟩,
      iff_of_false ?_ (not_not.mpr hdue), by omega⟩
    rw [hdue]
    omega
  · have hpos : 0 < 256 ^ i := by positivity
    have hle := Nat.div_mul_le_self (w.expiration t) (256 ^ i)
    have hmod := Nat.mod_lt (w.expiration t) hpos
    have hsplit := Nat.div_add_mod' (w.expiration t) (256 ^ i)
    exact ⟨i, k, _, hfind, hfiled.firstVisit hdue,
      iff_of_true (hle.trans (le_max_left _ _)) hdue, fun _ ↦ ⟨rfl, hle, by omega⟩⟩

theorem findHead_inTime_seventySeconds :
    ∃ i k v, ((empty 0).setUs 0 70000000).findHead 0 = some (i, k) ∧ FirstVisit 0 i k v ∧ v ≤ 70000 := by
  obtain ⟨i, k, v, hfind, hfirst, hiff, -⟩ :=
    findHead_inTime_iff (w := (empty 0).setUs 0 70000000) (t := 0) (by decide) (by decide)
  exact ⟨i, k, v, hfind, hfirst, hiff.mpr (by decide)⟩

/-- A timer that `Start(0)` makes due at `last_ms_` waits for 256 ticks. -/
theorem findHead_dueNow : ∃ k,
    ((empty 1000).setUs 0 1000000).findHead 0 = some (0, k) ∧ FirstVisit 1000 0 k 1256 ∧
      1256 > max (((empty 1000).setUs 0 1000000).expiration 0) (1000 + 1) := by
  refine ⟨232, by decide +kernel, ⟨⟨one_dvd _, by decide⟩, by decide, fun {t'} hafter h' ↦ ?_⟩, by decide⟩
  exact h'.add_le ⟨one_dvd 1000, by decide⟩ hafter

end TimeWheel

end Baize.Time
