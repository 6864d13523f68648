import Baize.Lib.Loop
import Baize.Time.Clock
import Baize.Time.Filing

namespace Baize.Time

open Lib

namespace TimeWheel

variable {w : TimeWheel} {t : TimerId} {ts : List TimerId}

def rearm (w : TimeWheel) (t : TimerId) (nextMs : ℤ) : TimeWheel :=
  if nextMs ≤ 0 then w else (w.setUs t (w.us t + 1000 * nextMs.toNat)).addTimer t

/-- A turn of the inner loop of `TurnWheel`. The state has the number of timers run so far, and the
callback that is run next returns what `next` has for that number. -/
def drainTurn (next : ℕ → ℤ) (s : ℕ × TimeWheel) : Option (List TimerId × (ℕ × TimeWheel)) :=
  s.2.current.head?.map fun t ↦ ([t], (s.1 + 1, (s.2.delTimer t).rearm t (next s.1)))

def drain (next : ℕ → ℤ) (fuel : ℕ) (w : TimeWheel) : Option (List TimerId × (ℕ × TimeWheel)) :=
  loop (drainTurn next) fuel (0, w)

theorem drainTurn_eq_none {next : ℕ → ℤ} {s : ℕ × TimeWheel} (h : drainTurn next s = none) : s.2.current = [] :=
  List.head?_eq_none_iff.mp (Option.map_eq_none_iff.mp h)

theorem drainTurn_eq_some {next : ℕ → ℤ} {s s' : ℕ × TimeWheel} {out : List TimerId}
    (h : drainTurn next s = some (out, s')) :
    ∃ t ts, s.2.current = t :: ts ∧ out = [t] ∧ s' = (s.1 + 1, (s.2.delTimer t).rearm t (next s.1)) := by
  obtain ⟨t, hhead, heq⟩ := Option.map_eq_some_iff.mp h
  obtain ⟨ts, hcur⟩ := List.head?_eq_some_iff.mp hhead
  obtain ⟨rfl, rfl⟩ := Prod.mk.inj heq
  exact ⟨t, ts, hcur, rfl, rfl⟩

theorem rearm_unique (h : w.Unique) (t : TimerId) (nextMs : ℤ) : (w.rearm t nextMs).Unique := by
  rw [rearm]
  split
  · exact h
  · exact arm_unique h t _

theorem rearm_lastMs (w : TimeWheel) (t : TimerId) (nextMs : ℤ) : (w.rearm t nextMs).lastMs = w.lastMs := by
  rw [rearm]
  split
  · rfl
  · exact addTimer_lastMs _ t

theorem rearm_expiration (w : TimeWheel) {t x : TimerId} (hx : x ≠ t) (nextMs : ℤ) :
    (w.rearm t nextMs).expiration x = w.expiration x := by
  rw [rearm]
  split
  · rfl
  · rw [arm_expiration, if_neg hx]

theorem current_addTimer (w : TimeWheel) (t : TimerId) :
    (w.addTimer t).current = w.current.erase t ∨
      (w.addTimer t).current = t :: w.current.erase t ∧ w.expiration t = w.lastMs := by
  rw [current, addTimer_lastMs, addTimer_eq]
  cases hfind : w.findHead t with
  | none => exact .inl rfl
  | some ik =>
    obtain ⟨i, k⟩ := ik
    by_cases hslot : 0 = i ∧ calcTime w.lastMs 0 = k
    · obtain ⟨rfl, rfl⟩ := hslot
      exact .inr ⟨if_pos ⟨rfl, rfl⟩, (findHead_eq_some hfind).1.eq_of_current⟩
    · exact .inl (if_neg hslot)

theorem current_rearm (hu : w.Unique) (hcur : w.current = t :: ts) (nextMs : ℤ) :
    ((w.delTimer t).rearm t nextMs).current = ts ∨
      ((w.delTimer t).rearm t nextMs).current = t :: ts ∧ w.expiration t < w.lastMs ∧
        ((w.delTimer t).rearm t nextMs).expiration t = w.lastMs := by
  have hdel : (w.delTimer t).current = ts := by
    rw [← List.erase_cons_head t ts, ← hcur]
    rfl
  rw [rearm]
  split
  · exact .inl hdel
  · next hpos =>
    set v := (w.delTimer t).setUs t ((w.delTimer t).us t + 1000 * nextMs.toNat) with hv
    have hnodup : (t :: ts).Nodup := hcur ▸ hu.nodup 0 _
    have herase : v.current.erase t = ts := by
      rw [show v.current = ts from hdel, List.erase_of_not_mem (List.nodup_cons.mp hnodup).1]
    have hexp : v.expiration t = w.expiration t + nextMs.toNat := by
      have hus : v.us t = addMs (w.us t) nextMs.toNat := if_pos rfl
      rw [expiration, hus, addMs_div]
      rfl
    obtain hleft | ⟨hback, hnow⟩ := current_addTimer v t
    · exact .inl (hleft.trans herase)
    · refine .inr ⟨by rw [hback, herase], ?_, ?_⟩
      · rw [hexp] at hnow
        have hlast : v.lastMs = w.lastMs := rfl
        omega
      · rw [expiration, addTimer_us]
        exact hnow

def turns (w : TimeWheel) (t : TimerId) : ℕ := if w.expiration t < w.lastMs then 2 else 1

def runsLeft (w : TimeWheel) (t : TimerId) : ℕ := if t ∈ w.current then w.turns t else 0

theorem turns_le (w : TimeWheel) (t : TimerId) : w.turns t ≤ 2 := by
  rw [turns]
  split <;> decide

theorem runsLeft_le (w : TimeWheel) (t : TimerId) : w.runsLeft t ≤ 2 := by
  rw [runsLeft]
  split
  · exact w.turns_le t
  · exact Nat.zero_le 2

theorem turns_rearm {x : TimerId} (hx : x ≠ t) (nextMs : ℤ) :
    ((w.delTimer t).rearm t nextMs).turns x = w.turns x := by
  rw [turns, rearm_lastMs, rearm_expiration _ hx]
  rfl

theorem turns_current_rearm (hu : w.Unique) (hcur : w.current = t :: ts) (nextMs : ℤ) :
    ((w.delTimer t).rearm t nextMs).current = ts ∧ 1 ≤ w.turns t ∨
      ((w.delTimer t).rearm t nextMs).current = t :: ts ∧
        ((w.delTimer t).rearm t nextMs).turns t + 1 ≤ w.turns t := by
  obtain hgone | ⟨hback, hlate, hnow⟩ := current_rearm hu hcur nextMs
  · refine .inl ⟨hgone, ?_⟩
    rw [turns]
    split <;> decide
  · refine .inr ⟨hback, ?_⟩
    have hlast : (w.delTimer t).lastMs = w.lastMs := rfl
    rw [turns, turns, hnow, rearm_lastMs, hlast, if_neg (lt_irrefl _), if_pos hlate]

theorem runsLeft_rearm (hu : w.Unique) (hcur : w.current = t :: ts) (nextMs : ℤ) (x : TimerId) :
    List.count x [t] + ((w.delTimer t).rearm t nextMs).runsLeft x ≤ w.runsLeft x := by
  have hnodup : (t :: ts).Nodup := hcur ▸ hu.nodup 0 _
  have hnot := (List.nodup_cons.mp hnodup).1
  by_cases hx : x = t
  · subst hx
    rw [List.count_singleton_self, runsLeft, runsLeft, hcur, if_pos List.mem_cons_self]
    obtain ⟨hgone, hone⟩ | ⟨hback, hless⟩ := turns_current_rearm hu hcur nextMs
    · rw [hgone, if_neg hnot]
      exact hone
    · rw [hback, if_pos List.mem_cons_self, Nat.add_comm]
      exact hless
  · have hmem : x ∈ ((w.delTimer t).rearm t nextMs).current ↔ x ∈ w.current := by
      rw [hcur]
      obtain ⟨hgone, -⟩ | ⟨hback, -⟩ := turns_current_rearm hu hcur nextMs
      · rw [hgone, List.mem_cons, or_iff_right hx]
      · rw [hback]
    rw [List.count_eq_zero_of_not_mem (fun h ↦ hx (List.mem_singleton.mp h)), Nat.zero_add, runsLeft, runsLeft,
      turns_rearm hx]
    simp only [hmem, le_refl]

def rank (w : TimeWheel) : ℕ := (w.current.map w.turns).sum

theorem rank_le (w : TimeWheel) : w.rank ≤ 2 * w.current.length := by
  have h := List.sum_le_card_nsmul (w.current.map w.turns) 2 fun n hn ↦ by
    obtain ⟨t, -, rfl⟩ := List.mem_map.mp hn
    exact w.turns_le t
  rw [List.length_map, smul_eq_mul, Nat.mul_comm] at h
  exact h

theorem rank_rearm (hu : w.Unique) (hcur : w.current = t :: ts) (nextMs : ℤ) :
    ((w.delTimer t).rearm t nextMs).rank < w.rank := by
  have hnodup : (t :: ts).Nodup := hcur ▸ hu.nodup 0 _
  have hrest : ts.map ((w.delTimer t).rearm t nextMs).turns = ts.map w.turns :=
    List.map_congr_left fun x hx ↦ turns_rearm (ne_of_mem_of_not_mem hx (List.nodup_cons.mp hnodup).1) nextMs
  rw [rank, rank, hcur, List.map_cons, List.sum_cons]
  obtain ⟨hgone, hone⟩ | ⟨hback, hless⟩ := turns_current_rearm hu hcur nextMs
  · rw [hgone, hrest]
    omega
  · rw [hback, List.map_cons, List.sum_cons, hrest]
    omega

end TimeWheel

namespace Machine

open TimeWheel

def drainActions (next : ℕ → ℤ) (k : ℕ) : List TimerId → List Action
  | [] => []
  | t :: ts => .fire t :: .ret (next k) :: drainActions next (k + 1) ts

theorem step_fire {w : TimeWheel} {t : TimerId} {ts : List TimerId} (hcur : w.current = t :: ts) (left : ℕ) :
    step ⟨w, .draining left⟩ (.fire t) = some ⟨w.delTimer t, .callback t left⟩ := by
  have hhead : w.current.head? = some t := by rw [hcur, List.head?_cons]
  exact if_pos hhead

theorem step_ret (w : TimeWheel) (t : TimerId) (left : ℕ) (nextMs : ℤ) :
    step ⟨w, .callback t left⟩ (.ret nextMs) = some ⟨w.rearm t nextMs, .draining left⟩ := by
  rw [rearm]
  by_cases hn : nextMs ≤ 0
  · rw [if_pos hn]
    exact if_pos hn
  · rw [if_neg hn]
    exact if_neg hn

structure Drains (next : ℕ → ℤ) (left : ℕ) (s : ℕ × TimeWheel) (ts : List TimerId) (r : ℕ × TimeWheel) :
    Prop where
  run : Run (fun (m : Machine) a m' ↦ m.step a = some m') ⟨s.2, .draining left⟩
    (drainActions next s.1 ts ++ [.tickDone]) ⟨r.2, .turning left⟩
  count : ∀ t, ts.count t ≤ s.2.runsLeft t

variable {next : ℕ → ℤ} {left k : ℕ} {w : TimeWheel}

theorem Drains.nil (h : w.current = []) : Drains next left (k, w) [] (k, w) where
  run := .cons (if_pos h) (.nil _)
  count _ := Nat.zero_le _

theorem Drains.cons {t : TimerId} {ts outs : List TimerId} {r : ℕ × TimeWheel} (hu : w.Unique)
    (hcur : w.current = t :: ts) (h : Drains next left (k + 1, (w.delTimer t).rearm t (next k)) outs r) :
    Drains next left (k, w) ([t] ++ outs) r where
  run := .cons (step_fire hcur left) (.cons (step_ret _ t left _) h.run)
  count x := by
    rw [List.count_append]
    exact (Nat.add_le_add_left (h.count x) _).trans (runsLeft_rearm hu hcur _ x)

/-- For callbacks that only return, whatever they return, the draining loop ends, and runs no timer more
than twice. -/
theorem draining_ends {w : TimeWheel} (hu : w.Unique) (left : ℕ) (next : ℕ → ℤ) :
    ∃ ts k w', (∀ fuel, 2 * w.current.length < fuel → w.drain next fuel = some (ts, (k, w'))) ∧
      Run (fun (m : Machine) a m' ↦ m.step a = some m') ⟨w, .draining left⟩
        (drainActions next 0 ts ++ [.tickDone]) ⟨w', .turning left⟩ ∧
      ∀ t, ts.count t ≤ 2 := by
  have hturn (s : ℕ × TimeWheel) (out : List TimerId) (s' : ℕ × TimeWheel) (hs : s.2.Unique)
      (h : drainTurn next s = some (out, s')) : s'.2.Unique ∧ s'.2.rank < s.2.rank := by
    obtain ⟨t, ts, hcur, -, rfl⟩ := drainTurn_eq_some h
    exact ⟨rearm_unique (delTimer_unique hs) t _, rank_rearm hs hcur _⟩
  have hback (s : ℕ × TimeWheel) (out : List TimerId) (s' : ℕ × TimeWheel) (outs : List TimerId)
      (r : ℕ × TimeWheel) (hs : s.2.Unique) (h : drainTurn next s = some (out, s'))
      (hdrains : Drains next left s' outs r) : Drains next left s (out ++ outs) r := by
    obtain ⟨t, ts, hcur, rfl, rfl⟩ := drainTurn_eq_some h
    exact hdrains.cons hs hcur
  obtain ⟨ts, ⟨k, w'⟩, hloop, hdrains⟩ := loop_total (fun s ↦ s.2.rank) hturn
    (fun s _ h ↦ Drains.nil (drainTurn_eq_none h)) hback (s := (0, w)) hu
  exact ⟨ts, k, w', fun fuel hfuel ↦ hloop fuel (w.rank_le.trans_lt hfuel), hdrains.run,
    fun t ↦ (hdrains.count t).trans (w.runsLeft_le t)⟩

def behind : TimeWheel := ((TimeWheel.empty 10).setUs 0 9000).setSlot 0 10 [0]

/-- It is run twice when its callback returns 1 both times. -/
example : (behind.drain (fun _ ↦ 1) 3).map Prod.fst = some [0, 0] := by decide

theorem draining_ends_behind :
    ∃ ts k w', (∀ fuel, 2 < fuel → behind.drain (fun _ ↦ 1) fuel = some (ts, (k, w'))) ∧
    Run (fun (m : Machine) a m' ↦ m.step a = some m') ⟨behind, .draining 0⟩
      (drainActions (fun _ ↦ 1) 0 ts ++ [.tickDone]) ⟨w', .turning 0⟩ ∧ ∀ t, ts.count t ≤ 2 := by
  have hu : behind.Unique :=
    setSlot_unique ((empty_unique 10).setUs 0 9000) (List.nodup_singleton 0) fun _ _ _ _ h ↦
    absurd h List.not_mem_nil
  exact draining_ends hu 0 fun _ ↦ 1

end Machine

end Baize.Time
