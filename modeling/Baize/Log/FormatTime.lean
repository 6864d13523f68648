import Baize.Log.LogStream

namespace Baize.Log

open Lib

structure Tm where
  year : ℤ
  mon : ℤ
  mday : ℤ
  hour : ℤ
  min : ℤ
  sec : ℤ
  deriving DecidableEq, Repr

def spaced (width : ℕ) (n : ℤ) : Bytes := List.replicate (width - (decimal n).length) 32 ++ decimal n

def zeroed (width : ℕ) (n : ℤ) : Bytes :=
  if n < 0 then 45 :: (List.replicate (width - 1 - (Net.decimal n.natAbs).length) 48 ++ Net.decimal n.natAbs)
  else List.replicate (width - (Net.decimal n.natAbs).length) 48 ++ Net.decimal n.natAbs

def Tm.text (tm : Tm) : Bytes :=
  spaced 4 (tm.year + 1900) ++ zeroed 2 (tm.mon + 1) ++ zeroed 2 tm.mday ++ ascii " " ++ zeroed 2 tm.hour ++
    ascii ":" ++ zeroed 2 tm.min ++ ascii ":" ++ zeroed 2 tm.sec

def kUsPerSec : ℤ := 1000000

structure TimeCache where
  lastSecond : ℤ
  time : Bytes
  deriving DecidableEq, Repr

def TimeCache.start : TimeCache := ⟨0, List.replicate 64 0⟩

section

-- `gmtime_r`
variable (gmtime : ℤ → Tm)

def date (us : ℤ) : Bytes :=
  ((gmtime (us.tdiv kUsPerSec)).text ++ ascii "." ++ zeroed 6 (us.tmod kUsPerSec)).take 63

def TimeCache.refresh (c : TimeCache) (seconds : ℤ) : Checked TimeCache :=
  if seconds ≠ c.lastSecond then do
    let text := (gmtime seconds).text
    let written := text.take 63 ++ [0]
    check (text.length = 17) .assertion
    pure ⟨seconds, written ++ c.time.drop written.length⟩
  else pure c

def TimeCache.formatTime (c : TimeCache) (nowUs : ℤ) : Checked (Bytes × TimeCache) := do
  let c ← c.refresh gmtime (nowUs.tdiv kUsPerSec)
  let fmtUs := ascii "." ++ zeroed 6 (nowUs.tmod kUsPerSec) ++ ascii " "
  check (fmtUs.length < 32) .assertion
  check (fmtUs.length = 8) .assertion
  pure (c.time.take 17 ++ fmtUs.take 8, c)

/-- The calls of a thread, one for each reading of the clock. -/
def TimeCache.formatTimes (c : TimeCache) (readings : List ℤ) : Checked TimeCache :=
  readings.foldlM (fun c nowUs ↦ Prod.snd <$> c.formatTime gmtime nowUs) c

end

structure Tm.InRange (tm : Tm) : Prop where
  mon : 0 ≤ tm.mon ∧ tm.mon ≤ 11
  mday : 1 ≤ tm.mday ∧ tm.mday ≤ 31
  hour : 0 ≤ tm.hour ∧ tm.hour ≤ 23
  min : 0 ≤ tm.min ∧ tm.min ≤ 59
  sec : 0 ≤ tm.sec ∧ tm.sec ≤ 60

theorem length_decimal_le {n e : ℕ} (he : 0 < e) (h : n < 10 ^ e) : (Net.decimal n).length ≤ e := by
  rw [Net.decimal, List.length_map]
  exact Nat.toDigits_length 10 n e he h

theorem length_zeroed {width : ℕ} {n : ℤ} (hwidth : 0 < width) (h0 : 0 ≤ n) (h : n < 10 ^ width) :
    (zeroed width n).length = width := by
  have hdigits : (Net.decimal n.natAbs).length ≤ width := by
    apply length_decimal_le hwidth
    zify
    rwa [abs_of_nonneg h0]
  rw [zeroed, if_neg (not_lt.mpr h0), List.length_append, List.length_replicate]
  omega

theorem length_spaced {width : ℕ} {n : ℤ} (hwidth : 0 < width) (h0 : 0 ≤ n) (h : n < 10 ^ width) :
    (spaced width n).length = width := by
  have hdigits : (Net.decimal n.natAbs).length ≤ width := by
    apply length_decimal_le hwidth
    zify
    rwa [abs_of_nonneg h0]
  rw [spaced, decimal, if_neg (not_lt.mpr h0), List.length_append, List.length_replicate]
  omega

theorem Tm.InRange.length_text {tm : Tm} (h : tm.InRange) (hyear : -1900 ≤ tm.year ∧ tm.year < 8100) :
    tm.text.length = 17 := by
  obtain ⟨hmon, hmday, hhour, hmin, hsec⟩ := h
  have htwo {n : ℤ} (h0 : 0 ≤ n) (h : n < 100) : (zeroed 2 n).length = 2 :=
    length_zeroed (by decide) h0 (by omega)
  have hspace : (ascii " ").length = 1 := rfl
  have hcolon : (ascii ":").length = 1 := rfl
  simp only [Tm.text, List.length_append, hspace, hcolon]
  rw [length_spaced (by decide) (by omega) (by omega), htwo (by omega) (by omega), htwo (by omega) (by omega),
    htwo (by omega) (by omega), htwo (by omega) (by omega), htwo (by omega) (by omega)]

section

variable {gmtime : ℤ → Tm} {c : TimeCache} {readings : List ℤ} {nowUs : ℤ}

/-- A clock that shows a time from 1970 to the end of the year 9999. -/
structure Shown (gmtime : ℤ → Tm) (nowUs : ℤ) : Prop where
  nonneg : 0 ≤ nowUs
  inRange : (gmtime (nowUs.tdiv kUsPerSec)).InRange
  year : 70 ≤ (gmtime (nowUs.tdiv kUsPerSec)).year ∧ (gmtime (nowUs.tdiv kUsPerSec)).year < 8100

theorem Shown.length_text (h : Shown gmtime nowUs) : (gmtime (nowUs.tdiv kUsPerSec)).text.length = 17 :=
  h.inRange.length_text ⟨by have := h.year; omega, h.year.2⟩

theorem Shown.length_us (h : Shown gmtime nowUs) : (zeroed 6 (nowUs.tmod kUsPerSec)).length = 6 := by
  have h0 := Int.tmod_nonneg kUsPerSec h.nonneg
  have hlt := Int.tmod_lt_of_pos nowUs (show 0 < kUsPerSec by decide)
  exact length_zeroed (by decide) h0 hlt

theorem Shown.date_eq (h : Shown gmtime nowUs) :
    date gmtime nowUs = (gmtime (nowUs.tdiv kUsPerSec)).text ++ ascii "." ++
    zeroed 6 (nowUs.tmod kUsPerSec) := by
  rw [date, List.take_of_length_le]
  rw [List.length_append, List.length_append, h.length_text, h.length_us]
  decide

/-- The cache is as at the start of the thread while the clock has shown the second 0 only, and holds the
text of its second otherwise. -/
inductive TimeCache.Cached (gmtime : ℤ → Tm) (readings : List ℤ) : TimeCache → Prop
  | untouched (hzero : ∀ u ∈ readings, u.tdiv kUsPerSec = 0) : Cached gmtime readings .start
  | filled {c : TimeCache} (hsome : ∃ u ∈ readings, u.tdiv kUsPerSec ≠ 0)
    (htime : c.time.take 17 = (gmtime c.lastSecond).text) : Cached gmtime readings c

theorem TimeCache.Cached.refresh (h : Cached gmtime readings c)
    (hlen : (gmtime (nowUs.tdiv kUsPerSec)).text.length = 17) :
    ∃ c', c.refresh gmtime (nowUs.tdiv kUsPerSec) = .ok c' ∧ c'.lastSecond = nowUs.tdiv kUsPerSec ∧
      Cached gmtime (readings ++ [nowUs]) c' := by
  by_cases hsame : nowUs.tdiv kUsPerSec = c.lastSecond
  · refine ⟨c, ?_, hsame.symm, ?_⟩
    · rw [TimeCache.refresh, if_neg (not_not.mpr hsame)]
      rfl
    · cases h with
      | untouched hzero =>
        refine .untouched fun u hu ↦ ?_
        rw [List.mem_append, List.mem_singleton] at hu
        obtain hu | rfl := hu
        · exact hzero u hu
        · exact hsame
      | filled hsome htime =>
        obtain ⟨u, hu, hne⟩ := hsome
        exact .filled ⟨u, List.mem_append_left _ hu, hne⟩ htime
  · have htext : (gmtime (nowUs.tdiv kUsPerSec)).text.take 63 = (gmtime (nowUs.tdiv kUsPerSec)).text :=
      List.take_of_length_le (by omega)
    have hrefresh : c.refresh gmtime (nowUs.tdiv kUsPerSec) = .ok ⟨nowUs.tdiv kUsPerSec,
        ((gmtime (nowUs.tdiv kUsPerSec)).text ++ [0]) ++
          c.time.drop ((gmtime (nowUs.tdiv kUsPerSec)).text ++ [0]).length⟩ := by
      rw [TimeCache.refresh, if_pos hsame]
      dsimp only
      rw [check_of hlen, htext]
      rfl
    refine ⟨_, hrefresh, rfl, .filled ?_ ?_⟩
    · cases h with
      | untouched => exact ⟨nowUs, List.mem_append_right _ (List.mem_singleton_self _), hsame⟩
      | filled hsome =>
        obtain ⟨u, hu, hne⟩ := hsome
        exact ⟨u, List.mem_append_left _ hu, hne⟩
    · dsimp only
      rw [List.append_assoc, List.take_left' hlen]

theorem TimeCache.Cached.formatTime (h : Cached gmtime readings c) (hshown : Shown gmtime nowUs) :
    ∃ c', c.formatTime gmtime nowUs =
        .ok (c'.time.take 17 ++ (ascii "." ++ zeroed 6 (nowUs.tmod kUsPerSec) ++ ascii " "), c') ∧
      c'.lastSecond = nowUs.tdiv kUsPerSec ∧ Cached gmtime (readings ++ [nowUs]) c' := by
  obtain ⟨c', hrefresh, hlast, hcached⟩ := h.refresh hshown.length_text
  refine ⟨c', ?_, hlast, hcached⟩
  have hlen : (ascii "." ++ zeroed 6 (nowUs.tmod kUsPerSec) ++ ascii " ").length = 8 := by
    rw [List.length_append, List.length_append, hshown.length_us]
    rfl
  rw [TimeCache.formatTime, hrefresh, ok_bind]
  dsimp only
  rw [check_of (by omega), ok_bind, check_of hlen, ok_bind, List.take_of_length_le hlen.le]
  rfl

theorem TimeCache.formatTimes_cached (hshown : ∀ u ∈ readings, Shown gmtime u) :
    ∃ c, TimeCache.start.formatTimes gmtime readings = .ok c ∧ Cached gmtime readings c := by
  induction readings using List.reverseRecOn with
  | nil => exact ⟨_, rfl, .untouched fun u hu ↦ absurd hu List.not_mem_nil⟩
  | append_singleton readings nowUs ih =>
    obtain ⟨c, hc, hcached⟩ := ih fun u hu ↦ hshown u (List.mem_append_left _ hu)
    obtain ⟨c', hformat, -, hcached'⟩ :=
      hcached.formatTime (hshown nowUs (List.mem_append_right _ (List.mem_singleton_self _)))
    refine ⟨c', ?_, hcached'⟩
    rw [TimeCache.formatTimes] at hc ⊢
    rw [List.foldlM_append, hc, ok_bind, List.foldlM_cons, hformat]
    rfl

/-- Whatever the clock has shown to the thread before, forwards or backwards, the time in front of a line is
the `date` of its own reading, from the first second on that is not the second 0. Until then it is 17 zero
bytes and the microseconds. -/
theorem TimeCache.run_formatTime_date (hshown : ∀ u ∈ readings ++ [nowUs], Shown gmtime u) :
    ∃ c c' text, TimeCache.start.formatTimes gmtime readings = .ok c ∧
      c.formatTime gmtime nowUs = .ok (text, c') ∧
      ((∃ u ∈ readings ++ [nowUs], u.tdiv kUsPerSec ≠ 0) → text = date gmtime nowUs ++ ascii " ") ∧
      ((∀ u ∈ readings ++ [nowUs], u.tdiv kUsPerSec = 0) →
        text = List.replicate 17 0 ++ (date gmtime nowUs).drop 17 ++ ascii " ") := by
  obtain ⟨c, hc, hcached⟩ := formatTimes_cached fun u hu ↦ hshown u (List.mem_append_left _ hu)
  have hnow := hshown nowUs (List.mem_append_right _ (List.mem_singleton_self _))
  obtain ⟨c', hformat, hlast, hcached'⟩ := hcached.formatTime hnow
  refine ⟨c, c', _, hc, hformat, ?_, ?_⟩
  · rintro ⟨u, hu, hne⟩
    cases hcached' with
    | untouched hzero => exact absurd (hzero u hu) hne
    | filled _ htime =>
      rw [htime, hlast, hnow.date_eq]
      simp only [List.append_assoc]
  · intro hzero
    cases hcached' with
    | untouched =>
      rw [hnow.date_eq, List.append_assoc _ (ascii "."), List.drop_left' hnow.length_text, List.append_assoc,
        List.append_assoc]
      rfl
    | filled hsome =>
      obtain ⟨u, hu, hne⟩ := hsome
      exact absurd (hzero u hu) hne

end

/-- A clock that is set back by a second behind the first line. -/
theorem TimeCache.run_formatTime_date_setBack : ∃ c c' text,
    TimeCache.start.formatTimes (fun s ↦ ⟨70, 0, 1, 0, 0, s⟩) [3000007] = .ok c ∧
      c.formatTime (fun s ↦ ⟨70, 0, 1, 0, 0, s⟩) 2000008 = .ok (text, c') ∧
      text = ascii "19700101 00:00:02.000008 " := by
  have hshown : ∀ u ∈ [(3000007 : ℤ)] ++ [2000008], Shown (fun s ↦ ⟨70, 0, 1, 0, 0, s⟩) u := by
    intro u hu
    obtain rfl | rfl : u = 3000007 ∨ u = 2000008 := by simpa using hu
    · exact ⟨by decide, ⟨by decide, by decide, by decide, by decide, by decide⟩, by decide⟩
    · exact ⟨by decide, ⟨by decide, by decide, by decide, by decide, by decide⟩, by decide⟩
  obtain ⟨c, c', text, hc, hformat, hdate, -⟩ := TimeCache.run_formatTime_date hshown
  refine ⟨c, c', text, hc, hformat, ?_⟩
  rw [hdate ⟨3000007, by decide, by decide⟩]
  decide +kernel

end Baize.Log
