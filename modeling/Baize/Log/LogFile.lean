import Mathlib
import Baize.Lib.Checked
import Baize.Lib.Run
import Baize.Util.Types

namespace Baize.Log

open Lib

/-- How many of its bytes an `fwrite` takes at most, and whether it sets the error indicator. -/
structure Fwrite where
  taken : ℕ
  error : Bool

/-- `AppendFile`: what stdio has taken, how much of it `fflush` has passed on, and the error indicator.
`opened` is the second in the name of the file. -/
structure AppendFile where
  opened : ℤ
  data : Bytes
  flushed : ℕ
  error : Bool
  written : ℕ
  deriving DecidableEq

namespace AppendFile

def new (now : ℤ) : AppendFile := ⟨now, [], 0, false, 0⟩

def flush (f : AppendFile) : AppendFile := { f with flushed := f.data.length }

def appendLoop (logline : Bytes) : List Fwrite → ℕ → AppendFile → Option AppendFile
  | ws, wn, f =>
    if wn = logline.length then some { f with written := f.written + wn }
    else
      match ws with
      | [] => none
      | w :: ws =>
        let remain := logline.length - wn
        let n := min w.taken remain
        let f := { f with data := f.data ++ (logline.drop wn).take n, error := f.error || w.error }
        if n ≠ remain ∧ f.error = true then some { f with written := f.written + wn }
        else appendLoop logline ws (wn + n) f

def append (f : AppendFile) (logline : Bytes) (ws : List Fwrite) : Option AppendFile :=
  appendLoop logline ws 0 f

/-- What is added to a file for a line: its beginning, and all of it when the error indicator is not
set. `written_` does not count the bytes of the `fwrite` that failed. -/
structure Gains (f : AppendFile) (line : Bytes) (wn : ℕ) (f' : AppendFile) (p : Bytes) : Prop where
  opened : f'.opened = f.opened
  begins : p <+: line
  data : f'.data = f.data ++ p
  written : f'.written ≤ f.written + wn + p.length
  error : f'.error = false → f.error = false
  whole : f'.error = false → p = line ∧ f'.written = f.written + wn + p.length

theorem gains_end (f : AppendFile) {logline : Bytes} {wn : ℕ} (h : wn = logline.length) :
    f.Gains (logline.drop wn) wn { f with written := f.written + wn } [] := by
  rw [List.drop_eq_nil_of_le h.ge]
  exact ⟨rfl, List.nil_prefix, (List.append_nil _).symm, le_rfl, id, fun _ ↦ ⟨rfl, rfl⟩⟩

theorem appendLoop_gains {logline : Bytes} {ws : List Fwrite} {wn : ℕ} {f f' : AppendFile}
    (hwn : wn ≤ logline.length) (h : appendLoop logline ws wn f = some f') :
    ∃ p, f.Gains (logline.drop wn) wn f' p := by
  induction ws generalizing wn f with
  | nil =>
    rw [appendLoop] at h
    split at h
    next hend => exact Option.some.inj h ▸ ⟨[], gains_end f hend⟩
    next => cases h
  | cons w ws ih =>
    rw [appendLoop] at h
    split at h
    next hend => exact Option.some.inj h ▸ ⟨[], gains_end f hend⟩
    next hmore =>
      dsimp only at h
      split at h
      next herr =>
        obtain rfl := Option.some.inj h
        refine ⟨_, rfl, List.take_prefix _ _, rfl, Nat.le_add_right _ _, fun hf ↦ ?_, fun hf ↦ ?_⟩
        · cases herr.2.symm.trans hf
        · cases herr.2.symm.trans hf
      next =>
        obtain ⟨p, hp⟩ := ih (by omega) h
        have htaken : ((logline.drop wn).take (min w.taken (logline.length - wn))).length =
            min w.taken (logline.length - wn) := by
          rw [List.length_take, List.length_drop]
          omega
        have hrest : (logline.drop wn).drop (min w.taken (logline.length - wn)) =
            logline.drop (wn + min w.taken (logline.length - wn)) := List.drop_drop
        have hjoin := List.take_append_drop (min w.taken (logline.length - wn)) (logline.drop wn)
        have herror : f'.error = false → f.error = false := fun hf ↦ (Bool.or_eq_false_iff.mp (hp.error hf)).1
        refine ⟨_ ++ p, hp.opened, ?_, hp.data.trans (List.append_assoc _ _ _), ?_, herror, fun hf ↦ ⟨?_, ?_⟩⟩
        · have hbegins := (List.prefix_append_right_inj
            ((logline.drop wn).take (min w.taken (logline.length - wn)))).mpr hp.begins
          rwa [← hrest, hjoin] at hbegins
        · have := hp.written
          rw [List.length_append, htaken]
          dsimp only at this
          omega
        · rw [(hp.whole hf).1, ← hrest, hjoin]
        · have := (hp.whole hf).2
          rw [List.length_append, htaken]
          dsimp only at this
          omega

theorem append_gains {f f' : AppendFile} {logline : Bytes} {ws : List Fwrite}
    (h : f.append logline ws = some f') : ∃ p, f.Gains logline 0 f' p :=
  appendLoop_gains (Nat.zero_le _) h

/-- The lines that a file was given, as they stand in it: the beginning of each, and all of each line
when no error was seen. -/
def Holds (f : AppendFile) (lines : List Bytes) : Prop :=
  ∃ ps : List Bytes, List.Forall₂ (· <+: ·) ps lines ∧ f.data = ps.flatten ∧ f.written ≤ f.data.length ∧
    (f.error = false → ps = lines ∧ f.written = f.data.length)

theorem new_holds (now : ℤ) : (new now).Holds [] := ⟨[], .nil, rfl, le_rfl, fun _ ↦ ⟨rfl, rfl⟩⟩

theorem Holds.flush {f : AppendFile} {lines : List Bytes} (h : f.Holds lines) : f.flush.Holds lines := h

theorem Holds.length_flatten {f : AppendFile} {lines : List Bytes} (h : f.Holds lines)
    (herror : f.error = false) : lines.flatten.length = f.written := by
  obtain ⟨ps, -, hdata, -, hwhole⟩ := h
  obtain ⟨rfl, hwritten⟩ := hwhole herror
  rw [hwritten, hdata]

theorem Gains.holds {f f' : AppendFile} {line p : Bytes} (h : f.Gains line 0 f' p) {lines : List Bytes}
    (hf : f.Holds lines) : f'.Holds (lines ++ [line]) := by
  obtain ⟨ps, hps, hdata, hwritten, hwhole⟩ := hf
  have hlen : f'.data.length = f.data.length + p.length := by rw [h.data, List.length_append]
  refine ⟨ps ++ [p], List.rel_append hps (.cons h.begins .nil), ?_, ?_, fun herror ↦ ?_⟩
  · rw [h.data, hdata, List.flatten_append, List.flatten_singleton]
  · have := h.written
    omega
  · obtain ⟨rfl, hw⟩ := hwhole (h.error herror)
    obtain ⟨rfl, hw'⟩ := h.whole herror
    exact ⟨rfl, by omega⟩

end AppendFile

def kRollPerSeconds : ℤ := 60 * 60 * 24

def periodOf (now : ℤ) : ℤ := now.tdiv kRollPerSeconds * kRollPerSeconds

structure LogFile where
  rollSize : ℤ
  flushInterval : ℤ
  checkEveryN : ℤ
  count : ℤ
  startOfPeriod : ℤ
  lastRoll : ℤ
  lastFlush : ℤ
  file : Option AppendFile
  closed : List AppendFile
  deriving DecidableEq

namespace LogFile

/-- `RollFile`, with what it returns. The file that is replaced is closed. -/
def rollFile (s : LogFile) (now : ℤ) : LogFile × Bool :=
  if now > s.lastRoll then
    ({ s with
        lastRoll := now
        lastFlush := now
        startOfPeriod := periodOf now
        file := some (.new now)
        closed := s.closed ++ (s.file.map AppendFile.flush).toList }, true)
  else (s, false)

def new (rollSize flushInterval checkEveryN now : ℤ) : LogFile :=
  (rollFile ⟨rollSize, flushInterval, checkEveryN, 0, 0, 0, 0, none, []⟩ now).1

/-- `Append` behind the `Append` of the file. The clock is read as `now`, and in `RollFile` as `roll`. -/
def afterAppend (s : LogFile) (f : AppendFile) (now roll : ℤ) : LogFile :=
  if (f.written : ℤ) > s.rollSize then (rollFile { s with file := some f } roll).1
  else if s.count + 1 ≥ s.checkEveryN then
    if periodOf now ≠ s.startOfPeriod then (rollFile { s with file := some f, count := 0 } roll).1
    else if now - s.lastFlush > s.flushInterval then
      { s with file := some f.flush, count := 0, lastFlush := now }
    else { s with file := some f, count := 0 }
  else { s with file := some f, count := s.count + 1 }

inductive Action
  | append (logline : Bytes) (ws : List Fwrite) (now roll : ℤ)
  | flush

def deref : Option AppendFile → Checked AppendFile
  | some f => .ok f
  | none => .error .outOfBounds

/-- An `Append` that has not got all answers of `fwrite` has not returned. -/
def step (s : LogFile) : Action → Option (Checked LogFile)
  | .append logline ws now roll =>
    match deref s.file with
    | .ok f => (f.append logline ws).map fun f' ↦ .ok (s.afterAppend f' now roll)
    | .error fault => some (.error fault)
  | .flush => some ((deref s.file).map fun f ↦ { s with file := some f.flush })

def Steps (Pre : LogFile → Action → Prop) (s : Checked LogFile) (a : Action) (s' : Checked LogFile) : Prop :=
  ∃ t, s = .ok t ∧ Pre t a ∧ t.step a = some s'

def files (s : LogFile) : List AppendFile := s.closed ++ s.file.toList

def Action.lines : Action → List Bytes
  | .append logline _ _ _ => [logline]
  | .flush => []

/-- The lines stand in the files one file after the other, and each file has a later second in its name
than the ones before it. -/
structure Filed (lines : List Bytes) (s : LogFile) : Prop where
  content : ∃ gs g f, gs.flatten ++ g = lines ∧ List.Forall₂ AppendFile.Holds s.closed gs ∧
    s.file = some f ∧ f.Holds g ∧ f.opened = s.lastRoll
  sorted : s.closed.Pairwise fun f f' ↦ f.opened < f'.opened
  before : ∀ f ∈ s.closed, f.opened < s.lastRoll

variable {s s' : LogFile} {lines : List Bytes}

theorem rollFile_rollSize (s : LogFile) (now : ℤ) : (s.rollFile now).1.rollSize = s.rollSize := by
  unfold LogFile.rollFile
  split <;> rfl

theorem Filed.rollFile (h : s.Filed lines) (now : ℤ) : (s.rollFile now).1.Filed lines := by
  unfold LogFile.rollFile
  split
  next hnow =>
    obtain ⟨gs, g, f, hlines, hclosed, hfile, hf, hopened⟩ := h.content
    constructor
    · refine ⟨gs ++ [g], [], .new now, ?_, ?_, rfl, AppendFile.new_holds now, rfl⟩
      · rw [List.flatten_append, List.flatten_singleton, List.append_nil]
        exact hlines
      · rw [hfile]
        exact List.rel_append hclosed (.cons hf .nil)
    · rw [hfile]
      refine List.pairwise_append.mpr ⟨h.sorted, List.pairwise_singleton _ _, fun f' hf' g' hg' ↦ ?_⟩
      obtain rfl := List.mem_singleton.mp hg'
      exact (h.before f' hf').trans_eq hopened.symm
    · intro f' hf'
      rw [hfile] at hf'
      rcases List.mem_append.mp hf' with hf' | hf'
      · exact (h.before f' hf').trans hnow
      · obtain rfl := List.mem_singleton.mp hf'
        exact hopened.trans_lt hnow
  next => exact h

/-- What `Append` does behind the `Append` of the file: it rolls, or it keeps a file that is within the
limit. It looks at the day when it has counted `checkEveryN_` lines. -/
theorem afterAppend_cases (s : LogFile) (f : AppendFile) (now roll : ℤ) :
    (∃ count, s.afterAppend f now roll = (LogFile.rollFile { s with file := some f, count := count } roll).1 ∧
      (count = s.count ∨ count = 0)) ∨
    ∃ g count lastFlush, (g = f ∨ g = f.flush) ∧ (f.written : ℤ) ≤ s.rollSize ∧
      s.afterAppend f now roll = { s with file := some g, count := count, lastFlush := lastFlush } ∧
      (count = s.count + 1 ∧ count < s.checkEveryN ∨ count = 0 ∧ periodOf now = s.startOfPeriod) := by
  unfold afterAppend
  split
  next => exact .inl ⟨s.count, rfl, .inl rfl⟩
  next hsize =>
    have hsize := not_lt.mp hsize
    split
    next =>
      split
      next => exact .inl ⟨0, rfl, .inr rfl⟩
      next hday =>
        have hday := not_not.mp hday
        split
        next => exact .inr ⟨f.flush, 0, now, .inr rfl, hsize, rfl, .inr ⟨rfl, hday⟩⟩
        next => exact .inr ⟨f, 0, s.lastFlush, .inl rfl, hsize, rfl, .inr ⟨rfl, hday⟩⟩
    next hcount =>
      exact .inr ⟨f, s.count + 1, s.lastFlush, .inl rfl, hsize, rfl, .inl ⟨rfl, not_le.mp hcount⟩⟩

theorem step_cases {f : AppendFile} {a : Action} {r : Checked LogFile} (hfile : s.file = some f)
    (h : s.step a = some r) :
    (∃ logline ws now roll f', a = .append logline ws now roll ∧ f.append logline ws = some f' ∧
      r = .ok (s.afterAppend f' now roll)) ∨
    (a = .flush ∧ r = .ok { s with file := some f.flush }) := by
  cases a with
  | append logline ws now roll =>
    simp only [step, hfile, deref] at h
    obtain ⟨f', hf', hr⟩ := Option.map_eq_some_iff.mp h
    exact .inl ⟨logline, ws, now, roll, f', rfl, hf', hr.symm⟩
  | flush =>
    simp only [step, hfile, deref] at h
    exact .inr ⟨rfl, (Option.some.inj h).symm⟩

theorem Filed.setFile (h : s.Filed lines) {more : List Bytes} {f f' : AppendFile} (hfile : s.file = some f)
    (hf' : ∀ g, f.Holds g → f'.Holds (g ++ more)) (hopened : f'.opened = f.opened) (count lastFlush : ℤ) :
    Filed (lines ++ more) { s with file := some f', count := count, lastFlush := lastFlush } where
  content := by
    obtain ⟨gs, g, f₀, hlines, hclosed, hfile', hf, hopen⟩ := h.content
    obtain rfl := Option.some.inj (hfile.symm.trans hfile')
    exact ⟨gs, g ++ more, f', by rw [← List.append_assoc, hlines], hclosed, rfl, hf' g hf, hopened.trans hopen⟩
  sorted := h.sorted
  before := h.before

theorem Filed.step (h : s.Filed lines) {a : Action} {r : Checked LogFile} (hstep : s.step a = some r) :
    ∃ s', r = .ok s' ∧ s'.Filed (lines ++ a.lines) := by
  obtain ⟨-, -, f, -, -, hfile, -, -⟩ := h.content
  obtain ⟨logline, ws, now, roll, f', rfl, hf', rfl⟩ | ⟨rfl, rfl⟩ := step_cases hfile hstep
  · obtain ⟨p, hp⟩ := AppendFile.append_gains hf'
    refine ⟨_, rfl, ?_⟩
    obtain ⟨count, heq, -⟩ | ⟨g, count, lastFlush, hg, -, heq, -⟩ := s.afterAppend_cases f' now roll
    · rw [heq]
      exact (h.setFile hfile (fun _ ↦ hp.holds) hp.opened count s.lastFlush).rollFile roll
    · rw [heq]
      rcases hg with rfl | rfl
      · exact h.setFile hfile (fun _ ↦ hp.holds) hp.opened count lastFlush
      · exact h.setFile hfile (fun _ hg ↦ (hp.holds hg).flush) hp.opened count lastFlush
  · have hflush : ∀ g, f.Holds g → f.flush.Holds (g ++ []) := fun g hg ↦ by
      rw [List.append_nil]
      exact hg.flush
    exact ⟨_, rfl, h.setFile hfile hflush rfl s.count s.lastFlush⟩

theorem new_filed (rollSize flushInterval checkEveryN : ℤ) {now : ℤ} (hnow : 0 < now) :
    (new rollSize flushInterval checkEveryN now).Filed [] := by
  rw [new, LogFile.rollFile, if_pos hnow]
  exact ⟨⟨[], [], .new now, rfl, .nil, rfl, AppendFile.new_holds now, rfl⟩, .nil, fun f hf ↦ by cases hf⟩

section Runs

variable {rollSize flushInterval checkEveryN start : ℤ} {Pre : LogFile → Action → Prop}

theorem run_invariant_filed (hstart : 0 < start) {as : List Action} {r : Checked LogFile}
    (hrun : Run (Steps Pre) (.ok (new rollSize flushInterval checkEveryN start)) as r) :
    ∃ s, r = .ok s ∧ s.Filed (as.flatMap Action.lines) :=
  hrun.invariant_history Action.lines (l := []) (I := fun lines r ↦ ∃ s, r = .ok s ∧ s.Filed lines)
    (by
      rintro lines _ a r' ⟨s, rfl, hs⟩ ⟨t, ht, -, hstep⟩
      obtain rfl := Except.ok.inj ht
      exact hs.step hstep)
    ⟨_, rfl, new_filed rollSize flushInterval checkEveryN hstart⟩

/-- Whatever the clock says, also when it goes back, and however `fwrite` answers: rolling neither loses
nor repeats a line nor cuts one in two. The lines stand in the files in the order in which they came, a
file without an error has its lines in full, and no file is opened under the second of an older one. -/
theorem run_filed (hstart : 0 < start) {as : List Action} {r : Checked LogFile}
    (hrun : Run (Steps fun _ _ ↦ True) (.ok (new rollSize flushInterval checkEveryN start)) as r) :
    ∃ s, r = .ok s ∧ (s.files.Pairwise fun f f' ↦ f.opened < f'.opened) ∧
      ∃ gs : List (List Bytes), gs.flatten = as.flatMap Action.lines ∧
        List.Forall₂ AppendFile.Holds s.files gs := by
  obtain ⟨s, rfl, h⟩ := run_invariant_filed hstart hrun
  obtain ⟨gs, g, f, hlines, hclosed, hfile, hf, hopened⟩ := h.content
  refine ⟨s, rfl, ?_, gs ++ [g], ?_, ?_⟩
  · rw [files, hfile]
    refine List.pairwise_append.mpr ⟨h.sorted, List.pairwise_singleton _ _, fun f' hf' g' hg' ↦ ?_⟩
    obtain rfl := List.mem_singleton.mp hg'
    exact (h.before f' hf').trans_eq hopened.symm
  · rw [List.flatten_append, List.flatten_singleton]
    exact hlines
  · rw [files, hfile]
    exact List.rel_append hclosed (.cons hf .nil)

end Runs

def clockGoesBack : List Action :=
  [.append [65, 66] [⟨2, false⟩] 5 5, .append [67, 68] [⟨1, true⟩] 12 12,
    .append [69] [⟨1, false⟩] 13 13, .flush]

theorem run_filed_clockGoesBack : ∃ s, Run (Steps fun _ _ ↦ True) (.ok (new 1 3 1024 10)) clockGoesBack (.ok s) ∧
    s.files.map (fun f ↦ (f.opened, f.data, f.written)) = [(10, [65, 66, 67], 2), (12, [69], 1)] ∧
    ∃ gs : List (List Bytes), gs.flatten = [[65, 66], [67, 68], [69]] ∧
      List.Forall₂ AppendFile.Holds s.files gs := by
  obtain ⟨s, hrun, hfiles⟩ : ∃ s, Run (Steps fun _ _ ↦ True) (.ok (new 1 3 1024 10)) clockGoesBack (.ok s) ∧
      s.files.map (fun f ↦ (f.opened, f.data, f.written)) = [(10, [65, 66, 67], 2), (12, [69], 1)] :=
    ⟨_, .cons ⟨_, rfl, trivial, rfl⟩ (.cons ⟨_, rfl, trivial, rfl⟩ (.cons ⟨_, rfl, trivial, rfl⟩
      (.cons ⟨_, rfl, trivial, rfl⟩ (.nil _)))), by decide⟩
  obtain ⟨t, ht, -, hgs⟩ := run_filed (by decide) hrun
  obtain rfl := Except.ok.inj ht
  exact ⟨s, hrun, hfiles, hgs⟩

def Ticked (s : LogFile) : Action → Prop
  | .append _ _ _ roll => s.lastRoll < roll
  | .flush => True

instance (s : LogFile) (a : Action) : Decidable (s.Ticked a) :=
  match a with
  | .append _ _ _ roll => inferInstanceAs (Decidable (s.lastRoll < roll))
  | .flush => .isTrue trivial

/-- The file holds the lines and is within the limit but for the last of them. -/
def Limited (rollSize : ℤ) (f : AppendFile) (lines : List Bytes) : Prop :=
  f.Holds lines ∧ (f.error = false → (lines.dropLast.flatten.length : ℤ) ≤ rollSize)

def Sized (lines : List Bytes) (s : LogFile) : Prop :=
  ∃ gs g f, gs.flatten ++ g = lines ∧ List.Forall₂ (Limited s.rollSize) s.closed gs ∧ s.file = some f ∧
    f.Holds g ∧ (f.written : ℤ) ≤ s.rollSize

theorem limited_append {f f' : AppendFile} {g : List Bytes} {line p : Bytes} {rollSize : ℤ} (hf : f.Holds g)
    (hwritten : (f.written : ℤ) ≤ rollSize) (hp : f.Gains line 0 f' p) : Limited rollSize f' (g ++ [line]) := by
  refine ⟨hp.holds hf, fun herror ↦ ?_⟩
  rw [List.dropLast_concat, hf.length_flatten (hp.error herror)]
  exact hwritten

theorem limited_of_written {f : AppendFile} {g : List Bytes} {rollSize : ℤ} (hf : f.Holds g)
    (hwritten : (f.written : ℤ) ≤ rollSize) : Limited rollSize f g := by
  refine ⟨hf, fun herror ↦ ?_⟩
  have hle : g.dropLast.flatten.length ≤ g.flatten.length := (List.dropLast_sublist g).flatten.length_le
  rw [hf.length_flatten herror] at hle
  omega

theorem Sized.rolled {gs : List (List Bytes)} {g : List Bytes} {f : AppendFile}
    (hclosed : List.Forall₂ (Limited s.rollSize) s.closed gs) (hf : Limited s.rollSize f g)
    (hsize : 0 ≤ s.rollSize) {roll : ℤ} (hroll : s.lastRoll < roll) (count : ℤ) :
    (LogFile.rollFile { s with file := some f, count := count } roll).1.Sized (gs.flatten ++ g) := by
  rw [LogFile.rollFile, if_pos hroll]
  refine ⟨gs ++ [g], [], .new roll, ?_, List.rel_append hclosed (.cons hf .nil), rfl,
    AppendFile.new_holds roll, hsize⟩
  rw [List.flatten_append, List.flatten_singleton, List.append_nil]

theorem Sized.step (h : s.Sized lines) (hsize : 0 ≤ s.rollSize) {a : Action} {r : Checked LogFile}
    (ha : s.Ticked a) (hstep : s.step a = some r) :
    ∃ s', r = .ok s' ∧ s'.Sized (lines ++ a.lines) ∧ s'.rollSize = s.rollSize := by
  obtain ⟨gs, g, f, rfl, hclosed, hfile, hf, hwritten⟩ := h
  obtain ⟨logline, ws, now, roll, f', rfl, hf', rfl⟩ | ⟨rfl, rfl⟩ := step_cases hfile hstep
  · obtain ⟨p, hp⟩ := AppendFile.append_gains hf'
    refine ⟨_, rfl, ?_⟩
    rw [Action.lines, List.append_assoc]
    obtain ⟨count, heq, -⟩ | ⟨f₁, count, lastFlush, hf₁, hwritten', heq, -⟩ := s.afterAppend_cases f' now roll
    · rw [heq]
      exact ⟨Sized.rolled hclosed (limited_append hf hwritten hp) hsize ha count, rollFile_rollSize _ _⟩
    · rw [heq]
      refine ⟨⟨gs, g ++ [logline], f₁, rfl, hclosed, rfl, ?_, ?_⟩, rfl⟩
      · rcases hf₁ with rfl | rfl <;> exact hp.holds hf
      · rcases hf₁ with rfl | rfl <;> exact hwritten'
  · refine ⟨_, rfl, ⟨gs, g, f.flush, ?_, hclosed, rfl, hf.flush, hwritten⟩, rfl⟩
    rw [Action.lines, List.append_nil]

theorem new_sized {rollSize flushInterval checkEveryN start : ℤ} (hsize : 0 ≤ rollSize) (hstart : 0 < start) :
    (new rollSize flushInterval checkEveryN start).Sized [] := by
  rw [new, LogFile.rollFile, if_pos hstart]
  exact ⟨[], [], .new start, rfl, .nil, rfl, AppendFile.new_holds start, hsize⟩

/-- When at every `Append` the clock has left the second of the last roll, the lines of each file but its
last one are together no longer than `rollSize_`, unless an error was seen. -/
theorem run_sizes {rollSize flushInterval checkEveryN start : ℤ} (hsize : 0 ≤ rollSize) (hstart : 0 < start)
    {as : List Action} {r : Checked LogFile}
    (hrun : Run (Steps Ticked) (.ok (new rollSize flushInterval checkEveryN start)) as r) :
    ∃ s, r = .ok s ∧ ∃ gs : List (List Bytes), gs.flatten = as.flatMap Action.lines ∧
      List.Forall₂ (fun f g ↦ f.Holds g ∧ (f.error = false → (g.dropLast.flatten.length : ℤ) ≤ rollSize))
        s.files gs := by
  obtain ⟨s, rfl, ⟨gs, g, f, hlines, hclosed, hfile, hf, hwritten⟩, rfl⟩ :=
    hrun.invariant_history Action.lines (l := [])
      (I := fun lines r ↦ ∃ s, r = .ok s ∧ s.Sized lines ∧ s.rollSize = rollSize)
      (by
        rintro lines _ a r' ⟨s, rfl, hs, hconst⟩ ⟨t, ht, ha, hstep⟩
        obtain rfl := Except.ok.inj ht
        obtain ⟨s', hr, hs', hsame⟩ := hs.step (hconst ▸ hsize) ha hstep
        exact ⟨s', hr, hs', hsame.trans hconst⟩)
      ⟨_, rfl, new_sized hsize hstart, rollFile_rollSize _ _⟩
  refine ⟨s, rfl, gs ++ [g], ?_, ?_⟩
  · rw [List.flatten_append, List.flatten_singleton]
    exact hlines
  · rw [files, hfile]
    exact List.rel_append hclosed (.cons (limited_of_written hf hwritten) .nil)

theorem run_sizes_twoFiles : ∃ s,
    Run (Steps Ticked) (.ok (new 1 3 1024 10))
      [.append [65, 66] [⟨2, false⟩] 11 11, .append [67] [⟨1, false⟩] 12 12] (.ok s) ∧
    s.files.map (·.data) = [[65, 66], [67]] ∧
    ∃ gs : List (List Bytes), gs.flatten = [[65, 66], [67]] ∧
      List.Forall₂ (fun f g ↦ f.Holds g ∧ (f.error = false → (g.dropLast.flatten.length : ℤ) ≤ 1))
        s.files gs := by
  obtain ⟨s, hrun, hfiles⟩ : ∃ s, Run (Steps Ticked) (.ok (new 1 3 1024 10))
      [.append [65, 66] [⟨2, false⟩] 11 11, .append [67] [⟨1, false⟩] 12 12] (.ok s) ∧
      s.files.map (·.data) = [[65, 66], [67]] :=
    ⟨_, .cons ⟨_, rfl, by decide, rfl⟩ (.cons ⟨_, rfl, by decide, rfl⟩ (.nil _)), by decide⟩
  obtain ⟨t, ht, hsizes⟩ := run_sizes (by decide) (by decide) hrun
  obtain rfl := Except.ok.inj ht
  exact ⟨s, hrun, hfiles, hsizes⟩

/-- Readings of the clock from another day than that of the current file, and past the last roll. -/
def AnotherDay (s : LogFile) : Action → Prop
  | .append _ _ now roll => periodOf now ≠ s.startOfPeriod ∧ s.lastRoll < roll
  | .flush => True

instance (s : LogFile) (a : Action) : Decidable (s.AnotherDay a) :=
  match a with
  | .append _ _ now roll => inferInstanceAs (Decidable (periodOf now ≠ s.startOfPeriod ∧ s.lastRoll < roll))
  | .flush => .isTrue trivial

def Counted (s : LogFile) : Prop := 0 ≤ s.count ∧ s.count < s.checkEveryN

structure Unrolled (s₀ : LogFile) (k : ℕ) (s : LogFile) : Prop where
  closed : s.closed = s₀.closed
  startOfPeriod : s.startOfPeriod = s₀.startOfPeriod
  lastRoll : s.lastRoll = s₀.lastRoll
  checkEveryN : s.checkEveryN = s₀.checkEveryN
  count : s.count = s₀.count + k
  counted : s.Counted

theorem file_of_step_ok {a : Action} (h : s.step a = some (.ok s')) : ∃ f, s.file = some f := by
  cases hf : s.file with
  | some f => exact ⟨f, rfl⟩
  | none => cases a <;> simp only [step, hf, deref] at h <;> cases h

theorem rollFile_counted (s : LogFile) (now : ℤ) (h : s.Counted) : (s.rollFile now).1.Counted := by
  unfold LogFile.rollFile
  split <;> exact h

theorem Counted.step (h : s.Counted) {a : Action} (hstep : s.step a = some (.ok s')) :
    s'.Counted ∧ s'.checkEveryN = s.checkEveryN := by
  have hpos : 0 < s.checkEveryN := h.1.trans_lt h.2
  obtain ⟨f, hfile⟩ := file_of_step_ok hstep
  obtain ⟨logline, ws, now, roll, f', rfl, -, heq⟩ | ⟨rfl, heq⟩ := step_cases hfile hstep
  · obtain rfl := Except.ok.inj heq
    obtain ⟨count, heq, hcount⟩ | ⟨g, count, lastFlush, -, -, heq, hcount⟩ := s.afterAppend_cases f' now roll
    · rw [heq]
      refine ⟨rollFile_counted _ roll ?_, ?_⟩
      · rcases hcount with rfl | rfl
        · exact h
        · exact ⟨le_rfl, hpos⟩
      · unfold LogFile.rollFile
        split <;> rfl
    · rw [heq]
      refine ⟨?_, rfl⟩
      obtain ⟨rfl, hlt⟩ | ⟨rfl, -⟩ := hcount
      · exact ⟨by have := h.1; dsimp only; omega, hlt⟩
      · exact ⟨le_rfl, hpos⟩
  · obtain rfl := Except.ok.inj heq
    exact ⟨h, rfl⟩

theorem Unrolled.step {s₀ : LogFile} {k : ℕ} (h : s₀.Unrolled k s) {a : Action} (ha : s₀.AnotherDay a)
    (hstep : s.step a = some (.ok s')) :
    s₀.Unrolled (k + a.lines.length) s' ∨ s₀.closed.length < s'.closed.length := by
  have hcounted := h.counted.step hstep
  obtain ⟨f, hfile⟩ := file_of_step_ok hstep
  obtain ⟨logline, ws, now, roll, f', rfl, -, heq⟩ | ⟨rfl, heq⟩ := step_cases hfile hstep
  · obtain rfl := Except.ok.inj heq
    obtain ⟨count, heq, -⟩ | ⟨g, count, lastFlush, -, -, heq, hcount⟩ := s.afterAppend_cases f' now roll
    · right
      rw [heq, LogFile.rollFile, if_pos (h.lastRoll ▸ ha.2)]
      simp only [Option.map_some, Option.toList_some, List.length_append, List.length_singleton, h.closed]
      omega
    · left
      obtain ⟨rfl, -⟩ | ⟨-, hday⟩ := hcount
      · rw [heq] at hcounted ⊢
        refine ⟨h.closed, h.startOfPeriod, h.lastRoll, h.checkEveryN, ?_, hcounted.1⟩
        have := h.count
        simp only [Action.lines, List.length_singleton]
        push_cast
        omega
      · exact absurd (hday.trans h.startOfPeriod) ha.1
  · obtain rfl := Except.ok.inj heq
    exact .inl ⟨h.closed, h.startOfPeriod, h.lastRoll, h.checkEveryN, h.count, h.counted⟩

theorem closed_length_le {a : Action} (hstep : s.step a = some (.ok s')) :
    s.closed.length ≤ s'.closed.length := by
  obtain ⟨f, hfile⟩ := file_of_step_ok hstep
  obtain ⟨logline, ws, now, roll, f', rfl, -, heq⟩ | ⟨rfl, heq⟩ := step_cases hfile hstep
  · obtain rfl := Except.ok.inj heq
    obtain ⟨count, heq, -⟩ | ⟨g, count, lastFlush, -, -, heq, -⟩ := s.afterAppend_cases f' now roll
    · rw [heq]
      unfold LogFile.rollFile
      split
      · exact (List.prefix_append _ _).length_le
      · exact le_rfl
    · rw [heq]
  · obtain rfl := Except.ok.inj heq
    exact le_rfl

def Succeeds (s : LogFile) (a : Action) (s' : LogFile) : Prop := s.step a = some (.ok s')

/-- When the day changes, at most `checkEveryN_` lines still go to the old file: by the time that many have
been appended with the clock on another day and past the last roll, a new file has been opened. -/
theorem run_rolls_on_new_day {rollSize flushInterval checkEveryN start : ℤ} (hn : 0 < checkEveryN)
    {before as : List Action} (hbefore : Run Succeeds (new rollSize flushInterval checkEveryN start) before s)
    (hrun : Run Succeeds s as s') (hday : ∀ a ∈ as, s.AnotherDay a)
    (hmany : checkEveryN ≤ (as.flatMap Action.lines).length) : s.closed.length < s'.closed.length := by
  have hcounted : s.Counted ∧ s.checkEveryN = checkEveryN := by
    refine hbefore.invariant (I := fun s ↦ s.Counted ∧ s.checkEveryN = checkEveryN) ?_ ?_
    · intro s a s' hs hstep
      obtain ⟨hs', hsame⟩ := hs.1.step hstep
      exact ⟨hs', hsame.trans hs.2⟩
    · refine ⟨rollFile_counted _ start ⟨le_rfl, hn⟩, ?_⟩
      rw [new]
      unfold LogFile.rollFile
      split <;> rfl
  have hend : ∀ k s₁, s.Unrolled k s₁ ∨ s.closed.length < s₁.closed.length → Run Succeeds s₁ as s' →
      s.Unrolled (k + (as.flatMap Action.lines).length) s' ∨ s.closed.length < s'.closed.length := by
    clear hrun hmany
    intro k s₁ h hrun
    induction hrun generalizing k with
    | nil s₁ => exact h
    | @cons s₁ s₂ s' a as hstep _ ih =>
      rw [List.flatMap_cons, List.length_append, ← Nat.add_assoc]
      refine ih (fun b hb ↦ hday b (List.mem_cons_of_mem a hb)) _ ?_
      rcases h with h | h
      · exact h.step (hday a List.mem_cons_self) hstep
      · exact .inr (h.trans_le (closed_length_le hstep))
  obtain h | h := hend 0 s (.inl ⟨rfl, rfl, rfl, rfl, (add_zero _).symm, hcounted.1⟩) hrun
  · have hcount := h.count
    have hlt := h.counted.2
    rw [h.checkEveryN, hcounted.2, hcount] at hlt
    have hpos := hcounted.1.1
    omega
  · exact h

/-- The log is opened in the last second of a day, and every second line looks at the clock. -/
theorem run_rolls_on_new_day_midnight : ∃ s s',
    Run Succeeds (new 1000 3 2 86399) [.append [65] [⟨1, false⟩] 86399 86399] s ∧
    Run Succeeds s [.append [66] [⟨1, false⟩] 86400 86400, .append [67] [⟨1, false⟩] 86401 86401] s' ∧
    s.closed.length < s'.closed.length := by
  obtain ⟨s, s', hbefore, hrun, hday⟩ : ∃ s s',
      Run Succeeds (new 1000 3 2 86399) [.append [65] [⟨1, false⟩] 86399 86399] s ∧
      Run Succeeds s [.append [66] [⟨1, false⟩] 86400 86400, .append [67] [⟨1, false⟩] 86401 86401] s' ∧
      ∀ a ∈ ([.append [66] [⟨1, false⟩] 86400 86400, .append [67] [⟨1, false⟩] 86401 86401] : List Action),
        s.AnotherDay a := by
    exact ⟨_, _, .cons rfl (.nil _), .cons rfl (.cons rfl (.nil _)), by decide⟩
  exact ⟨s, s', hbefore, hrun, run_rolls_on_new_day (by decide) hbefore hrun hday (by decide)⟩

end LogFile

end Baize.Log
