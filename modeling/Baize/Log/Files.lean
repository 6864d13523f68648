import Baize.Log.LogFile
import Baize.Log.Order
import Baize.Net.InetAddress

namespace Baize.Log

open Lib

def noticeText (date : Bytes) (larger : ℕ) : Bytes :=
  (ascii "Dropped log messages at " ++ date ++ ascii ", " ++ Net.decimal larger ++
    ascii " larger buffers\n").take 255

/-- What `LogFile::Append` is given, where `date` is what the clock shows. -/
def Entry.text (date : Bytes) : Entry → Bytes
  | .notice larger => noticeText date larger
  | .block buffer => buffer.data

/-- What comes from outside in a call of `LogFile::Append`. -/
structure AppendCall where
  date : Bytes
  ws : List Fwrite
  now : ℤ
  roll : ℤ

structure Logging where
  front : AsyncLogging
  output : LogFile

namespace Logging

/-- The steps of `AsyncLogging`; an iteration of the writer meets the calls in its loop over the buffers. -/
inductive Action
  | append (logline : Bytes)
  | stop
  | test
  | swap
  | write (calls : List AppendCall)

def Action.front : Action → Log.Action
  | .append logline => .append logline
  | .stop => .stop
  | .test => .test
  | .swap => .swap
  | .write _ => .write

def appendAll : LogFile → List Entry → List AppendCall → Option (Checked LogFile)
  | output, [], _ => some (.ok output)
  | _, _ :: _, [] => none
  | output, e :: es, c :: cs =>
    andThen (output.step (.append (e.text c.date) c.ws c.now c.roll)) fun output ↦ appendAll output es cs

def stepOutput (s : Logging) (front : AsyncLogging) : Action → Option (Checked LogFile)
  | .write calls =>
    andThen (appendAll s.output (front.output.drop s.front.output.length) calls) fun output ↦ output.step .flush
  | .test => if front.phase = .done then s.output.step .flush else some (.ok s.output)
  | .append _ | .stop | .swap => some (.ok s.output)

def step (s : Logging) (a : Action) : Option (Checked Logging) :=
  andThen (s.front.step a.front) fun front ↦
    andThen (s.stepOutput front a) fun output ↦ some (.ok ⟨front, output⟩)

/-- Lines that fit into an empty buffer. -/
def Steps (s : Checked Logging) (a : Action) (s' : Checked Logging) : Prop :=
  ∃ t, s = .ok t ∧ t.front.Short a.front ∧ t.step a = some s'

end Logging

namespace LogFile

def ClosedFlushed (s : LogFile) : Prop := ∀ f ∈ s.closed, f.flushed = f.data.length

theorem ClosedFlushed.rollFile {s : LogFile} (h : s.ClosedFlushed) (now : ℤ) :
    (s.rollFile now).1.ClosedFlushed := by
  unfold LogFile.rollFile
  split
  next =>
    intro f hf
    rcases List.mem_append.mp hf with hf | hf
    · exact h f hf
    · obtain ⟨f', -, rfl⟩ := Option.map_eq_some_iff.mp (Option.mem_toList.mp hf)
      rfl
  next => exact h

theorem ClosedFlushed.step {s s' : LogFile} (h : s.ClosedFlushed) {a : Action}
    (hstep : s.step a = some (.ok s')) : s'.ClosedFlushed := by
  obtain ⟨f, hfile⟩ := file_of_step_ok hstep
  obtain ⟨logline, ws, now, roll, f', rfl, -, heq⟩ | ⟨rfl, heq⟩ := step_cases hfile hstep
  · obtain rfl := Except.ok.inj heq
    obtain ⟨count, heq, -⟩ | ⟨g, count, lastFlush, -, -, heq, -⟩ := s.afterAppend_cases f' now roll
    · rw [heq]
      exact ClosedFlushed.rollFile (s := { s with file := some f', count := count }) h roll
    · rw [heq]
      exact h
  · obtain rfl := Except.ok.inj heq
    exact h

theorem ClosedFlushed.flush {s : LogFile} {lines : List Bytes} (h : s.ClosedFlushed) (hs : s.Filed lines)
    {r : Checked LogFile} (hstep : s.step .flush = some r) :
    ∃ s', r = .ok s' ∧ s'.Filed lines ∧ ∀ f ∈ s'.files, f.flushed = f.data.length := by
  obtain ⟨s', rfl, hs'⟩ := hs.step hstep
  obtain ⟨f, hfile⟩ := file_of_step_ok hstep
  refine ⟨s', rfl, by simpa only [Action.lines, List.append_nil] using hs', fun g hg ↦ ?_⟩
  obtain ⟨logline, ws, now, roll, f', hf, -⟩ | ⟨-, heq⟩ := step_cases hfile hstep
  · cases hf
  · obtain rfl := Except.ok.inj heq
    rcases List.mem_append.mp hg with hg | hg
    · exact h g hg
    · obtain rfl := List.mem_singleton.mp hg
      rfl

end LogFile

namespace Logging

def texts (es : List (Entry × Bytes)) : List Bytes := es.map fun e ↦ e.1.text e.2

theorem exists_groups {gs : List (List Bytes)} {es : List (Entry × Bytes)} (h : gs.flatten = texts es) :
    ∃ hs : List (List (Entry × Bytes)), hs.flatten = es ∧ hs.map texts = gs := by
  induction gs generalizing es with
  | nil =>
    rw [List.flatten_nil, texts] at h
    exact ⟨[], (List.map_eq_nil_iff.mp h.symm).symm, rfl⟩
  | cons g gs ih =>
    obtain ⟨es₁, es₂, rfl, hg, hgs⟩ := List.append_eq_map_iff.mp h
    obtain ⟨hs, rfl, rfl⟩ := ih hgs.symm
    exact ⟨es₁ :: hs, rfl, by rw [List.map_cons]; exact congrArg (· :: _) hg⟩

theorem appendAll_filed {output : LogFile} {lines : List Bytes} (h : output.Filed lines)
    (hc : output.ClosedFlushed)
    {es : List Entry} {calls : List AppendCall} {r : Checked LogFile} (hr : appendAll output es calls = some r) :
    ∃ output', r = .ok output' ∧ output'.ClosedFlushed ∧
      ∃ ds : List (Entry × Bytes), ds.map Prod.fst = es ∧ output'.Filed (lines ++ texts ds) := by
  induction es generalizing output lines calls with
  | nil =>
    rw [appendAll] at hr
    exact ⟨output, (Option.some.inj hr).symm, hc, [], rfl, by rwa [texts, List.map_nil, List.append_nil]⟩
  | cons e es ih =>
    cases calls with
    | nil => cases hr
    | cons c cs =>
      obtain ⟨output₁, ⟨h₁, hc₁⟩, hr₁⟩ := andThen_of_ok
        (P := fun output₁ ↦ output₁.Filed (lines ++ [e.text c.date]) ∧ output₁.ClosedFlushed) hr (by
          intro y hy
          obtain ⟨output₁, rfl, h₁⟩ := h.step hy
          exact ⟨output₁, rfl, h₁, hc.step hy⟩)
      obtain ⟨output', rfl, hc', ds, hds, h'⟩ := ih h₁ hc₁ hr₁
      refine ⟨output', rfl, hc', (e, c.date) :: ds, by rw [List.map_cons, hds], ?_⟩
      rwa [List.append_assoc] at h'

/-- The front end keeps its account of the lines, and the files hold what it has handed on. -/
structure Kept (lines : List Bytes) (s : Logging) : Prop where
  front : s.front.Inv
  accounts : ∃ batches, s.front.journal.Accounts lines batches
  filed : ∃ es : List (Entry × Bytes), es.map Prod.fst = s.front.output ∧ s.output.Filed (texts es)
  flushed : ∀ f ∈ s.output.files, f.flushed = f.data.length

theorem output_of_next {j j' : Journal} {a : Log.Action} (h : j.Next a j') :
    j'.output = j.output ∨ a = .write ∧ j'.output = j.output ++ written j.batch := by
  cases h with
  | append line | stop hrun | test hp | swap batch hp hb => exact .inl rfl
  | write hp => exact .inr ⟨rfl, rfl⟩

variable {s : Logging} {lines : List Bytes}

theorem Kept.stepOutput (h : s.Kept lines) {front : AsyncLogging} {a : Action}
    (hnext : s.front.journal.Next a.front front.journal) {r : Checked LogFile}
    (hr : s.stepOutput front a = some r) :
    ∃ output, r = .ok output ∧ (∀ f ∈ output.files, f.flushed = f.data.length) ∧
      ∃ es : List (Entry × Bytes), es.map Prod.fst = front.output ∧ output.Filed (texts es) := by
  obtain ⟨es, hes, hfiled⟩ := h.filed
  have hclosed : s.output.ClosedFlushed := fun f hf ↦ h.flushed f (List.mem_append_left _ hf)
  have hout := output_of_next hnext
  cases a with
  | write calls =>
    obtain ⟨output, ⟨hc, ds, hds, h'⟩, hflush⟩ := andThen_of_ok
      (P := fun output ↦ output.ClosedFlushed ∧ ∃ ds : List (Entry × Bytes),
        ds.map Prod.fst = front.output.drop s.front.output.length ∧ output.Filed (texts es ++ texts ds)) hr
      (fun _ ↦ appendAll_filed hfiled hclosed)
    obtain ⟨output', hr', h'', hflushed⟩ := hc.flush h' hflush
    refine ⟨output', hr', hflushed, es ++ ds, ?_, by rwa [texts, List.map_append]⟩
    have hprefix : s.front.output <+: front.output := by
      obtain hsame | ⟨-, hmore⟩ := hout
      · have hsame : front.output = s.front.output := hsame
        rw [hsame]
      · exact ⟨_, hmore.symm⟩
    rw [List.map_append, hes, hds, List.prefix_iff_eq_append.mp hprefix]
  | test =>
    have hsame : front.output = s.front.output := hout.resolve_right fun hw ↦ by cases hw.1
    simp only [Logging.stepOutput] at hr
    split at hr
    next =>
      obtain ⟨output', hr', h'', hflushed⟩ := hclosed.flush hfiled hr
      exact ⟨output', hr', hflushed, es, hes.trans hsame.symm, h''⟩
    next => exact ⟨s.output, (Option.some.inj hr).symm, h.flushed, es, hes.trans hsame.symm, hfiled⟩
  | append logline | stop | swap =>
    have hsame : front.output = s.front.output := hout.resolve_right fun hw ↦ by cases hw.1
    exact ⟨s.output, (Option.some.inj hr).symm, h.flushed, es, hes.trans hsame.symm, hfiled⟩

theorem Kept.step (h : s.Kept lines) {a : Action} (hshort : s.front.Short a.front) {r : Checked Logging}
    (hstep : s.step a = some r) : ∃ s', r = .ok s' ∧ s'.Kept (lines ++ a.front.lines) := by
  obtain ⟨front, ⟨hinv, hnext⟩, hrest⟩ := andThen_of_ok
    (P := fun front ↦ front.Inv ∧ s.front.journal.Next a.front front.journal) hstep (by
      intro y hy
      obtain ⟨front, hr, hinv, hnext, -⟩ := AsyncLogging.step_refines h.front hshort hy
      exact ⟨front, hr, hinv, hnext⟩)
  obtain ⟨output, ⟨hflushed, hfiled⟩, hr⟩ := andThen_of_ok hrest (fun _ ↦ h.stepOutput hnext)
  refine ⟨⟨front, output⟩, (Option.some.inj hr).symm, hinv, ?_, hfiled, hflushed⟩
  exact hnext.accounts (fun hp ↦ (h.front.idle hp).2.2) h.accounts

def start (rollSize flushInterval checkEveryN now : ℤ) : Logging :=
  ⟨.start, .new rollSize flushInterval checkEveryN now⟩

theorem start_kept (rollSize flushInterval checkEveryN : ℤ) {now : ℤ} (hnow : 0 < now) :
    (start rollSize flushInterval checkEveryN now).Kept [] where
  front := AsyncLogging.start_inv
  accounts := ⟨[], rfl, rfl⟩
  filed := ⟨[], rfl, LogFile.new_filed rollSize flushInterval checkEveryN hnow⟩
  flushed := by
    rw [start, LogFile.new, LogFile.rollFile, if_pos hnow]
    intro f hf
    obtain rfl := List.mem_singleton.mp hf
    rfl

/-- From `Append` to the files, for lines shorter than a buffer. Each file is a sequence of whole blocks and
notices, or of their beginnings where writing failed, and no block is split between two files; one file after
the other they are what the writer handed on, everything of it flushed. The blocks have the lines in the order
in which they were appended, and miss only those of the buffers that a notice tells of. -/
theorem run_reaches_files {rollSize flushInterval checkEveryN now : ℤ} (hnow : 0 < now) {as : List Action}
    {r : Checked Logging} (hrun : Run Steps (.ok (start rollSize flushInterval checkEveryN now)) as r) :
    ∃ s, r = .ok s ∧ (∀ f ∈ s.output.files, f.flushed = f.data.length) ∧
      (∃ gs : List (List (Entry × Bytes)), gs.flatten.map Prod.fst = s.front.output ∧
        List.Forall₂ (fun f g ↦ AppendFile.Holds f (texts g)) s.output.files gs) ∧
      ∃ batches : List (List Buffer), s.front.output = batches.flatMap written ∧
        as.flatMap (fun a ↦ a.front.lines) = linesOf (batches.flatten ++ s.front.buffersToWrite) ++
        s.front.pending := by
  obtain ⟨s, rfl, h⟩ := hrun.invariant_history (fun a : Action ↦ a.front.lines) (l := [])
    (I := fun lines r ↦ ∃ s, r = .ok s ∧ s.Kept lines)
    (by
      rintro lines _ a r' ⟨s, rfl, hs⟩ ⟨t, ht, hshort, hstep⟩
      obtain rfl := Except.ok.inj ht
      exact hs.step hshort hstep)
    ⟨_, rfl, start_kept rollSize flushInterval checkEveryN hnow⟩
  obtain ⟨batches, hout, hlines⟩ := h.accounts
  obtain ⟨es, hes, hfiled⟩ := h.filed
  obtain ⟨gs, g, f, htexts, hclosed, hfile, hf, -⟩ := hfiled.content
  have hgs : (gs ++ [g]).flatten = texts es := by
    rw [List.flatten_append, List.flatten_singleton]
    exact htexts
  obtain ⟨hs, rfl, hmap⟩ := exists_groups hgs
  refine ⟨s, rfl, h.flushed, ⟨hs, hes, ?_⟩, batches, hout, hlines⟩
  have hholds : List.Forall₂ AppendFile.Holds s.output.files (hs.map texts) := by
    rw [LogFile.files, hfile, hmap]
    exact List.rel_append hclosed (.cons hf .nil)
  exact List.forall₂_map_right_iff.mp hholds

/-- Two lines, and then an iteration of the writer in which the file is rolled. -/
theorem run_reaches_files_twoLines : ∃ s,
    Run Steps (.ok (start 0 3 1024 10))
      [.append [65], .test, .append [66], .swap, .write [⟨[], [⟨2, false⟩], 11, 11⟩]] (.ok s) ∧
      s.output.files.map (·.data) = [[65, 66], []] ∧ ∀ f ∈ s.output.files, f.flushed = f.data.length := by
  have hline : ∀ c : UInt8, [c].length < 4096 * 1024 := fun _ ↦ by
    rw [List.length_singleton]
    decide
  obtain ⟨s, hrun, hfiles⟩ : ∃ s,
      Run Steps (.ok (start 0 3 1024 10))
        [.append [65], .test, .append [66], .swap, .write [⟨[], [⟨2, false⟩], 11, 11⟩]] (.ok s) ∧
      s.output.files.map (·.data) = [[65, 66], []] :=
    ⟨_, .cons ⟨_, rfl, hline 65, rfl⟩ (.cons ⟨_, rfl, trivial, rfl⟩ (.cons ⟨_, rfl, hline 66, rfl⟩
      (.cons ⟨_, rfl, trivial, rfl⟩ (.cons ⟨_, rfl, trivial, rfl⟩ (.nil _))))), rfl⟩
  obtain ⟨t, ht, hflushed, -⟩ := run_reaches_files (by decide) hrun
  obtain rfl := Except.ok.inj ht
  exact ⟨s, hrun, hfiles, hflushed⟩

end Logging

end Baize.Log
