import Baize.Log.AsyncLogging

namespace Baize.Log

open Lib

/-- What is handed to the file for the buffers of one iteration: all of them,
or a notice and the first two. -/
def written (batch : List Buffer) : List Entry :=
  if 25 < batch.length then .notice (batch.length - 2) :: (batch.take 2).map .block
  else batch.map .block

def Entry.lines : Entry → List Bytes
  | .notice _ => []
  | .block buffer => buffer.lines

def Action.lines : Action → List Bytes
  | .append logline => [logline]
  | .stop | .test | .swap | .write => []

def linesOf (buffers : List Buffer) : List Bytes := buffers.flatMap (·.lines)

@[simp] theorem linesOf_nil : linesOf [] = [] := rfl

@[simp] theorem linesOf_append (bs cs : List Buffer) :
    linesOf (bs ++ cs) = linesOf bs ++ linesOf cs := List.flatMap_append

@[simp] theorem linesOf_singleton (b : Buffer) : linesOf [b] = b.lines := by
  rw [linesOf, List.flatMap_singleton]

/-- The log as a sequence of lines: those that wait in the buffers, those of
the batch the writer has taken, and what the file got. -/
structure Journal where
  running : Bool
  phase : Phase
  output : List Entry
  batch : List Buffer
  pending : List Bytes

/-- The steps of the log. A swap takes everything that waits. -/
inductive Journal.Next : Journal → Action → Journal → Prop
  | append (j : Journal) (line : Bytes) :
      Next j (.append line) { j with pending := j.pending ++ [line] }
  | stop (j : Journal) (h : j.running = true) : Next j .stop { j with running := false }
  | test (j : Journal) (h : j.phase = .test) :
      Next j .test { j with phase := if j.running then .swap else .done }
  | swap (j : Journal) (batch : List Buffer) (h : j.phase = .swap) (hb : linesOf batch = j.pending) :
      Next j .swap { j with phase := .write, batch := batch, pending := [] }
  | write (j : Journal) (h : j.phase = .write) :
      Next j .write { j with phase := .test, output := j.output ++ written j.batch, batch := [] }

namespace AsyncLogging

def pending (s : AsyncLogging) : List Bytes := linesOf (s.buffers ++ s.currentBuffer.toList)

def journal (s : AsyncLogging) : Journal :=
  ⟨s.running, s.phase, s.output, s.buffersToWrite, s.pending⟩

structure Inv (s : AsyncLogging) : Prop where
  current : s.currentBuffer ≠ none
  next_empty : ∀ b ∈ s.nextBuffer, b = .empty
  next_none : s.nextBuffer = none → s.buffers ≠ []
  idle : s.phase ≠ .write →
    s.newBuffer1 = some .empty ∧ s.newBuffer2 = some .empty ∧ s.buffersToWrite = []
  writing : s.phase = .write → s.newBuffer1 = none ∧ s.buffersToWrite ≠ [] ∧
    (s.newBuffer2 = some .empty ∨ s.newBuffer2 = none ∧ 2 ≤ s.buffersToWrite.length)

theorem start_inv : Inv start where
  current := Option.some_ne_none _
  next_empty b hb := (Option.some.inj hb).symm
  next_none h := absurd h (Option.some_ne_none _)
  idle _ := ⟨rfl, rfl, rfl⟩
  writing h := by cases h

theorem lines_append_empty {line : Bytes} (h : line.length < 4096 * 1024) :
    ((FixedBuffer.empty : Buffer).append line).lines = [line] := by
  have hroom : line.length < (FixedBuffer.empty : Buffer).avail := h
  rw [FixedBuffer.append, dif_pos hroom]
  rfl

theorem append_cases {s : AsyncLogging} (hs : Inv s) (line : Bytes) :
    ∃ current, s.currentBuffer = some current ∧
      (line.length < current.avail ∧ s.append line = .ok { s with currentBuffer := some (current.append line) } ∨
        s.append line = .ok { s with
          buffers := s.buffers ++ [current]
          currentBuffer := some (FixedBuffer.empty.append line)
          nextBuffer := none }) := by
  obtain ⟨current, hcur⟩ := Option.ne_none_iff_exists'.mp hs.current
  refine ⟨current, hcur, ?_⟩
  unfold append
  rw [hcur]
  dsimp only [deref]
  rw [pure_eq_ok, ok_bind]
  split
  · next hroom => exact .inl ⟨hroom, rfl⟩
  · right
    cases hnext : s.nextBuffer with
    | some next =>
      obtain rfl := hs.next_empty next hnext
      rfl
    | none => rfl

theorem append_inv {s : AsyncLogging} (hs : Inv s) (line : Bytes) : ∃ s', s.append line = .ok s' ∧ Inv s' := by
  obtain ⟨current, -, ⟨-, happend⟩ | happend⟩ := append_cases hs line
  · exact ⟨_, happend, Option.some_ne_none _, hs.next_empty, hs.next_none, hs.idle, hs.writing⟩
  · have hne : s.buffers ++ [current] ≠ [] := List.append_ne_nil_of_right_ne_nil _ (List.cons_ne_nil _ _)
    exact ⟨_, happend, Option.some_ne_none _, fun b hb ↦ absurd hb (Option.not_mem_none b), fun _ ↦ hne, hs.idle,
      hs.writing⟩

theorem append_spec {s : AsyncLogging} (hs : Inv s) {line : Bytes} (h : line.length < 4096 * 1024) :
    ∃ s', s.append line = .ok s' ∧ Inv s' ∧
      s'.journal = { s.journal with pending := s.pending ++ [line] } := by
  obtain ⟨s', hs', hinv⟩ := append_inv hs line
  refine ⟨s', hs', hinv, ?_⟩
  obtain ⟨current, hcur, ⟨hroom, happend⟩ | happend⟩ := append_cases hs line
  · obtain rfl := Except.ok.inj (happend.symm.trans hs')
    simp only [journal, pending, hcur, Option.toList_some, linesOf_append, linesOf_singleton,
      List.append_assoc]
    rw [FixedBuffer.append, dif_pos hroom]
  · obtain rfl := Except.ok.inj (happend.symm.trans hs')
    simp only [journal, pending, hcur, Option.toList_some, linesOf_append, linesOf_singleton,
      lines_append_empty h]

theorem test_spec {s : AsyncLogging} (hs : Inv s) (hp : s.phase = .test) :
    ∃ s', s.test = .ok s' ∧ Inv s' ∧
      s'.journal = { s.journal with phase := if s.running then .swap else .done } := by
  obtain ⟨h₁, h₂, hw⟩ := hs.idle (by rw [hp]; decide)
  unfold test
  split
  · next hrun =>
    refine ⟨{ s with phase := .swap }, ?_, ?_, rfl⟩
    · rw [h₁, h₂, hw]
      rfl
    · exact ⟨hs.current, hs.next_empty, hs.next_none, fun _ ↦ ⟨h₁, h₂, hw⟩, fun h ↦ by cases h⟩
  · refine ⟨{ s with phase := .done }, rfl, ?_, rfl⟩
    exact ⟨hs.current, hs.next_empty, hs.next_none, fun _ ↦ ⟨h₁, h₂, hw⟩, fun h ↦ by cases h⟩

theorem swap_spec {s : AsyncLogging} (hs : Inv s) (hp : s.phase = .swap) :
    ∃ s' batch, s.swap = .ok s' ∧ Inv s' ∧ linesOf batch = s.pending ∧
      batch.length = s.buffers.length + 1 ∧
      s'.journal = { s.journal with phase := .write, batch := batch, pending := [] } := by
  obtain ⟨h₁, h₂, hw⟩ := hs.idle (by rw [hp]; decide)
  obtain ⟨current, hcur⟩ := Option.ne_none_iff_exists'.mp hs.current
  have hbatch : linesOf (s.buffers ++ [current]) = s.pending := by rw [pending, hcur]; rfl
  have hlen : (s.buffers ++ [current]).length = s.buffers.length + 1 := List.length_append
  have hne : s.buffers ++ [current] ≠ [] := List.append_ne_nil_of_right_ne_nil _ (List.cons_ne_nil _ _)
  unfold swap
  rw [hcur]
  dsimp only [deref]
  rw [pure_eq_ok, ok_bind, h₁, h₂, hw]
  cases hnext : s.nextBuffer with
  | some next =>
    refine ⟨_, _, rfl, ⟨Option.some_ne_none _, ?_, ?_, fun h ↦ absurd rfl h,
      fun _ ↦ ⟨rfl, hne, .inl rfl⟩⟩, hbatch, hlen, rfl⟩
    · exact hnext ▸ hs.next_empty
    · exact fun h ↦ absurd h (Option.some_ne_none _)
  | none =>
    -- the spare buffer was used up, so a full buffer is waiting besides the current one
    have hpos := List.length_pos_of_ne_nil (hs.next_none hnext)
    refine ⟨_, _, rfl, ⟨Option.some_ne_none _, ?_, ?_, fun h ↦ absurd rfl h,
      fun _ ↦ ⟨rfl, hne, .inr ⟨rfl, ?_⟩⟩⟩, hbatch, hlen, rfl⟩
    · exact fun b hb ↦ (Option.some.inj hb).symm
    · exact fun h ↦ absurd h (Option.some_ne_none _)
    · rw [hlen]
      omega

theorem recycle_some (b : Buffer) (bs : List Buffer) : recycle (some b) bs = .ok (some b, bs) := rfl

theorem recycle_none {bs : List Buffer} (h : bs ≠ []) :
    recycle none bs = .ok (some .empty, bs.dropLast) := by
  rw [recycle, List.getLast?_eq_some_getLast h]
  rfl

theorem foldl_block (bs : List Buffer) (output : List Entry) :
    bs.foldl (fun output buffer ↦ output ++ [.block buffer]) output = output ++ bs.map .block := by
  induction bs generalizing output with
  | nil => rw [List.map_nil, List.append_nil, List.foldl_nil]
  | cons b bs ih => rw [List.foldl_cons, ih, List.append_assoc]; rfl

theorem write_spec {s : AsyncLogging} (hs : Inv s) (hp : s.phase = .write) :
    ∃ s', s.write = .ok s' ∧ Inv s' ∧
      s'.journal = { s.journal with
        phase := .test, output := s.output ++ written s.buffersToWrite, batch := [] } := by
  obtain ⟨h₁, hne, h₂⟩ := hs.writing hp
  have hpos := List.length_pos_of_ne_nil hne
  have hkept : s.buffersToWrite.take 2 ≠ [] := by
    rw [← List.length_pos_iff, List.length_take]
    omega
  -- the second pointer is null only when two buffers are left for recycling
  obtain ⟨bs, hrecycle⟩ : ∃ bs, recycle s.newBuffer2 (s.buffersToWrite.take 2).dropLast =
      .ok (some .empty, bs) := by
    rcases h₂ with h₂ | ⟨h₂, htwo⟩
    · exact ⟨_, by rw [h₂, recycle_some]⟩
    · refine ⟨_, by rw [h₂, recycle_none]; rw [← List.length_pos_iff, List.length_dropLast,
        List.length_take]; omega⟩
  have hresult : s.write = .ok { s with
      output := s.output ++ written s.buffersToWrite
      newBuffer1 := some .empty
      newBuffer2 := some .empty
      buffersToWrite := []
      phase := .test } := by
    unfold write written
    rw [check_of hne, ok_bind, h₁]
    by_cases hmany : 25 < s.buffersToWrite.length
    · have htake : ¬ 2 < (s.buffersToWrite.take 2).length := by rw [List.length_take]; omega
      simp only [if_pos hmany, foldl_block, if_neg htake, recycle_none hkept, ok_bind, hrecycle,
        pure_eq_ok, List.append_assoc, List.singleton_append]
    · have htake : (if 2 < s.buffersToWrite.length then s.buffersToWrite.take 2
          else s.buffersToWrite) = s.buffersToWrite.take 2 := by
        split
        · rfl
        · exact (List.take_of_length_le (by omega)).symm
      simp only [if_neg hmany, foldl_block, htake, recycle_none hkept, ok_bind, hrecycle, pure_eq_ok]
  refine ⟨_, hresult, ?_, rfl⟩
  exact ⟨hs.current, hs.next_empty, hs.next_none, fun _ ↦ ⟨rfl, rfl, rfl⟩, fun h ↦ by cases h⟩

def Short (_ : AsyncLogging) : Action → Prop
  | .append logline => logline.length < 4096 * 1024
  | .stop | .test | .swap | .write => True

/-- The code does to the lines what the log does, and none of its assertions fails. -/
theorem step_refines {s : AsyncLogging} {a : Action} {r : Checked AsyncLogging} (hs : Inv s)
    (hshort : Short s a) (h : s.step a = some r) :
    ∃ s', r = .ok s' ∧ Inv s' ∧ s.journal.Next a s'.journal ∧
      (a = .swap → s'.buffersToWrite.length = s.buffers.length + 1) := by
  cases a with
  | append line =>
    obtain ⟨s', hs', hinv, hj⟩ := append_spec hs hshort
    exact ⟨s', (Option.some.inj h).symm.trans hs', hinv, hj ▸ .append _ line, fun h ↦ by cases h⟩
  | stop =>
    obtain ⟨hrun, h⟩ := Option.ite_none_right_eq_some.mp h
    refine ⟨s.stop, (Option.some.inj h).symm, ?_, .stop _ hrun, fun h ↦ by cases h⟩
    exact ⟨hs.current, hs.next_empty, hs.next_none, hs.idle, hs.writing⟩
  | test =>
    obtain ⟨hp, h⟩ := Option.ite_none_right_eq_some.mp h
    obtain ⟨s', hs', hinv, hj⟩ := test_spec hs hp
    exact ⟨s', (Option.some.inj h).symm.trans hs', hinv, hj ▸ .test _ hp, fun h ↦ by cases h⟩
  | swap =>
    obtain ⟨hp, h⟩ := Option.ite_none_right_eq_some.mp h
    obtain ⟨s', batch, hs', hinv, hlines, hlen, hj⟩ := swap_spec hs hp
    refine ⟨s', (Option.some.inj h).symm.trans hs', hinv, hj ▸ .swap _ batch hp hlines, fun _ ↦ ?_⟩
    rw [← hlen]
    exact congrArg (fun j ↦ j.batch.length) hj
  | write =>
    obtain ⟨hp, h⟩ := Option.ite_none_right_eq_some.mp h
    obtain ⟨s', hs', hinv, hj⟩ := write_spec hs hp
    exact ⟨s', (Option.some.inj h).symm.trans hs', hinv, hj ▸ .write _ hp, fun h ↦ by cases h⟩

end AsyncLogging

namespace Journal

/-- The lines that were appended are those of the batches written so far, those
of the batch under way and those that wait, in this order. -/
def Accounts (lines : List Bytes) (j : Journal) (batches : List (List Buffer)) : Prop :=
  j.output = batches.flatMap written ∧ lines = linesOf (batches.flatten ++ j.batch) ++ j.pending

theorem Next.accounts {j j' : Journal} {a : Action} (h : j.Next a j')
    (hidle : j.phase ≠ .write → j.batch = []) {lines : List Bytes}
    (hj : ∃ batches, Accounts lines j batches) : ∃ batches, Accounts (lines ++ a.lines) j' batches := by
  obtain ⟨batches, hout, hlines⟩ := hj
  subst hlines
  cases h with
  | append line => exact ⟨batches, hout, List.append_assoc _ _ _⟩
  | stop hrun => exact ⟨batches, hout, List.append_nil _⟩
  | test hp => exact ⟨batches, hout, List.append_nil _⟩
  | swap batch hp hb =>
    refine ⟨batches, hout, ?_⟩
    rw [hidle (by rw [hp]; decide), ← hb]
    simp [Action.lines]
  | write hp =>
    refine ⟨batches ++ [j.batch], ?_, ?_⟩
    · rw [List.flatMap_append, List.flatMap_singleton, hout]
    · simp [Action.lines]

theorem lines_written_sublist (batch : List Buffer) :
    ((written batch).flatMap Entry.lines).Sublist (linesOf batch) := by
  have hblocks : ∀ bs : List Buffer, (bs.map Entry.block).flatMap Entry.lines = linesOf bs := by
    intro bs
    rw [List.flatMap_map]
    rfl
  unfold written
  split
  · rw [List.flatMap_cons, hblocks, Entry.lines, List.nil_append]
    exact (List.take_sublist 2 batch).flatMap _
  · rw [hblocks]

theorem Accounts.sublist {lines : List Bytes} {j : Journal} {batches : List (List Buffer)}
    (h : Accounts lines j batches) : (j.output.flatMap Entry.lines).Sublist lines := by
  have hbatches : ((batches.flatMap written).flatMap Entry.lines).Sublist (linesOf batches.flatten) := by
    clear h
    induction batches with
    | nil => exact List.Sublist.refl []
    | cons b bs ih =>
      rw [List.flatMap_cons, List.flatMap_append, List.flatten_cons, linesOf_append]
      exact (lines_written_sublist b).append ih
  rw [h.1, h.2, linesOf_append, List.append_assoc]
  exact hbatches.trans (List.sublist_append_left _ _)

end Journal

namespace AsyncLogging

/-- The file gets whole lines in the order in which they were appended. Of the
lines that were swapped out it misses those in buffers that a notice announces. -/
theorem run_keeps_order {as : List Action} {r : Checked AsyncLogging}
    (hrun : Run (Steps Short) (.ok start) as r) :
    ∃ s, r = .ok s ∧ (s.output.flatMap Entry.lines).Sublist (as.flatMap Action.lines) ∧
      (∀ b, .block b ∈ s.output → b.data = b.lines.flatten) ∧
      ∃ batches : List (List Buffer), s.output = batches.flatMap written ∧
        as.flatMap Action.lines = linesOf (batches.flatten ++ s.buffersToWrite) ++ s.pending := by
  obtain ⟨s, rfl, -, batches, hacc⟩ := hrun.invariant_history Action.lines (l := [])
    (I := fun lines r ↦ ∃ s, r = .ok s ∧ Inv s ∧ ∃ batches, s.journal.Accounts lines batches)
    (by
      rintro lines _ a r' ⟨s, rfl, hs, hacc⟩ ⟨t, ht, hshort, hstep⟩
      obtain rfl := Except.ok.inj ht
      obtain ⟨s', hr', hs', hnext, -⟩ := step_refines hs hshort hstep
      exact ⟨s', hr', hs', hnext.accounts (fun hp ↦ (hs.idle hp).2.2) hacc⟩)
    ⟨start, rfl, start_inv, [], rfl, rfl⟩
  exact ⟨s, rfl, hacc.sublist, fun b _ ↦ b.data_eq, batches, hacc.1, hacc.2⟩

theorem run_keeps_order_twoLines : ∃ s,
    Run (Steps Short) (.ok start) [.append [65], .test, .swap, .append [66], .write] (.ok s) ∧
      s.output.flatMap Entry.lines = [[65]] ∧
      (s.output.flatMap Entry.lines).Sublist [[65], [66]] := by
  have hline : ∀ c : UInt8, [c].length < 4096 * 1024 := fun _ ↦ by
    rw [List.length_singleton]
    decide
  obtain ⟨s, hrun, hout⟩ : ∃ s,
      Run (Steps Short) (.ok start) [.append [65], .test, .swap, .append [66], .write] (.ok s) ∧
      s.output.flatMap Entry.lines = [[65]] :=
    ⟨_, .cons ⟨_, rfl, hline 65, rfl⟩ (.cons ⟨_, rfl, trivial, rfl⟩ (.cons ⟨_, rfl, trivial, rfl⟩
      (.cons ⟨_, rfl, hline 66, rfl⟩ (.cons ⟨_, rfl, trivial, rfl⟩ (.nil _))))), rfl⟩
  obtain ⟨t, ht, hsub, -⟩ := run_keeps_order hrun
  obtain rfl := Except.ok.inj ht
  exact ⟨s, hrun, hout, hsub⟩

end AsyncLogging

end Baize.Log
