import Baize.Lib.Checked
import Baize.Lib.Run
import Baize.Util.Types

namespace Baize.Log

open Lib

/-- `FixedBuffer<size>`: the bytes in front of `cur_`, with a record of the
lines that they came from. -/
structure FixedBuffer (size : ℕ) where
  data : Bytes
  lines : List Bytes
  data_eq : data = lines.flatten
  length_le : data.length ≤ size
  deriving DecidableEq

namespace FixedBuffer

variable {size : ℕ}

def empty : FixedBuffer size := ⟨[], [], rfl, Nat.zero_le size⟩

def length (b : FixedBuffer size) : ℕ := b.data.length

def avail (b : FixedBuffer size) : ℕ := size - b.length

def append (b : FixedBuffer size) (buf : Bytes) : FixedBuffer size :=
  if h : buf.length < b.avail then
    { data := b.data ++ buf
      lines := b.lines ++ [buf]
      data_eq := by rw [b.data_eq, List.flatten_append, List.flatten_singleton]
      length_le := by rw [List.length_append]; unfold avail length at h; omega }
  else b

def reset (_ : FixedBuffer size) : FixedBuffer size := empty

end FixedBuffer

abbrev Buffer := FixedBuffer (4096 * 1024)

/-- The calls of `LogFile::Append`: the notice about dropped buffers, with the
number it tells, or the content of a buffer. -/
inductive Entry
  | notice (larger : ℕ)
  | block (buffer : Buffer)
  deriving DecidableEq

/-- Where the writer thread is in `ThreadFunc`: in front of `while (running_)`,
in front of its critical section or waiting in it, behind it, or at its end. -/
inductive Phase
  | test
  | swap
  | write
  | done
  deriving DecidableEq, Repr

structure AsyncLogging where
  running : Bool
  currentBuffer : Option Buffer
  nextBuffer : Option Buffer
  buffers : List Buffer
  output : List Entry
  phase : Phase
  newBuffer1 : Option Buffer
  newBuffer2 : Option Buffer
  buffersToWrite : List Buffer
  deriving DecidableEq

namespace AsyncLogging

/-- The state that `Start` leaves, with the thread in front of its loop. -/
def start : AsyncLogging :=
  ⟨true, some .empty, some .empty, [], [], .test, some .empty, some .empty, []⟩

def deref : Option Buffer → Checked Buffer
  | some b => pure b
  | none => .error .outOfBounds

def append (s : AsyncLogging) (logline : Bytes) : Checked AsyncLogging := do
  let current ← deref s.currentBuffer
  if logline.length < current.avail then
    pure { s with currentBuffer := some (current.append logline) }
  else
    match s.nextBuffer with
    | some next =>
      pure { s with
        buffers := s.buffers ++ [current]
        currentBuffer := some (next.append logline)
        nextBuffer := none }
    | none =>
      pure { s with
        buffers := s.buffers ++ [current]
        currentBuffer := some (FixedBuffer.empty.append logline) }

def stop (s : AsyncLogging) : AsyncLogging := { s with running := false }

def test (s : AsyncLogging) : Checked AsyncLogging :=
  if s.running then do
    check (s.newBuffer1.any (fun b ↦ b.length = 0)) .assertion
    check (s.newBuffer2.any (fun b ↦ b.length = 0)) .assertion
    check (s.buffersToWrite = []) .assertion
    pure { s with phase := .swap }
  else pure { s with phase := .done }

def swap (s : AsyncLogging) : Checked AsyncLogging := do
  let current ← deref s.currentBuffer
  let s := { s with
    currentBuffer := s.newBuffer1
    newBuffer1 := none
    buffers := s.buffersToWrite
    buffersToWrite := s.buffers ++ [current]
    phase := .write }
  if s.nextBuffer.isNone then pure { s with nextBuffer := s.newBuffer2, newBuffer2 := none } else pure s

/-- A null `newBuffer` takes the last buffer that was written. -/
def recycle : Option Buffer → List Buffer → Checked (Option Buffer × List Buffer)
  | some b, buffersToWrite => pure (some b, buffersToWrite)
  | none, buffersToWrite =>
    match buffersToWrite.getLast? with
    | some b => pure (some b.reset, buffersToWrite.dropLast)
    | none => .error .assertion

def write (s : AsyncLogging) : Checked AsyncLogging := do
  check (s.buffersToWrite ≠ []) .assertion
  let (output, buffersToWrite) :=
    if 25 < s.buffersToWrite.length then
      (s.output ++ [.notice (s.buffersToWrite.length - 2)], s.buffersToWrite.take 2)
    else (s.output, s.buffersToWrite)
  let output := buffersToWrite.foldl (fun output buffer ↦ output ++ [.block buffer]) output
  let buffersToWrite := if 2 < buffersToWrite.length then buffersToWrite.take 2 else buffersToWrite
  let (newBuffer1, buffersToWrite) ← recycle s.newBuffer1 buffersToWrite
  let (newBuffer2, _) ← recycle s.newBuffer2 buffersToWrite
  pure { s with
    output := output
    newBuffer1 := newBuffer1
    newBuffer2 := newBuffer2
    buffersToWrite := []
    phase := .test }

end AsyncLogging

inductive Action
  | append (logline : Bytes)
  | stop
  | test
  | swap
  | write
  deriving DecidableEq, Repr

namespace AsyncLogging

def step (s : AsyncLogging) : Action → Option (Checked AsyncLogging)
  | .append logline => some (s.append logline)
  | .stop => if s.running then some (.ok s.stop) else none
  | .test => if s.phase = .test then some s.test else none
  | .swap => if s.phase = .swap then some s.swap else none
  | .write => if s.phase = .write then some s.write else none

/-- A step under the precondition `Pre`. Nothing follows a fault. -/
def Steps (Pre : AsyncLogging → Action → Prop) (s : Checked AsyncLogging) (a : Action)
    (s' : Checked AsyncLogging) : Prop :=
  ∃ t, s = .ok t ∧ Pre t a ∧ t.step a = some s'

end AsyncLogging

end Baize.Log
