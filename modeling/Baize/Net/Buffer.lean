import Baize.Lib.Checked
import Baize.Util.Types

namespace Baize.Net

open Lib

structure Buffer where
  buffer : Bytes
  readerIndex : ℤ
  writerIndex : ℤ
  deriving DecidableEq, Repr

namespace Buffer

def kCheapPrepend : ℤ := 8

def kInitialSize : ℤ := 1500 + 8

def extrabufSize : ℤ := 65536

def readableBytes (b : Buffer) : ℤ := b.writerIndex - b.readerIndex

def writableBytes (b : Buffer) : ℤ := b.buffer.length - b.writerIndex

def prependableBytes (b : Buffer) : ℤ := b.readerIndex

def slice (b : Buffer) : Bytes :=
  (b.buffer.drop b.readerIndex.toNat).take b.readableBytes.toNat

def make (initialSize : ℤ) : Checked Buffer := do
  let size ← int (kCheapPrepend + initialSize)
  let b : Buffer := ⟨List.replicate size.toNat 0, kCheapPrepend, kCheapPrepend⟩
  check (b.readableBytes = 0) .assertion
  check (b.writableBytes = initialSize) .assertion
  check (b.prependableBytes = kCheapPrepend) .assertion
  pure b

def copyInto (buf : Bytes) (i : ℤ) (d : Bytes) : Checked Bytes := do
  check (0 ≤ i ∧ i + d.length ≤ buf.length) .outOfBounds
  pure (buf.take i.toNat ++ d ++ buf.drop (i.toNat + d.length))

def resize (buf : Bytes) (n : ℕ) : Bytes := buf.take n ++ List.replicate (n - buf.length) 0

def makeSpace (b : Buffer) (len : ℤ) : Checked Buffer := do
  let room ← int (b.writableBytes + b.prependableBytes)
  let need ← int (len + kCheapPrepend)
  if room < need then
    let size ← int (b.writerIndex + len)
    pure { b with buffer := resize b.buffer size.toNat }
  else
    check (kCheapPrepend < b.readerIndex) .assertion
    let readable := b.readableBytes
    let moved ← copyInto b.buffer kCheapPrepend b.slice
    let b' : Buffer := ⟨moved, kCheapPrepend, kCheapPrepend + readable⟩
    check (readable = b'.readableBytes) .assertion
    pure b'

def ensureWritableBytes (b : Buffer) (len : ℤ) : Checked Buffer := do
  let b' ← if b.writableBytes < len then makeSpace b len else pure b
  check (len ≤ b'.writableBytes) .assertion
  pure b'

def append (b : Buffer) (data : Bytes) (len : ℤ) : Checked Buffer :=
  if 0 < len then do
    let b ← ensureWritableBytes b len
    let bytes ← copyInto b.buffer b.writerIndex (data.take len.toNat)
    let w ← int (b.writerIndex + len)
    pure { b with buffer := bytes, writerIndex := w }
  else pure b

def addReadableLength (b : Buffer) (len : ℤ) : Checked Buffer :=
  if len ≤ 0 then pure b
  else do
    let b ← ensureWritableBytes b len
    let w ← int (b.writerIndex + len)
    let b := { b with writerIndex := w }
    if b.writableBytes < 1024 then
      if (b.buffer.length : ℤ) < 65536 then ensureWritableBytes b b.buffer.length
      else ensureWritableBytes b 65536
    else pure b

def fill (b : Buffer) (d : Bytes) : Checked Buffer := do
  let bytes ← copyInto b.buffer b.writerIndex d
  pure { b with buffer := bytes }

def iovcnt (b : Buffer) : ℕ := if b.writableBytes < extrabufSize then 2 else 1

def readvLimit (b : Buffer) : ℤ :=
  if b.iovcnt = 2 then b.writableBytes + extrabufSize else b.writableBytes

/-- `r` is the outcome of `readv`: an error, or the bytes it scattered over the
writable area and then over `g_extrabuf`. -/
def readFd (b : Buffer) (r : Option Bytes) : Checked Buffer :=
  match r with
  | none => pure b
  | some d => do
    let writable := b.writableBytes
    let b ← fill b (d.take writable.toNat)
    if (d.length : ℤ) ≤ writable then
      let w ← int (b.writerIndex + d.length)
      pure { b with writerIndex := w }
    else
      let b := { b with writerIndex := (b.buffer.length : ℤ) }
      append b (d.drop writable.toNat) (d.length - writable)

def takeAll (b : Buffer) : Buffer :=
  { b with readerIndex := kCheapPrepend, writerIndex := kCheapPrepend }

def take (b : Buffer) (len : ℤ) : Checked Buffer :=
  if 0 < len then do
    check (len ≤ b.readableBytes) .assertion
    if len < b.readableBytes then
      let r ← int (b.readerIndex + len)
      pure { b with readerIndex := r }
    else pure b.takeAll
  else pure b

def takeUntil (b : Buffer) (pos : ℤ) : Checked Buffer := do
  check (b.readerIndex ≤ pos) .assertion
  check (pos ≤ b.writerIndex) .assertion
  take b (pos - b.readerIndex)

end Buffer

end Baize.Net
