import Baize.Lib.Run
import Baize.Net.Buffer
import Baize.Transfer.Header

namespace Baize.Transfer

open Lib Net StringPiece

structure FileTransferServer where
  buf : Buffer
  sent : Bytes

namespace FileTransferServer

def new (h : Header) : Checked FileTransferServer := do
  let buf ← Buffer.make 65536
  let buf ← h.pieces.foldlM (fun b (d : Bytes) ↦ b.append d d.length) buf
  pure ⟨buf, []⟩

def turn (s : FileTransferServer) (d : Bytes) : Checked FileTransferServer := do
  let buf ← s.buf.readFd (some d)
  pure ⟨buf.takeAll, s.sent ++ buf.slice⟩

def start (h : Header) (reads : List Bytes) : Checked FileTransferServer := do
  let s ← new h
  reads.foldlM turn s

def finish (s : FileTransferServer) : Checked Unit := check (s.buf.readableBytes = 0) .assertion

end FileTransferServer

/-- The client; `header` is there once `start_write_file` is set, `written` is what `file_writer_`
was given, and `fatal` says that the process has ended. -/
structure FileTransferClient where
  buf : Buffer
  header : Option Header
  written : Bytes
  fatal : Bool

namespace FileTransferClient

def new : Checked FileTransferClient := do
  let buf ← Buffer.make 65536
  pure ⟨buf, none, [], false⟩

def turn (c : FileTransferClient) (d : Bytes) : Checked FileTransferClient :=
  if c.fatal then pure c
  else do
    let buf ← c.buf.readFd (some d)
    if c.header.isNone then
      let msg := buf.slice
      let index := find msg bzftbody
      if index = msg.length then pure { c with buf := buf }
      else if msg.length < index + 8 + 8 then pure { c with buf := buf }
      else
        match Header.parse msg with
        | none => pure { c with buf := buf, fatal := true }
        | some (header, len) =>
          let buf ← buf.take len
          pure { c with buf := buf, header := some header }
    else pure { c with buf := buf.takeAll, written := c.written ++ buf.slice }

def start (chunks : List Bytes) : Checked FileTransferClient := do
  let c ← new
  chunks.foldlM turn c

end FileTransferClient

/-- `readv` returns some bytes, at most as many as there is room for. -/
def Readable (b : Buffer) (d : Bytes) : Prop := d ≠ [] ∧ (d.length : ℤ) ≤ b.readvLimit

def FileTransferServer.Reads (h : Header) (reads : List Bytes) : Prop :=
  ∀ s, new h = .ok s → Admissible turn (fun s d ↦ Readable s.buf d) s reads

/-- The stream may be read in these pieces. -/
def FileTransferClient.Reads (chunks : List Bytes) : Prop :=
  ∀ c, new = .ok c → Admissible turn (fun c d ↦ c.fatal = false → Readable c.buf d) c chunks

end Baize.Transfer
