import Baize.Net.BufferRoom

namespace Baize.Net

open Lib

structure Pooled where
  id : ℕ
  buffer : Buffer

structure BufferPool where
  buffers : List Pooled

namespace BufferPool

def new (size : ℕ) : Checked BufferPool := do
  let b ← Buffer.make Buffer.kInitialSize
  pure ⟨(List.range size).map fun i ↦ ⟨i, b⟩⟩

/-- The pointer that is returned is null when the pool is empty. -/
def allocBuffer (p : BufferPool) : Option Pooled × BufferPool :=
  match p.buffers.getLast? with
  | some b => (some { b with buffer := b.buffer.takeAll }, ⟨p.buffers.dropLast⟩)
  | none => (none, p)

def bufferDelete (p : BufferPool) (b : Pooled) : BufferPool :=
  ⟨p.buffers ++ [{ b with buffer := b.buffer.takeAll }]⟩

/-- The destructor of a vector of buffers gives them back one after the other. -/
def deleteAll (p : BufferPool) (bs : List Pooled) : BufferPool := bs.foldl bufferDelete p

def ids (p : BufferPool) : List ℕ := p.buffers.map Pooled.id

theorem ids_bufferDelete (p : BufferPool) (b : Pooled) : (p.bufferDelete b).ids = p.ids ++ [b.id] := by
  simp only [ids, bufferDelete, List.map_append, List.map_singleton]

theorem ids_deleteAll (p : BufferPool) (bs : List Pooled) :
    (p.deleteAll bs).ids = p.ids ++ bs.map Pooled.id := by
  induction bs generalizing p with
  | nil => rw [deleteAll, List.foldl_nil, List.map_nil, List.append_nil]
  | cons b bs ih =>
    rw [deleteAll, List.foldl_cons]
    refine (ih (p.bufferDelete b)).trans ?_
    rw [ids_bufferDelete, List.map_cons, List.append_assoc, List.singleton_append]

end BufferPool

namespace Buffer

def maxDatagram : ℕ := 65507

/-- No datagram makes a buffer of the pool grow beyond `8 + 65507 + 65536`. -/
structure Sized (b : Buffer) : Prop where
  le_size : 1516 ≤ b.buffer.length
  size_le : b.buffer.length ≤ 131051

structure Ready (b : Buffer) : Prop extends Sized b where
  holds : Holds b []
  writer : b.writerIndex = 8

structure Filled (b : Buffer) (d : Bytes) : Prop extends Sized b where
  holds : Holds b d
  room : 1024 ≤ b.writableBytes

theorem Ready.writable_eq {b : Buffer} (h : b.Ready) : b.writableBytes = b.buffer.length - 8 := by
  rw [writableBytes, h.writer]

theorem takeAll_ready {b : Buffer} {q : Bytes} (h : b.Sized) (hq : Holds b q) : b.takeAll.Ready :=
  ⟨⟨h.le_size, h.size_le⟩, takeAll_holds hq, rfl⟩

theorem Ready.roomy {b : Buffer} (h : b.Ready) : Roomy b := by
  refine ⟨⟨[], h.holds⟩, h.le_size, ?_⟩
  have hsize := h.le_size
  rw [h.writable_eq]
  omega

theorem Ready.sizeAfter_le {b : Buffer} (h : b.Ready) {d : Bytes} (hmax : d.length ≤ maxDatagram) :
    b.buffer.length ≤ b.sizeAfter (.addReadableLength d d.length) ∧
      b.sizeAfter (.addReadableLength d d.length) ≤ 131051 := by
  have hsize := h.size_le
  have hw := h.writer
  unfold maxDatagram at hmax
  simp only [sizeAfter, reserveSize, sizeFor, writableBytes]
  split_ifs <;> omega

theorem Ready.receive_nil {b : Buffer} (h : b.Ready) : exec b (.addReadableLength [] 0) = .ok b := by
  obtain ⟨pre, post, hl⟩ := h.holds
  have hfill : fill b [] = .ok b := by
    simp only [fill, (hl.extend [] (Nat.zero_le _)).1, ok_bind, pure_eq_ok]
    simp only [List.length_nil, List.drop_zero, List.nil_append, ← hl.buffer_eq]
  rw [exec, hfill, ok_bind]
  rfl

theorem Ready.receive {b : Buffer} (h : b.Ready) {d : Bytes} (hroom : (d.length : ℤ) ≤ b.writableBytes)
    (hmax : d.length ≤ maxDatagram) : ∃ b', exec b (.addReadableLength d d.length) = .ok b' ∧ b'.Filled d := by
  have hle := h.le_size
  by_cases hnil : d = []
  · subst hnil
    exact ⟨b, h.receive_nil, h.toSized, h.holds, h.roomy.room⟩
  · have hpos : 0 < d.length := List.length_pos_of_ne_nil hnil
    obtain ⟨hlow, hhigh⟩ := h.sizeAfter_le hmax
    obtain ⟨b', he, hq, hlen⟩ := exec_spec b ⟨[], 0, Nat.zero_le _⟩ (.addReadableLength d d.length) h.holds
      ⟨by omega, (Int.toNat_natCast _).symm, hroom⟩
    have hread : ReadPre b (.addReadableLength d d.length) := ⟨(Int.toNat_natCast _).symm, by omega, hroom⟩
    exact ⟨b', he, ⟨by omega, by omega⟩, hq, (exec_roomy h.roomy hread he).room⟩

end Buffer

end Baize.Net
