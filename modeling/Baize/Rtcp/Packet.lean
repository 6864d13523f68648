import Baize.Lib.Framing
import Baize.Util.Types

namespace Baize.Rtcp

open Lib

def commonHeaderSize : ℕ := 4

def version (p : Bytes) : UInt8 := byte1 p 0 >>> 6

def count (p : Bytes) : UInt8 := byte1 p 0 &&& 0x1F

def type (p : Bytes) : UInt8 := byte1 p 1

def packetLen (p : Bytes) : ℕ := ((byte2 p 2).toNat + 1) * 4

def isRtcp (p : Bytes) : Bool :=
  commonHeaderSize ≤ p.length && (byte1 p 0 > 127 && byte1 p 0 < 192) && version p == 2 &&
    (type p ≥ 192 && type p ≤ 223)

inductive Decoder
  | sr
  | rr
  | sdes
  | pli
  deriving DecidableEq, Repr

def decoder (header : Bytes) : Option Decoder :=
  if type header = 200 then some .sr
  else if type header = 201 then some .rr
  else if type header = 202 then some .sdes
  else if type header = 206 then
    if count header = 1 then some .pli else none
  else none

structure Outcome where
  ret : ℤ
  calls : List (Decoder × Bytes)
  deriving DecidableEq, Repr

/-- The loop of `ProcessRtcp`: `rest` are the bytes from `data` on. With fewer than
four of them the header reads run past the end, and whatever they find is too long. -/
def processLoop (packet rest : Bytes) : Outcome :=
  if rest.length = 0 then ⟨0, []⟩
  else if !isRtcp packet then ⟨-1, []⟩
  else if rest.length < packetLen rest then ⟨-1, []⟩
  else
    let next := processLoop packet (rest.drop (packetLen rest))
    match decoder rest with
    | some d => ⟨next.ret, (d, packet) :: next.calls⟩
    | none => next
termination_by rest.length
decreasing_by
  rw [List.length_drop, packetLen]
  omega

def processRtcp (packet : Bytes) : Outcome := processLoop packet packet

end Baize.Rtcp
