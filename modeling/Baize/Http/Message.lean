import Baize.Lib.SortedMap
import Baize.Net.Buffer
import Baize.Util.StringPiece
import Mathlib.Data.List.Lex

namespace Baize.Http

open Lib StringPiece

abbrev Headers := SortedMap Bytes Bytes

structure HttpMessage where
  firstLine : Bytes
  headers : Headers
  body : Bytes
  deriving DecidableEq

namespace HttpMessage

def fresh : HttpMessage := ⟨[], .empty, []⟩

def crlf : Bytes := [13, 10]

def crlfcrlf : Bytes := [13, 10, 13, 10]

def colon : UInt8 := 58

def contentLength : Bytes := [67, 111, 110, 116, 101, 110, 116, 45, 76, 101, 110, 103, 116, 104]

/-- The length of the complete message that `message` begins with; `0` when it
is not complete, `-1` when its length cannot be read. -/
def checkCompleted (message : Bytes) : Checked ℤ :=
  let pos := find message crlfcrlf
  if pos = message.length then pure 0
  else
    let lengthHeader := message.take pos
    let headerBegin := find lengthHeader contentLength
    if headerBegin = lengthHeader.length then pure (pos + 4)
    else
      let lengthHeader := lengthHeader.drop headerBegin
      let headerEnd := find lengthHeader crlf
      if headerEnd = lengthHeader.length then pure (-1)
      else
        let lengthHeader := lengthHeader.take headerEnd
        let tmp := findChar lengthHeader colon
        if tmp = lengthHeader.length then pure (-1)
        else do
          let length := trimSpace (lengthHeader.drop (tmp + 1))
          let (len, stop) ← parseInt length 0
          if stop ≠ length.length then pure (-1)
          else
            let body := message.drop (pos + 4)
            if (body.length : ℤ) < len then pure 0 else int (pos + 4 + len)

/-- The header loop of `Decode` over `slice`, which starts at `base`. It ends
at `headersEnd`, or with `none` at a line that has no colon. -/
def headerLoop (slice : Bytes) (headersEnd : ℕ) (headers : Headers) (base : ℕ) :
    Checked (Headers × Option ℕ) :=
  let headerCrlf := base + find (slice.drop base) crlf
  if headerCrlf = headersEnd then pure (headers, some base)
  else
    let header := (slice.drop base).take (headerCrlf - base)
    let seg := findChar header colon
    if seg = header.length then pure (headers, none)
    else
      let key := trimSpace (header.take seg)
      let value := trimSpace (header.drop (seg + 1))
      if headerCrlf + 2 ≤ slice.length then
        headerLoop slice headersEnd (headers.insert key value) (headerCrlf + 2)
      else .error .assertion
termination_by slice.length - base

/-- `Decode` without its last step, which takes the message off the buffer. -/
def decodeSlice (m : HttpMessage) (slice : Bytes) : Checked (ℤ × HttpMessage) := do
  let parsedLen ← checkCompleted slice
  if parsedLen ≤ 0 then pure (parsedLen, m)
  else
    let firstLineEnd := find slice crlf
    if firstLineEnd = slice.length then pure (-1, m)
    else
      let m := { m with firstLine := slice.take firstLineEnd }
      check (firstLineEnd + 2 ≤ slice.length) .assertion
      let base := firstLineEnd + 2
      let headersEnd := base + find (slice.drop base) crlfcrlf
      if headersEnd = slice.length then pure (-1, m)
      else if base + find (slice.drop base) crlf = slice.length then pure (-1, m)
      else
        let (headers, stop) ← headerLoop slice headersEnd m.headers base
        let m := { m with headers := headers }
        match stop with
        | none => pure (-1, m)
        | some base =>
          check (base ≤ headersEnd + 4 ∧ headersEnd + 4 ≤ slice.length) .assertion
          let bodyLen : ℤ := parsedLen - (headersEnd + 4)
          -- `std::string(const char*, size_t)` throws when the length is negative
          check (0 ≤ bodyLen) .lengthError
          let body := slice.drop (headersEnd + 4)
          check (bodyLen ≤ body.length) .outOfBounds
          pure (parsedLen, { m with body := body.take bodyLen.toNat })

def decode (m : HttpMessage) (message : Net.Buffer) : Checked (ℤ × HttpMessage × Net.Buffer) := do
  let (n, m) ← decodeSlice m message.slice
  if 0 < n then
    let message ← message.take n
    pure (n, m, message)
  else pure (n, m, message)

def pieces (m : HttpMessage) : List Bytes :=
  [m.firstLine, crlf] ++ m.headers.entries.flatMap (fun item ↦ [item.1, [58, 32], item.2, crlf]) ++
    [crlf, m.body]

def encode (m : HttpMessage) (message : Net.Buffer) : Checked (ℤ × Net.Buffer) := do
  let message ← m.pieces.foldlM (fun b (s : Bytes) ↦ Net.Buffer.append b s s.length) message
  pure (message.readableBytes, message)

/-- The ways in which `decodeSlice` returns; the last one accepts a message. -/
theorem decodeSlice_cases {m m' : HttpMessage} {s : Bytes} {n : ℤ}
    (h : decodeSlice m s = .ok (n, m')) :
    (n ≤ 0 ∧ m' = m) ∨ n = -1 ∨ 0 < n ∧ ∃ hs base headersEnd,
      headersEnd = find s crlf + 2 + find (s.drop (find s crlf + 2)) crlfcrlf ∧
      headerLoop s headersEnd m.headers (find s crlf + 2) = .ok (hs, some base) ∧
      (headersEnd : ℤ) + 4 ≤ n ∧ n ≤ s.length ∧ m'.headers = hs := by
  have hneg : ∀ m₁ : HttpMessage, (Except.ok (-1, m₁) : Checked (ℤ × HttpMessage)) = .ok (n, m') →
      n = -1 := fun m₁ he ↦ (Prod.mk.inj (Except.ok.inj he)).1.symm
  unfold decodeSlice at h
  obtain ⟨parsedLen, hc, h⟩ := bind_eq_ok.mp h
  dsimp only at h
  split at h
  · next h0 =>
    obtain ⟨rfl, rfl⟩ := Prod.mk.inj (Except.ok.inj h)
    exact .inl ⟨h0, rfl⟩
  split at h
  · exact .inr (.inl (hneg _ h))
  obtain ⟨_, -, h⟩ := bind_eq_ok.mp h
  split at h
  · exact .inr (.inl (hneg _ h))
  split at h
  · exact .inr (.inl (hneg _ h))
  obtain ⟨⟨hs, stop⟩, hloop, h⟩ := bind_eq_ok.mp h
  cases stop with
  | none => exact .inr (.inl (hneg _ h))
  | some base =>
    obtain ⟨_, hend, h⟩ := bind_eq_ok.mp h
    obtain ⟨_, hpos, h⟩ := bind_eq_ok.mp h
    obtain ⟨_, hfit, h⟩ := bind_eq_ok.mp h
    obtain ⟨rfl, rfl⟩ := Prod.mk.inj (Except.ok.inj h)
    have hend := check_eq_ok hend
    have hpos := check_eq_ok hpos
    have hfit := check_eq_ok hfit
    rw [List.length_drop] at hfit
    exact .inr (.inr ⟨by omega, hs, base, _, rfl, hloop, by omega, by omega, rfl⟩)

theorem decodeSlice_accepts {m m' : HttpMessage} {s : Bytes} {n : ℤ}
    (h : decodeSlice m s = .ok (n, m')) (hn : 0 < n) : ∃ hs base headersEnd,
      headersEnd = find s crlf + 2 + find (s.drop (find s crlf + 2)) crlfcrlf ∧
      headerLoop s headersEnd m.headers (find s crlf + 2) = .ok (hs, some base) ∧
      (headersEnd : ℤ) + 4 ≤ n ∧ n ≤ s.length ∧ m'.headers = hs := by
  obtain ⟨h0, -⟩ | h1 | ⟨-, hacc⟩ := decodeSlice_cases h
  · omega
  · omega
  · exact hacc

end HttpMessage

end Baize.Http
