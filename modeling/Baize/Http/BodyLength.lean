import Baize.Http.Stream

namespace Baize.Http.HttpMessage

open Lib StringPiece

def lengthHeader (q : Bytes) : Bytes :=
  let headers := q.take (find q crlfcrlf)
  headers.drop (find headers contentLength)

def lengthText (q : Bytes) : Bytes :=
  let line := (lengthHeader q).take (find (lengthHeader q) crlf)
  trimSpace (line.drop (findChar line colon + 1))

/-- The header block is complete, `Content-Length` is not in its last line, and the number that it
gives is no `int`. -/
def Overlong (q : Bytes) : Prop :=
  crlfcrlf <:+: q ∧ crlf <:+: lengthHeader q ∧ 2147483648 ≤ decimal ((lengthText q).takeWhile isDigit)

instance (q : Bytes) : Decidable (Overlong q) := inferInstanceAs (Decidable (_ ∧ _ ∧ _))

theorem checkCompleted_overlong {q : Bytes} (h : Overlong q) : checkCompleted q = .error .overflow := by
  obtain ⟨hcomplete, hline, hlarge⟩ := h
  have hpos : find q crlfcrlf ≠ q.length := mt (search_eq_length_iff crlfcrlf_ne_nil).mp (not_not.mpr hcomplete)
  have hbegin : find (q.take (find q crlfcrlf)) contentLength ≠ (q.take (find q crlfcrlf)).length := by
    intro heq
    rw [lengthHeader, heq, List.drop_length] at hline
    exact absurd hline (by decide)
  have hend : find (lengthHeader q) crlf ≠ (lengthHeader q).length :=
    mt (search_eq_length_iff crlf_ne_nil).mp (not_not.mpr hline)
  have hcolon : findChar ((lengthHeader q).take (find (lengthHeader q) crlf)) colon ≠
      ((lengthHeader q).take (find (lengthHeader q) crlf)).length := by
    intro heq
    rw [lengthText, heq, List.drop_eq_nil_of_le (Nat.le_succ _)] at hlarge
    exact absurd hlarge (by decide)
  have hparse : parseInt (lengthText q) 0 = .error .overflow := by
    rw [parseInt_zero_eq_ite, if_neg (not_lt.mpr hlarge)]
  unfold checkCompleted
  dsimp only
  rw [if_neg hpos, if_neg hbegin]
  rw [lengthText, lengthHeader] at hparse
  rw [lengthHeader] at hend hcolon
  rw [if_neg hend, if_neg hcolon, hparse]
  rfl

theorem checkCompleted_of_not_overlong {q : Bytes} (h : ¬Overlong q) (hq : q.length < 2147483648) :
    ∃ n, checkCompleted q = .ok n ∧
      (n ≤ 0 ∨ find q crlfcrlf ≠ q.length ∧ (find q crlfcrlf : ℤ) + 4 ≤ n) := by
  unfold checkCompleted
  dsimp only
  split
  · exact ⟨0, rfl, .inl le_rfl⟩
  next hpos =>
  have hblank := blank_le hpos
  split
  · exact ⟨_, rfl, .inr ⟨hpos, le_rfl⟩⟩
  split
  · exact ⟨-1, rfl, .inl (by decide)⟩
  next hend =>
  split
  · exact ⟨-1, rfl, .inl (by decide)⟩
  have hlarge : decimal ((lengthText q).takeWhile isDigit) < 2147483648 := by
    by_contra hlarge
    refine h ⟨?_, ?_, not_lt.mp hlarge⟩
    · exact not_not.mp (mt (search_eq_length_iff crlfcrlf_ne_nil).mpr hpos)
    · exact not_not.mp (mt (search_eq_length_iff crlf_ne_nil).mpr hend)
  obtain ⟨len, stop, hparse⟩ : ∃ len stop : ℕ, parseInt (lengthText q) 0 = .ok ((len : ℤ), stop) :=
    ⟨_, _, by rw [parseInt_zero_eq_ite, if_pos hlarge]⟩
  rw [lengthText, lengthHeader] at hparse
  rw [hparse, ok_bind]
  dsimp only
  split
  · exact ⟨-1, rfl, .inl (by decide)⟩
  split
  · exact ⟨0, rfl, .inl le_rfl⟩
  next hlen =>
  rw [List.length_drop] at hlen
  refine ⟨_, int_of (by omega) (by omega), .inr ⟨hpos, by omega⟩⟩

/-- The header block of `q` has a length, the body lies behind it within the buffer, and both are
taken. -/
def Measured (q : Bytes) (b : Net.Buffer) : Prop :=
  ∃ n m b', decode fresh b = .ok (n, m, b') ∧
    (n ≤ 0 ∨ (find q crlfcrlf : ℤ) + 4 ≤ n ∧ n ≤ b.readableBytes ∧
      m.body = (q.drop (find q crlfcrlf + 4)).take (n - (find q crlfcrlf + 4)).toNat ∧
      b'.Holds (q.drop n.toNat))

theorem measured_of {q : Bytes} {b : Net.Buffer} (hb : b.Holds q) (hblank : ¬(Headerless q ∧ Blank q))
    (hlong : ¬Overlong q) : Measured q b := by
  have hq : q.length < 2147483648 := hb.length_le.trans_lt hb.size_lt
  have hrefused {n : ℤ} {m : HttpMessage} (hs : decodeSlice fresh q = .ok (n, m)) (hn : n ≤ 0) :
      Measured q b := by
    obtain ⟨b', hdec, -⟩ := decode_ok hb hs
    exact ⟨n, m, b', hdec, .inl hn⟩
  obtain ⟨n, hc, h0 | ⟨hpos, hn⟩⟩ := checkCompleted_of_not_overlong hlong hq
  · have hs : decodeSlice fresh q = .ok (n, fresh) := by
      rw [decodeSlice, hc, ok_bind, if_pos h0]
      rfl
    exact hrefused hs h0
  obtain ⟨f, hlines⟩ | ⟨f, l, ls, hlines⟩ := lines_cases q
  · have hp := headerless_of_line hc (by omega) hlines
    have hs := decodeSlice_headerless hp fresh
    rw [if_neg fun hb ↦ hblank ⟨hp, hb⟩] at hs
    exact hrefused hs (by decide)
  · have hs := decodeSlice_lines hc (by omega) hlines fresh
    split at hs
    · obtain ⟨b', hdec, hb'⟩ := decode_ok hb hs
      exact ⟨n, _, b', hdec, .inr ⟨hn, hb.readable_eq ▸ checkCompleted_le hc, rfl, hb'⟩⟩
    · exact hrefused hs (by decide)

/-- `Decode` computes a valid length for every message, but for a first line with two blank lines
behind it and for a `Content-Length` that is no `int`. -/
theorem decode_measured_iff {b : Net.Buffer} {q : Bytes} (hb : b.Holds q) :
    Measured q b ↔ ¬(Headerless q ∧ Blank q) ∧ ¬Overlong q := by
  refine ⟨fun ⟨n, m, b', hdec, _⟩ ↦ ⟨fun ⟨hp, hblank⟩ ↦ ?_, fun hlong ↦ ?_⟩, fun h ↦ measured_of hb h.1 h.2⟩
  · have hs := decodeSlice_headerless hp fresh
    rw [if_pos hblank] at hs
    cases (decode_error hb hs).symm.trans hdec
  · have hs : decodeSlice fresh q = .error .overflow := by
      rw [decodeSlice, checkCompleted_overlong hlong, error_bind]
    cases (decode_error hb hs).symm.trans hdec

def withBody : Bytes :=
  [65, 13, 10] ++ contentLength ++ [58, 32, 51, 13, 10, 66, 58, 67, 13, 10, 13, 10, 120, 121, 122, 65]

theorem decode_measured_withBody : ∃ b, Net.Buffer.Holds b withBody ∧ Measured withBody b := by
  obtain ⟨b, hb⟩ := Net.Buffer.exists_holds (p := withBody) (by decide)
  exact ⟨b, hb, (decode_measured_iff hb).mpr (by decide +kernel)⟩

/-- `A` with two blank lines, and `A` with a `Content-Length` of 99999999999. -/
theorem decode_negative_or_overflow :
    (∃ b, Net.Buffer.Holds b [65, 13, 10, 13, 10, 13, 10] ∧ decode fresh b = .error .lengthError) ∧
      ∃ b, Net.Buffer.Holds b ([65, 13, 10] ++ contentLength ++
        [58, 57, 57, 57, 57, 57, 57, 57, 57, 57, 57, 57, 13, 10, 66, 58, 67, 13, 10, 13, 10]) ∧
        decode fresh b = .error .overflow := by
  constructor
  · obtain ⟨b, hb⟩ := Net.Buffer.exists_holds (p := [65, 13, 10, 13, 10, 13, 10]) (by decide)
    have hs := decodeSlice_headerless (s := [65, 13, 10, 13, 10, 13, 10]) (by decide) fresh
    rw [if_pos (by decide)] at hs
    exact ⟨b, hb, decode_error hb hs⟩
  · obtain ⟨b, hb⟩ := Net.Buffer.exists_holds (p := [65, 13, 10] ++ contentLength ++
      [58, 57, 57, 57, 57, 57, 57, 57, 57, 57, 57, 57, 13, 10, 66, 58, 67, 13, 10, 13, 10]) (by decide)
    refine ⟨b, hb, decode_error hb ?_⟩
    rw [decodeSlice, checkCompleted_overlong (by decide +kernel), error_bind]

end Baize.Http.HttpMessage
