import Baize.Http.Framing

namespace Baize.Http.HttpMessage

open Lib StringPiece

def Rejected (q : Bytes) : Prop := ∃ n ≤ 0, checkCompleted q = .ok n

def written (m : HttpMessage) (q : Bytes) : HttpMessage :=
  ⟨q.take (find q crlf), (enter m.headers (lines q).tail.dropLast).1, m.body⟩

/-- The header lines that `Decode` enters: those in front of the first one without a colon, and not the
last one. -/
def enteredLines (q : Bytes) : List Bytes := (lines q).tail.dropLast.takeWhile (colon ∈ ·)

theorem enter_takeWhile (hs : Headers) (ls : List Bytes) :
    (enter hs ls).1 = (enter hs (ls.takeWhile (colon ∈ ·))).1 := by
  induction ls generalizing hs with
  | nil => rfl
  | cons line ls ih =>
    by_cases hcolon : findChar line colon = line.length
    · have hmem : colon ∉ line := fun hmem ↦ (List.idxOf_lt_length_iff.mpr hmem).ne hcolon
      rw [enter_cons_of_no_colon hcolon, List.takeWhile_cons_of_neg (by simpa using hmem)]
      rfl
    · have hmem : colon ∈ line :=
        List.idxOf_lt_length_iff.mp (lt_of_le_of_ne List.idxOf_le_length hcolon)
      rw [enter_cons_of_colon hcolon, List.takeWhile_cons_of_pos (by simpa using hmem),
        enter_cons_of_colon hcolon, ih]

theorem enter_eq_self_iff (hs : Headers) (q : Bytes) : (enter hs (lines q).tail.dropLast).1 = hs ↔
    ∀ name v, entered name (enteredLines q) = some v → hs.find name = some v := by
  have hall : (enter hs (enteredLines q)).2 = true := by
    refine enter_of_colons (fun line hline ↦ ?_) hs
    have hmem := List.mem_takeWhile_imp hline
    exact (List.idxOf_lt_length_iff.mpr (of_decide_eq_true hmem)).ne
  rw [enter_takeWhile, ← enteredLines]
  constructor
  · intro heq name v hv
    have hfind := find_enter hall name
    rwa [heq, hv] at hfind
  · intro h
    refine SortedMap.eq_of_find fun name ↦ ?_
    rw [find_enter hall]
    cases hv : entered name (enteredLines q) with
    | none => rfl
    | some v => exact (h name v hv).symm

theorem decodeSlice_failed {m m' : HttpMessage} {q : Bytes} {n : ℤ} (h : decodeSlice m q = .ok (n, m'))
    (hn : n ≤ 0) : Rejected q ∧ m' = m ∨ ¬Rejected q ∧ m' = written m q := by
  obtain ⟨k, hc, -⟩ := bind_eq_ok.mp h
  by_cases hk : k ≤ 0
  · rw [decodeSlice, hc, ok_bind, if_pos hk] at h
    exact .inl ⟨⟨k, hk, hc⟩, (Prod.mk.inj (Except.ok.inj h)).2.symm⟩
  have hpos := blank_found hc (not_le.mp hk)
  have hpassed : ¬Rejected q := by
    intro hr
    obtain ⟨j, hj, hcj⟩ := hr
    exact hk (Except.ok.inj (hc.symm.trans hcj) ▸ hj)
  refine .inr ⟨hpassed, ?_⟩
  rw [written]
  obtain ⟨f, hlines⟩ | ⟨f, l, ls, hlines⟩ := lines_cases q
  · rw [decodeSlice_headerless (headerless_of_line hc (not_le.mp hk) hlines)] at h
    rw [hlines]
    split at h
    · cases h
    · exact (Prod.mk.inj (Except.ok.inj h)).2.symm
  · rw [decodeSlice_lines hc (not_le.mp hk) hlines] at h
    rw [take_find_crlf_of_lines hpos hlines, hlines]
    split at h
    · obtain ⟨rfl, -⟩ := Prod.mk.inj (Except.ok.inj h)
      exact absurd hn hk
    · exact (Prod.mk.inj (Except.ok.inj h)).2.symm

theorem decode_failed {m m' : HttpMessage} {b b' : Net.Buffer} {q : Bytes} {n : ℤ} (hb : b.Holds q)
    (h : decode m b = .ok (n, m', b')) (hn : n ≤ 0) : b' = b := by
  have hs := decodeSlice_of_decode hb h
  rw [decode, hb.slice_eq, hs, ok_bind] at h
  dsimp only at h
  rw [if_neg (not_lt.mpr hn)] at h
  exact (Prod.mk.inj (Prod.mk.inj (Except.ok.inj h)).2).2.symm

/-- A failed `Decode` leaves the buffer and the body alone. The first line and
the headers are left alone as well if `CheckCompleted` fails, and otherwise only
if the first line is what the message held before, and so is the value of each
header among the lines that are entered. -/
theorem decode_failed_unchanged_iff {m m' : HttpMessage} {b b' : Net.Buffer} {q : Bytes} {n : ℤ}
    (hb : b.Holds q) (h : decode m b = .ok (n, m', b')) (hn : n ≤ 0) :
    b' = b ∧ m'.body = m.body ∧ (m' = m ↔ Rejected q ∨ m.firstLine = q.take (find q crlf) ∧
      ∀ name v, entered name (enteredLines q) = some v → m.headers.find name = some v) := by
  refine ⟨decode_failed hb h hn, ?_⟩
  rw [← enter_eq_self_iff]
  obtain ⟨hr, rfl⟩ | ⟨hr, rfl⟩ := decodeSlice_failed (decodeSlice_of_decode hb h) hn
  · exact ⟨rfl, fun _ ↦ .inl hr, fun _ ↦ rfl⟩
  · refine ⟨rfl, fun he ↦ .inr ?_, fun he ↦ ?_⟩
    · exact ⟨(congrArg firstLine he).symm, congrArg headers he⟩
    · obtain ⟨hfirst, hheaders⟩ := he.resolve_left hr
      rw [written, hheaders, ← hfirst]

theorem decode_failed_unchanged_incomplete : ∃ b, Net.Buffer.Holds b [65, 13, 10] ∧
    decode fresh b = .ok (0, fresh, b) := by
  obtain ⟨b, hb⟩ := Net.Buffer.exists_holds (p := [65, 13, 10]) (by decide)
  obtain ⟨b', h, -⟩ := decode_ok (m := fresh) hb (show decodeSlice fresh [65, 13, 10] = .ok (0, fresh) from rfl)
  obtain ⟨hsame, -, -⟩ := decode_failed_unchanged_iff hb h le_rfl
  exact ⟨b, hb, hsame ▸ h⟩

/-- `A` and a blank line: the first line is assigned before the headers turn
out to be missing. -/
theorem decode_failed_overwrites : ∃ b, Net.Buffer.Holds b [65, 13, 10, 13, 10] ∧
    decode fresh b = .ok (-1, ⟨[65], .empty, []⟩, b) ∧ fresh ≠ ⟨[65], .empty, []⟩ := by
  obtain ⟨b, hb⟩ := Net.Buffer.exists_holds (p := [65, 13, 10, 13, 10]) (by decide)
  have hs := decodeSlice_headerless (s := [65, 13, 10, 13, 10]) (by decide) fresh
  rw [if_neg (by decide)] at hs
  obtain ⟨b', h, -⟩ := decode_ok hb hs
  exact ⟨b, hb, decode_failed hb h (by decide) ▸ h, by decide⟩

end Baize.Http.HttpMessage
