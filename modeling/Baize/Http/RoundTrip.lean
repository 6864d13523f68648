import Baize.Http.Lines
import Baize.Net.BufferLayout

namespace Baize.Http.HttpMessage

open Lib StringPiece Net

def lineOf (e : Bytes × Bytes) : Bytes := e.1 ++ 58 :: 32 :: e.2

def linesOf (es : List (Bytes × Bytes)) : Bytes := es.flatMap (fun e ↦ lineOf e ++ crlf)

structure LineOk (e : Bytes × Bytes) : Prop where
  key_ne : e.1 ≠ []
  key_trimmed : Trimmed e.1
  value_trimmed : Trimmed e.2
  key_clean : 13 ∉ e.1 ∧ 10 ∉ e.1
  value_clean : 13 ∉ e.2 ∧ 10 ∉ e.2
  no_colon : 58 ∉ e.1

theorem LineOk.cr_notMem {e : Bytes × Bytes} (h : LineOk e) : 13 ∉ lineOf e := by
  simp only [lineOf, List.mem_append, List.mem_cons, not_or]
  exact ⟨h.key_clean.1, by decide, by decide, h.value_clean.1⟩

theorem LineOk.key_eq {e : Bytes × Bytes} (h : LineOk e) : key (lineOf e) = e.1 :=
  (key_append h.no_colon _).trans (trimSpace_of_trimmed h.key_trimmed)

theorem LineOk.value_eq {e : Bytes × Bytes} (h : LineOk e) : value (lineOf e) = e.2 :=
  (value_append h.no_colon _).trans (trimSpace_blank_cons h.value_trimmed)

theorem LineOk.colon_ne {e : Bytes × Bytes} (h : LineOk e) : findChar (lineOf e) colon ≠ (lineOf e).length := by
  have hcolon : findChar (lineOf e) colon = e.1.length := findChar_colon h.no_colon (32 :: e.2)
  rw [hcolon, lineOf, List.length_append, List.length_cons]
  omega

theorem not_crlf_of_notMem {l : Bytes} (h : 13 ∉ l) : ¬crlf <:+: l :=
  fun hin ↦ h (hin.subset List.mem_cons_self)

theorem enter_lineOf (es : List (Bytes × Bytes)) (hes : ∀ e ∈ es, LineOk e) (hs : Headers) :
    (enter hs (es.map lineOf)).1 = es.foldl (fun m e ↦ m.insert e.1 e.2) hs := by
  induction es generalizing hs with
  | nil => rfl
  | cons e es ih =>
    have he := hes e List.mem_cons_self
    rw [List.map_cons, enter_cons_of_colon he.colon_ne, he.key_eq, he.value_eq, List.foldl_cons,
      ih fun e he ↦ hes e (List.mem_cons_of_mem _ he)]

/-- The messages of the round trip: a clean first line, header lines that can
be told apart, and a body as long as `Content-Length` says. -/
structure WellFormed (m : HttpMessage) : Prop where
  firstLine_ne : m.firstLine ≠ []
  firstLine_clean : 13 ∉ m.firstLine ∧ 10 ∉ m.firstLine
  firstLine_plain : ¬ contentLength <:+: m.firstLine
  lines : ∀ e ∈ m.headers.entries, LineOk e
  plain : ∀ e ∈ m.headers.entries,
    (e.1 ≠ contentLength → ¬ contentLength <:+: e.1) ∧ ¬ contentLength <:+: e.2
  framed : ∀ v, (contentLength, v) ∈ m.headers.entries →
    v ≠ [] ∧ AllDigits v ∧ decimal v = m.body.length
  unframed : contentLength ∉ m.headers.keys → m.body = []

def encoded (m : HttpMessage) : Bytes := m.pieces.flatten

theorem encoded_eq (m : HttpMessage) :
    m.encoded = m.firstLine ++ (crlf ++ (linesOf m.headers.entries ++ (crlf ++ m.body))) := by
  have hlines : ∀ es : List (Bytes × Bytes),
      (es.flatMap (fun item ↦ [item.1, [58, 32], item.2, crlf])).flatten = linesOf es := by
    intro es
    induction es with
    | nil => rfl
    | cons e es ih =>
      rw [List.flatMap_cons, List.flatten_append, ih, linesOf, linesOf, List.flatMap_cons]
      simp [lineOf]
  rw [encoded, pieces, List.flatten_append, List.flatten_append, hlines]
  simp

/-- Encoding into an empty buffer, sending more bytes behind it and decoding
gives back the message, its length and the bytes behind. -/
def RoundTrips (m : HttpMessage) (q : Bytes) : Prop :=
  ∃ b₀ n b₁ b₂ b₃, Buffer.make Buffer.kInitialSize = .ok b₀ ∧ encode m b₀ = .ok (n, b₁) ∧
    b₁.append q q.length = .ok b₂ ∧ decode fresh b₂ = .ok (n, m, b₃) ∧ b₃.slice = q

theorem RoundTrips.decodeSlice_eq {m : HttpMessage} {q : Bytes} (h : RoundTrips m q) :
    decodeSlice fresh (m.encoded ++ q) = .ok (m.encoded.length, m) := by
  obtain ⟨b₀, n, b₁, b₂, b₃, hmake, henc, happ, hdec, -⟩ := h
  obtain ⟨b, hb, hh, -⟩ := Buffer.make_spec (n := 1508) (by decide)
  obtain rfl : b = b₀ := Except.ok.inj (hb.symm.trans hmake)
  obtain ⟨c, hc, henc⟩ := bind_eq_ok.mp henc
  have hh₁ := Buffer.foldlM_append_holds hh _ hc
  obtain ⟨hn, rfl⟩ := Prod.mk.inj (Except.ok.inj henc)
  have hh₂ := Buffer.append_holds hh₁ happ
  obtain ⟨⟨n', m'⟩, hs, hdec⟩ := bind_eq_ok.mp hdec
  rw [hh₂.slice_eq, List.nil_append] at hs
  have hlen : n = m.encoded.length := by
    rw [← hn, hh₁.readable_eq]
    rfl
  have hret : n' = n ∧ m' = m := by
    dsimp only at hdec
    split at hdec
    · obtain ⟨_, -, hdec⟩ := bind_eq_ok.mp hdec
      obtain ⟨h₁, h₂⟩ := Prod.mk.inj (Except.ok.inj hdec)
      exact ⟨h₁, (Prod.mk.inj h₂).1⟩
    · obtain ⟨h₁, h₂⟩ := Prod.mk.inj (Except.ok.inj hdec)
      exact ⟨h₁, (Prod.mk.inj h₂).1⟩
  rw [hret.1, hret.2, hlen] at hs
  exact hs

theorem intercalate_lines (f : Bytes) (es : List (Bytes × Bytes)) :
    crlf.intercalate (f :: es.map lineOf) ++ crlf = f ++ (crlf ++ linesOf es) := by
  induction es generalizing f with
  | nil => rw [List.map_nil, List.intercalate_singleton, linesOf, List.flatMap_nil, List.append_nil]
  | cons e es ih =>
    rw [List.map_cons, List.intercalate_cons_cons, List.append_assoc, ih]
    simp only [linesOf, List.flatMap_cons, List.append_assoc]

theorem encoded_append (m : HttpMessage) (q : Bytes) :
    m.encoded ++ q = message m.firstLine (m.headers.entries.map lineOf) (m.body ++ q) := by
  have hblank : crlfcrlf = crlf ++ crlf := rfl
  calc m.encoded ++ q
      = m.firstLine ++ (crlf ++ linesOf m.headers.entries) ++ (crlf ++ (m.body ++ q)) := by
        rw [encoded_eq]
        simp only [List.append_assoc]
    _ = crlf.intercalate (m.firstLine :: m.headers.entries.map lineOf) ++ crlf ++ (crlf ++ (m.body ++ q)) := by
        rw [intercalate_lines]
    _ = message m.firstLine (m.headers.entries.map lineOf) (m.body ++ q) := by
        rw [message, hblank]
        simp only [List.append_assoc]

theorem lines_encoded {m : HttpMessage} (hm : WellFormed m) (q : Bytes) :
    lines (m.encoded ++ q) = m.firstLine :: m.headers.entries.map lineOf := by
  rw [encoded_append]
  refine lines_message (List.forall_mem_cons.mpr ⟨not_crlf_of_notMem hm.firstLine_clean.1, ?_⟩) ?_ _
  · intro l hl
    obtain ⟨e, he, rfl⟩ := List.mem_map.mp hl
    exact not_crlf_of_notMem (hm.lines e he).cr_notMem
  · intro l hl
    obtain ⟨e, -, rfl⟩ := List.mem_map.mp hl
    exact List.append_ne_nil_of_right_ne_nil _ (List.cons_ne_nil _ _)

/-- No message comes back. Without headers the blank line is not found again
behind the first line; with headers the last one is dropped. -/
theorem not_roundTrips (m : HttpMessage) (q : Bytes) (hm : WellFormed m) : ¬ RoundTrips m q := by
  intro h
  have hpos : (0 : ℤ) < m.encoded.length := by
    have := List.length_pos_of_ne_nil hm.firstLine_ne
    rw [encoded_eq, List.length_append]
    omega
  obtain ⟨-, f, l, ls, hlines, -, hsame⟩ := decodeSlice_accepted h.decodeSlice_eq hpos
  have hheaders : m.headers = (enter .empty (l :: ls).dropLast).1 := congrArg headers hsame
  obtain ⟨-, hls⟩ := List.cons.inj ((lines_encoded hm q).symm.trans hlines)
  rcases List.eq_nil_or_concat' m.headers.entries with hnil | ⟨es, e, hes⟩
  · rw [hnil] at hls
    cases hls
  · have hlinesOk : ∀ a ∈ es ++ [e], LineOk a := hes ▸ hm.lines
    have hsorted : (es ++ [e]).Pairwise (fun a b ↦ a.1 < b.1) := hes ▸ m.headers.sorted
    have hkept := SortedMap.foldl_insert SortedMap.empty es (List.pairwise_append.mp hsorted).1
    rw [← hls, hes, List.map_append, List.map_cons, List.map_nil, List.dropLast_concat,
      enter_lineOf es fun a ha ↦ hlinesOk a (List.mem_append_left _ ha)] at hheaders
    have hentries : es ++ [e] = es := by
      rw [← hes, hheaders]
      exact congrArg SortedMap.entries hkept
    have hlen := congrArg List.length hentries
    rw [List.length_append, List.length_singleton] at hlen
    omega

def oneHeader : HttpMessage := ⟨[71], SortedMap.empty.insert [65] [66], []⟩

theorem oneHeader_wellFormed : WellFormed oneHeader := by
  refine ⟨by decide, by decide, by decide, ?_, by decide, ?_, fun _ ↦ rfl⟩
  · intro e he
    obtain rfl : e = ([65], [66]) := by simpa [oneHeader, SortedMap.insert, SortedMap.insertEntry,
      SortedMap.empty] using he
    exact ⟨by decide, trimmed_singleton (by decide),
      trimmed_singleton (by decide), by decide, by decide, by decide⟩
  · intro v hv
    have hk : contentLength = [65] := by
      have := congrArg Prod.fst (List.mem_singleton.mp hv)
      exact this
    exact absurd hk (by decide)

theorem not_roundTrips_oneHeader_pipelined :
    WellFormed oneHeader ∧ ¬ RoundTrips oneHeader [71, 69, 84] :=
  ⟨oneHeader_wellFormed, not_roundTrips _ _ oneHeader_wellFormed⟩

/-- The header is lost: what was `A: B` comes back as no header at all. -/
theorem decode_encode_oneHeader :
    WellFormed oneHeader ∧
      decodeSlice fresh (oneHeader.encoded ++ []) = .ok (11, ⟨[71], .empty, []⟩) ∧
      ¬ RoundTrips oneHeader [] := by
  have hloop : headerLoop (oneHeader.encoded ++ []) 7 .empty 3 = .ok (.empty, some 3) := by
    rw [headerLoop]
    rfl
  have hdec : decodeSlice fresh (oneHeader.encoded ++ []) = .ok (11, ⟨[71], .empty, []⟩) := by
    have hc : checkCompleted (oneHeader.encoded ++ []) = .ok 11 := rfl
    rw [decodeSlice, hc, ok_bind]
    change (headerLoop (oneHeader.encoded ++ []) 7 .empty 3 >>= _) = _
    rw [hloop]
    rfl
  refine ⟨oneHeader_wellFormed, hdec, fun h ↦ ?_⟩
  have heq := Except.ok.inj (hdec.symm.trans h.decodeSlice_eq)
  exact absurd (Prod.mk.inj heq).2 (by decide)

end Baize.Http.HttpMessage
