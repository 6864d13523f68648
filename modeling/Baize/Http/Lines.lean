import Baize.Http.Headerless

namespace Baize.Http.HttpMessage

open Lib StringPiece

theorem contentLength_ne_nil : contentLength ≠ [] := List.cons_ne_nil _ _

/-- The bytes in front of the blank line. -/
def block (q : Bytes) : Bytes := q.take (find q crlfcrlf)

def lines (q : Bytes) : List Bytes := splitBy crlf (block q)

def key (line : Bytes) : Bytes := trimSpace (line.take (findChar line colon))

def value (line : Bytes) : Bytes := trimSpace (line.drop (findChar line colon + 1))

theorem findChar_colon {name : Bytes} (h : colon ∉ name) (rest : Bytes) :
    findChar (name ++ colon :: rest) colon = name.length :=
  findChar_append h rest

theorem key_append {name : Bytes} (h : colon ∉ name) (rest : Bytes) :
    key (name ++ colon :: rest) = trimSpace name := by
  rw [key, findChar_colon h, List.take_left]

theorem value_append {name : Bytes} (h : colon ∉ name) (rest : Bytes) :
    value (name ++ colon :: rest) = trimSpace rest := by
  rw [value, findChar_colon h, ← List.drop_drop, List.drop_left]
  rfl

theorem exists_colon {line : Bytes} (h : findChar line colon ≠ line.length) :
    ∃ name rest, line = name ++ colon :: rest ∧ colon ∉ name :=
  List.eq_append_cons_of_mem (List.idxOf_lt_length_iff.mp (lt_of_le_of_ne List.idxOf_le_length h))

/-- Enter the lines as headers, up to the first one that has no colon; `true`
when all of them have one. -/
def enter (headers : Headers) : List Bytes → Headers × Bool
  | [] => (headers, true)
  | line :: ls =>
    if findChar line colon = line.length then (headers, false)
    else enter (headers.insert (key line) (value line)) ls

theorem enter_cons_of_colon {line : Bytes} (h : findChar line colon ≠ line.length) (headers : Headers)
    (ls : List Bytes) : enter headers (line :: ls) = enter (headers.insert (key line) (value line)) ls :=
  if_neg h

theorem enter_cons_of_no_colon {line : Bytes} (h : findChar line colon = line.length) (headers : Headers)
    (ls : List Bytes) : enter headers (line :: ls) = (headers, false) :=
  if_pos h

theorem enter_of_colons {ls : List Bytes} (h : ∀ line ∈ ls, findChar line colon ≠ line.length)
    (headers : Headers) : (enter headers ls).2 = true := by
  induction ls generalizing headers with
  | nil => rfl
  | cons line ls ih =>
    rw [enter_cons_of_colon (h line List.mem_cons_self)]
    exact ih (fun l hl ↦ h l (List.mem_cons_of_mem _ hl)) _

/-- The end of `CheckCompleted`, on the line from `Content-Length` on. -/
def announce (pos rest : ℕ) (header : Bytes) : Checked ℤ :=
  if findChar header colon = header.length then pure (-1)
  else do
    let (len, stop) ← parseInt (value header) 0
    if stop ≠ (value header).length then pure (-1)
    else if (rest : ℤ) < len then pure 0 else int (pos + 4 + len)

/-- `CheckCompleted` on the lines. The first line that mentions `Content-Length`
decides, and the last one may not be it. -/
def verdict (pos rest : ℕ) : List Bytes → Checked ℤ
  | [] => pure (pos + 4)
  | line :: ls =>
    if contentLength <:+: line then
      if ls = [] then pure (-1) else announce pos rest (line.drop (find line contentLength))
    else verdict pos rest ls

theorem verdict_cons_of_mention {line : Bytes} (h : contentLength <:+: line) (pos rest : ℕ) {ls : List Bytes}
    (hls : ls ≠ []) :
    verdict pos rest (line :: ls) = announce pos rest (line.drop (find line contentLength)) := by
  rw [verdict, if_pos h, if_neg hls]

theorem verdict_singleton_of_mention {line : Bytes} (h : contentLength <:+: line) (pos rest : ℕ) :
    verdict pos rest [line] = .ok (-1) := by
  rw [verdict, if_pos h, if_pos rfl]
  rfl

theorem verdict_cons_of_not_mention {line : Bytes} (h : ¬contentLength <:+: line) (pos rest : ℕ)
    (ls : List Bytes) : verdict pos rest (line :: ls) = verdict pos rest ls :=
  if_neg h

theorem find_contentLength_line {line : Bytes} (h : ¬contentLength <:+: line) (r : Bytes) :
    find (line ++ (crlf ++ r)) contentLength = line.length + 2 + find r contentLength := by
  have hcr : (13 : UInt8) ∉ contentLength := by decide
  have hlf : (10 : UInt8) ∉ contentLength := by decide
  have hnil : ¬contentLength <:+: [] := by decide
  have hbehind := search_append_cons hlf hnil r
  rw [List.nil_append] at hbehind
  rw [find, crlf, List.cons_append, List.cons_append, List.nil_append, search_append_cons hcr h, hbehind,
    find, List.length_nil]
  omega

theorem verdict_split (pos rest : ℕ) (s : Bytes) :
    (if find s contentLength = s.length then pure ((pos : ℤ) + 4)
      else
        let header := s.drop (find s contentLength)
        if find header crlf = header.length then pure (-1)
        else announce pos rest (header.take (find header crlf)) : Checked ℤ) =
      verdict pos rest (splitBy crlf s) := by
  induction s using infix_induction crlf_ne_nil with
  | last s hs =>
    rw [splitBy_eq_singleton hs]
    by_cases hm : contentLength <:+: s
    · have hne : find s contentLength ≠ s.length :=
        mt (search_eq_length_iff contentLength_ne_nil).mp (not_not.mpr hm)
      have hend : find (s.drop (find s contentLength)) crlf = (s.drop (find s contentLength)).length :=
        (search_eq_length_iff crlf_ne_nil).mpr fun h ↦ hs (h.trans (List.drop_suffix _ _).isInfix)
      rw [if_neg hne, verdict_singleton_of_mention hm]
      exact if_pos hend
    · have hnone : find s contentLength = s.length := (search_eq_length_iff contentLength_ne_nil).mpr hm
      rw [if_pos hnone, verdict_cons_of_not_mention hm]
      rfl
  | piece line r hline ih =>
    rw [crlf_unbordered.splitBy_append crlf_ne_nil hline]
    by_cases hm : contentLength <:+: line
    · have hne : find line contentLength ≠ line.length :=
        mt (search_eq_length_iff contentLength_ne_nil).mp (not_not.mpr hm)
      have hlt : find line contentLength < line.length := lt_of_le_of_ne (search_le_length _ _) hne
      have hfind : find (line ++ (crlf ++ r)) contentLength = find line contentLength := search_append hne _
      have hclean : ¬crlf <:+: line.drop (find line contentLength) :=
        fun h ↦ hline (h.trans (List.drop_suffix _ _).isInfix)
      have hend : find (line.drop (find line contentLength) ++ (crlf ++ r)) crlf =
          (line.drop (find line contentLength)).length := crlf_unbordered.search_append hclean r
      rw [verdict_cons_of_mention hm _ _ (splitBy_ne_nil _ _), hfind, if_neg (by rw [List.length_append]; omega),
        List.drop_append_of_le_length hlt.le]
      dsimp only
      rw [hend, List.take_left, if_neg (by simp [crlf])]
    · have hlen : (line ++ (crlf ++ r)).length = line.length + 2 + r.length := by
        simp only [crlf, List.length_append, List.length_cons, List.length_nil]
        omega
      have hdrop : (line ++ (crlf ++ r)).drop (line.length + 2 + find r contentLength) =
          r.drop (find r contentLength) := by
        rw [← List.drop_drop, ← List.drop_drop, List.drop_left]
        rfl
      rw [verdict_cons_of_not_mention hm, ← ih, find_contentLength_line hm, hlen, hdrop]
      simp only [Nat.add_left_cancel_iff]

theorem checkCompleted_eq_verdict {q : Bytes} (hpos : find q crlfcrlf ≠ q.length) :
    checkCompleted q = verdict (find q crlfcrlf) (q.drop (find q crlfcrlf + 4)).length (lines q) := by
  rw [lines, ← verdict_split]
  unfold checkCompleted
  exact if_neg hpos

/-- The number that `CheckCompleted` goes by. -/
def announced : List Bytes → ℕ
  | [] => 0
  | line :: ls =>
    if contentLength <:+: line then decimal (value (line.drop (find line contentLength))) else announced ls

/-- The line from `Content-Length` on has a number behind its colon. -/
def Numbered (header : Bytes) : Prop :=
  findChar header colon ≠ header.length ∧ AllDigits (value header)

theorem announce_numbered {pos rest : ℕ} {header : Bytes} (h : Numbered header)
    (hle : decimal (value header) ≤ rest) (hfit : pos + 4 + rest < 2147483648) :
    announce pos rest header = .ok (pos + 4 + decimal (value header) : ℕ) := by
  have hall : (value header).takeWhile isDigit = value header := List.takeWhile_eq_self_iff.mpr h.2
  rw [announce, if_neg h.1, parseInt_zero_eq_ite, hall, if_pos (by omega), ok_bind]
  dsimp only
  rw [if_neg (not_not.mpr rfl), if_neg (by omega), int_of (by omega) (by omega)]
  rfl

theorem announce_pos {pos rest : ℕ} {header : Bytes} {n : ℤ} (h : announce pos rest header = .ok n)
    (hn : 0 < n) : Numbered header ∧ n = pos + 4 + decimal (value header) ∧ decimal (value header) ≤ rest := by
  unfold announce at h
  split at h
  · cases h
    omega
  next hcolon =>
  rw [parseInt_zero_eq_ite] at h
  split at h
  · rw [ok_bind] at h
    dsimp only at h
    split at h
    · cases h
      omega
    next hstop =>
    have hall : (value header).takeWhile isDigit = value header :=
      (List.takeWhile_prefix _).eq_of_length (not_not.mp hstop)
    rw [hall] at h
    split at h
    · cases h
      omega
    · next hle =>
      have hlen := (int_eq_ok h).symm
      exact ⟨⟨hcolon, List.takeWhile_eq_self_iff.mp hall⟩, hlen, Int.ofNat_le.mp (not_lt.mp hle)⟩
  · cases h

theorem verdict_pos {pos rest : ℕ} {ls : List Bytes} {n : ℤ} (h : verdict pos rest ls = .ok n) (hn : 0 < n) :
    n = pos + 4 + announced ls ∧ announced ls ≤ rest := by
  induction ls with
  | nil =>
    cases h
    exact ⟨rfl, Nat.zero_le _⟩
  | cons line ls ih =>
    by_cases hm : contentLength <:+: line
    · by_cases hls : ls = []
      · rw [hls, verdict_singleton_of_mention hm] at h
        cases h
        omega
      · rw [verdict_cons_of_mention hm _ _ hls] at h
        rw [announced, if_pos hm]
        exact (announce_pos h hn).2
    · rw [verdict_cons_of_not_mention hm] at h
      rw [announced, if_neg hm]
      exact ih h

theorem blank_found {q : Bytes} {n : ℤ} (hc : checkCompleted q = .ok n) (hn : 0 < n) :
    find q crlfcrlf ≠ q.length := by
  intro hpos
  have hz : checkCompleted q = .ok 0 := by
    unfold checkCompleted
    exact if_pos hpos
  cases hc.symm.trans hz
  omega

theorem blank_le {q : Bytes} (hpos : find q crlfcrlf ≠ q.length) : find q crlfcrlf + 4 ≤ q.length :=
  length_le_of_prefix_drop crlfcrlf_ne_nil (prefix_drop_search hpos)

theorem checkCompleted_le {q : Bytes} {n : ℤ} (hc : checkCompleted q = .ok n) : n ≤ q.length := by
  by_cases hn : 0 < n
  · have hpos := blank_found hc hn
    have hblank := blank_le hpos
    rw [checkCompleted_eq_verdict hpos] at hc
    obtain ⟨hlen, hle⟩ := verdict_pos hc hn
    rw [List.length_drop] at hle
    omega
  · omega

theorem lines_append {p : Bytes} (hpos : find p crlfcrlf ≠ p.length) (q : Bytes) : lines (p ++ q) = lines p := by
  have hfind : find (p ++ q) crlfcrlf = find p crlfcrlf := search_append hpos q
  have hle : find p crlfcrlf ≤ p.length := search_le_length _ _
  rw [lines, lines, block, block, hfind, List.take_append_of_le_length hle]

theorem announce_mono {pos rest rest' : ℕ} {header : Bytes} (h : announce pos rest header ≠ .ok 0)
    (hle : rest ≤ rest') : announce pos rest' header = announce pos rest header := by
  unfold announce at h ⊢
  by_cases hcolon : findChar header colon = header.length
  · rw [if_pos hcolon, if_pos hcolon]
  rw [if_neg hcolon] at h
  rw [if_neg hcolon, if_neg hcolon]
  refine bind_congr_of_ok (fun a hparse ↦ ?_)
  rw [hparse, ok_bind] at h
  dsimp only at h ⊢
  by_cases hstop : a.2 ≠ (value header).length
  · rw [if_pos hstop, if_pos hstop]
  rw [if_neg hstop] at h
  rw [if_neg hstop, if_neg hstop]
  by_cases hlen : (rest : ℤ) < a.1
  · exact absurd (if_pos hlen) h
  · rw [if_neg hlen, if_neg (by omega)]

theorem verdict_mono {pos rest rest' : ℕ} {ls : List Bytes} (h : verdict pos rest ls ≠ .ok 0)
    (hle : rest ≤ rest') : verdict pos rest' ls = verdict pos rest ls := by
  induction ls with
  | nil => rfl
  | cons line ls ih =>
    by_cases hm : contentLength <:+: line
    · by_cases hls : ls = []
      · rw [hls, verdict_singleton_of_mention hm, verdict_singleton_of_mention hm]
      · rw [verdict_cons_of_mention hm _ _ hls] at h
        rw [verdict_cons_of_mention hm _ _ hls, verdict_cons_of_mention hm _ _ hls]
        exact announce_mono h hle
    · rw [verdict_cons_of_not_mention hm] at h
      rw [verdict_cons_of_not_mention hm, verdict_cons_of_not_mention hm]
      exact ih h

theorem checkCompleted_append {p : Bytes} (h : checkCompleted p ≠ .ok 0) (q : Bytes) :
    checkCompleted (p ++ q) = checkCompleted p := by
  have hpos : find p crlfcrlf ≠ p.length := fun hpos ↦ h (if_pos hpos)
  have hfind : find (p ++ q) crlfcrlf = find p crlfcrlf := search_append hpos q
  have hlt : find p crlfcrlf < p.length := lt_of_le_of_ne (search_le_length _ _) hpos
  have hpos' : find (p ++ q) crlfcrlf ≠ (p ++ q).length := by
    rw [hfind, List.length_append]
    omega
  rw [checkCompleted_eq_verdict hpos] at h
  rw [checkCompleted_eq_verdict hpos, checkCompleted_eq_verdict hpos', hfind, lines_append hpos]
  refine verdict_mono h ?_
  rw [List.length_drop, List.length_drop, List.length_append]
  omega

theorem block_append {q : Bytes} (hpos : find q crlfcrlf ≠ q.length) :
    ∃ t, q = block q ++ (crlf ++ (crlf ++ t)) ∧ (block q).length = find q crlfcrlf := by
  obtain ⟨t, ht⟩ := prefix_drop_search hpos
  refine ⟨t, ?_, List.length_take_of_le (search_le_length _ _)⟩
  change q = q.take (find q crlfcrlf) ++ (crlfcrlf ++ t)
  rw [ht]
  exact (List.take_append_drop _ q).symm

theorem lines_cases (q : Bytes) : (∃ f, lines q = [f]) ∨ ∃ f l ls, lines q = f :: l :: ls := by
  obtain ⟨f, ls, h⟩ := List.exists_cons_of_ne_nil (splitBy_ne_nil crlf (block q))
  cases ls with
  | nil => exact .inl ⟨f, h⟩
  | cons l ls => exact .inr ⟨f, l, ls, h⟩

theorem not_infix_block_of_line {q f : Bytes} (h : lines q = [f]) : ¬crlf <:+: block q := by
  intro hin
  have hcons := splitBy_eq_cons crlf_ne_nil hin
  rw [← lines, h] at hcons
  exact splitBy_ne_nil _ _ (List.cons.inj hcons).2.symm

theorem find_crlf_of_lines_singleton {q f : Bytes} (hpos : find q crlfcrlf ≠ q.length) (h : lines q = [f]) :
    find q crlf = find q crlfcrlf := by
  obtain ⟨t, hq, hlen⟩ := block_append hpos
  have hfind : find (block q ++ (crlf ++ (crlf ++ t))) crlf = (block q).length :=
    crlf_unbordered.search_append (not_infix_block_of_line h) _
  rw [← hq, hlen] at hfind
  exact hfind

theorem take_find_crlf_of_lines {q f l : Bytes} {ls : List Bytes} (hpos : find q crlfcrlf ≠ q.length)
    (h : lines q = f :: l :: ls) : q.take (find q crlf) = f := by
  obtain ⟨t, hq, -⟩ := block_append hpos
  obtain ⟨r, hr, hf, -⟩ := crlf_unbordered.eq_append_of_splitBy crlf_ne_nil h
  rw [hr, List.append_assoc] at hq
  have hfind : find (f ++ (crlf ++ r ++ (crlf ++ (crlf ++ t)))) crlf = f.length := by
    rw [List.append_assoc]
    exact crlf_unbordered.search_append hf _
  rw [hq, hfind, List.take_left]

theorem headerless_of_line {q f : Bytes} {n : ℤ} (hc : checkCompleted q = .ok n) (hn : 0 < n)
    (hlines : lines q = [f]) : Headerless q := by
  have hpos := blank_found hc hn
  have hfind := find_crlf_of_lines_singleton hpos hlines
  have hblock : lines q = [block q] := splitBy_eq_singleton (not_infix_block_of_line hlines)
  rw [Headerless, hfind, ← block]
  refine ⟨prefix_drop_search hpos, ?_⟩
  intro hm
  rw [checkCompleted_eq_verdict hpos, hblock, verdict_singleton_of_mention hm] at hc
  have := Except.ok.inj hc
  omega

theorem headerLoop_enter (pre r t : Bytes) (hs : Headers) :
    ∃ stop, headerLoop (pre ++ (r ++ (crlf ++ t))) (pre.length + r.length) hs pre.length =
        .ok ((enter hs (splitBy crlf r).dropLast).1, stop) ∧
      stop.isSome = (enter hs (splitBy crlf r).dropLast).2 ∧ ∀ b, stop = some b → b ≤ pre.length + r.length := by
  induction r using infix_induction crlf_ne_nil generalizing pre hs with
  | last r hr =>
    have hfind : find (r ++ (crlf ++ t)) crlf = r.length := crlf_unbordered.search_append hr t
    rw [splitBy_eq_singleton hr, headerLoop, List.drop_left, hfind]
    refine ⟨some pre.length, if_pos rfl, rfl, fun b hb ↦ ?_⟩
    exact Option.some.inj hb ▸ Nat.le_add_right _ _
  | piece line r hline ih =>
    obtain ⟨a, ls, hls⟩ := List.exists_cons_of_ne_nil (splitBy_ne_nil crlf r)
    have hfind : find (line ++ (crlf ++ (r ++ (crlf ++ t)))) crlf = line.length :=
      crlf_unbordered.search_append hline _
    have hlen : (line ++ (crlf ++ r)).length = line.length + 2 + r.length := by
      simp only [crlf, List.length_append, List.length_cons, List.length_nil]
      omega
    rw [crlf_unbordered.splitBy_append crlf_ne_nil hline, hls, List.dropLast_cons_cons, ← hls, headerLoop,
      List.drop_left, List.append_assoc, List.append_assoc, hfind, hlen]
    dsimp only
    rw [if_neg (by omega), Nat.add_sub_cancel_left, List.take_left]
    by_cases hcolon : findChar line colon = line.length
    · rw [if_pos hcolon, enter_cons_of_no_colon hcolon]
      exact ⟨none, rfl, rfl, fun b hb ↦ by cases hb⟩
    · have hin : pre.length + line.length + 2 ≤ (pre ++ (line ++ (crlf ++ (r ++ (crlf ++ t))))).length := by
        simp only [crlf, List.length_append, List.length_cons]
        omega
      have hpre : pre ++ (line ++ (crlf ++ (r ++ (crlf ++ t)))) =
          (pre ++ line ++ crlf) ++ (r ++ (crlf ++ t)) := by
        simp only [List.append_assoc]
      have hprelen : (pre ++ line ++ crlf).length = pre.length + line.length + 2 := by
        simp only [crlf, List.length_append, List.length_cons, List.length_nil]
      have hend : pre.length + (line.length + 2 + r.length) = pre.length + line.length + 2 + r.length := by omega
      have hnext := ih (pre ++ line ++ crlf) (hs.insert (key line) (value line))
      rw [hprelen] at hnext
      rw [if_neg hcolon, if_pos hin, enter_cons_of_colon hcolon, hpre, hend]
      exact hnext

/-- A complete message with header lines: all of them but the last one are
entered, and the body is what the length leaves. -/
theorem decodeSlice_lines {q : Bytes} {n : ℤ} (hc : checkCompleted q = .ok n) (hn : 0 < n) {f l : Bytes}
    {ls : List Bytes} (hlines : lines q = f :: l :: ls) (m : HttpMessage) :
    decodeSlice m q = .ok (if (enter m.headers (l :: ls).dropLast).2 then
        (n, ⟨f, (enter m.headers (l :: ls).dropLast).1,
          (q.drop (find q crlfcrlf + 4)).take (n - (find q crlfcrlf + 4)).toNat⟩)
      else (-1, ⟨f, (enter m.headers (l :: ls).dropLast).1, m.body⟩)) := by
  have hpos := blank_found hc hn
  obtain ⟨t, hq, hblock⟩ := block_append hpos
  obtain ⟨r, hr, hf, hsplit⟩ := crlf_unbordered.eq_append_of_splitBy crlf_ne_nil hlines
  have hv := hc
  rw [checkCompleted_eq_verdict hpos] at hv
  obtain ⟨hlong, -⟩ := verdict_pos hv hn
  have hfit := checkCompleted_le hc
  have hq' : q = f ++ (crlf ++ (r ++ (crlf ++ (crlf ++ t)))) := by
    rw [hr] at hq
    rw [hq]
    simp only [List.append_assoc]
  have hfirst : find q crlf = f.length := by
    rw [hq']
    exact crlf_unbordered.search_append hf _
  have hlen : (f ++ crlf).length + r.length = find q crlfcrlf := by
    rw [← hblock, hr]
    simp only [List.length_append]
    omega
  have hpre : (f ++ crlf).length = f.length + 2 := List.length_append
  have hend : f.length + 2 + find (q.drop (f.length + 2)) crlfcrlf = find q crlfcrlf :=
    search_drop (show f.length + 2 ≤ find q crlfcrlf by omega)
  obtain ⟨stop, hloop, hstop, hbase⟩ := headerLoop_enter (f ++ crlf) r (crlf ++ t) m.headers
  have hcat : (f ++ crlf) ++ (r ++ (crlf ++ (crlf ++ t))) = q := by
    rw [hq']
    simp only [List.append_assoc]
  rw [hcat, hlen, hpre, hsplit] at hloop
  rw [hsplit] at hstop
  have hnext : find (q.drop (f.length + 2)) crlf ≤ find q crlfcrlf - (f.length + 2) := by
    refine search_le ?_
    rw [List.drop_drop, Nat.add_sub_cancel' (by omega)]
    exact crlf_prefix_crlfcrlf.trans (prefix_drop_search hpos)
  have hblank := blank_le hpos
  have htake : q.take f.length = f := by rw [hq', List.take_left]
  have hstart : f.length + 2 ≤ q.length := by omega
  rw [decodeSlice, hc, ok_bind]
  dsimp only
  rw [if_neg (by omega), hfirst, if_neg (by omega), check_of hstart, ok_bind, hend, if_neg (by omega),
    if_neg (by omega), hloop, ok_bind, htake, ← hstop]
  cases stop with
  | none => rfl
  | some base =>
    have hbound := hbase base rfl
    have hbody : n - (find q crlfcrlf + 4) ≤ ((q.drop (find q crlfcrlf + 4)).length : ℤ) := by
      rw [List.length_drop]
      omega
    dsimp only
    rw [check_of ⟨by omega, hblank⟩, ok_bind, check_of (by omega), ok_bind, check_of hbody, ok_bind]
    rfl

theorem decodeSlice_append_of_headers {p f l : Bytes} {ls : List Bytes} {n : ℤ} (hc : checkCompleted p = .ok n)
    (hn : 0 < n) (hlines : lines p = f :: l :: ls) (m : HttpMessage) (q : Bytes) :
    decodeSlice m (p ++ q) = decodeSlice m p := by
  have hpos := blank_found hc hn
  have hne : checkCompleted p ≠ .ok 0 := fun he ↦ hn.ne' (Except.ok.inj (hc.symm.trans he))
  have hcq := (checkCompleted_append hne q).trans hc
  have hlen := blank_le hpos
  have hfit := checkCompleted_le hc
  have hfind : find (p ++ q) crlfcrlf = find p crlfcrlf := search_append hpos q
  have hbody : ((p ++ q).drop (find p crlfcrlf + 4)).take (n - (find p crlfcrlf + 4)).toNat =
      (p.drop (find p crlfcrlf + 4)).take (n - (find p crlfcrlf + 4)).toNat := by
    rw [List.drop_append_of_le_length hlen, List.take_append_of_le_length (by rw [List.length_drop]; omega)]
  rw [decodeSlice_lines hcq hn ((lines_append hpos q).trans hlines),
    decodeSlice_lines hc hn hlines, hfind, hbody]

/-- Everything but a message without header lines is decoded alike when more
bytes are there, and such a message too unless a line end comes behind it. -/
theorem decodeSlice_append {p : Bytes} {m : HttpMessage} (h : ∀ m', decodeSlice m p ≠ .ok (0, m'))
    (q : Bytes) (hq : Headerless p → ¬ Blank (p ++ q)) :
    decodeSlice m (p ++ q) = decodeSlice m p := by
  have hc0 : checkCompleted p ≠ .ok 0 := by
    intro hc
    exact h m (by rw [decodeSlice, hc, ok_bind]; rfl)
  have hcq := checkCompleted_append hc0 q
  cases hc : checkCompleted p with
  | error fault => rw [decodeSlice, decodeSlice, hcq, hc, error_bind, error_bind]
  | ok n =>
    by_cases h0 : n ≤ 0
    · rw [decodeSlice, decodeSlice, hcq, hc, ok_bind, ok_bind, if_pos h0, if_pos h0]
    have hn : 0 < n := not_le.mp h0
    obtain ⟨f, hlines⟩ | ⟨f, l, ls, hlines⟩ := lines_cases p
    · have hp := headerless_of_line hc hn hlines
      have hb : ¬ Blank p := fun hb ↦ hq hp (hb.append hp q)
      have hlen := length_le_of_prefix_drop crlfcrlf_ne_nil hp.1
      rw [decodeSlice_headerless hp, if_neg hb, decodeSlice_headerless (hp.append q), if_neg (hq hp),
        find_crlf_append hp.crlf_prefix, List.take_append_of_le_length (by omega)]
    · exact decodeSlice_append_of_headers hc hn hlines m q

theorem decodeSlice_accepted {m m' : HttpMessage} {q : Bytes} {n : ℤ} (h : decodeSlice m q = .ok (n, m'))
    (hn : 0 < n) : checkCompleted q = .ok n ∧ ∃ f l ls, lines q = f :: l :: ls ∧
      (enter m.headers (l :: ls).dropLast).2 = true ∧ m' = ⟨f, (enter m.headers (l :: ls).dropLast).1,
        (q.drop (find q crlfcrlf + 4)).take (n - (find q crlfcrlf + 4)).toNat⟩ := by
  obtain ⟨k, hc, -⟩ := bind_eq_ok.mp h
  have hk : 0 < k := by
    by_contra hk
    rw [decodeSlice, hc, ok_bind, if_pos (not_lt.mp hk)] at h
    obtain ⟨rfl, -⟩ := Prod.mk.inj (Except.ok.inj h)
    exact hk hn
  obtain ⟨f, hlines⟩ | ⟨f, l, ls, hlines⟩ := lines_cases q
  · rw [decodeSlice_headerless (headerless_of_line hc hk hlines)] at h
    split at h
    · cases h
    · obtain ⟨rfl, -⟩ := Prod.mk.inj (Except.ok.inj h)
      exact absurd hn (by decide)
  · rw [decodeSlice_lines hc hk hlines] at h
    split at h
    · next hall =>
      obtain ⟨rfl, rfl⟩ := Prod.mk.inj (Except.ok.inj h)
      exact ⟨hc, f, l, ls, hlines, hall, rfl⟩
    · obtain ⟨rfl, -⟩ := Prod.mk.inj (Except.ok.inj h)
      exact absurd hn (by decide)

def message (f : Bytes) (ls : List Bytes) (body : Bytes) : Bytes :=
  crlf.intercalate (f :: ls) ++ (crlfcrlf ++ body)

section Message

variable {f : Bytes} {ls : List Bytes}

theorem find_message (hclean : ∀ a ∈ f :: ls, ¬crlf <:+: a) (hnil : ∀ l ∈ ls, l ≠ []) (body : Bytes) :
    find (message f ls body) crlfcrlf = (crlf.intercalate (f :: ls)).length :=
  crlf_unbordered.search_double crlf_ne_nil f ls hclean hnil body

theorem lines_message (hclean : ∀ a ∈ f :: ls, ¬crlf <:+: a) (hnil : ∀ l ∈ ls, l ≠ []) (body : Bytes) :
    lines (message f ls body) = f :: ls := by
  rw [lines, block, find_message hclean hnil, message, List.take_left]
  exact crlf_unbordered.splitBy_intercalate crlf_ne_nil f ls hclean

theorem length_message (f : Bytes) (ls : List Bytes) (body : Bytes) :
    (message f ls body).length = (crlf.intercalate (f :: ls)).length + 4 + body.length := by
  simp only [message, crlfcrlf, List.length_append, List.length_cons, List.length_nil]
  omega

end Message

end Baize.Http.HttpMessage
