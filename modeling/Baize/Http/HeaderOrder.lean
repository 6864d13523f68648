import Baize.Http.Framing

namespace Baize.Http.HttpMessage

open Lib StringPiece

/-- Header lines with distinct keys, among which `Content-Length` comes at most
once, as a key, and a body of the length that is announced there. -/
structure LinesOk (f : Bytes) (ls : List Bytes) (body : Bytes) : Prop where
  firstLine_clean : ¬crlf <:+: f
  clean : ∀ l ∈ ls, ¬crlf <:+: l
  colon_mem : ∀ l ∈ ls, colon ∈ l
  keys : (ls.map key).Nodup
  name_plain : ∀ l ∈ ls, key l ≠ contentLength → ¬contentLength <:+: l.take (findChar l colon)
  value_plain : ∀ l ∈ ls, ¬contentLength <:+: l.drop (findChar l colon + 1)
  framed : ∀ l ∈ ls, key l = contentLength →
    value l ≠ [] ∧ AllDigits (value l) ∧ decimal (value l) = body.length
  unframed : (∀ l ∈ ls, key l ≠ contentLength) → body = []

section Message

variable {f body : Bytes} {ls : List Bytes}

theorem LinesOk.perm {ls' : List Bytes} (h : LinesOk f ls body) (hp : ls'.Perm ls) : LinesOk f ls' body where
  firstLine_clean := h.firstLine_clean
  clean l hl := h.clean l (hp.mem_iff.mp hl)
  colon_mem l hl := h.colon_mem l (hp.mem_iff.mp hl)
  keys := (hp.map key).nodup_iff.mpr h.keys
  name_plain l hl := h.name_plain l (hp.mem_iff.mp hl)
  value_plain l hl := h.value_plain l (hp.mem_iff.mp hl)
  framed l hl := h.framed l (hp.mem_iff.mp hl)
  unframed hl := h.unframed fun l hmem ↦ hl l (hp.mem_iff.mpr hmem)

theorem LinesOk.colon_ne {l : Bytes} (h : LinesOk f ls body) (hl : l ∈ ls) : findChar l colon ≠ l.length :=
  (List.idxOf_lt_length_iff.mpr (h.colon_mem l hl)).ne

theorem LinesOk.key_ne_of_mem {a z : List Bytes} {l y : Bytes} (h : LinesOk f (a ++ l :: z) body) (hy : y ∈ a) :
    key y ≠ key l := by
  have hnodup := h.keys
  rw [List.map_append, List.map_cons, List.nodup_append] at hnodup
  exact hnodup.2.2 (key y) (List.mem_map_of_mem hy) (key l) List.mem_cons_self

theorem LinesOk.not_mention {l : Bytes} (h : LinesOk f ls body) (hl : l ∈ ls) (hk : key l ≠ contentLength) :
    ¬contentLength <:+: l := by
  have hname := h.name_plain l hl hk
  have hvalue := h.value_plain l hl
  obtain ⟨name, rest, rfl, hplain⟩ := exists_colon (h.colon_ne hl)
  rw [findChar_colon hplain, List.take_left] at hname
  rw [findChar_colon hplain, ← List.drop_drop, List.drop_left] at hvalue
  exact not_infix_append_cons (by decide) hname hvalue

theorem length_intercalate (f : Bytes) (ls : List Bytes) :
    (crlf.intercalate (f :: ls)).length = f.length + (ls.map fun l ↦ 2 + l.length).sum := by
  induction ls generalizing f with
  | nil => rw [List.intercalate_singleton, List.map_nil, List.sum_nil, Nat.add_zero]
  | cons l ls ih =>
    rw [List.intercalate_cons_cons, List.length_append, List.length_append, ih, List.map_cons, List.sum_cons]
    simp only [crlf, List.length_cons, List.length_nil]
    omega

theorem length_intercalate_perm {ls' : List Bytes} (hp : ls'.Perm ls) :
    (crlf.intercalate (f :: ls')).length = (crlf.intercalate (f :: ls)).length := by
  rw [length_intercalate, length_intercalate, (hp.map fun l ↦ 2 + l.length).sum_eq]

theorem LinesOk.all_clean (h : LinesOk f ls body) : ∀ a ∈ f :: ls, ¬crlf <:+: a :=
  List.forall_mem_cons.mpr ⟨h.firstLine_clean, h.clean⟩

theorem LinesOk.not_nil (h : LinesOk f ls body) : ∀ l ∈ ls, l ≠ [] := by
  intro l hl hnil
  exact List.not_mem_nil (hnil ▸ h.colon_mem l hl)

theorem LinesOk.lines_eq (h : LinesOk f ls body) : lines (message f ls body) = f :: ls :=
  lines_message h.all_clean h.not_nil body

theorem LinesOk.checkCompleted_eq (h : LinesOk f ls body) : checkCompleted (message f ls body) =
    verdict (crlf.intercalate (f :: ls)).length body.length (f :: ls) := by
  have hpos : find (message f ls body) crlfcrlf ≠ (message f ls body).length := by
    rw [find_message h.all_clean h.not_nil, length_message]
    omega
  rw [checkCompleted_eq_verdict hpos, find_message h.all_clean h.not_nil, h.lines_eq, List.length_drop,
    length_message, Nat.add_sub_cancel_left]

theorem LinesOk.verdict_eq {x : Bytes} (h : LinesOk f (ls ++ [x]) body) {pos : ℕ}
    (hfit : pos + 4 + body.length < 2147483648) : verdict pos body.length (ls ++ [x]) =
      .ok (if key x = contentLength then -1 else ((pos + 4 + body.length : ℕ) : ℤ)) := by
  have hx : x ∈ ls ++ [x] := List.mem_append_right _ (List.mem_singleton_self x)
  have hin : ∀ l ∈ ls, l ∈ ls ++ [x] := fun l hl ↦ List.mem_append_left _ hl
  by_cases hk : key x = contentLength
  · have hother : ∀ l ∈ ls, ¬contentLength <:+: l := by
      intro l hl
      exact h.not_mention (hin l hl) fun hl' ↦ h.key_ne_of_mem hl (hl'.trans hk.symm)
    rw [verdict_append hother, verdict_singleton_of_mention (hk ▸ key_isInfix x), if_pos hk]
  rw [if_neg hk]
  by_cases hsome : ∃ l ∈ ls, key l = contentLength
  · obtain ⟨l, hl, hlk⟩ := hsome
    obtain ⟨a, z, rfl⟩ := List.append_of_mem hl
    have hsplit : LinesOk f (a ++ l :: (z ++ [x])) body := by rwa [List.append_assoc] at h
    have hother : ∀ y ∈ a, ¬contentLength <:+: y := by
      intro y hy
      exact hsplit.not_mention (List.mem_append_left _ hy) fun hy' ↦ hsplit.key_ne_of_mem hy (hy'.trans hlk.symm)
    obtain ⟨-, hdigits, hlen⟩ := h.framed l (hin l hl) hlk
    have hsame := value_drop_contentLength hlk (h.colon_ne (hin l hl))
    have hnumbered : Numbered (l.drop (find l contentLength)) := by
      refine ⟨?_, hsame ▸ hdigits⟩
      exact colon_of_value (hsame ▸ (h.framed l (hin l hl) hlk).1)
    rw [List.append_assoc, verdict_append hother, List.cons_append,
      verdict_cons_of_mention (hlk ▸ key_isInfix l) _ _
        (List.append_ne_nil_of_right_ne_nil _ (List.cons_ne_nil _ _)),
      announce_numbered hnumbered (by rw [hsame, hlen]) hfit, hsame, hlen]
  · have hnone : ∀ l ∈ ls ++ [x], key l ≠ contentLength := by
      intro l hl hlk
      rcases List.mem_append.mp hl with hl | hl
      · exact hsome ⟨l, hl, hlk⟩
      · exact hk (List.mem_singleton.mp hl ▸ hlk)
    have hall := verdict_append (fun l hl ↦ h.not_mention hl (hnone l hl)) pos body.length []
    rw [List.append_nil] at hall
    rw [hall, h.unframed hnone]
    rfl

/-- The first line gives a `Content-Length` that is no `int`. -/
def Overflows (f : Bytes) : Prop :=
  contentLength <:+: f ∧ 2147483648 ≤ decimal ((value (f.drop (find f contentLength))).takeWhile isDigit)

/-- The first line mentions `Content-Length`, and what it says does not pass. -/
def Refused (f body : Bytes) : Prop :=
  contentLength <:+: f ∧ ¬Overflows f ∧ ¬(Numbered (f.drop (find f contentLength)) ∧
    decimal (value (f.drop (find f contentLength))) ≤ body.length)

theorem announce_overflows {pos rest : ℕ} {header : Bytes}
    (h : 2147483648 ≤ decimal ((value header).takeWhile isDigit)) :
    announce pos rest header = .error .overflow := by
  have hcolon : findChar header colon ≠ header.length := by
    refine colon_of_value fun hnil ↦ ?_
    rw [hnil] at h
    exact absurd h (by decide)
  rw [announce, if_neg hcolon, parseInt_zero_eq_ite, if_neg (not_lt.mpr h)]
  rfl

theorem announce_total {pos rest : ℕ} {header : Bytes}
    (h : decimal ((value header).takeWhile isDigit) < 2147483648) (hfit : pos + 4 + rest < 2147483648) :
    ∃ n, announce pos rest header = .ok n := by
  unfold announce
  split_ifs
  · exact ⟨-1, rfl⟩
  · rw [parseInt_zero_eq_ite, if_pos h, ok_bind]
    dsimp only
    split_ifs with hstop hlen
    · exact ⟨-1, rfl⟩
    · exact ⟨0, rfl⟩
    · exact ⟨_, int_of (by omega) (by omega)⟩

theorem LinesOk.accepted_or {x : Bytes} (h : LinesOk f (ls ++ [x]) body) (hov : ¬Overflows f)
    (hr : ¬Refused f body) (hfit : (message f (ls ++ [x]) body).length < 2147483648) :
    (∃ n, 0 < n ∧ checkCompleted (message f (ls ++ [x]) body) = .ok n) ∨
      key x = contentLength ∧ checkCompleted (message f (ls ++ [x]) body) = .ok (-1) := by
  have hne : ls ++ [x] ≠ [] := List.append_ne_nil_of_right_ne_nil _ (List.cons_ne_nil _ _)
  rw [length_message] at hfit
  rw [h.checkCompleted_eq]
  by_cases hm : contentLength <:+: f
  · have hnumber := not_not.mp fun hno ↦ hr ⟨hm, hov, hno⟩
    rw [verdict_cons_of_mention hm _ _ hne, announce_numbered hnumber.1 hnumber.2 hfit]
    exact .inl ⟨_, by omega, rfl⟩
  · rw [verdict_cons_of_not_mention hm, h.verdict_eq hfit]
    by_cases hk : key x = contentLength
    · rw [if_pos hk]
      exact .inr ⟨hk, rfl⟩
    · rw [if_neg hk]
      exact .inl ⟨_, by omega, rfl⟩

theorem LinesOk.enter_all {x : Bytes} (h : LinesOk f (ls ++ [x]) body) (headers : Headers) :
    (enter headers ls).2 = true :=
  enter_of_colons (fun _ hl ↦ h.colon_ne (List.mem_append_left _ hl)) headers

theorem LinesOk.decodeSlice_accepted {x : Bytes} (h : LinesOk f (ls ++ [x]) body) {n : ℤ} (hn : 0 < n)
    (hc : checkCompleted (message f (ls ++ [x]) body) = .ok n) :
    ∃ body', decodeSlice fresh (message f (ls ++ [x]) body) = .ok (n, ⟨f, (enter .empty ls).1, body'⟩) := by
  obtain ⟨l, ls', hls⟩ := List.exists_cons_of_ne_nil (l := ls ++ [x])
    (List.append_ne_nil_of_right_ne_nil _ (List.cons_ne_nil _ _))
  have hs := decodeSlice_lines hc hn (h.lines_eq.trans (congrArg _ hls)) fresh
  rw [← hls, List.dropLast_concat, if_pos (h.enter_all _)] at hs
  exact ⟨_, hs⟩

theorem LinesOk.find_last {x : Bytes} (h : LinesOk f (ls ++ [x]) body) :
    (enter .empty ls).1.find (key x) = none := by
  rw [find_enter (h.enter_all _), entered_eq_none fun l hl ↦ h.key_ne_of_mem hl]
  rfl

theorem LinesOk.find_entered {x y : Bytes} (h : LinesOk f (x :: ls ++ [y]) body) :
    (enter .empty (x :: ls)).1.find (key x) ≠ none := by
  rw [find_enter (h.enter_all _), entered_cons, if_pos rfl]
  cases entered (key x) ls with
  | none => exact Option.some_ne_none _
  | some v => exact Option.some_ne_none _

end Message

/-- What `Decode` returns, and `headers_` and `body_` behind it. -/
def outcome (r : Checked (ℤ × HttpMessage × Net.Buffer)) : Checked (ℤ × Headers × Bytes) :=
  r.map fun x ↦ (x.1, x.2.1.headers, x.2.1.body)

theorem outcome_decode {b : Net.Buffer} {q : Bytes} (hb : b.Holds q) (m : HttpMessage) :
    outcome (decode m b) = (decodeSlice m q).map fun x ↦ (x.1, x.2.headers, x.2.body) := by
  cases hs : decodeSlice m q with
  | error fault => rw [decode_error hb hs]; rfl
  | ok r =>
    obtain ⟨b', hd, -⟩ := decode_ok hb hs
    rw [hd]
    rfl

theorem decodeSlice_rejected {q : Bytes} {n : ℤ} (hc : checkCompleted q = .ok n) (hn : n ≤ 0) :
    decodeSlice fresh q = .ok (n, fresh) := by
  rw [decodeSlice, hc, ok_bind, if_pos hn]
  rfl

theorem LinesOk.decodeSlice_overflows {f body : Bytes} {ls : List Bytes} (h : LinesOk f ls body) (hls : ls ≠ [])
    (hov : Overflows f) : decodeSlice fresh (message f ls body) = .error .overflow := by
  rw [decodeSlice, h.checkCompleted_eq, verdict_cons_of_mention hov.1 _ _ hls,
    announce_overflows hov.2, error_bind]

theorem LinesOk.decodeSlice_refused {f body : Bytes} {ls : List Bytes} (h : LinesOk f ls body) (hls : ls ≠ [])
    (hr : Refused f body) (hfit : (message f ls body).length < 2147483648) :
    ∃ n, ∀ ls', ls'.Perm ls → decodeSlice fresh (message f ls' body) = .ok (n, fresh) := by
  obtain ⟨hm, hov, hno⟩ := hr
  rw [length_message] at hfit
  obtain ⟨n, hn⟩ := announce_total (not_le.mp fun hlarge ↦ hov ⟨hm, hlarge⟩) hfit
  have hn0 : n ≤ 0 := by
    by_contra hpos
    obtain ⟨hnumber, -, hle⟩ := announce_pos hn (not_le.mp hpos)
    exact hno ⟨hnumber, hle⟩
  refine ⟨n, fun ls' hp ↦ decodeSlice_rejected ?_ hn0⟩
  have hls' : ls' ≠ [] := fun hnil ↦ hls (List.nil_perm.mp (hnil ▸ hp))
  rw [(h.perm hp).checkCompleted_eq, verdict_cons_of_mention hm _ _ hls', length_intercalate_perm hp, hn]

theorem LinesOk.decodeSlice_total {f body : Bytes} {ls : List Bytes} (h : LinesOk f ls body) (hls : ls ≠ [])
    (hov : ¬Overflows f) (hr : ¬Refused f body) (hfit : (message f ls body).length < 2147483648) :
    ∃ r, decodeSlice fresh (message f ls body) = .ok r := by
  obtain ⟨init, x, rfl⟩ := (List.eq_nil_or_concat' ls).resolve_left hls
  obtain ⟨n, hn, hc⟩ | ⟨-, hc⟩ := h.accepted_or hov hr hfit
  · obtain ⟨body', hs⟩ := h.decodeSlice_accepted hn hc
    exact ⟨_, hs⟩
  · exact ⟨_, decodeSlice_rejected hc (by decide)⟩

theorem decodeSlice_swap_ne {f body x y : Bytes} {ls : List Bytes} (h : LinesOk f (y :: ls ++ [x]) body)
    (h' : LinesOk f (x :: ls ++ [y]) body) (hov : ¬Overflows f) (hr : ¬Refused f body)
    (hfit : (message f (y :: ls ++ [x]) body).length < 2147483648)
    (hfit' : (message f (x :: ls ++ [y]) body).length < 2147483648) :
    (decodeSlice fresh (message f (x :: ls ++ [y]) body)).map (fun r ↦ (r.1, r.2.headers, r.2.body)) ≠
      (decodeSlice fresh (message f (y :: ls ++ [x]) body)).map fun r ↦ (r.1, r.2.headers, r.2.body) := by
  intro hsame
  obtain ⟨n, hn, hc⟩ | ⟨hx, hc⟩ := h.accepted_or hov hr hfit
  · obtain ⟨body₁, hs⟩ := h.decodeSlice_accepted hn hc
    obtain ⟨n', hn', hc'⟩ | ⟨-, hc'⟩ := h'.accepted_or hov hr hfit'
    · obtain ⟨body₂, hs'⟩ := h'.decodeSlice_accepted hn' hc'
      rw [hs, hs'] at hsame
      have hheaders := congrArg (fun r ↦ r.2.1.find (key x)) (Except.ok.inj hsame)
      exact h'.find_entered (hheaders.trans h.find_last)
    · rw [hs, decodeSlice_rejected hc' (by decide)] at hsame
      have hlen : -1 = n := congrArg Prod.fst (Except.ok.inj hsame)
      omega
  · obtain ⟨n', hn', hc'⟩ | ⟨hy, -⟩ := h'.accepted_or hov hr hfit'
    · obtain ⟨body₂, hs'⟩ := h'.decodeSlice_accepted hn' hc'
      rw [hs', decodeSlice_rejected hc (by decide)] at hsame
      have hlen : n' = -1 := congrArg Prod.fst (Except.ok.inj hsame)
      omega
    · exact h.key_ne_of_mem List.mem_cons_self (hy.trans hx.symm)

/-- `Decode` comes back with the same result for every order of the header lines exactly when the first
line gives no number beyond `int`, and there is one header line or the first line makes `CheckCompleted`
fail. For all others there is an order that gives another result, since `Decode` does not enter the last
line. -/
theorem decode_perm_iff {f body : Bytes} {ls : List Bytes} {b : Net.Buffer} (h : LinesOk f ls body)
    (hls : ls ≠ []) (hb : b.Holds (message f ls body)) :
    (∃ r, outcome (decode fresh b) = .ok r ∧ ∀ (ls' : List Bytes) (b' : Net.Buffer), ls'.Perm ls →
      b'.Holds (message f ls' body) → outcome (decode fresh b') = .ok r) ↔
      ls.length = 1 ∧ ¬Overflows f ∨ Refused f body := by
  have hfit : (message f ls body).length < 2147483648 := hb.length_le.trans_lt hb.size_lt
  constructor
  · rintro ⟨r, hr, hsame⟩
    have hov : ¬Overflows f := by
      intro hov
      rw [outcome_decode hb, h.decodeSlice_overflows hls hov] at hr
      cases hr
    by_contra hno
    obtain ⟨hlen, hrefused⟩ := not_or.mp hno
    obtain ⟨y, t, rfl⟩ := List.exists_cons_of_ne_nil hls
    obtain rfl | ⟨mid, x, rfl⟩ := List.eq_nil_or_concat' t
    · exact hlen ⟨rfl, hov⟩
    have hp : (x :: mid ++ [y]).Perm (y :: (mid ++ [x])) :=
      ((List.perm_append_singleton y mid).cons x).trans
        ((List.Perm.swap y x mid).trans ((List.perm_append_singleton x mid).symm.cons y))
    have hlength : (message f (x :: mid ++ [y]) body).length = (message f (y :: (mid ++ [x])) body).length := by
      rw [length_message, length_message, length_intercalate_perm hp]
    have hroom := hb.length_add_le
    have hsize := hb.size_lt
    obtain ⟨b', hb'⟩ := Net.Buffer.exists_holds (p := message f (x :: mid ++ [y]) body) (by omega)
    have heq := (hsame _ b' hp hb').trans hr.symm
    rw [outcome_decode hb', outcome_decode hb] at heq
    exact decodeSlice_swap_ne h (h.perm hp) hov hrefused hfit (by omega) heq
  · intro hcases
    by_cases hr : Refused f body
    · obtain ⟨n, hn⟩ := h.decodeSlice_refused hls hr hfit
      refine ⟨(n, fresh.headers, fresh.body), ?_, fun ls' b' hp hb' ↦ ?_⟩
      · rw [outcome_decode hb, hn ls (List.Perm.refl ls)]
        rfl
      · rw [outcome_decode hb', hn ls' hp]
        rfl
    · obtain ⟨hlen, hov⟩ := hcases.resolve_right hr
      obtain ⟨x, rfl⟩ := List.length_eq_one_iff.mp hlen
      obtain ⟨r, hs⟩ := h.decodeSlice_total hls hov hr hfit
      refine ⟨(r.1, r.2.headers, r.2.body), ?_, fun ls' b' hp hb' ↦ ?_⟩
      · rw [outcome_decode hb, hs]
        rfl
      · obtain rfl := List.perm_singleton.mp hp
        rw [outcome_decode hb', hs]
        rfl

theorem linesOk_two : LinesOk [65] [contentLength ++ [58, 48], [88, 58, 49]] [] := by
  refine ⟨by decide, by decide, by decide, by decide, by decide, by decide, by decide +kernel, fun _ ↦ rfl⟩

theorem decode_perm_single : ∃ b r, Net.Buffer.Holds b (message [65] [[88, 58, 49]] []) ∧
    outcome (decode fresh b) = .ok r ∧ ∀ (ls' : List Bytes) (b' : Net.Buffer), ls'.Perm [[88, 58, 49]] →
      b'.Holds (message [65] ls' []) → outcome (decode fresh b') = .ok r := by
  obtain ⟨b, hb⟩ := Net.Buffer.exists_holds (p := message [65] [[88, 58, 49]] []) (by decide)
  have h : LinesOk [65] [[88, 58, 49]] [] :=
    ⟨by decide, by decide, by decide, by decide, by decide, by decide, by decide +kernel, fun _ ↦ rfl⟩
  have hov : ¬Overflows [65] := fun hov ↦ absurd hov.1 (by decide)
  obtain ⟨r, hr, hsame⟩ := (decode_perm_iff h (by decide) hb).mpr (.inl ⟨rfl, hov⟩)
  exact ⟨b, r, hb, hr, hsame⟩

/-- With `Content-Length:0` in front of `X:1` the message is accepted, behind it
the message is malformed. -/
theorem decode_swapped : LinesOk [65] [contentLength ++ [58, 48], [88, 58, 49]] [] ∧
    (∃ b m b', Net.Buffer.Holds b (message [65] [contentLength ++ [58, 48], [88, 58, 49]] []) ∧
      decode fresh b = .ok (28, m, b')) ∧
    ∃ b m b', Net.Buffer.Holds b (message [65] [[88, 58, 49], contentLength ++ [58, 48]] []) ∧
      decode fresh b = .ok (-1, m, b') := by
  refine ⟨linesOk_two, ?_, ?_⟩
  · obtain ⟨b, hb⟩ := Net.Buffer.exists_holds
      (p := message [65] [contentLength ++ [58, 48], [88, 58, 49]] []) (by decide)
    have hs := decodeSlice_lines (n := 28) (by rfl) (by decide) linesOk_two.lines_eq fresh
    rw [if_pos (by decide)] at hs
    obtain ⟨b', hd, -⟩ := decode_ok hb hs
    exact ⟨b, _, b', hb, hd⟩
  · obtain ⟨b, hb⟩ := Net.Buffer.exists_holds
      (p := message [65] [[88, 58, 49], contentLength ++ [58, 48]] []) (by decide)
    have hs : decodeSlice fresh (message [65] [[88, 58, 49], contentLength ++ [58, 48]] []) = .ok (-1, fresh) :=
      rfl
    obtain ⟨b', hd, -⟩ := decode_ok hb hs
    exact ⟨b, _, b', hb, hd⟩

end Baize.Http.HttpMessage
