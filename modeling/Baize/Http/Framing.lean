import Baize.Http.BodyLength

namespace Baize.Http.HttpMessage

open Lib StringPiece

/-- The value that `headers_` holds for `name` once the lines are entered: that
of the last line with this key. -/
def entered (name : Bytes) (ls : List Bytes) : Option Bytes :=
  (ls.reverse.find? (fun line ↦ key line = name)).map value

theorem entered_cons (name line : Bytes) (ls : List Bytes) : entered name (line :: ls) =
    (entered name ls).or (if key line = name then some (value line) else none) := by
  simp only [entered, List.reverse_cons, List.find?_append, List.find?_singleton, decide_eq_true_eq]
  cases ls.reverse.find? (fun line ↦ key line = name) with
  | none =>
    rw [Option.none_or, Option.map_none, Option.none_or]
    split <;> rfl
  | some l => rfl

theorem entered_append (name : Bytes) (ls ls' : List Bytes) :
    entered name (ls ++ ls') = (entered name ls').or (entered name ls) := by
  simp only [entered, List.reverse_append, List.find?_append]
  cases ls'.reverse.find? (fun line ↦ key line = name) with
  | none => rfl
  | some l => rfl

theorem entered_eq_none {name : Bytes} {ls : List Bytes} (h : ∀ line ∈ ls, key line ≠ name) :
    entered name ls = none := by
  rw [entered, List.find?_eq_none.mpr (fun line hl ↦ by simpa using h line (List.mem_reverse.mp hl))]
  rfl

theorem find_enter {ls : List Bytes} {hs : Headers} (h : (enter hs ls).2 = true) (name : Bytes) :
    (enter hs ls).1.find name = (entered name ls).or (hs.find name) := by
  induction ls generalizing hs with
  | nil => rfl
  | cons line ls ih =>
    by_cases hcolon : findChar line colon = line.length
    · rw [enter_cons_of_no_colon hcolon] at h
      cases h
    · rw [enter_cons_of_colon hcolon] at h ⊢
      rw [ih h, entered_cons, Option.or_assoc, SortedMap.find_insert]
      congr 1
      by_cases hk : key line = name
      · rw [if_pos hk.symm, if_pos hk]
        rfl
      · rw [if_neg (Ne.symm hk), if_neg hk]
        rfl

/-- The body is as long as the headers say. -/
def Framed (m : HttpMessage) : Prop :=
  (∀ v, m.headers.find contentLength = some v → v ≠ [] ∧ AllDigits v ∧ decimal v = m.body.length) ∧
    (m.headers.find contentLength = none → m.body = [])

/-- The last `Content-Length` among the lines that are entered says what the
first mention of it in any line says. -/
def Agree (ls : List Bytes) : Prop :=
  (∀ v, entered contentLength ls.tail.dropLast = some v → v ≠ [] ∧ AllDigits v ∧ decimal v = announced ls) ∧
    (entered contentLength ls.tail.dropLast = none → announced ls = 0)

/-- `Content-Length` is not mentioned at all, or first as the key of a header
line that has a value and whose key does not come again. -/
def Unambiguous (ls : List Bytes) : Prop :=
  (∀ line ∈ ls, ¬contentLength <:+: line) ∨
    ∃ a line z, ls = a ++ line :: z ∧ a ≠ [] ∧ (∀ x ∈ a, ¬contentLength <:+: x) ∧
      key line = contentLength ∧ value line ≠ [] ∧ ∀ x ∈ z, key x ≠ contentLength

theorem key_isInfix (line : Bytes) : key line <:+: line :=
  (trimSpace_isInfix _).trans (List.take_prefix _ _).isInfix

theorem key_ne_of_not_mention {line : Bytes} (h : ¬contentLength <:+: line) : key line ≠ contentLength :=
  fun hk ↦ h (hk ▸ key_isInfix line)

theorem colon_of_value {line : Bytes} (h : value line ≠ []) : findChar line colon ≠ line.length := by
  intro he
  refine h ?_
  rw [value, he, List.drop_eq_nil_of_le (Nat.le_succ _)]
  rfl

theorem value_drop_contentLength {line : Bytes} (hk : key line = contentLength)
    (hcolon : findChar line colon ≠ line.length) :
    value (line.drop (find line contentLength)) = value line := by
  obtain ⟨name, rest, rfl, hname⟩ := exists_colon hcolon
  rw [key_append hname] at hk
  obtain ⟨pre, post, hsplit, hpre, -⟩ := trimSpace_spec name
  rw [hk] at hsplit
  have hC : (67 : UInt8) ∉ pre := fun h ↦ absurd (hpre 67 h) (by decide)
  have hline : name ++ colon :: rest = pre ++ (contentLength ++ (post ++ colon :: rest)) := by
    rw [hsplit]
    simp only [List.append_assoc]
  have hfind : find (name ++ colon :: rest) contentLength = pre.length := by
    have hzero : search contentLength (contentLength ++ (post ++ colon :: rest)) = 0 :=
      search_eq_zero (List.prefix_append _ _)
    rw [hline, find]
    rw [contentLength] at hzero ⊢
    rw [search_append_of_notMem hC, hzero, Nat.add_zero]
  have hplain : colon ∉ contentLength ++ post := by
    intro h
    exact hname (hsplit ▸ List.mem_append_right pre h)
  rw [hfind, value_append hname, hline, List.drop_left, ← List.append_assoc, value_append hplain]

theorem accepted_body {q : Bytes} {n : ℤ} {m : HttpMessage} (h : decodeSlice fresh q = .ok (n, m)) (hn : 0 < n) :
    verdict (find q crlfcrlf) (q.drop (find q crlfcrlf + 4)).length (lines q) = .ok n ∧
      m.body.length = announced (lines q) ∧
      m.headers.find contentLength = entered contentLength (lines q).tail.dropLast := by
  obtain ⟨hc, f, l, ls, hlines, hall, rfl⟩ := decodeSlice_accepted h hn
  rw [checkCompleted_eq_verdict (blank_found hc hn)] at hc
  obtain ⟨hlen, hle⟩ := verdict_pos hc hn
  refine ⟨hc, ?_, ?_⟩
  · rw [List.length_take_of_le (by omega)]
    omega
  · rw [hlines]
    exact (find_enter hall contentLength).trans Option.or_none

theorem announced_eq_zero {ls : List Bytes} (h : ∀ line ∈ ls, ¬contentLength <:+: line) : announced ls = 0 := by
  induction ls with
  | nil => rfl
  | cons line ls ih =>
    rw [announced, if_neg (h line List.mem_cons_self)]
    exact ih fun x hx ↦ h x (List.mem_cons_of_mem _ hx)

theorem announced_append {a : List Bytes} (ha : ∀ x ∈ a, ¬contentLength <:+: x) (ls : List Bytes) :
    announced (a ++ ls) = announced ls := by
  induction a with
  | nil => rfl
  | cons x a ih =>
    rw [List.cons_append, announced, if_neg (ha x List.mem_cons_self)]
    exact ih fun y hy ↦ ha y (List.mem_cons_of_mem _ hy)

theorem verdict_append {a : List Bytes} (ha : ∀ x ∈ a, ¬contentLength <:+: x) (pos rest : ℕ)
    (ls : List Bytes) : verdict pos rest (a ++ ls) = verdict pos rest ls := by
  induction a with
  | nil => rfl
  | cons x a ih =>
    rw [List.cons_append, verdict_cons_of_not_mention (ha x List.mem_cons_self)]
    exact ih fun y hy ↦ ha y (List.mem_cons_of_mem _ hy)

theorem Unambiguous.agree {ls : List Bytes} {pos rest : ℕ} {n : ℤ} (h : Unambiguous ls)
    (hv : verdict pos rest ls = .ok n) (hn : 0 < n) : Agree ls := by
  obtain hnone | ⟨a, line, z, rfl, ha, hplain, hkey, hvalue, hz⟩ := h
  · have hentered : entered contentLength ls.tail.dropLast = none := by
      refine entered_eq_none fun line hl ↦ key_ne_of_not_mention (hnone line ?_)
      exact List.mem_of_mem_tail (List.mem_of_mem_dropLast hl)
    refine ⟨fun v hsome ↦ ?_, fun _ ↦ announced_eq_zero hnone⟩
    cases hentered.symm.trans hsome
  · have hm : contentLength <:+: line := hkey ▸ key_isInfix line
    have hsame := value_drop_contentLength hkey (colon_of_value hvalue)
    have hannounced : announced (a ++ line :: z) = decimal (value line) := by
      rw [announced_append hplain, announced, if_pos hm, hsame]
    rw [verdict_append hplain] at hv
    have hznil : z ≠ [] := by
      intro hznil
      rw [hznil, verdict_singleton_of_mention hm] at hv
      cases hv
      exact absurd hn (by decide)
    rw [verdict_cons_of_mention hm _ _ hznil] at hv
    have hdigits := (announce_pos hv hn).1.2
    rw [hsame] at hdigits
    obtain ⟨f, a, rfl⟩ := List.exists_cons_of_ne_nil ha
    have hentered : entered contentLength (f :: a ++ line :: z).tail.dropLast = some (value line) := by
      rw [List.cons_append, List.tail_cons, List.dropLast_append_of_ne_nil (List.cons_ne_nil _ _),
        List.dropLast_cons_of_ne_nil hznil, entered_append, entered_cons,
        entered_eq_none fun x hx ↦ hz x (List.mem_of_mem_dropLast hx), if_pos hkey]
      rfl
    refine ⟨fun v hsome ↦ ?_, fun hnone ↦ ?_⟩
    · obtain rfl : value line = v := Option.some.inj (hentered.symm.trans hsome)
      exact ⟨hvalue, hdigits, hannounced.symm⟩
    · cases hentered.symm.trans hnone

/-- The body of an accepted message agrees with `headers_` exactly if the two
ways to read `Content-Length` do. -/
theorem decode_framed_iff {b b' : Net.Buffer} {q : Bytes} {n : ℤ} {m : HttpMessage} (hb : b.Holds q)
    (h : decode fresh b = .ok (n, m, b')) (hn : 0 < n) :
    (Framed m ↔ Agree (lines q)) ∧ (Unambiguous (lines q) → Framed m) := by
  obtain ⟨hv, hbody, hfind⟩ := accepted_body (decodeSlice_of_decode hb h) hn
  have hiff : Framed m ↔ Agree (lines q) := by
    rw [Framed, Agree, hfind, hbody, ← List.length_eq_zero_iff, hbody]
  exact ⟨hiff, fun hu ↦ hiff.mpr (hu.agree hv hn)⟩

theorem decode_framed_withBody : ∃ b m b', Net.Buffer.Holds b withBody ∧
    decode fresh b = .ok (32, m, b') ∧ Framed m := by
  obtain ⟨b, hb⟩ := Net.Buffer.exists_holds (p := withBody) (by decide)
  have hlines : lines withBody = [[65], contentLength ++ [58, 32, 51], [66, 58, 67]] := by decide +kernel
  have hs := decodeSlice_lines (n := 32) (q := withBody) (by rfl) (by decide) hlines fresh
  rw [if_pos (by decide +kernel)] at hs
  obtain ⟨b', hd, -⟩ := decode_ok hb hs
  refine ⟨b, _, b', hb, hd, (decode_framed_iff hb hd (by decide)).2 (.inr ?_)⟩
  exact ⟨[[65]], _, _, hlines, by decide, by decide, by decide, by decide, by decide⟩

/-- The length comes from the first `Content-Length` and the header from the
last one; a first line with the text is taken for a header. -/
theorem decode_not_framed :
    (∃ b m b', Net.Buffer.Holds b ([65, 13, 10] ++ contentLength ++ [58, 48, 13, 10] ++ contentLength ++
        [58, 51, 13, 10, 66, 58, 67, 13, 10, 13, 10]) ∧ decode fresh b = .ok (46, m, b') ∧
      m.headers.find contentLength = some [51] ∧ m.body = []) ∧
    ∃ b m b', Net.Buffer.Holds b (contentLength ++ [58, 51, 13, 10, 66, 58, 67, 13, 10, 13, 10, 120, 121, 122]) ∧
      decode fresh b = .ok (28, m, b') ∧ m.headers.find contentLength = none ∧ m.body = [120, 121, 122] := by
  constructor
  · obtain ⟨b, hb⟩ := Net.Buffer.exists_holds (p := [65, 13, 10] ++ contentLength ++ [58, 48, 13, 10] ++
      contentLength ++ [58, 51, 13, 10, 66, 58, 67, 13, 10, 13, 10]) (by decide)
    have hs := decodeSlice_lines (n := 46) (q := [65, 13, 10] ++ contentLength ++ [58, 48, 13, 10] ++
      contentLength ++ [58, 51, 13, 10, 66, 58, 67, 13, 10, 13, 10]) (f := [65])
      (l := contentLength ++ [58, 48]) (by rfl) (by decide)
      (show lines _ = [_, _, contentLength ++ [58, 51], [66, 58, 67]] by decide +kernel) fresh
    rw [if_pos (by decide +kernel)] at hs
    obtain ⟨b', hd, -⟩ := decode_ok hb hs
    exact ⟨b, _, b', hb, hd, by decide +kernel, by decide +kernel⟩
  · obtain ⟨b, hb⟩ := Net.Buffer.exists_holds (p := contentLength ++
      [58, 51, 13, 10, 66, 58, 67, 13, 10, 13, 10, 120, 121, 122]) (by decide)
    have hs := decodeSlice_lines (n := 28) (q := contentLength ++
      [58, 51, 13, 10, 66, 58, 67, 13, 10, 13, 10, 120, 121, 122]) (f := contentLength ++ [58, 51])
      (l := [66, 58, 67]) (by rfl) (by decide) (show lines _ = [_, _] by decide +kernel) fresh
    rw [if_pos (by decide +kernel)] at hs
    obtain ⟨b', hd, -⟩ := decode_ok hb hs
    exact ⟨b, _, b', hb, hd, by decide +kernel, by decide +kernel⟩

end Baize.Http.HttpMessage
