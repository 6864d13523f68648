import Baize.Http.Message
import Baize.Lib.Split

namespace Baize.Http.HttpMessage

open Lib StringPiece

/-- `s` begins with a line and a blank line, and the line does not mention a
content length. -/
def Headerless (s : Bytes) : Prop :=
  crlfcrlf <+: s.drop (find s crlf) ∧ ¬ contentLength <:+: s.take (find s crlf)

def Blank (s : Bytes) : Prop := crlf <+: s.drop (find s crlf + 4)

instance decidableHeaderless (s : Bytes) : Decidable (Headerless s) :=
  inferInstanceAs (Decidable (_ ∧ _))

instance decidableBlank (s : Bytes) : Decidable (Blank s) :=
  inferInstanceAs (Decidable (_ <+: _))

theorem crlf_prefix_crlfcrlf : crlf <+: crlfcrlf := ⟨[13, 10], rfl⟩

theorem crlf_ne_nil : crlf ≠ [] := List.cons_ne_nil _ _

theorem crlfcrlf_ne_nil : crlfcrlf ≠ [] := List.cons_ne_nil _ _

theorem crlf_unbordered : Unbordered crlf := by decide

section Append

variable {p : Bytes} {i : ℕ}

theorem prefix_drop_append {w : Bytes} (hw : w ≠ []) (h : w <+: p.drop i) (q : Bytes) :
    w <+: (p ++ q).drop i := by
  have hle := length_le_of_prefix_drop hw h
  rw [List.drop_append_of_le_length (by omega)]
  exact h.trans (List.prefix_append _ q)

theorem find_crlf_append (hi : crlf <+: p.drop i) (q : Bytes) :
    find (p ++ q) crlf = find p crlf :=
  search_append (search_ne_length crlf_ne_nil hi) q

end Append

theorem Headerless.crlf_prefix {s : Bytes} (h : Headerless s) : crlf <+: s.drop (find s crlf) :=
  crlf_prefix_crlfcrlf.trans h.1

theorem Headerless.append {p : Bytes} (h : Headerless p) (q : Bytes) : Headerless (p ++ q) := by
  have hlen := length_le_of_prefix_drop crlfcrlf_ne_nil h.1
  rw [Headerless, find_crlf_append h.crlf_prefix, List.take_append_of_le_length (by omega)]
  exact ⟨prefix_drop_append crlfcrlf_ne_nil h.1 q, h.2⟩

theorem Blank.append {p : Bytes} (hp : Headerless p) (h : Blank p) (q : Bytes) :
    Blank (p ++ q) := by
  rw [Blank, find_crlf_append hp.crlf_prefix]
  exact prefix_drop_append crlf_ne_nil h q

theorem checkCompleted_headerless {s : Bytes} (h : Headerless s) :
    checkCompleted s = .ok (find s crlf + 4 : ℕ) := by
  have hlen : find s crlf + 4 ≤ s.length := length_le_of_prefix_drop crlfcrlf_ne_nil h.1
  have hpos : find s crlfcrlf = find s crlf :=
    (search_le h.1).antisymm (search_le_search crlf_prefix_crlfcrlf (search_ne_length crlfcrlf_ne_nil h.1))
  have hplain : find (s.take (find s crlf)) contentLength = (s.take (find s crlf)).length :=
    (search_eq_length_iff (List.cons_ne_nil _ _)).mpr h.2
  unfold checkCompleted
  dsimp only
  rw [hpos, if_neg (by omega), hplain, if_pos rfl]
  rfl

/-- A message without header lines is never accepted: the search for the end of
the headers starts in the middle of the blank line. -/
theorem decodeSlice_headerless {s : Bytes} (h : Headerless s) (m : HttpMessage) :
    decodeSlice m s = if Blank s then .error .lengthError
      else .ok (-1, { m with firstLine := s.take (find s crlf) }) := by
  have hlen : find s crlf + 4 ≤ s.length := length_le_of_prefix_drop crlfcrlf_ne_nil h.1
  obtain ⟨t, ht⟩ := h.1
  have hdrop : s.drop (find s crlf + 2) = crlf ++ t := by
    rw [← List.drop_drop, ← ht]
    rfl
  have hrest : s.drop (find s crlf + 4) = t := by
    rw [← List.drop_drop, ← ht]
    rfl
  have hcrlf : find (crlf ++ t) crlf = 0 := search_eq_zero (List.prefix_append _ _)
  rw [decodeSlice, checkCompleted_headerless h, ok_bind]
  dsimp only
  rw [if_neg (by omega), if_neg (by omega), check_of (by omega), ok_bind, hdrop, hcrlf]
  by_cases hb : Blank s
  · have hfour : find (crlf ++ t) crlfcrlf = 0 :=
      search_eq_zero ((List.prefix_append_right_inj crlf).mpr (show crlf <+: t from hrest ▸ hb))
    have hlt : find s crlf + 4 + 2 ≤ s.length := length_le_of_prefix_drop crlf_ne_nil hb
    rw [if_pos hb, hfour, if_neg (by omega), if_neg (by omega), headerLoop]
    dsimp only
    rw [hdrop, hcrlf, if_pos rfl, pure_eq_ok, ok_bind]
    dsimp only
    rw [check_of (by omega), ok_bind, check, if_neg (by omega), error_bind]
  · rw [if_neg hb]
    split
    · rfl
    rw [if_neg (by omega), headerLoop]
    dsimp only
    have hne : find s crlf + 2 + 0 ≠ find s crlf + 2 + find (crlf ++ t) crlfcrlf := by
      intro he
      have hzero : find (crlf ++ t) crlfcrlf = 0 := by omega
      have hp := prefix_drop_search (s := crlf ++ t) (w := crlfcrlf) (by
        change find (crlf ++ t) crlfcrlf ≠ _
        rw [hzero, List.length_append]
        exact Nat.ne_of_lt (Nat.add_pos_left (by decide) _))
      change crlfcrlf <+: (crlf ++ t).drop (find (crlf ++ t) crlfcrlf) at hp
      rw [hzero, List.drop_zero] at hp
      refine hb ?_
      rw [Blank, hrest]
      exact (List.prefix_append_right_inj crlf).mp hp
    rw [hdrop, hcrlf, if_neg hne, Nat.add_zero, Nat.sub_self, List.take_zero]
    rfl

end Baize.Http.HttpMessage
