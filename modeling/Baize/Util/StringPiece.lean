import Baize.Lib.Checked
import Baize.Lib.Split
import Baize.Util.Types
import Mathlib.Data.List.TakeWhile

namespace Baize.StringPiece

open Lib

def findChar (s : Bytes) (ch : UInt8) : ℕ := s.idxOf ch

/-- `std::search`. A `StringPiece` is the bytes it spans, a position in it the distance from `begin()`,
and `end()` is the length. -/
def find (s slice : Bytes) : ℕ := search slice s

def isSpace (c : UInt8) : Bool := c = 32 || (9 ≤ c && c ≤ 13)

def isDigit (c : UInt8) : Bool := 48 ≤ c && c ≤ 57

/-- The first loop of `TrimSpace`; the second is the same from the other end. -/
def trimFront : Bytes → Bytes
  | [] => []
  | c :: s => if isSpace c then trimFront s else c :: s

def trimSpace (s : Bytes) : Bytes := (trimFront (trimFront s).reverse).reverse

def parseDigits (number : ℤ) : Bytes → Checked (ℤ × ℕ)
  | [] => pure (number, 0)
  | c :: s =>
    if isDigit c then do
      let tens ← int (number * 10)
      let number ← int (tens + (c.toNat - 48))
      let (n, pos) ← parseDigits number s
      pure (n, pos + 1)
    else pure (number, 0)

/-- `ParseInt`: `num` is written only when a digit was read. -/
def parseInt (s : Bytes) (num : ℤ) : Checked (ℤ × ℕ) := do
  let (n, pos) ← parseDigits 0 s
  if pos = 0 then pure (num, 0) else pure (n, pos)

def sliceFragment (s first last : Bytes) : Bytes :=
  let pos := find s first
  if pos = s.length then []
  else
    let fragment := s.drop (pos + first.length)
    let posEnd := find fragment last
    if posEnd = fragment.length then [] else fragment.take posEnd

def startsWith (s x : Bytes) : Bool := x <+: s

/-- `Split(StringPiece)`, for a separator that is not empty: with an empty one the loop does not end. -/
def split (s slice : Bytes) : List Bytes :=
  if s = [] ∨ slice = [] then []
  else
    let pos := find s slice
    let piece := s.take pos
    let rest := if pos = s.length then s.drop pos else s.drop (pos + slice.length)
    (if piece = [] then [] else [piece]) ++ split rest slice
termination_by s.length
decreasing_by
  have hs := List.length_pos_of_ne_nil (not_or.mp ‹¬(s = [] ∨ slice = [])›).1
  have hslice := List.length_pos_of_ne_nil (not_or.mp ‹¬(s = [] ∨ slice = [])›).2
  split <;> simp only [List.length_drop] <;> omega

theorem split_nil (slice : Bytes) : split [] slice = [] := by
  rw [split, if_pos (.inl rfl)]

theorem split_eq_filter {slice : Bytes} (hslice : slice ≠ []) (s : Bytes) :
    split s slice = (splitBy slice s).filter (· ≠ []) := by
  induction hk : s.length using Nat.strong_induction_on generalizing s with
  | _ k ih =>
    by_cases hs : s = []
    · rw [hs, split_nil]
      rfl
    rw [split, if_neg (not_or.mpr ⟨hs, hslice⟩)]
    dsimp only
    by_cases hin : slice <:+: s
    · have hne : find s slice ≠ s.length := mt (search_eq_length_iff hslice).mp (not_not.mpr hin)
      have hlen := length_le_of_prefix_drop hslice (prefix_drop_search hne)
      have hpos := List.length_pos_of_ne_nil hslice
      have hrest := ih _ (by rw [List.length_drop]; omega) (s.drop (find s slice + slice.length)) rfl
      rw [if_neg hne, hrest, splitBy_eq_cons hslice hin, List.filter_cons]
      by_cases hpiece : s.take (find s slice) = []
      · rw [if_pos hpiece, List.nil_append]
        exact (if_neg (show ¬decide (s.take (find s slice) ≠ []) = true by simp only [hpiece]; decide)).symm
      · rw [if_neg hpiece, List.singleton_append]
        exact (if_pos (decide_eq_true hpiece)).symm
    · have hend : find s slice = s.length := (search_eq_length_iff hslice).mpr hin
      rw [if_pos hend, hend, List.drop_length, List.take_length, if_neg hs, split_nil, splitBy_eq_singleton hin,
        List.append_nil]
      simp [hs]

def splitChar (s : Bytes) (ch : UInt8) : List Bytes :=
  if s = [] then []
  else
    let pos := findChar s ch
    let piece := s.take pos
    let rest := if pos = s.length then s.drop pos else s.drop (pos + 1)
    (if piece = [] then [] else [piece]) ++ splitChar rest ch
termination_by s.length
decreasing_by
  have hs := List.length_pos_of_ne_nil ‹¬s = []›
  split <;> simp only [List.length_drop] <;> omega

theorem findChar_eq_find (s : Bytes) (ch : UInt8) : findChar s ch = find s [ch] := by
  rw [findChar, find]
  induction s with
  | nil => rfl
  | cons a s ih =>
    rw [List.idxOf_cons, search, ih]
    by_cases h : a = ch
    · subst h
      simp
    · have hp : ¬[ch] <+: a :: s := fun hp ↦ h (List.cons_prefix_cons.mp hp).1.symm
      rw [if_neg hp, beq_eq_false_iff_ne.mpr h]
      rfl

theorem splitChar_eq_split (s : Bytes) (ch : UInt8) : splitChar s ch = split s [ch] := by
  induction hk : s.length using Nat.strong_induction_on generalizing s with
  | _ k ih =>
    by_cases hs : s = []
    · rw [hs, splitChar, if_pos rfl, split_nil]
    have hpos := List.length_pos_of_ne_nil hs
    rw [splitChar, if_neg hs, split, if_neg (not_or.mpr ⟨hs, List.cons_ne_nil _ _⟩), findChar_eq_find]
    dsimp only [List.length_singleton]
    rw [ih _ ?_ _ rfl]
    split <;> simp only [List.length_drop] <;> omega

theorem findChar_append {l : Bytes} {ch : UInt8} (h : ch ∉ l) (rest : Bytes) :
    findChar (l ++ ch :: rest) ch = l.length := by
  rw [findChar, List.idxOf_append_of_notMem h, List.idxOf_cons_self, Nat.add_zero]

theorem findChar_eq_length {l : Bytes} {ch : UInt8} (h : ch ∉ l) : findChar l ch = l.length :=
  List.idxOf_eq_length h

theorem splitChar_intercalate {ch : UInt8} {l : Bytes} {ls : List Bytes}
    (h : ∀ a ∈ l :: ls, a ≠ [] ∧ ch ∉ a) : splitChar ([ch].intercalate (l :: ls)) ch = l :: ls := by
  have hw : Unbordered [ch] := by
    intro i hi hpos
    rw [List.length_singleton] at hi
    omega
  have hne : [ch] ≠ [] := List.cons_ne_nil _ _
  have hfree : ∀ a ∈ l :: ls, ¬[ch] <:+: a := fun a ha hin ↦ (h a ha).2 (hin.subset List.mem_cons_self)
  rw [splitChar_eq_split, split_eq_filter hne, hw.splitBy_intercalate hne l ls hfree, List.filter_eq_self]
  exact fun a ha ↦ decide_eq_true (h a ha).1

def Trimmed (s : Bytes) : Prop :=
  (∀ c ∈ s.head?, isSpace c = false) ∧ ∀ c ∈ s.getLast?, isSpace c = false

theorem trimmed_singleton {c : UInt8} (h : isSpace c = false) : Trimmed [c] :=
  ⟨fun _ hc ↦ Option.some.inj hc ▸ h, fun _ hc ↦ Option.some.inj hc ▸ h⟩

theorem trimFront_of_head {s : Bytes} (h : ∀ c ∈ s.head?, isSpace c = false) : trimFront s = s := by
  cases s with
  | nil => rfl
  | cons c s =>
    have hc : ¬ isSpace c = true := by rw [h c rfl]; exact Bool.false_ne_true
    exact if_neg hc

theorem trimSpace_of_trimmed {s : Bytes} (h : Trimmed s) : trimSpace s = s := by
  rw [trimSpace, trimFront_of_head h.1, trimFront_of_head (by rw [List.head?_reverse]; exact h.2),
    List.reverse_reverse]

theorem trimSpace_blank_cons {s : Bytes} (h : Trimmed s) : trimSpace (32 :: s) = s := by
  rw [trimSpace, show trimFront (32 :: s) = trimFront s from rfl]
  exact trimSpace_of_trimmed h

theorem trimFront_spec (s : Bytes) : ∃ pre, s = pre ++ trimFront s ∧ ∀ c ∈ pre, isSpace c = true := by
  induction s with
  | nil => exact ⟨[], rfl, List.forall_mem_nil _⟩
  | cons c s ih =>
    obtain ⟨pre, hs, hpre⟩ := ih
    rw [trimFront]
    split
    · next hc =>
      refine ⟨c :: pre, ?_, List.forall_mem_cons.mpr ⟨hc, hpre⟩⟩
      rw [List.cons_append, ← hs]
    · exact ⟨[], rfl, List.forall_mem_nil _⟩

theorem trimSpace_spec (s : Bytes) : ∃ pre post, s = pre ++ (trimSpace s ++ post) ∧
    (∀ c ∈ pre, isSpace c = true) ∧ ∀ c ∈ post, isSpace c = true := by
  obtain ⟨pre, hs, hpre⟩ := trimFront_spec s
  obtain ⟨post, hr, hpost⟩ := trimFront_spec (trimFront s).reverse
  refine ⟨pre, post.reverse, ?_, hpre, fun c hc ↦ hpost c (List.mem_reverse.mp hc)⟩
  rw [trimSpace, ← List.reverse_append, ← hr, List.reverse_reverse]
  exact hs

theorem trimSpace_isInfix (s : Bytes) : trimSpace s <:+: s := by
  obtain ⟨pre, post, hs, -, -⟩ := trimSpace_spec s
  exact ⟨pre, post, by rw [List.append_assoc]; exact hs.symm⟩

def AllDigits (s : Bytes) : Prop := ∀ c ∈ s, isDigit c = true

instance (s : Bytes) : Decidable (AllDigits s) := inferInstanceAs (Decidable (∀ c ∈ s, _))

def decimal (s : Bytes) : ℕ := s.foldl (fun n c ↦ n * 10 + (c.toNat - 48)) 0

theorem isDigit_iff {c : UInt8} : isDigit c = true ↔ 48 ≤ c.toNat ∧ c.toNat ≤ 57 := by
  rw [isDigit, Bool.and_eq_true, decide_eq_true_eq, decide_eq_true_eq]
  exact Iff.rfl

theorem le_foldl_decimal (s : Bytes) (n : ℕ) :
    n ≤ s.foldl (fun n c ↦ n * 10 + (c.toNat - 48)) n := by
  induction s generalizing n with
  | nil => exact Nat.le_refl n
  | cons c s ih =>
    have hstep : n ≤ n * 10 + (c.toNat - 48) := by omega
    exact hstep.trans (ih _)

/-- `ParseInt` reads the digits at the front, and overflows when their value is no `int`. -/
theorem parseDigits_eq_ite (s : Bytes) (n : ℕ) (hn : n < 2147483648) :
    parseDigits n s =
      if (s.takeWhile isDigit).foldl (fun n c ↦ n * 10 + (c.toNat - 48)) n < 2147483648 then
        .ok (((s.takeWhile isDigit).foldl (fun n c ↦ n * 10 + (c.toNat - 48)) n : ℕ),
          (s.takeWhile isDigit).length)
      else .error .overflow := by
  induction s generalizing n with
  | nil =>
    rw [List.takeWhile_nil, List.foldl_nil, if_pos hn]
    rfl
  | cons c s ih =>
    by_cases hc : isDigit c = true
    · have hge := (isDigit_iff.mp hc).1
      have hle := le_foldl_decimal (s.takeWhile isDigit) (n * 10 + (c.toNat - 48))
      have hcast : (n : ℤ) * 10 + ((c.toNat : ℤ) - 48) = ((n * 10 + (c.toNat - 48) : ℕ) : ℤ) := by omega
      rw [parseDigits, if_pos hc, List.takeWhile_cons_of_pos hc, List.foldl_cons]
      by_cases htens : n * 10 < 2147483648
      · rw [int_of (by omega) (by omega), ok_bind, hcast]
        by_cases hnext : n * 10 + (c.toNat - 48) < 2147483648
        · rw [int_of (by omega) (by omega), ok_bind, ih _ hnext]
          split <;> rfl
        · rw [int_overflow (by omega), error_bind, if_neg (by omega)]
      · rw [int_overflow (by omega), error_bind, if_neg (by omega)]
    · rw [parseDigits, if_neg hc, List.takeWhile_cons_of_neg hc, List.foldl_nil, if_pos hn]
      rfl

theorem parseInt_zero_eq_ite (s : Bytes) : parseInt s 0 =
    if decimal (s.takeWhile isDigit) < 2147483648 then
      .ok ((decimal (s.takeWhile isDigit) : ℕ), (s.takeWhile isDigit).length)
    else .error .overflow := by
  have hd := parseDigits_eq_ite s 0 (by decide)
  rw [Nat.cast_zero, ← decimal] at hd
  rw [parseInt, hd]
  split
  · rw [ok_bind]
    dsimp only
    split
    · next hzero =>
      rw [List.eq_nil_of_length_eq_zero hzero]
      rfl
    · rfl
  · rfl

end Baize.StringPiece
