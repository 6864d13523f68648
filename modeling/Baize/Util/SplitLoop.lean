import Baize.Lib.Cut
import Baize.Lib.Loop
import Baize.Util.StringPiece

namespace Baize.StringPiece

open Lib

/-- A `StringPiece` into a text, with `ptr_` as the distance from the begin of the text. -/
structure Span where
  ptr : ℤ
  length : ℤ
  deriving DecidableEq, Repr

namespace Span

def removePrefix (p : Span) (n : ℤ) : Span := ⟨p.ptr + n, p.length - n⟩

def bytes (text : Bytes) (p : Span) : Bytes := (text.drop p.ptr.toNat).take p.length.toNat

def suffix (text : Bytes) (i : ℕ) : Span := ⟨i, text.length - i⟩

def EndsText (text : Bytes) (p : Span) : Prop := ∃ i ≤ text.length, p = suffix text i

theorem bytes_suffix (text : Bytes) (i : ℕ) : (suffix text i).bytes text = text.drop i := by
  have hlen : ((text.length : ℤ) - i).toNat = text.length - i := by omega
  rw [suffix, bytes, Int.toNat_natCast, hlen, ← List.length_drop, List.take_length]

end Span

/-- A turn of the loop, for a way to find the separator and the separator's size. `end()` is that of the
text, not that of `tmp`. -/
def splitTurn (find : Bytes → ℕ) (size : ℤ) (text : Bytes) (tmp : Span) : Option (List Bytes × Span) :=
  if tmp.length = 0 then none
  else
    let pos := tmp.ptr + find (tmp.bytes text)
    let piece : Span := ⟨tmp.ptr, pos - tmp.ptr⟩
    some (if piece.length = 0 then [] else [piece.bytes text],
      if pos = text.length then tmp.removePrefix (pos - tmp.ptr) else tmp.removePrefix (pos - tmp.ptr + size))

def splitLoop (text slice : Bytes) (fuel : ℕ) : Option (List Bytes) :=
  (loop (splitTurn (find · slice) slice.length text) fuel ⟨0, text.length⟩).map Prod.fst

def splitCharLoop (text : Bytes) (ch : UInt8) (fuel : ℕ) : Option (List Bytes) :=
  (loop (splitTurn (findChar · ch) 1 text) fuel ⟨0, text.length⟩).map Prod.fst

theorem splitCharLoop_eq (text : Bytes) (ch : UInt8) (fuel : ℕ) :
    splitCharLoop text ch fuel = splitLoop text [ch] fuel := by
  have hfind : (findChar · ch) = (find · [ch]) := funext fun s ↦ findChar_eq_find s ch
  rw [splitCharLoop, splitLoop, hfind]
  rfl

theorem splitTurn_eq {find : Bytes → ℕ} {text : Bytes} {i pos : ℕ} (size : ℕ) (hi : i < text.length)
    (hpos : find (text.drop i) = pos) :
    splitTurn find size text (.suffix text i) =
      some (if (text.drop i).take pos = [] then [] else [(text.drop i).take pos],
        .suffix text (if pos = (text.drop i).length then text.length else i + pos + size)) := by
  have hlen := List.length_drop (l := text) (i := i)
  have hne : text.drop i ≠ [] := mt List.drop_eq_nil_iff.mp (not_le.mpr hi)
  have hsome : ¬(Span.suffix text i).length = 0 := by
    dsimp only [Span.suffix]
    omega
  have hpiece : Span.bytes text ⟨i, (i : ℤ) + pos - i⟩ = (text.drop i).take pos := by
    rw [Span.bytes, Int.toNat_natCast, add_sub_cancel_left, Int.toNat_natCast]
  have hempty : (i : ℤ) + pos - i = 0 ↔ (text.drop i).take pos = [] := by
    rw [add_sub_cancel_left, Nat.cast_eq_zero, List.take_eq_nil_iff, or_iff_left hne]
  have hend : (i : ℤ) + pos = text.length ↔ pos = (text.drop i).length := by omega
  rw [splitTurn, if_neg hsome, Span.bytes_suffix, hpos]
  simp only [Span.suffix, Span.removePrefix, hpiece, hempty, hend]
  congr 2
  split
  · next h =>
    congr 1 <;> omega
  · congr 1 <;> push_cast <;> omega

theorem splitTurn_suffix {text slice : Bytes} (hslice : slice ≠ []) {i : ℕ} (hi : i < text.length) :
    ∃ out j, splitTurn (find · slice) slice.length text (.suffix text i) = some (out, .suffix text j) ∧
      i < j ∧ j ≤ text.length ∧ split (text.drop i) slice = out ++ split (text.drop j) slice := by
  have hne : text.drop i ≠ [] := mt List.drop_eq_nil_iff.mp (not_le.mpr hi)
  have hlen := List.length_drop (l := text) (i := i)
  have hpos := List.length_pos_of_ne_nil hslice
  set pos := find (text.drop i) slice with hp
  have hle : pos ≤ (text.drop i).length := search_le_length _ _
  set out : List Bytes := if (text.drop i).take pos = [] then [] else [(text.drop i).take pos] with hout
  have hturn : splitTurn (find · slice) slice.length text (.suffix text i) =
      some (out, .suffix text (if pos = (text.drop i).length then text.length else i + pos + slice.length)) :=
    splitTurn_eq slice.length hi rfl
  have hsplit : split (text.drop i) slice = out ++
      split (text.drop (if pos = (text.drop i).length then text.length else i + pos + slice.length)) slice := by
    rw [split, if_neg (not_or.mpr ⟨hne, hslice⟩)]
    dsimp only
    rw [← hp, ← hout]
    congr 2
    split
    · next hend => rw [hend, List.drop_length, List.drop_length]
    · rw [List.drop_drop, Nat.add_assoc]
  refine ⟨out, _, hturn, ?_, ?_, hsplit⟩
  · split <;> omega
  · split
    · exact le_rfl
    · next hend =>
      have hfound : pos + slice.length ≤ (text.drop i).length :=
        length_le_of_prefix_drop hslice (prefix_drop_search hend)
      omega

theorem splitTurn_end (find : Bytes → ℕ) (size : ℤ) (text : Bytes) :
    splitTurn find size text (.suffix text text.length) = none :=
  if_pos (sub_self _)

theorem splitTurn_cases {text slice : Bytes} (hslice : slice ≠ []) {tmp : Span} (h : tmp.EndsText text) :
    splitTurn (find · slice) slice.length text tmp = none ∧ tmp = .suffix text text.length ∨
      ∃ out i j, tmp = .suffix text i ∧ i < j ∧ j ≤ text.length ∧
        splitTurn (find · slice) slice.length text tmp = some (out, .suffix text j) ∧
        split (text.drop i) slice = out ++ split (text.drop j) slice := by
  obtain ⟨i, hi, rfl⟩ := h
  rcases hi.eq_or_lt with rfl | hlt
  · exact .inl ⟨splitTurn_end _ _ text, rfl⟩
  · obtain ⟨out, j, hturn, hij, hj, hsplit⟩ := splitTurn_suffix hslice hlt
    exact .inr ⟨out, i, j, rfl, hij, hj, hturn, hsplit⟩

/-- `tmp` always ends where the text does, and each turn makes it shorter. -/
theorem splitLoop_eq_split {slice : Bytes} (hslice : slice ≠ []) (text : Bytes) {fuel : ℕ}
    (hfuel : text.length < fuel) : splitLoop text slice fuel = some (split text slice) := by
  have hturn (tmp : Span) (out : List Bytes) (tmp' : Span) (htmp : tmp.EndsText text)
      (h : splitTurn (find · slice) slice.length text tmp = some (out, tmp')) :
      tmp'.EndsText text ∧ tmp'.length.toNat < tmp.length.toNat := by
    obtain ⟨hnone, -⟩ | ⟨_, i, j, rfl, hij, hj, hsome, -⟩ := splitTurn_cases hslice htmp
    · cases hnone.symm.trans h
    · obtain ⟨-, rfl⟩ := Prod.mk.inj (Option.some.inj (hsome.symm.trans h))
      refine ⟨⟨j, hj, rfl⟩, ?_⟩
      dsimp only [Span.suffix]
      omega
  have hdone (tmp : Span) (htmp : tmp.EndsText text)
      (h : splitTurn (find · slice) slice.length text tmp = none) : [] = split (tmp.bytes text) slice := by
    obtain ⟨-, rfl⟩ | ⟨_, i, j, rfl, -, -, hsome, -⟩ := splitTurn_cases hslice htmp
    · rw [Span.bytes_suffix, List.drop_length, split_nil]
    · cases hsome.symm.trans h
  have hback (tmp : Span) (out : List Bytes) (tmp' : Span) (outs : List Bytes) (_ : Span)
      (htmp : tmp.EndsText text) (h : splitTurn (find · slice) slice.length text tmp = some (out, tmp'))
      (houts : outs = split (tmp'.bytes text) slice) : out ++ outs = split (tmp.bytes text) slice := by
    obtain ⟨hnone, -⟩ | ⟨_, i, j, rfl, -, -, hsome, hsplit⟩ := splitTurn_cases hslice htmp
    · cases hnone.symm.trans h
    · obtain ⟨rfl, rfl⟩ := Prod.mk.inj (Option.some.inj (hsome.symm.trans h))
      rw [houts, Span.bytes_suffix, Span.bytes_suffix, hsplit]
  have hstart : Span.EndsText text ⟨0, text.length⟩ := ⟨0, Nat.zero_le _, by simp [Span.suffix]⟩
  obtain ⟨outs, r, hloop, houts⟩ := loop_total (P := fun tmp outs _ ↦ outs = split (tmp.bytes text) slice)
    (fun tmp ↦ tmp.length.toNat) hturn hdone hback hstart
  rw [splitLoop, hloop fuel (by rwa [Int.toNat_natCast]), houts]
  simp [Span.bytes]

/-- `Split` ends and gives the pieces around the leftmost occurrences of the separator, without the empty
ones. -/
theorem split_spec {slice : Bytes} (hslice : slice ≠ []) (text : Bytes) :
    (∀ fuel, text.length < fuel → splitLoop text slice fuel = some (split text slice)) ∧
      (∃ all, Cut slice text all ∧ split text slice = all.filter (· ≠ [])) ∧
      (∀ piece ∈ split text slice, ¬slice <:+: piece) ∧ Rejoins slice (split text slice) text ∧
      ∀ ch fuel, splitCharLoop text ch fuel = splitLoop text [ch] fuel := by
  have hcut := cut_splitBy hslice text
  have hfilter := split_eq_filter hslice text
  refine ⟨fun fuel ↦ splitLoop_eq_split hslice text, ⟨_, hcut, hfilter⟩, fun piece hpiece ↦ ?_, ?_,
    splitCharLoop_eq text⟩
  · rw [hfilter] at hpiece
    exact hcut.not_infix hslice piece (List.mem_of_mem_filter hpiece)
  · rw [hfilter]
    exact hcut.rejoins

/-- `aaab` at `aa`: what is left of the first `a`s belongs to the piece. -/
example : splitLoop [97, 97, 97, 98] [97, 97] 5 = some [[97, 98]] := by decide

theorem split_spec_overlapping : ∃ pieces, splitLoop [97, 97, 97, 98] [97, 97] 5 = some pieces ∧
    (∀ piece ∈ pieces, ¬[97, 97] <:+: piece) ∧ Rejoins [97, 97] pieces [97, 97, 97, 98] := by
  obtain ⟨hends, -, hfree, hrejoins, -⟩ := split_spec (List.cons_ne_nil 97 [97]) [97, 97, 97, 98]
  exact ⟨_, hends 5 (by decide), hfree, hrejoins⟩

end Baize.StringPiece
