import Baize.Sdp.Message

namespace Baize.Sdp

open Lib StringPiece

def text (ls : List Bytes) : Bytes := ls.flatMap (· ++ crlf)

theorem text_cons (l : Bytes) (ls : List Bytes) : text (l :: ls) = l ++ (crlf ++ text ls) := by
  rw [text, List.flatMap_cons, List.append_assoc]
  rfl

theorem text_append (ls ls' : List Bytes) : text (ls ++ ls') = text ls ++ text ls' := List.flatMap_append

theorem crlf_unbordered : Unbordered crlf := by decide

theorem intercalate_cons_eq (l : Bytes) (z : List Bytes) :
    crlf.intercalate (l :: z) = l ++ z.flatMap (crlf ++ ·) := by
  induction z generalizing l with
  | nil => rw [List.intercalate_singleton, List.flatMap_nil, List.append_nil]
  | cons x z ih => rw [List.intercalate_cons_cons, ih, List.flatMap_cons, List.append_assoc, List.append_assoc]

theorem intercalate_append_cons (a : List Bytes) (l : Bytes) (z : List Bytes) :
    crlf.intercalate (a ++ l :: z) = text a ++ (l ++ z.flatMap (crlf ++ ·)) := by
  induction a with
  | nil => exact intercalate_cons_eq l z
  | cons x a ih =>
    have hflat : (a ++ l :: z).flatMap (crlf ++ ·) = crlf ++ crlf.intercalate (a ++ l :: z) := by
      obtain ⟨y, b, hy⟩ := List.exists_cons_of_ne_nil (l := a ++ l :: z)
        (List.append_ne_nil_of_right_ne_nil _ (List.cons_ne_nil _ _))
      rw [hy, List.flatMap_cons, intercalate_cons_eq, List.append_assoc]
    rw [List.cons_append, intercalate_cons_eq, hflat, ih, text_cons, List.append_assoc, List.append_assoc]

theorem text_eq_intercalate (ls : List Bytes) : text ls = crlf.intercalate (ls ++ [[]]) := by
  rw [intercalate_append_cons, List.flatMap_nil, List.append_nil, List.append_nil]

section Search

variable {w : Bytes} (hcr : 13 ∉ w) (hlf : 10 ∉ w)

include hcr hlf

theorem find_text {a : List Bytes} (ha : ∀ l ∈ a, ¬w <:+: l) (s : Bytes) :
    find (text a ++ s) w = (text a).length + find s w := by
  induction a with
  | nil => rw [text, List.flatMap_nil, List.nil_append, List.length_nil, Nat.zero_add]
  | cons l a ih =>
    have hl := ha l List.mem_cons_self
    have hnil : ¬w <:+: [] := fun h ↦ hl (h.trans List.nil_infix)
    have hbehind := search_append_cons hlf hnil (text a ++ s)
    have hrest := ih fun x hx ↦ ha x (List.mem_cons_of_mem _ hx)
    rw [find] at hrest
    rw [List.nil_append] at hbehind
    rw [find, text_cons, crlf, List.append_assoc, List.append_assoc, List.cons_append, List.cons_append,
      List.nil_append, search_append_cons hcr hl, hbehind, hrest, find]
    simp only [List.length_append, List.length_cons, List.length_nil]
    omega

theorem infix_text_iff (hw : w ≠ []) (ls : List Bytes) : w <:+: text ls ↔ ∃ l ∈ ls, w <:+: l := by
  constructor
  · intro hin
    by_contra hno
    have hfind := find_text hcr hlf (fun l hl hin ↦ hno ⟨l, hl, hin⟩ : ∀ l ∈ ls, ¬w <:+: l) []
    rw [List.append_nil] at hfind
    exact (search_eq_length_iff hw).mp hfind hin
  · rintro ⟨l, hl, hin⟩
    obtain ⟨a, z, rfl⟩ := List.append_of_mem hl
    rw [text_append, text_cons]
    exact hin.trans ((List.prefix_append l _).isInfix.trans (List.suffix_append (text a) _).isInfix)

end Search

def behind (w l : Bytes) : Bytes := l.drop (find l w + w.length)

def firstMention (w : Bytes) : List Bytes → Option (Bytes × List Bytes)
  | [] => none
  | l :: ls => if w <:+: l then some (behind w l, ls) else firstMention w ls

theorem firstMention_cases (w : Bytes) (ls : List Bytes) : (∀ l ∈ ls, ¬w <:+: l) ∧ firstMention w ls = none ∨
    ∃ a l z, ls = a ++ l :: z ∧ (∀ x ∈ a, ¬w <:+: x) ∧ w <:+: l ∧ firstMention w ls = some (behind w l, z) := by
  induction ls with
  | nil => exact .inl ⟨List.forall_mem_nil _, rfl⟩
  | cons l ls ih =>
    by_cases hl : w <:+: l
    · exact .inr ⟨[], l, ls, rfl, List.forall_mem_nil _, hl, if_pos hl⟩
    · have hskip : firstMention w (l :: ls) = firstMention w ls := if_neg hl
      rw [hskip]
      obtain ⟨hall, hnone⟩ | ⟨a, x, z, rfl, ha, hx, hsome⟩ := ih
      · exact .inl ⟨List.forall_mem_cons.mpr ⟨hl, hall⟩, hnone⟩
      · exact .inr ⟨l :: a, x, z, rfl, List.forall_mem_cons.mpr ⟨hl, ha⟩, hx, hsome⟩

section Fragment

variable {w : Bytes} (hcr : 13 ∉ w) (hlf : 10 ∉ w) (hw : w ≠ [])

include hcr hlf hw

theorem find_intercalate_eq_length {ls : List Bytes} (h : ∀ l ∈ ls, ¬w <:+: l) :
    find (crlf.intercalate ls) w = (crlf.intercalate ls).length := by
  obtain rfl | ⟨a, l, rfl⟩ := List.eq_nil_or_concat' ls
  · rfl
  · obtain ⟨ha, hl⟩ := List.forall_mem_append.mp h
    have hend : find l w = l.length := (search_eq_length_iff hw).mpr (hl l (List.mem_singleton_self l))
    rw [intercalate_append_cons, List.flatMap_nil, List.append_nil, find_text hcr hlf ha, hend,
      List.length_append]

theorem find_intercalate {a : List Bytes} {l : Bytes} (ha : ∀ x ∈ a, ¬w <:+: x) (hl : w <:+: l)
    (z : List Bytes) : find (crlf.intercalate (a ++ l :: z)) w = (text a).length + find l w := by
  have hfound : find l w ≠ l.length := mt (search_eq_length_iff hw).mp (not_not.mpr hl)
  rw [intercalate_append_cons, find_text hcr hlf ha]
  exact congrArg _ (search_append hfound _)

theorem find_intercalate_ne {a : List Bytes} {l : Bytes} (ha : ∀ x ∈ a, ¬w <:+: x) (hl : w <:+: l)
    (z : List Bytes) : find (crlf.intercalate (a ++ l :: z)) w ≠ (crlf.intercalate (a ++ l :: z)).length := by
  have hlt : find l w < l.length :=
    lt_of_le_of_ne (search_le_length _ _) (mt (search_eq_length_iff hw).mp (not_not.mpr hl))
  rw [find_intercalate hcr hlf hw ha hl, intercalate_append_cons, List.length_append, List.length_append]
  omega

theorem sliceFragment_intercalate {a : List Bytes} {l : Bytes} (ha : ∀ x ∈ a, ¬w <:+: x) (hl : w <:+: l)
    (z : List Bytes) (last : Bytes) : sliceFragment (crlf.intercalate (a ++ l :: z)) w last =
      if find (behind w l ++ z.flatMap (crlf ++ ·)) last = (behind w l ++ z.flatMap (crlf ++ ·)).length then []
      else (behind w l ++ z.flatMap (crlf ++ ·)).take (find (behind w l ++ z.flatMap (crlf ++ ·)) last) := by
  have hle : find l w + w.length ≤ l.length :=
    length_le_of_prefix_drop hw (prefix_drop_search (mt (search_eq_length_iff hw).mp (not_not.mpr hl)))
  have hdrop : (crlf.intercalate (a ++ l :: z)).drop ((text a).length + find l w + w.length) =
      behind w l ++ z.flatMap (crlf ++ ·) := by
    rw [intercalate_append_cons, Nat.add_assoc, ← List.drop_drop, List.drop_left,
      List.drop_append_of_le_length hle, behind]
  have hne := find_intercalate_ne hcr hlf hw ha hl z
  rw [find_intercalate hcr hlf hw ha hl] at hne
  rw [sliceFragment, find_intercalate hcr hlf hw ha hl]
  dsimp only
  rw [if_neg hne, hdrop]

end Fragment

def words (s : Bytes) : List Bytes := (splitBy [32] s).filter (· ≠ [])

def firstWord (s : Bytes) : List Bytes := [s.takeWhile (· ≠ 32)].filter (· ≠ [])

/-- The ids in lines of which the last one has no line end: the words behind the first mention of
`ssrc-group:FID`, if a line end follows, or without such a mention the word behind the first one of
`ssrc:`, if a blank follows in its line. There is no reading by lines when the next blank stands in a
later one. -/
def mentioned (ls : List Bytes) : Option (List Bytes) :=
  match firstMention ssrcGroupMark ls with
  | some (r, z) => some (if z = [] then [] else words r)
  | none =>
    match firstMention ssrcMark ls with
    | some (r, z) => if 32 ∈ r then some (firstWord r) else if 32 ∈ z.flatten then none else some []
    | none => some []

theorem ite_nil_eq_filter (id : Bytes) : (if id = [] then [] else [id]) = [id].filter (· ≠ []) := by
  by_cases h : id = []
  · rw [if_pos h, h]
    rfl
  · rw [if_neg h]
    simp [h]

theorem firstWord_append {id r : Bytes} (h : 32 ∉ id) : firstWord (id ++ 32 :: r) = [id].filter (· ≠ []) := by
  have hall : ∀ c ∈ id, decide (c ≠ 32) = true := fun c hc ↦ decide_eq_true fun he ↦ h (he ▸ hc)
  rw [firstWord, List.takeWhile_append_of_pos hall, List.takeWhile_cons_of_neg (by decide), List.append_nil]

theorem find_blank {id r : Bytes} (h : 32 ∉ id) : find (id ++ 32 :: r) [32] = id.length := by
  rw [← findChar_eq_find, findChar_append h]

theorem ssrcIds_of_group {a z : List Bytes} {l : Bytes} (ha : ∀ x ∈ a, ¬ssrcGroupMark <:+: x)
    (hl : ssrcGroupMark <:+: l) (hclean : ¬crlf <:+: l) :
    TrackSdp.ssrcIds (crlf.intercalate (a ++ l :: z)) =
      if z = [] then [] else words (behind ssrcGroupMark l) := by
  have hr : ¬crlf <:+: behind ssrcGroupMark l := fun hin ↦ hclean (hin.trans (List.drop_suffix _ _).isInfix)
  rw [TrackSdp.ssrcIds, if_neg (find_intercalate_ne (by decide) (by decide) (by decide) ha hl z),
    sliceFragment_intercalate (by decide) (by decide) (by decide) ha hl]
  cases z with
  | nil =>
    have hend : find (behind ssrcGroupMark l) crlf = (behind ssrcGroupMark l).length :=
      (search_eq_length_iff (by decide)).mpr hr
    rw [List.flatMap_nil, List.append_nil, if_pos hend, if_pos rfl]
    rfl
  | cons x z =>
    have hend : find (behind ssrcGroupMark l ++ (x :: z).flatMap (crlf ++ ·)) crlf =
        (behind ssrcGroupMark l).length := by
      rw [List.flatMap_cons, List.append_assoc]
      exact crlf_unbordered.search_append hr _
    have hne : (behind ssrcGroupMark l).length ≠
        (behind ssrcGroupMark l ++ (x :: z).flatMap (crlf ++ ·)).length := by
      rw [List.flatMap_cons]
      simp only [crlf, List.length_append, List.length_cons]
      omega
    rw [hend, if_neg hne, List.take_left, if_neg (List.cons_ne_nil x z)]
    dsimp only
    split
    · next hnil =>
      rw [hnil]
      rfl
    · exact split_eq_filter (List.cons_ne_nil _ _) _

section Ssrc

variable {a z : List Bytes} {l : Bytes} (hgroup : ∀ x ∈ a ++ l :: z, ¬ssrcGroupMark <:+: x)
  (ha : ∀ x ∈ a, ¬ssrcMark <:+: x) (hl : ssrcMark <:+: l)

include hgroup ha hl

theorem ssrcIds_of_blank {id r : Bytes} (hid : 32 ∉ id)
    (h : behind ssrcMark l ++ z.flatMap (crlf ++ ·) = id ++ 32 :: r) :
    TrackSdp.ssrcIds (crlf.intercalate (a ++ l :: z)) = [id].filter (· ≠ []) := by
  have hne : id.length ≠ (id ++ 32 :: r).length := by
    rw [List.length_append, List.length_cons]
    omega
  rw [TrackSdp.ssrcIds, if_pos (find_intercalate_eq_length (by decide) (by decide) (by decide) hgroup),
    sliceFragment_intercalate (by decide) (by decide) (by decide) ha hl, h, find_blank hid, if_neg hne,
    List.take_left]
  exact ite_nil_eq_filter id

theorem ssrcIds_of_no_blank (h : 32 ∉ behind ssrcMark l ++ z.flatMap (crlf ++ ·)) :
    TrackSdp.ssrcIds (crlf.intercalate (a ++ l :: z)) = [] := by
  have hend := findChar_eq_length h
  rw [findChar_eq_find] at hend
  rw [TrackSdp.ssrcIds, if_pos (find_intercalate_eq_length (by decide) (by decide) (by decide) hgroup),
    sliceFragment_intercalate (by decide) (by decide) (by decide) ha hl, if_pos hend]
  exact if_pos rfl

end Ssrc

theorem mem_flatMap_crlf_iff {c : UInt8} (hcr : c ≠ 13) (hlf : c ≠ 10) (z : List Bytes) :
    c ∈ z.flatMap (crlf ++ ·) ↔ c ∈ z.flatten := by
  simp only [List.mem_flatMap, List.mem_flatten, List.mem_append, crlf, List.mem_cons, hcr, hlf,
    List.not_mem_nil, or_self, false_or]

/-- The ids of `Decode` are those that the lines mention. Where there is no such reading, one of them
holds a line end. -/
theorem ssrcIds_intercalate {ls : List Bytes} (hclean : ∀ l ∈ ls, ¬crlf <:+: l) :
    mentioned ls = some (TrackSdp.ssrcIds (crlf.intercalate ls)) ∨
      mentioned ls = none ∧ ∃ id ∈ TrackSdp.ssrcIds (crlf.intercalate ls), crlf <:+: id := by
  unfold mentioned
  obtain ⟨hgroup, hnone⟩ | ⟨a, l, z, rfl, ha, hl, hsome⟩ := firstMention_cases ssrcGroupMark ls
  swap
  · rw [hsome, ssrcIds_of_group ha hl (hclean l (List.mem_append_right a List.mem_cons_self))]
    exact .inl rfl
  rw [hnone]
  obtain ⟨hssrc, hnone⟩ | ⟨a, l, z, rfl, ha, hl, hsome⟩ := firstMention_cases ssrcMark ls
  · rw [hnone, TrackSdp.ssrcIds, if_pos (find_intercalate_eq_length (by decide) (by decide) (by decide) hgroup),
      sliceFragment, if_pos (find_intercalate_eq_length (by decide) (by decide) (by decide) hssrc)]
    exact .inl rfl
  rw [hsome]
  dsimp only
  by_cases hblank : 32 ∈ behind ssrcMark l
  · obtain ⟨id, r, hr, hid⟩ := List.eq_append_cons_of_mem hblank
    have hbehind : behind ssrcMark l ++ z.flatMap (crlf ++ ·) = id ++ 32 :: (r ++ z.flatMap (crlf ++ ·)) := by
      rw [hr, List.append_assoc, List.cons_append]
    rw [if_pos hblank, ssrcIds_of_blank hgroup ha hl hid hbehind, hr, firstWord_append hid]
    exact .inl rfl
  rw [if_neg hblank]
  by_cases hlater : 32 ∈ z.flatten
  · rw [if_pos hlater]
    obtain ⟨s, r, hs, hnot⟩ :=
      List.eq_append_cons_of_mem ((mem_flatMap_crlf_iff (by decide) (by decide) z).mpr hlater)
    have hend : crlf <+: s := by
      cases z with
      | nil => cases hlater
      | cons x z =>
        rw [List.flatMap_cons, List.append_assoc] at hs
        exact (prefix_append_cons (by decide)).mp (hs ▸ List.prefix_append crlf _)
    have hbehind : behind ssrcMark l ++ z.flatMap (crlf ++ ·) = (behind ssrcMark l ++ s) ++ 32 :: r := by
      rw [hs, List.append_assoc]
    have hid : 32 ∉ behind ssrcMark l ++ s := fun hin ↦ (List.mem_append.mp hin).elim hblank hnot
    have hin : crlf <:+: behind ssrcMark l ++ s := hend.isInfix.trans (List.suffix_append _ s).isInfix
    refine .inr ⟨rfl, behind ssrcMark l ++ s, ?_, hin⟩
    rw [ssrcIds_of_blank hgroup ha hl hid hbehind]
    refine List.mem_filter.mpr ⟨List.mem_singleton_self _, decide_eq_true fun hnil ↦ ?_⟩
    rw [hnil] at hin
    exact absurd hin (by decide)
  · rw [if_neg hlater, ssrcIds_of_no_blank hgroup ha hl ?_]
    · exact .inl rfl
    · rw [List.mem_append, mem_flatMap_crlf_iff (by decide) (by decide)]
      exact not_or.mpr ⟨hblank, hlater⟩

theorem ssrcIds_eq_iff {ls ids : List Bytes} (hclean : ∀ l ∈ ls, ¬crlf <:+: l)
    (hids : ∀ id ∈ ids, ¬crlf <:+: id) :
    TrackSdp.ssrcIds (crlf.intercalate ls) = ids ↔ mentioned ls = some ids := by
  obtain hsome | ⟨hnone, id, hid, hin⟩ := ssrcIds_intercalate hclean
  · rw [hsome, Option.some_inj]
  · rw [hnone]
    refine iff_of_false (fun heq ↦ ?_) (Option.some_ne_none ids).symm
    exact hids id (heq ▸ hid) hin

end Baize.Sdp
