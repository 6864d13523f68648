import Baize.Lib.Search

namespace Baize.Lib

variable {α : Type} [DecidableEq α]

/-- `splitBy`, when the first `skip` letters are what is left of a separator. -/
def splitFrom (w : List α) : ℕ → List α → List (List α)
  | _, [] => [[]]
  | skip + 1, _ :: s => splitFrom w skip s
  | 0, a :: s =>
    if w <+: a :: s then [] :: splitFrom w (w.length - 1) s
    else (splitFrom w 0 s).modifyHead (a :: ·)

/-- The pieces of a list between the occurrences of `w`, which are looked for from the left. -/
def splitBy (w s : List α) : List (List α) := splitFrom w 0 s

theorem splitFrom_eq (w : List α) (skip : ℕ) (s : List α) : splitFrom w skip s = splitBy w (s.drop skip) := by
  induction skip generalizing s with
  | zero => rfl
  | succ skip ih =>
    cases s with
    | nil => rfl
    | cons a s => exact ih s

theorem splitBy_cons_found {w s : List α} {a : α} (hw : w ≠ []) (h : w <+: a :: s) :
    splitBy w (a :: s) = [] :: splitBy w ((a :: s).drop w.length) := by
  obtain ⟨c, v, rfl⟩ := List.exists_cons_of_ne_nil hw
  rw [splitBy, splitFrom, if_pos h, splitFrom_eq]
  rfl

theorem splitBy_cons_skip {w s : List α} {a : α} (h : ¬w <+: a :: s) :
    splitBy w (a :: s) = (splitBy w s).modifyHead (a :: ·) := by
  rw [splitBy, splitFrom, if_neg h]
  rfl

theorem splitBy_eq_singleton {w s : List α} (h : ¬w <:+: s) : splitBy w s = [s] := by
  induction s with
  | nil => rfl
  | cons a s ih =>
    have hp : ¬w <+: a :: s := fun hp ↦ h hp.isInfix
    rw [splitBy_cons_skip hp, ih (fun hs ↦ h (hs.trans (List.suffix_cons a s).isInfix))]
    rfl

theorem splitBy_eq_cons {w s : List α} (hw : w ≠ []) (h : w <:+: s) :
    splitBy w s = s.take (search w s) :: splitBy w (s.drop (search w s + w.length)) := by
  induction s with
  | nil => exact absurd (List.infix_nil.mp h) hw
  | cons a s ih =>
    by_cases hp : w <+: a :: s
    · rw [splitBy_cons_found hw hp, search_eq_zero hp, Nat.zero_add, List.take_zero]
    · have hs : w <:+: s := (List.infix_cons_iff.mp h).resolve_left hp
      rw [splitBy_cons_skip hp, ih hs, search_cons hp, Nat.add_right_comm]
      rfl

theorem splitBy_of_search {w l s : List α} (hne : w ≠ []) (h : search w (l ++ (w ++ s)) = l.length) :
    splitBy w (l ++ (w ++ s)) = l :: splitBy w s := by
  have hin : w <:+: l ++ (w ++ s) := ⟨l, s, List.append_assoc _ _ _⟩
  rw [splitBy_eq_cons hne hin, h, List.take_left, ← List.drop_drop, List.drop_left, List.drop_left]

theorem splitBy_ne_nil (w s : List α) : splitBy w s ≠ [] := by
  by_cases h : w <:+: s
  · by_cases hw : w = []
    · cases s with
      | nil => exact List.cons_ne_nil _ _
      | cons a s =>
        rw [splitBy, splitFrom, if_pos (hw ▸ List.nil_prefix)]
        exact List.cons_ne_nil _ _
    · rw [splitBy_eq_cons hw h]
      exact List.cons_ne_nil _ _
  · rw [splitBy_eq_singleton h]
    exact List.cons_ne_nil _ _

/-- No part of `w` other than the whole both begins and ends it, so that its
occurrences never overlap. -/
def Unbordered (w : List α) : Prop := ∀ i < w.length, 0 < i → ¬w.drop i <+: w

instance (w : List α) : Decidable (Unbordered w) := inferInstanceAs (Decidable (∀ i < w.length, _))

omit [DecidableEq α] in
theorem Unbordered.add_length_le {w s : List α} (hw : Unbordered w) {i j : ℕ} (hi : w <+: s.drop i)
    (hj : w <+: s.drop j) (hij : i < j) : i + w.length ≤ j := by
  by_contra hlt
  have hdrop : w.drop (j - i) <+: s.drop j := by
    have h := hi.drop (j - i)
    rw [List.drop_drop, Nat.add_sub_cancel' hij.le] at h
    exact h
  refine hw (j - i) (by omega) (by omega) ?_
  refine List.prefix_of_prefix_length_le hdrop hj ?_
  rw [List.length_drop]
  omega

omit [DecidableEq α] in
theorem prefix_drop_length_append (w l s : List α) : w <+: (l ++ (w ++ s)).drop l.length := by
  rw [List.drop_left]
  exact List.prefix_append w s

theorem Unbordered.search_append {w l : List α} (hw : Unbordered w) (hl : ¬w <:+: l) (s : List α) :
    search w (l ++ (w ++ s)) = l.length := by
  have hat := prefix_drop_length_append w l s
  refine (search_le hat).antisymm (not_lt.mp fun hlt ↦ hl ?_)
  have hne : search w (l ++ (w ++ s)) ≠ (l ++ (w ++ s)).length := by
    rw [List.length_append]
    omega
  have hfound := prefix_drop_search hne
  have hle := hw.add_length_le hfound hat hlt
  rw [List.drop_append_of_le_length hlt.le] at hfound
  have hin : w <+: l.drop (search w (l ++ (w ++ s))) := by
    refine List.prefix_of_prefix_length_le hfound (List.prefix_append _ _) ?_
    rw [List.length_drop]
    omega
  exact hin.isInfix.trans (List.drop_suffix _ l).isInfix

theorem Unbordered.splitBy_append {w l : List α} (hw : Unbordered w) (hne : w ≠ []) (hl : ¬w <:+: l)
    (s : List α) : splitBy w (l ++ (w ++ s)) = l :: splitBy w s :=
  splitBy_of_search hne (hw.search_append hl s)

/-- The pieces that are joined come back. -/
theorem Unbordered.splitBy_intercalate {w : List α} (hw : Unbordered w) (hne : w ≠ []) (l : List α)
    (ls : List (List α)) (hls : ∀ a ∈ l :: ls, ¬w <:+: a) : splitBy w (w.intercalate (l :: ls)) = l :: ls := by
  induction ls generalizing l with
  | nil =>
    rw [List.intercalate_singleton]
    exact splitBy_eq_singleton (hls l List.mem_cons_self)
  | cons a ls ih =>
    rw [List.intercalate_cons_cons, List.append_assoc, hw.splitBy_append hne (hls l List.mem_cons_self),
      ih a (fun b hb ↦ hls b (List.mem_cons_of_mem _ hb))]

/-- Induction over the leftmost occurrences of `w`, none of which overlaps the one before it. -/
theorem leftmost_induction {w : List α} (hne : w ≠ []) {motive : List α → Prop}
    (last : ∀ s, ¬w <:+: s → motive s)
    (piece : ∀ l s, search w (l ++ (w ++ s)) = l.length → motive s → motive (l ++ (w ++ s))) (s : List α) :
    motive s := by
  induction hk : s.length using Nat.strong_induction_on generalizing s with
  | _ k ih =>
    by_cases hin : w <:+: s
    · obtain ⟨t, ht⟩ := prefix_drop_search (mt (search_eq_length_iff hne).mp (not_not.mpr hin))
      have hs : s = s.take (search w s) ++ (w ++ t) := by rw [ht, List.take_append_drop]
      have hlen := congrArg List.length hs
      have hpos := List.length_pos_of_ne_nil hne
      rw [List.length_append, List.length_append] at hlen
      have hat : search w s = (s.take (search w s)).length :=
        (List.length_take_of_le (search_le_length w s)).symm
      have hpiece := piece (s.take (search w s)) t
      rw [← hs] at hpiece
      exact hpiece hat (ih t.length (by omega) t rfl)
    · exact last s hin

theorem not_infix_of_search {w l s : List α} (hne : w ≠ []) (h : search w (l ++ s) = l.length) : ¬w <:+: l := by
  have hnot := not_infix_take_search hne (l ++ s)
  rwa [h, List.take_left] at hnot

/-- Induction over the pieces of a list. -/
theorem infix_induction {w : List α} (hne : w ≠ []) {motive : List α → Prop}
    (last : ∀ s, ¬w <:+: s → motive s)
    (piece : ∀ l s, ¬w <:+: l → motive s → motive (l ++ (w ++ s))) (s : List α) : motive s :=
  leftmost_induction hne last (fun l s hat ih ↦ piece l s (not_infix_of_search hne hat) ih) s

theorem Unbordered.splitBy_append_append {w : List α} (hw : Unbordered w) (hne : w ≠ []) (s t : List α) :
    splitBy w (s ++ (w ++ t)) = splitBy w s ++ splitBy w t := by
  induction s using infix_induction hne with
  | last s hs => rw [hw.splitBy_append hne hs, splitBy_eq_singleton hs, List.singleton_append]
  | piece l s hl ih =>
    rw [hw.splitBy_append hne hl, List.append_assoc, List.append_assoc, hw.splitBy_append hne hl, ih,
      List.cons_append]

theorem infix_of_mem_splitBy {w : List α} (hne : w ≠ []) {s p : List α} (h : p ∈ splitBy w s) : p <:+: s := by
  induction s using leftmost_induction hne with
  | last s hs =>
    rw [splitBy_eq_singleton hs] at h
    exact List.mem_singleton.mp h ▸ List.infix_refl s
  | piece l s hat ih =>
    rw [splitBy_of_search hne hat] at h
    obtain rfl | h := List.mem_cons.mp h
    · exact (List.prefix_append _ _).isInfix
    · exact (ih h).trans ((List.suffix_append w s).trans (List.suffix_append l _)).isInfix

theorem Unbordered.infix_append_iff {w l : List α} (hw : Unbordered w) (hl : ¬w <:+: l) (v s : List α) :
    w ++ v <:+: l ++ (w ++ s) ↔ v <+: s ∨ w ++ v <:+: s := by
  constructor
  · rintro ⟨p, q, heq⟩
    have hat : w ++ v <+: (l ++ (w ++ s)).drop p.length := by
      rw [← heq, List.append_assoc, List.drop_left]
      exact List.prefix_append _ q
    have hfirst : w <+: (l ++ (w ++ s)).drop p.length := (List.prefix_append w v).trans hat
    have hle := search_le hfirst
    rw [hw.search_append hl] at hle
    obtain heq | hlt := hle.eq_or_lt
    · rw [← heq, List.drop_left, List.prefix_append_right_inj] at hat
      exact .inl hat
    · have hlong := hw.add_length_le (prefix_drop_length_append w l s) hfirst hlt
      obtain ⟨k, hk⟩ := Nat.exists_eq_add_of_le hlong
      rw [hk, Nat.add_assoc, ← List.drop_drop, List.drop_left, ← List.drop_drop, List.drop_left] at hat
      exact .inr (hat.isInfix.trans (List.drop_suffix _ _).isInfix)
  · rintro (hp | hin)
    · exact ((List.prefix_append_right_inj w).mpr hp).isInfix.trans (List.suffix_append l _).isInfix
    · exact hin.trans ((List.suffix_append w s).trans (List.suffix_append l _)).isInfix

theorem Unbordered.eq_append_of_splitBy {w s f l : List α} {ls : List (List α)} (hw : Unbordered w)
    (hne : w ≠ []) (h : splitBy w s = f :: l :: ls) :
    ∃ r, s = f ++ (w ++ r) ∧ ¬w <:+: f ∧ splitBy w r = l :: ls := by
  induction s using infix_induction hne with
  | last s hs => cases (splitBy_eq_singleton hs).symm.trans h
  | piece a r ha _ =>
    rw [hw.splitBy_append hne ha] at h
    obtain ⟨rfl, hr⟩ := List.cons.inj h
    exact ⟨r, rfl, ha, hr⟩

omit [DecidableEq α] in
theorem intercalate_append (w l : List α) (ls : List (List α)) (s : List α) :
    ∃ r, w.intercalate (l :: ls) ++ (w ++ s) = l ++ (w ++ r) := by
  cases ls with
  | nil => exact ⟨s, by rw [List.intercalate_singleton]⟩
  | cons a ls =>
    refine ⟨w.intercalate (a :: ls) ++ (w ++ s), ?_⟩
    rw [List.intercalate_cons_cons]
    simp only [List.append_assoc]

omit [DecidableEq α] in
theorem notMem_intercalate {c : α} {w : List α} {ls : List (List α)} (hw : c ∉ w) (hls : ∀ a ∈ ls, c ∉ a) :
    c ∉ w.intercalate ls := by
  induction ls with
  | nil => exact List.not_mem_nil
  | cons l ls ih =>
    have hl := hls l List.mem_cons_self
    have hrest := ih (fun a ha ↦ hls a (List.mem_cons_of_mem _ ha))
    cases ls with
    | nil => rwa [List.intercalate_singleton]
    | cons a ls =>
      rw [List.intercalate_cons_cons, List.mem_append, List.mem_append]
      exact not_or.mpr ⟨not_or.mpr ⟨hl, hw⟩, hrest⟩

theorem Unbordered.search_double {w : List α} (hw : Unbordered w) (hne : w ≠ []) (l : List α)
    (ls : List (List α)) (hls : ∀ a ∈ l :: ls, ¬w <:+: a) (hnil : ∀ a ∈ ls, a ≠ []) (s : List α) :
    search (w ++ w) (w.intercalate (l :: ls) ++ (w ++ (w ++ s))) = (w.intercalate (l :: ls)).length := by
  have hww : w ++ w ≠ [] := List.append_ne_nil_of_left_ne_nil hne w
  have hl := hls l List.mem_cons_self
  induction ls generalizing l with
  | nil =>
    have hat := prefix_drop_length_append (w ++ w) l s
    rw [List.append_assoc] at hat
    rw [List.intercalate_singleton]
    refine (search_le hat).antisymm ?_
    rw [← hw.search_append hl (w ++ s)]
    exact search_le_search (List.prefix_append w w) (search_ne_length hww hat)
  | cons a ls ih =>
    have ha := hls a (List.mem_cons_of_mem _ List.mem_cons_self)
    have hrest := ih a (fun b hb ↦ hls b (List.mem_cons_of_mem _ hb))
      (fun b hb ↦ hnil b (List.mem_cons_of_mem _ hb)) ha
    have htext : w.intercalate (l :: a :: ls) ++ (w ++ (w ++ s)) =
        l ++ (w ++ (w.intercalate (a :: ls) ++ (w ++ (w ++ s)))) := by
      rw [List.intercalate_cons_cons]
      simp only [List.append_assoc]
    rw [htext]
    set t := w.intercalate (a :: ls) ++ (w ++ (w ++ s)) with ht
    have hdrop : (l ++ (w ++ t)).drop (l.length + w.length) = t := by
      rw [← List.drop_drop, List.drop_left, List.drop_left]
    have hsome : w ++ w <+: (l ++ (w ++ t)).drop (l.length + w.length + (w.intercalate (a :: ls)).length) := by
      have hat := prefix_drop_length_append (w ++ w) (w.intercalate (a :: ls)) s
      rw [List.append_assoc, ← ht] at hat
      rw [← List.drop_drop, hdrop]
      exact hat
    have hfound := prefix_drop_search (search_ne_length hww hsome)
    have hfirst := (List.prefix_append w w).trans hfound
    have hsecond : w <+: (l ++ (w ++ t)).drop (search (w ++ w) (l ++ (w ++ t)) + w.length) := by
      rw [← List.drop_drop]
      obtain ⟨u, hu⟩ := hfound
      rw [← hu, List.append_assoc, List.drop_left]
      exact List.prefix_append w u
    have hge : l.length ≤ search (w ++ w) (l ++ (w ++ t)) := by
      rw [← hw.search_append hl t]
      exact search_le hfirst
    have hle : l.length + w.length ≤ search (w ++ w) (l ++ (w ++ t)) := by
      rcases hge.eq_or_lt with heq | hlt
      · exfalso
        rw [← heq, hdrop] at hsecond
        obtain ⟨r, hr⟩ := intercalate_append w a ls (w ++ s)
        have hzero := search_eq_zero hsecond
        rw [ht, hr, hw.search_append ha] at hzero
        exact hnil a List.mem_cons_self (List.eq_nil_of_length_eq_zero hzero)
      · exact hw.add_length_le (prefix_drop_length_append w l t) hfirst hlt
    rw [← search_drop hle, hdrop, hrest, List.intercalate_cons_cons, List.length_append, List.length_append]

omit [DecidableEq α] in
theorem prefix_append_cons {w l s : List α} {c : α} (hc : c ∉ w) : w <+: l ++ c :: s ↔ w <+: l := by
  refine ⟨fun h ↦ ?_, fun h ↦ h.trans (List.prefix_append _ _)⟩
  by_cases hle : w.length ≤ l.length
  · exact List.prefix_of_prefix_length_le h (List.prefix_append _ _) hle
  · have hat : l ++ [c] <+: w := by
      refine List.prefix_of_prefix_length_le ⟨s, by simp⟩ h ?_
      rw [List.length_append, List.length_singleton]
      omega
    exact absurd (hat.subset (by simp)) hc

theorem search_append_cons {w l : List α} {c : α} (hc : c ∉ w) (hl : ¬w <:+: l) (s : List α) :
    search w (l ++ c :: s) = l.length + 1 + search w s := by
  induction l with
  | nil =>
    have hp : ¬w <+: [] ++ c :: s := fun hp ↦ hl ((prefix_append_cons hc).mp hp).isInfix
    rw [List.nil_append] at hp ⊢
    rw [search_cons hp, List.length_nil]
    omega
  | cons a l ih =>
    have hp : ¬w <+: a :: l ++ c :: s := fun hp ↦ hl ((prefix_append_cons hc).mp hp).isInfix
    have hl' : ¬w <:+: l := fun h ↦ hl (h.trans (List.suffix_cons a l).isInfix)
    rw [List.cons_append] at hp ⊢
    rw [search_cons hp, ih hl', List.length_cons]
    omega

theorem not_infix_append_cons {w l s : List α} {c : α} (hc : c ∉ w) (hl : ¬w <:+: l) (hs : ¬w <:+: s) :
    ¬w <:+: l ++ c :: s := by
  have hw : w ≠ [] := fun hw ↦ hl (hw ▸ List.nil_infix)
  rw [← search_eq_length_iff hw] at hs ⊢
  rw [search_append_cons hc hl, hs, List.length_append, List.length_cons]
  omega

theorem splitBy_append_cons {w l : List α} {c : α} (hc : c ∉ w) (hl : ¬w <:+: l) (s : List α) :
    splitBy w (l ++ c :: s) = (splitBy w s).modifyHead (fun a ↦ l ++ c :: a) := by
  induction l with
  | nil =>
    have hp : ¬w <+: [] ++ c :: s := fun hp ↦ hl ((prefix_append_cons hc).mp hp).isInfix
    exact splitBy_cons_skip hp
  | cons a l ih =>
    have hp : ¬w <+: a :: l ++ c :: s := fun hp ↦ hl ((prefix_append_cons hc).mp hp).isInfix
    have hl' : ¬w <:+: l := fun h ↦ hl (h.trans (List.suffix_cons a l).isInfix)
    rw [List.cons_append] at hp ⊢
    rw [splitBy_cons_skip hp, ih hl', List.modifyHead_modifyHead]
    rfl

theorem splitBy_drop_search {w : List α} (hw : w ≠ []) (s : List α) :
    splitBy w (s.drop (search w s)) = [] :: (splitBy w s).tail := by
  by_cases h : w <:+: s
  · have hp := prefix_drop_search (mt (search_eq_length_iff hw).mp (not_not.mpr h))
    rw [splitBy_eq_cons hw hp.isInfix, search_eq_zero hp, splitBy_eq_cons hw h, List.drop_drop, Nat.zero_add]
    rfl
  · rw [splitBy_eq_singleton h, (search_eq_length_iff hw).mpr h, List.drop_length]
    rfl

end Baize.Lib
