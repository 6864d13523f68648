import Baize.Lib.Split

namespace Baize.Lib

variable {α : Type} {w s : List α} {ls : List (List α)}

/-- `s` cut at the leftmost occurrence of `w`, and what is behind that occurrence cut in the same way. -/
inductive Cut (w : List α) : List α → List (List α) → Prop
  | last {s : List α} : ¬w <:+: s → Cut w s [s]
  | piece {l s : List α} {ls : List (List α)} :
    (∀ i < l.length, ¬w <+: (l ++ (w ++ s)).drop i) → Cut w s ls → Cut w (l ++ (w ++ s)) (l :: ls)

theorem Cut.not_infix (hw : w ≠ []) (h : Cut w s ls) : ∀ l ∈ ls, ¬w <:+: l := by
  induction h with
  | last hs => exact List.forall_mem_singleton.mpr hs
  | piece hleft _ ih =>
    refine List.forall_mem_cons.mpr ⟨?_, ih⟩
    rintro ⟨a, b, rfl⟩
    have hlt : a.length < (a ++ w ++ b).length := by
      have hpos := List.length_pos_of_ne_nil hw
      rw [List.length_append, List.length_append]
      omega
    refine hleft a.length hlt ?_
    rw [List.append_assoc, List.append_assoc, List.drop_left]
    exact List.prefix_append w _

def copies (n : ℕ) (w : List α) : List α := (List.replicate n w).flatten

theorem copies_succ (n : ℕ) (w : List α) : copies (n + 1) w = w ++ copies n w := by
  rw [copies, List.replicate_succ, List.flatten_cons]
  rfl

/-- `s` is what comes of `pieces` when copies of `w` are put before, between and after them. -/
def Rejoins (w : List α) (pieces : List (List α)) (s : List α) : Prop :=
  ∃ n ns, ns.length = pieces.length ∧ (∀ k ∈ ns.dropLast, 0 < k) ∧
    s = copies n w ++ (List.zipWith (fun l k ↦ l ++ copies k w) pieces ns).flatten

theorem Rejoins.nil (w : List α) : Rejoins w [] [] := ⟨0, [], rfl, List.forall_mem_nil _, rfl⟩

theorem Rejoins.singleton (w s : List α) : Rejoins w [s] s := by
  refine ⟨0, [0], rfl, List.forall_mem_nil _, ?_⟩
  simp [copies]

theorem Rejoins.copy {pieces : List (List α)} (h : Rejoins w pieces s) : Rejoins w pieces (w ++ s) := by
  obtain ⟨n, ns, hlen, hpos, rfl⟩ := h
  refine ⟨n + 1, ns, hlen, hpos, ?_⟩
  rw [copies_succ, List.append_assoc]

theorem Rejoins.cons {pieces : List (List α)} (l : List α) (h : Rejoins w pieces s) :
    Rejoins w (l :: pieces) (l ++ (w ++ s)) := by
  obtain ⟨n, ns, hlen, hpos, rfl⟩ := h
  refine ⟨0, (n + 1) :: ns, congrArg (· + 1) hlen, ?_, ?_⟩
  · cases ns with
    | nil => exact List.forall_mem_nil _
    | cons k ns => exact List.forall_mem_cons.mpr ⟨Nat.succ_pos n, hpos⟩
  · rw [List.zipWith_cons_cons, List.flatten_cons, copies_succ]
    simp only [List.append_assoc]
    rfl

theorem Cut.rejoins (h : Cut w s ls) : Rejoins w (ls.filter (· ≠ [])) s := by
  induction h with
  | @last s hs =>
    by_cases hnil : s = []
    · subst hnil
      exact .nil w
    · rw [List.filter_cons, if_pos (decide_eq_true hnil)]
      exact .singleton w s
  | @piece l s ls _ _ ih =>
    by_cases hnil : l = []
    · subst hnil
      exact ih.copy
    · rw [List.filter_cons, if_pos (decide_eq_true hnil)]
      exact ih.cons l

theorem cut_splitBy [DecidableEq α] (hw : w ≠ []) (s : List α) : Cut w s (splitBy w s) := by
  induction s using leftmost_induction hw with
  | last s hs =>
    rw [splitBy_eq_singleton hs]
    exact .last hs
  | piece l s hat ih =>
    rw [splitBy_of_search hw hat]
    exact .piece (fun i hi hp ↦ absurd (search_le hp) (by omega)) ih

theorem append_cons_inj {a : α} {l l' r r' : List α} (hl : a ∉ l) (hl' : a ∉ l')
    (h : l ++ a :: r = l' ++ a :: r') : l = l' ∧ r = r' := by
  induction l generalizing l' with
  | nil =>
    cases l' with
    | nil => exact ⟨rfl, (List.cons.inj h).2⟩
    | cons b l' => exact absurd (List.mem_cons.mpr (.inl (List.cons.inj h).1)) hl'
  | cons b l ih =>
    cases l' with
    | nil => exact absurd (List.mem_cons.mpr (.inl (List.cons.inj h).1.symm)) hl
    | cons b' l' =>
      obtain ⟨rfl, htail⟩ := List.cons.inj h
      obtain ⟨rfl, hr⟩ := ih (List.not_mem_of_not_mem_cons hl) (List.not_mem_of_not_mem_cons hl') htail
      exact ⟨rfl, hr⟩

end Baize.Lib
