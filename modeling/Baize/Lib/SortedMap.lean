import Mathlib.Tactic
import Mathlib.Order.Defs.LinearOrder

namespace Baize.Lib

variable {κ ν : Type} [LinearOrder κ]

/-- A finite map kept as a list of entries in increasing order of their keys. -/
@[ext] structure SortedMap (κ ν : Type) [LinearOrder κ] where
  entries : List (κ × ν)
  sorted : entries.Pairwise (fun a b ↦ a.1 < b.1)

namespace SortedMap

instance [DecidableEq ν] : DecidableEq (SortedMap κ ν) := fun a b ↦
  decidable_of_iff (a.entries = b.entries) SortedMap.ext_iff.symm

def empty : SortedMap κ ν := ⟨[], .nil⟩

def insertEntry (k : κ) (v : ν) : List (κ × ν) → List (κ × ν)
  | [] => [(k, v)]
  | e :: es =>
    if k < e.1 then (k, v) :: e :: es
    else if k = e.1 then (k, v) :: es
    else e :: insertEntry k v es

theorem fst_mem_insertEntry {k : κ} {v : ν} {es : List (κ × ν)} {e : κ × ν}
    (h : e ∈ insertEntry k v es) : e.1 = k ∨ e ∈ es := by
  induction es with
  | nil =>
    rw [insertEntry, List.mem_singleton] at h
    exact .inl (congrArg Prod.fst h)
  | cons a es ih =>
    rw [insertEntry] at h
    split_ifs at h with h₁ h₂
    · rcases List.mem_cons.mp h with rfl | h
      · exact .inl rfl
      · exact .inr h
    · rcases List.mem_cons.mp h with rfl | h
      · exact .inl rfl
      · exact .inr (List.mem_cons_of_mem _ h)
    · rcases List.mem_cons.mp h with rfl | h
      · exact .inr List.mem_cons_self
      · exact (ih h).imp id (List.mem_cons_of_mem _)

theorem insertEntry_sorted (k : κ) (v : ν) (es : List (κ × ν))
    (h : es.Pairwise (fun a b ↦ a.1 < b.1)) :
    (insertEntry k v es).Pairwise (fun a b ↦ a.1 < b.1) := by
  induction es with
  | nil => exact List.pairwise_singleton _ _
  | cons a es ih =>
    obtain ⟨ha, hes⟩ := List.pairwise_cons.mp h
    rw [insertEntry]
    split_ifs with h₁ h₂
    · refine List.pairwise_cons.mpr ⟨fun b hb ↦ ?_, h⟩
      rcases List.mem_cons.mp hb with rfl | hb
      · exact h₁
      · exact h₁.trans (ha b hb)
    · exact List.pairwise_cons.mpr ⟨fun b hb ↦ h₂ ▸ ha b hb, hes⟩
    · refine List.pairwise_cons.mpr ⟨fun b hb ↦ ?_, ih hes⟩
      rcases fst_mem_insertEntry hb with hk | hb
      · rw [hk]
        exact lt_of_le_of_ne (not_lt.mp h₁) (Ne.symm h₂)
      · exact ha b hb

def insert (m : SortedMap κ ν) (k : κ) (v : ν) : SortedMap κ ν :=
  ⟨insertEntry k v m.entries, insertEntry_sorted k v m.entries m.sorted⟩

def keys (m : SortedMap κ ν) : List κ := m.entries.map Prod.fst

theorem insertEntry_of_forall_lt {k : κ} {v : ν} {es : List (κ × ν)} (h : ∀ e ∈ es, e.1 < k) :
    insertEntry k v es = es ++ [(k, v)] := by
  induction es with
  | nil => rfl
  | cons a es ih =>
    have ha := h a List.mem_cons_self
    rw [insertEntry, if_neg (not_lt.mpr ha.le), if_neg ha.ne', List.cons_append,
      ih (fun e he ↦ h e (List.mem_cons_of_mem _ he))]

theorem foldl_insert (m : SortedMap κ ν) (es : List (κ × ν))
    (h : (m.entries ++ es).Pairwise (fun a b ↦ a.1 < b.1)) :
    es.foldl (fun m e ↦ m.insert e.1 e.2) m = ⟨m.entries ++ es, h⟩ := by
  induction es generalizing m with
  | nil => exact SortedMap.ext (List.append_nil _).symm
  | cons e es ih =>
    have hlt : ∀ a ∈ m.entries, a.1 < e.1 := fun a ha ↦
      (List.pairwise_append.mp h).2.2 a ha e List.mem_cons_self
    have hins : (m.insert e.1 e.2).entries = m.entries ++ [e] := insertEntry_of_forall_lt hlt
    rw [List.foldl_cons, ih (m.insert e.1 e.2) (by rw [hins, List.append_assoc]; exact h)]
    exact SortedMap.ext (by simp only [hins, List.append_assoc, List.singleton_append])

def find (m : SortedMap κ ν) (k : κ) : Option ν := m.entries.lookup k

def emplace (m : SortedMap κ ν) (k : κ) (v : ν) : SortedMap κ ν :=
  if (m.find k).isSome then m else m.insert k v

def erase (m : SortedMap κ ν) (k : κ) : SortedMap κ ν :=
  ⟨m.entries.filter (fun e ↦ e.1 ≠ k), m.sorted.filter _⟩

theorem lookup_cons_ite (k : κ) (e : κ × ν) (es : List (κ × ν)) :
    (e :: es).lookup k = if k = e.1 then some e.2 else es.lookup k := by
  by_cases h : k = e.1
  · rw [List.lookup_cons, if_pos h, beq_iff_eq.mpr h]
  · rw [List.lookup_cons, if_neg h, beq_eq_false_iff_ne.mpr h]

theorem lookup_insertEntry (k k' : κ) (v : ν) (es : List (κ × ν)) :
    (insertEntry k v es).lookup k' = if k' = k then some v else es.lookup k' := by
  induction es with
  | nil => rw [insertEntry, lookup_cons_ite]
  | cons a es ih =>
    rw [insertEntry]
    split_ifs with h₁ h₂
    all_goals simp only [lookup_cons_ite, ih]
    all_goals grind

theorem find_insert (m : SortedMap κ ν) (k k' : κ) (v : ν) :
    (m.insert k v).find k' = if k' = k then some v else m.find k' :=
  lookup_insertEntry k k' v m.entries

theorem mem_iff_lookup {es : List (κ × ν)} (hs : es.Pairwise (fun a b ↦ a.1 < b.1)) (e : κ × ν) :
    e ∈ es ↔ es.lookup e.1 = some e.2 := by
  induction es with
  | nil => exact iff_of_false List.not_mem_nil (Option.some_ne_none _).symm
  | cons a es ih =>
    obtain ⟨ha, hs⟩ := List.pairwise_cons.mp hs
    rw [List.mem_cons, lookup_cons_ite, ih hs]
    by_cases hk : e.1 = a.1
    · have hnone : e ∉ es := fun he ↦ (ha e he).ne hk.symm
      rw [if_pos hk, ← ih hs, or_iff_left hnone, Prod.ext_iff, Option.some_inj]
      exact ⟨fun h ↦ h.2.symm, fun h ↦ ⟨hk, h.symm⟩⟩
    · rw [if_neg hk]
      exact or_iff_right fun h ↦ hk (congrArg Prod.fst h)

theorem eq_of_find {m m' : SortedMap κ ν} (h : ∀ k, m.find k = m'.find k) : m = m' := by
  have hnodup (m : SortedMap κ ν) : m.entries.Nodup := m.sorted.imp fun hlt heq ↦ hlt.ne (congrArg Prod.fst heq)
  have hperm : m.entries.Perm m'.entries := by
    refine (List.perm_ext_iff_of_nodup (hnodup m) (hnodup m')).mpr fun e ↦ ?_
    rw [mem_iff_lookup m.sorted, mem_iff_lookup m'.sorted]
    exact iff_of_eq (congrArg (· = some e.2) (h e.1))
  exact SortedMap.ext (hperm.eq_of_pairwise (fun a b _ _ hab hba ↦ absurd hab hba.not_gt) m.sorted m'.sorted)

theorem find_foldl_insert [BEq κ] [LawfulBEq κ] (m : SortedMap κ ν) (es : List (κ × ν)) (k : κ) :
    (es.foldl (fun m e ↦ m.insert e.1 e.2) m).find k = (es.reverse.lookup k).or (m.find k) := by
  induction es generalizing m with
  | nil => rfl
  | cons e es ih =>
    rw [List.foldl_cons, ih, find_insert, List.reverse_cons, List.lookup_append, Option.or_assoc]
    congr 1
    by_cases h : k = e.1
    · rw [List.lookup_cons, if_pos h, beq_iff_eq.mpr h]
      rfl
    · rw [List.lookup_cons, if_neg h, beq_eq_false_iff_ne.mpr h]
      rfl

theorem find_emplace {m : SortedMap κ ν} {k : κ} (h : m.find k = none) (k' : κ) (v : ν) :
    (m.emplace k v).find k' = if k' = k then some v else m.find k' := by
  simp only [emplace, h, Option.isSome_none, Bool.false_eq_true, if_false, find_insert]

theorem find_erase (m : SortedMap κ ν) (k k' : κ) :
    (m.erase k).find k' = if k' = k then none else m.find k' := by
  simp only [find, erase]
  induction m.entries with
  | nil => simp only [List.filter_nil, List.lookup_nil, ite_self]
  | cons a es ih =>
    rw [List.filter_cons]
    split_ifs with ha
    all_goals simp only [lookup_cons_ite, ih]
    all_goals grind

theorem find_head {m : SortedMap κ ν} {e : κ × ν} {es : List (κ × ν)} (h : m.entries = e :: es) :
    m.find e.1 = some e.2 := by
  rw [find, h, lookup_cons_ite, if_pos rfl]

theorem entries_ne_nil_of_find {m : SortedMap κ ν} {k : κ} {v : ν} (h : m.find k = some v) :
    m.entries ≠ [] := by
  intro he
  rw [find, he] at h
  cases h

def size (m : SortedMap κ ν) : ℕ := m.entries.length

theorem length_insertEntry {k : κ} {es : List (κ × ν)} (h : es.lookup k = none) (v : ν) :
    (insertEntry k v es).length = es.length + 1 := by
  induction es with
  | nil => rfl
  | cons a es ih =>
    rw [lookup_cons_ite] at h
    split_ifs at h with hk
    rw [insertEntry, if_neg hk]
    split_ifs
    · rfl
    · rw [List.length_cons, ih h, List.length_cons]

theorem size_emplace {m : SortedMap κ ν} {k : κ} (h : m.find k = none) (v : ν) :
    (m.emplace k v).size = m.size + 1 := by
  simp only [emplace, h, Option.isSome_none, Bool.false_eq_true, if_false]
  exact length_insertEntry h v

theorem length_filter_ne {k : κ} {v : ν} {es : List (κ × ν)} (hs : es.Pairwise (fun a b ↦ a.1 < b.1))
    (h : es.lookup k = some v) : (es.filter (fun e ↦ e.1 ≠ k)).length + 1 = es.length := by
  induction es with
  | nil => cases h
  | cons a es ih =>
    obtain ⟨ha, hs⟩ := List.pairwise_cons.mp hs
    rw [lookup_cons_ite] at h
    split_ifs at h with hk
    · have hrest : ∀ e ∈ es, decide (e.1 ≠ k) = true := fun e he ↦ decide_eq_true (hk ▸ (ha e he).ne')
      rw [List.filter_cons, if_neg (by simp [hk]), List.filter_eq_self.mpr hrest, List.length_cons]
    · rw [List.filter_cons, if_pos (decide_eq_true (Ne.symm hk)), List.length_cons, ih hs h, List.length_cons]

theorem size_erase {m : SortedMap κ ν} {k : κ} {v : ν} (h : m.find k = some v) :
    (m.erase k).size + 1 = m.size :=
  length_filter_ne m.sorted h

end SortedMap

end Baize.Lib
