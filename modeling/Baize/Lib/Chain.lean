import Mathlib.Data.List.Chain
import Mathlib.Tactic

namespace Baize.Lib

structure Cells (ν : Type) where
  prev : ν → Option ν
  next : ν → Option ν

namespace Cells

variable {ν : Type} {c c' : Cells ν} {p q a b t : ν} {l l₁ l₂ : List ν}

def Links (c : Cells ν) (a b : ν) : Prop := c.next a = some b ∧ c.prev b = some a

def last (p : ν) : List ν → ν
  | [] => p
  | q :: l => last q l

theorem last_mem (p : ν) (l : List ν) : last p l ∈ p :: l := by
  induction l generalizing p with
  | nil => exact List.mem_cons_self
  | cons q l ih => exact List.mem_cons_of_mem p (ih q)

/-- The nodes of `l` hang behind `p` in this order, and nothing behind the last one. -/
structure Hangs (c : Cells ν) (p : ν) (l : List ν) : Prop where
  links : (p :: l).IsChain c.Links
  stop : c.next (last p l) = none

theorem hangs_nil : c.Hangs p [] ↔ c.next p = none := ⟨Hangs.stop, fun h ↦ ⟨.singleton p, h⟩⟩

theorem hangs_cons : c.Hangs p (q :: l) ↔ c.Links p q ∧ c.Hangs q l := by
  constructor
  · rintro ⟨hlinks, hstop⟩
    obtain ⟨hpq, hlinks⟩ := List.isChain_cons_cons.mp hlinks
    exact ⟨hpq, hlinks, hstop⟩
  · rintro ⟨hpq, hlinks, hstop⟩
    exact ⟨List.isChain_cons_cons.mpr ⟨hpq, hlinks⟩, hstop⟩

theorem Hangs.next_eq (h : c.Hangs p l) : c.next p = l.head? := by
  cases l with
  | nil => exact hangs_nil.mp h
  | cons q l => exact (hangs_cons.mp h).1.1

theorem hangs_append_cons : c.Hangs p (l₁ ++ t :: l₂) ↔
    (p :: l₁).IsChain c.Links ∧ c.Links (last p l₁) t ∧ c.Hangs t l₂ := by
  induction l₁ generalizing p with
  | nil => exact hangs_cons.trans ⟨fun h ↦ ⟨.singleton p, h⟩, And.right⟩
  | cons q l₁ ih => rw [List.cons_append, hangs_cons, ih, List.isChain_cons_cons, and_assoc, last]

theorem Hangs.congr (h : c.Hangs p l) (hnext : ∀ a ∈ p :: l, c'.next a = c.next a)
    (hprev : ∀ a ∈ l, c'.prev a = c.prev a) : c'.Hangs p l := by
  induction l generalizing p with
  | nil => exact hangs_nil.mpr ((hnext p List.mem_cons_self).trans (hangs_nil.mp h))
  | cons q l ih =>
    obtain ⟨⟨hn, hp⟩, hq⟩ := hangs_cons.mp h
    refine hangs_cons.mpr ⟨⟨(hnext p List.mem_cons_self).trans hn, (hprev q List.mem_cons_self).trans hp⟩, ?_⟩
    exact ih hq (fun a ha ↦ hnext a (List.mem_cons_of_mem p ha)) fun a ha ↦ hprev a (List.mem_cons_of_mem q ha)

theorem Hangs.prev_of_mem (h : c.Hangs p l) (ht : t ∈ l) : ∃ a ∈ p :: l, c.Links a t := by
  induction l generalizing p with
  | nil => cases ht
  | cons q l ih =>
    obtain ⟨hpq, hq⟩ := hangs_cons.mp h
    obtain rfl | ht := List.mem_cons.mp ht
    · exact ⟨p, List.mem_cons_self, hpq⟩
    · obtain ⟨a, ha, hat⟩ := ih hq ht
      exact ⟨a, List.mem_cons_of_mem p ha, hat⟩

theorem Hangs.next_of_mem (h : c.Hangs p l) (ha : a ∈ p :: l) (hb : c.next a = some b) :
    b ∈ l ∧ c.Links a b := by
  induction l generalizing p with
  | nil =>
    obtain rfl := List.mem_singleton.mp ha
    rw [hangs_nil.mp h] at hb
    cases hb
  | cons q l ih =>
    obtain ⟨hpq, hq⟩ := hangs_cons.mp h
    obtain rfl | ha := List.mem_cons.mp ha
    · obtain rfl := Option.some.inj (hpq.1.symm.trans hb)
      exact ⟨List.mem_cons_self, hpq⟩
    · obtain ⟨hmem, hab⟩ := ih hq ha
      exact ⟨List.mem_cons_of_mem q hmem, hab⟩

/-- Runs to the end of a list, in `n` rounds at most. -/
def tail (c : Cells ν) : ℕ → ν → Option ν
  | 0, p => if (c.next p).isNone then some p else none
  | n + 1, p =>
    match c.next p with
    | none => some p
    | some q => tail c n q

theorem Hangs.tail_eq (h : c.Hangs p l) {n : ℕ} (hn : l.length ≤ n) : c.tail n p = some (last p l) := by
  induction l generalizing p n with
  | nil =>
    have hp := hangs_nil.mp h
    cases n with
    | zero => rw [tail, hp]; rfl
    | succ n => rw [tail, hp]; rfl
  | cons q l ih =>
    obtain ⟨⟨hp, -⟩, hq⟩ := hangs_cons.mp h
    cases n with
    | zero => exact absurd hn (Nat.not_succ_le_zero _)
    | succ n =>
      rw [tail, hp]
      exact ih hq (Nat.le_of_succ_le_succ hn)

structure Unlinked (c c' : Cells ν) (a t : ν) : Prop where
  next_eq : ∀ x, x ≠ a → x ≠ t → c'.next x = c.next x
  prev_eq : ∀ x, x ≠ t → c.next t ≠ some x → c'.prev x = c.prev x
  next_front : c'.next a = c.next t
  prev_back : ∀ b, c.next t = some b → c'.prev b = some a

theorem Hangs.unlink (h : c.Hangs p (l₁ ++ t :: l₂)) (hnodup : (p :: l₁ ++ t :: l₂).Nodup)
    (hu : Unlinked c c' (last p l₁) t) : c'.Hangs p (l₁ ++ l₂) := by
  obtain ⟨hfront, hat, hback⟩ := hangs_append_cons.mp h
  obtain ⟨-, hnodup₂, hdisjoint⟩ := List.nodup_append.mp hnodup
  obtain ⟨ht, hnodup₂⟩ := List.nodup_cons.mp hnodup₂
  have hne {x y : ν} (hx : x ∈ p :: l₁) (hy : y ∈ t :: l₂) : x ≠ y := hdisjoint x hx y hy
  have hfront' : (p :: l₁).IsChain c'.Links := by
    refine hfront.imp_of_mem_imp fun x y hx hy hxy ↦ ⟨?_, ?_⟩
    · rw [hu.next_eq x ?_ (hne hx List.mem_cons_self)]
      · exact hxy.1
      · rintro rfl
        exact hne hy List.mem_cons_self (Option.some.inj (hxy.1.symm.trans hat.1))
    · rw [hu.prev_eq y (hne hy List.mem_cons_self)]
      · exact hxy.2
      · intro hnext
        exact hne hy (List.mem_cons_of_mem t (hback.next_of_mem List.mem_cons_self hnext).1) rfl
  cases l₂ with
  | nil =>
    rw [List.append_nil]
    exact ⟨hfront', hu.next_front.trans (hangs_nil.mp hback)⟩
  | cons b l₂ =>
    obtain ⟨htb, hb⟩ := hangs_cons.mp hback
    refine hangs_append_cons.mpr ⟨hfront', ⟨hu.next_front.trans htb.1, hu.prev_back b htb.1⟩, ?_⟩
    refine hb.congr (fun x hx ↦ hu.next_eq x ?_ ?_) fun x hx ↦ hu.prev_eq x ?_ ?_
    · exact (hne (last_mem p l₁) (List.mem_cons_of_mem t hx)).symm
    · rintro rfl
      exact ht hx
    · rintro rfl
      exact ht (List.mem_cons_of_mem b hx)
    · rw [htb.1]
      rintro ⟨rfl⟩
      exact (List.nodup_cons.mp hnodup₂).1 hx

structure Inserted (c c' : Cells ν) (p t : ν) : Prop where
  links : c'.Links p t
  next_eq : ∀ x, x ≠ p → x ≠ t → c'.next x = c.next x
  prev_eq : ∀ x, x ≠ t → c.next p ≠ some x → c'.prev x = c.prev x
  next_new : c'.next t = c.next p
  prev_back : ∀ b, c.next p = some b → c'.prev b = some t

theorem Hangs.insert (h : c.Hangs p l) (hnodup : (p :: l).Nodup) (ht : t ∉ p :: l)
    (hi : Inserted c c' p t) : c'.Hangs p (t :: l) := by
  refine hangs_cons.mpr ⟨hi.links, ?_⟩
  cases l with
  | nil => exact hangs_nil.mpr (hi.next_new.trans (hangs_nil.mp h))
  | cons b l =>
    obtain ⟨hpb, hb⟩ := hangs_cons.mp h
    obtain ⟨hp, hnodup⟩ := List.nodup_cons.mp hnodup
    refine hangs_cons.mpr ⟨⟨hi.next_new.trans hpb.1, hi.prev_back b hpb.1⟩, ?_⟩
    refine hb.congr (fun x hx ↦ hi.next_eq x ?_ ?_) fun x hx ↦ hi.prev_eq x ?_ ?_
    · rintro rfl
      exact hp hx
    · rintro rfl
      exact ht (List.mem_cons_of_mem p hx)
    · rintro rfl
      exact ht (List.mem_cons_of_mem p (List.mem_cons_of_mem b hx))
    · rw [hpb.1]
      rintro ⟨rfl⟩
      exact (List.nodup_cons.mp hnodup).1 hx

structure Joined (c c' : Cells ν) (a t : ν) : Prop where
  links : c'.Links a t
  next_eq : ∀ x, x ≠ a → c'.next x = c.next x
  prev_eq : ∀ x, x ≠ t → c'.prev x = c.prev x

theorem Hangs.join (h : c.Hangs p l₁) (h' : c.Hangs t l₂) (hnodup : (p :: l₁ ++ t :: l₂).Nodup)
    (hj : Joined c c' (last p l₁) t) : c'.Hangs p (l₁ ++ t :: l₂) := by
  obtain ⟨-, hnodup₂, hdisjoint⟩ := List.nodup_append.mp hnodup
  have hne {x y : ν} (hx : x ∈ p :: l₁) (hy : y ∈ t :: l₂) : x ≠ y := hdisjoint x hx y hy
  refine hangs_append_cons.mpr ⟨h.links.imp_of_mem_imp fun x y hx hy hxy ↦ ⟨?_, ?_⟩, hj.links, ?_⟩
  · rw [hj.next_eq x ?_]
    · exact hxy.1
    · rintro rfl
      cases h.stop.symm.trans hxy.1
  · rw [hj.prev_eq y (hne hy List.mem_cons_self)]
    exact hxy.2
  · refine h'.congr (fun x hx ↦ hj.next_eq x (hne (last_mem p l₁) hx).symm) fun x hx ↦ hj.prev_eq x ?_
    rintro rfl
    exact (List.nodup_cons.mp hnodup₂).1 hx

end Cells

end Baize.Lib
