import Mathlib.Tactic

namespace Baize.Lib

/-- What a decoder makes of the elements at hand: it needs more of them, or the
first `n` of them are the item `m`, or it gives up. -/
inductive Verdict (μ ε : Type)
  | more
  | item (n : ℕ) (m : μ)
  | stop (e : ε)

structure Decoder (α μ ε : Type) where
  decode : List α → Verdict μ ε
  item_le : ∀ {p n m}, decode p = .item n m → 0 < n ∧ n ≤ p.length

namespace Decoder

variable {α μ ε : Type} (D : Decoder α μ ε)

def drain (p : List α) : List μ × Except ε (List α) :=
  match _h : D.decode p with
  | .more => ([], .ok p)
  | .stop e => ([], .error e)
  | .item n m =>
    let r := drain (p.drop n)
    (m :: r.1, r.2)
termination_by p.length
decreasing_by
  rw [List.length_drop]
  have := D.item_le _h
  omega

def feed (r : List μ × Except ε (List α)) (c : List α) : List μ × Except ε (List α) :=
  match r.2 with
  | .error _ => r
  | .ok p => (r.1 ++ (D.drain (p ++ c)).1, (D.drain (p ++ c)).2)

inductive Boundary : List α → List α → Prop
  | refl (s : List α) : Boundary s s
  | item {s r : List α} {n : ℕ} {m : μ} (h : D.decode s = .item n m)
      (hr : Boundary (s.drop n) r) : Boundary s r

/-- No verdict on the front of `s` changes when more of `s` is there. -/
def StableAt (s : List α) : Prop :=
  ∀ p q t, p ++ q ++ t = s → D.decode p ≠ .more → D.decode (p ++ q) = D.decode p

def Stable (s : List α) : Prop := ∀ r, D.Boundary s r → D.StableAt r

variable {D} {p q s t : List α} {n : ℕ} {m : μ} {e : ε}

theorem drain_more (h : D.decode p = .more) : D.drain p = ([], .ok p) := by
  rw [drain]
  split
  · rfl
  · next h' => cases h.symm.trans h'
  · next h' => cases h.symm.trans h'

theorem drain_stop (h : D.decode p = .stop e) : D.drain p = ([], .error e) := by
  rw [drain]
  split
  · next h' => cases h.symm.trans h'
  · next h' => cases h.symm.trans h'; rfl
  · next h' => cases h.symm.trans h'

theorem drain_item (h : D.decode p = .item n m) :
    D.drain p = (m :: (D.drain (p.drop n)).1, (D.drain (p.drop n)).2) := by
  rw [drain]
  split
  · next h' => cases h.symm.trans h'
  · next h' => cases h.symm.trans h'
  · next h' => cases h.symm.trans h'; rfl

theorem Stable.drop (h : D.Stable s) (hs : D.decode s = .item n m) : D.Stable (s.drop n) :=
  fun r hr ↦ h r (.item hs hr)

theorem Stable.item_append (h : D.Stable (p ++ q)) (hp : D.decode p = .item n m) :
    D.decode (p ++ q) = .item n m :=
  (h _ (.refl _) p q [] (List.append_nil _) (by simp [hp])).trans hp

theorem Stable.stop_append (h : D.Stable (p ++ q)) (hp : D.decode p = .stop e) :
    D.decode (p ++ q) = .stop e :=
  (h _ (.refl _) p q [] (List.append_nil _) (by simp [hp])).trans hp

theorem Stable.of_append (h : D.Stable (s ++ t)) : D.Stable s := by
  intro r hr
  have hb : D.Boundary (s ++ t) (r ++ t) := by
    induction hr with
    | refl s => exact .refl _
    | item hs hr ih =>
      have hst := h.item_append hs
      have hd := h.drop hst
      rw [List.drop_append_of_le_length (D.item_le hs).2] at hd
      refine .item hst ?_
      rw [List.drop_append_of_le_length (D.item_le hs).2]
      exact ih hd
  intro p q u hu hp
  exact h _ hb p q (u ++ t) (by rw [← List.append_assoc, hu]) hp

/-- Draining a stream is draining its front and feeding the rest. -/
theorem drain_append (h : D.Stable (p ++ q)) : D.drain (p ++ q) = D.feed (D.drain p) q := by
  induction hn : p.length using Nat.strong_induction_on generalizing p with
  | _ k ih =>
    cases hp : D.decode p with
    | more => simp only [drain_more hp, feed, List.nil_append]
    | stop e =>
      rw [drain_stop hp, drain_stop (h.stop_append hp), feed]
    | item n m =>
      have hpq := h.item_append hp
      obtain ⟨hpos, hle⟩ := D.item_le hp
      have hd := h.drop hpq
      rw [List.drop_append_of_le_length hle] at hd
      have hrec := ih (p.drop n).length (by rw [List.length_drop]; omega) hd rfl
      rw [drain_item hp, drain_item hpq, List.drop_append_of_le_length hle, hrec]
      cases hr : (D.drain (p.drop n)).2 with
      | error e => simp only [feed, hr]
      | ok u => simp only [feed, hr, List.cons_append]

/-- However a stream is cut, the reader delivers what draining it at once gives. -/
theorem foldl_feed (cs : List (List α)) (h : D.Stable (p ++ cs.flatten)) :
    cs.foldl D.feed (D.drain p) = D.drain (p ++ cs.flatten) := by
  induction cs generalizing p with
  | nil => rw [List.flatten_nil, List.append_nil, List.foldl_nil]
  | cons c cs ih =>
    rw [List.flatten_cons, ← List.append_assoc] at h ⊢
    rw [List.foldl_cons, ← drain_append h.of_append]
    exact ih h

end Decoder

end Baize.Lib
