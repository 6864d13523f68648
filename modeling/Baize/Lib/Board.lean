import Mathlib.Tactic
import Mathlib.Logic.Relation

namespace Baize.Lib

variable {ρ Task κ : Type}

structure Board (ρ Task : Type) where
  pending : List Task
  func : ρ → Option Task

structure Board.Exclusive (b : Board ρ κ) : Prop where
  nodup : b.pending.Nodup
  apart : ∀ k ∈ b.pending, ∀ r, b.func r ≠ some k
  unique : ∀ r r' k, b.func r = some k → b.func r' = some k → r = r'

theorem Board.Exclusive.submit {t : κ} {q : List κ} {f : ρ → Option κ} (h : Board.Exclusive ⟨q, f⟩)
    (hq : t ∉ q) (hf : ∀ r, f r ≠ some t) : Board.Exclusive ⟨q ++ [t], f⟩ where
  nodup := List.nodup_append.mpr ⟨h.nodup, List.nodup_singleton t, fun a ha b hb hab ↦
    hq (List.mem_singleton.mp hb ▸ hab ▸ ha)⟩
  apart k hk := by
    rcases List.mem_append.mp hk with hk | hk
    · exact h.apart k hk
    · rw [List.mem_singleton.mp hk]
      exact hf
  unique := h.unique

variable [DecidableEq ρ]

inductive Board.Move (P : Task → Prop) : Board ρ Task → Board ρ Task → Prop
  | submit {t : Task} {q q' : List Task} {f : ρ → Option Task} (h : P t) :
    Board.Move P ⟨q ++ q', f⟩ ⟨q ++ t :: q', f⟩
  | drop {q q' : List Task} {f : ρ → Option Task} (h : q'.Sublist q) : Board.Move P ⟨q, f⟩ ⟨q', f⟩
  | start {t : Task} {q : List Task} {f : ρ → Option Task} {r : ρ} (h : f r = none) :
    Board.Move P ⟨t :: q, f⟩ ⟨q, Function.update f r (some t)⟩
  | finish {q : List Task} {f : ρ → Option Task} {r : ρ} :
    Board.Move P ⟨q, f⟩ ⟨q, Function.update f r none⟩

namespace Board

variable {P : Task → Prop}

abbrev Moves (P : Task → Prop) : Board ρ Task → Board ρ Task → Prop := Relation.ReflTransGen (Move P)

/-- The board of the tasks that have a key. -/
def keyed (key : Task → Option κ) (b : Board ρ Task) : Board ρ κ :=
  ⟨b.pending.filterMap key, fun r ↦ (b.func r).bind key⟩

theorem keyed_update (key : Task → Option κ) (q : List Task) (f : ρ → Option Task) (r : ρ)
    (t : Option Task) :
    keyed key ⟨q, Function.update f r t⟩ =
      ⟨q.filterMap key, Function.update (fun r ↦ (f r).bind key) r (t.bind key)⟩ := by
  refine congrArg (Board.mk _) (funext fun k ↦ ?_)
  exact Function.apply_update (fun _ o ↦ Option.bind o key) f r t k

/-- Where no task with a key is submitted, the keys move in the same way. -/
theorem Move.keyed {key : Task → Option κ} (hP : ∀ t, P t → key t = none) {b b' : Board ρ Task}
    (h : Move P b b') : Moves (fun _ ↦ False) (b.keyed key) (b'.keyed key) := by
  cases h with
  | submit h =>
    simp only [Board.keyed, List.filterMap_append, List.filterMap_cons_none (hP _ h)]
    exact .refl
  | drop h => exact .single (.drop (h.filterMap key))
  | @start t q f r h =>
    rw [keyed_update]
    cases hk : key t with
    | none =>
      have hself : Function.update (fun r ↦ (f r).bind key) r none = fun r ↦ (f r).bind key := by
        rw [Function.update_eq_self_iff, h]
        rfl
      simp only [Board.keyed, List.filterMap_cons_none hk, Option.bind_some, hk, hself]
      exact .refl
    | some k =>
      simp only [Board.keyed, List.filterMap_cons_some hk, Option.bind_some, hk]
      exact .single (.start (by rw [h]; rfl))
  | finish =>
    rw [keyed_update]
    exact .single .finish

theorem Moves.keyed {key : Task → Option κ} (hP : ∀ t, P t → key t = none) {b b' : Board ρ Task}
    (h : Moves P b b') : Moves (fun _ ↦ False) (b.keyed key) (b'.keyed key) := by
  induction h with
  | refl => exact .refl
  | tail _ hm ih => exact ih.trans (hm.keyed hP)

theorem Exclusive.finish {q : List κ} {f : ρ → Option κ} (h : Exclusive ⟨q, f⟩) (r : ρ) :
    Exclusive ⟨q, Function.update f r none⟩ where
  nodup := h.nodup
  apart k hk i hi := by
    simp only [Function.update_apply] at hi
    split_ifs at hi
    exact h.apart k hk i hi
  unique i j k hi hj := by
    simp only [Function.update_apply] at hi hj
    split_ifs at hi hj
    exact h.unique i j k hi hj

theorem Exclusive.start {t : κ} {q : List κ} {f : ρ → Option κ} (h : Exclusive ⟨t :: q, f⟩)
    (r : ρ) : Exclusive ⟨q, Function.update f r (some t)⟩ := by
  obtain ⟨hnot, hnodup⟩ := List.nodup_cons.mp h.nodup
  have ht := h.apart t List.mem_cons_self
  refine ⟨hnodup, fun k hk i hi ↦ ?_, fun i j k hi hj ↦ ?_⟩
  · simp only [Function.update_apply] at hi
    split_ifs at hi
    · exact hnot (Option.some.inj hi ▸ hk)
    · exact h.apart k (List.mem_cons_of_mem t hk) i hi
  · simp only [Function.update_apply] at hi hj
    split_ifs at hi hj with hir hjr hjr
    · rw [hir, hjr]
    · exact absurd (Option.some.inj hi ▸ hj) (ht j)
    · exact absurd (Option.some.inj hj ▸ hi) (ht i)
    · exact h.unique i j k hi hj

structure All (Q L : κ → Prop) (b : Board ρ κ) : Prop where
  pending : ∀ k ∈ b.pending, Q k
  func : ∀ r k, b.func r = some k → L k

theorem Move.exclusive {b b' : Board ρ κ} (h : Move (fun _ ↦ False) b b') (hb : b.Exclusive) : b'.Exclusive := by
  cases h with
  | submit h => exact h.elim
  | drop h => exact ⟨h.nodup hb.nodup, fun k hk ↦ hb.apart k (h.subset hk), hb.unique⟩
  | start => exact hb.start _
  | finish => exact hb.finish _

theorem Move.all {Q L : κ → Prop} (hQL : ∀ k, Q k → L k) {b b' : Board ρ κ} (h : Move (fun _ ↦ False) b b')
    (hb : b.All Q L) : b'.All Q L := by
  cases h with
  | submit h => exact h.elim
  | drop h => exact ⟨fun k hk ↦ hb.pending k (h.subset hk), hb.func⟩
  | start =>
    refine ⟨fun k hk ↦ hb.pending k (List.mem_cons_of_mem _ hk), fun i k hi ↦ ?_⟩
    simp only [Function.update_apply] at hi
    split_ifs at hi
    · exact hQL k (hb.pending k (Option.some.inj hi ▸ List.mem_cons_self))
    · exact hb.func i k hi
  | finish =>
    refine ⟨hb.pending, fun i k hi ↦ ?_⟩
    simp only [Function.update_apply] at hi
    split_ifs at hi
    exact hb.func i k hi

theorem Moves.exclusive {b b' : Board ρ κ} (h : Moves (fun _ ↦ False) b b') (hb : b.Exclusive) :
    b'.Exclusive := by
  induction h with
  | refl => exact hb
  | tail _ hm ih => exact hm.exclusive ih

theorem Moves.all {Q L : κ → Prop} (hQL : ∀ k, Q k → L k) {b b' : Board ρ κ} (h : Moves (fun _ ↦ False) b b')
    (hb : b.All Q L) : b'.All Q L := by
  induction h with
  | refl => exact hb
  | tail _ hm ih => exact hm.all hQL ih

end Board

end Baize.Lib
