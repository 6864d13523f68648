import Mathlib.Tactic

namespace Baize.Lib

section Fallible

variable {σ τ ι ε : Type} (exec : σ → ι → Except ε σ) (Pre : σ → ι → Prop)

def Admissible : σ → List ι → Prop
  | _, [] => True
  | s, i :: is => Pre s i ∧
    match exec s i with
    | .ok s' => Admissible s' is
    | .error _ => True

instance Admissible.decidable [∀ s i, Decidable (Pre s i)] :
    ∀ (s : σ) (is : List ι), Decidable (Admissible exec Pre s is)
  | _, [] => .isTrue trivial
  | s, i :: is =>
    match h : exec s i with
    | .ok s' =>
      have := Admissible.decidable s' is
      decidable_of_iff (Pre s i ∧ Admissible exec Pre s' is) (by simp only [Admissible, h])
    | .error _ => decidable_of_iff (Pre s i) (by simp only [Admissible, h, and_true])

variable {exec Pre}

/-- Forward simulation for operations that may fault: under their
preconditions none does, and the abstract run is followed step by step. -/
theorem foldlM_simulates {spec : τ → ι → τ} {R : σ → τ → Prop}
    (hstep : ∀ s t i, R s t → Pre s i → ∃ s', exec s i = .ok s' ∧ R s' (spec t i))
    (ops : List ι) (s : σ) (t : τ) (hR : R s t) (ha : Admissible exec Pre s ops) :
    ∃ s', ops.foldlM exec s = .ok s' ∧ R s' (ops.foldl spec t) := by
  induction ops generalizing s t with
  | nil => exact ⟨s, rfl, hR⟩
  | cons i is ih =>
    obtain ⟨hpre, hrest⟩ := ha
    obtain ⟨s₁, hs₁, hR₁⟩ := hstep s t i hR hpre
    rw [hs₁] at hrest
    obtain ⟨s₂, hs₂, hR₂⟩ := ih s₁ (spec t i) hR₁ hrest
    refine ⟨s₂, ?_, hR₂⟩
    rw [List.foldlM_cons, hs₁]
    exact hs₂

theorem foldlM_keeps {f : τ → ι → τ} {R : σ → τ → Prop}
    (hstep : ∀ s t i s', R s t → exec s i = .ok s' → R s' (f t i)) (ops : List ι) {s s' : σ} {t : τ}
    (hR : R s t) (h : ops.foldlM exec s = .ok s') : R s' (ops.foldl f t) := by
  induction ops generalizing s t with
  | nil =>
    obtain rfl := Except.ok.inj h
    exact hR
  | cons i is ih =>
    rw [List.foldlM_cons] at h
    cases hi : exec s i with
    | error fault => rw [hi] at h; cases h
    | ok s₁ =>
      rw [hi] at h
      exact ih (hstep s t i s₁ hR hi) h

theorem Admissible.congr_of_invariant {P Q : σ → ι → Prop} {I : σ → Prop}
    (hiff : ∀ s i, I s → Pre s i → (P s i ↔ Q s i))
    (hinv : ∀ s i s', I s → Pre s i → Q s i → exec s i = .ok s' → I s') (ops : List ι) {s : σ} (h : I s)
    (ha : Admissible exec Pre s ops) : Admissible exec P s ops ↔ Admissible exec Q s ops := by
  induction ops generalizing s with
  | nil => exact Iff.rfl
  | cons i is ih =>
    obtain ⟨hpre, hrest⟩ := ha
    simp only [Admissible, hiff s i h hpre]
    refine and_congr_right fun hq ↦ ?_
    cases he : exec s i with
    | error fault => rfl
    | ok s' =>
      rw [he] at hrest
      exact ih (hinv s i s' h hpre hq he) hrest

theorem admissible_true (ops : List ι) (s : σ) : Admissible exec (fun _ _ ↦ True) s ops := by
  induction ops generalizing s with
  | nil => trivial
  | cons i is ih =>
    refine ⟨trivial, ?_⟩
    split
    · exact ih _
    · trivial

section History

variable {R : List ι → σ → Prop} {Q : List ι → Prop}

/-- An invariant of the operations done so far, for lists of operations with a property that every
list inherits by its beginnings. -/
theorem foldlM_history (hQ : ∀ is js, Q (is ++ js) → Q is)
    (hstep : ∀ is s i, R is s → Pre s i → Q (is ++ [i]) → ∃ s', exec s i = .ok s' ∧ R (is ++ [i]) s')
    (ops : List ι) {l : List ι} {s : σ} (hR : R l s) (hq : Q (l ++ ops))
    (ha : Admissible exec Pre s ops) : ∃ s', ops.foldlM exec s = .ok s' ∧ R (l ++ ops) s' := by
  induction ops generalizing l s with
  | nil => exact ⟨s, rfl, by rwa [List.append_nil]⟩
  | cons i is ih =>
    obtain ⟨hpre, hrest⟩ := ha
    rw [List.append_cons] at hq ⊢
    obtain ⟨s₁, hs₁, hR₁⟩ := hstep l s i hR hpre (hQ _ _ hq)
    rw [hs₁] at hrest
    obtain ⟨s₂, hs₂, hR₂⟩ := ih hR₁ hq hrest
    refine ⟨s₂, ?_, hR₂⟩
    rw [List.foldlM_cons, hs₁]
    exact hs₂

theorem admissible_of_history (hQ : ∀ is js, Q (is ++ js) → Q is)
    (hpre : ∀ is s i, R is s → Q (is ++ [i]) → Pre s i)
    (hstep : ∀ is s i, R is s → Pre s i → Q (is ++ [i]) → ∃ s', exec s i = .ok s' ∧ R (is ++ [i]) s')
    (ops : List ι) {l : List ι} {s : σ} (hR : R l s) (hq : Q (l ++ ops)) :
    Admissible exec Pre s ops := by
  induction ops generalizing l s with
  | nil => trivial
  | cons i is ih =>
    rw [List.append_cons] at hq
    have hi := hpre l s i hR (hQ _ _ hq)
    obtain ⟨s₁, hs₁, hR₁⟩ := hstep l s i hR hi (hQ _ _ hq)
    refine ⟨hi, ?_⟩
    rw [hs₁]
    exact ih hR₁ hq

end History

end Fallible

section Relation

variable {σ τ α : Type*} (T : σ → α → σ → Prop)

/-- The labelled runs of a transition relation. -/
inductive Run : σ → List α → σ → Prop
  | nil (s : σ) : Run s [] s
  | cons {s s' s'' : σ} {a : α} {as : List α} : T s a s' → Run s' as s'' → Run s (a :: as) s''

variable {T}

theorem Run.append {s s' s'' : σ} {as bs : List α} (h : Run T s as s') (h' : Run T s' bs s'') :
    Run T s (as ++ bs) s'' := by
  induction h with
  | nil s => exact h'
  | cons ht _ ih => exact .cons ht (ih h')

theorem Run.invariant {I : σ → Prop} (hstep : ∀ s a s', I s → T s a s' → I s') {s s' : σ} {as : List α}
    (hrun : Run T s as s') (h : I s) : I s' := by
  induction hrun with
  | nil s => exact h
  | cons ht _ ih => exact ih (hstep _ _ _ h ht)

theorem Run.invariant_history {β : Type*} {I : List β → σ → Prop} (obs : α → List β)
    (hstep : ∀ l s a s', I l s → T s a s' → I (l ++ obs a) s') {l : List β} {s s' : σ} {as : List α}
    (hrun : Run T s as s') (h : I l s) : I (l ++ as.flatMap obs) s' := by
  induction hrun generalizing l with
  | nil s => rwa [List.flatMap_nil, List.append_nil]
  | cons ht _ ih =>
    rw [List.flatMap_cons, ← List.append_assoc]
    exact ih (hstep _ _ _ _ h ht)

theorem Run.mono {U : σ → α → σ → Prop} (h : ∀ s a s', T s a s' → U s a s') {s s' : σ} {as : List α}
    (hrun : Run T s as s') : Run U s as s' := by
  induction hrun with
  | nil s => exact .nil s
  | cons ht _ ih => exact .cons (h _ _ _ ht) ih

theorem Run.of_append {s s'' : σ} {as bs : List α} (h : Run T s (as ++ bs) s'') :
    ∃ s', Run T s as s' ∧ Run T s' bs s'' := by
  induction as generalizing s with
  | nil => exact ⟨s, .nil s, h⟩
  | cons a as ih =>
    cases h with
    | cons ht h =>
      obtain ⟨s', hrun, hrun'⟩ := ih h
      exact ⟨s', .cons ht hrun, hrun'⟩

/-- Forward simulation: a relation that every step keeps is kept by every run. -/
theorem Run.simulates {U : τ → α → τ → Prop} {R : σ → τ → Prop}
    (hstep : ∀ s a s' t, R s t → T s a s' → ∃ t', U t a t' ∧ R s' t') {s s' : σ} {as : List α} {t : τ}
    (hrun : Run T s as s') (hR : R s t) : ∃ t', Run U t as t' ∧ R s' t' := by
  induction hrun generalizing t with
  | nil s => exact ⟨t, .nil t, hR⟩
  | cons ht _ ih =>
    obtain ⟨t₁, hu, hR₁⟩ := hstep _ _ _ _ hR ht
    obtain ⟨t₂, hrun₂, hR₂⟩ := ih hR₁
    exact ⟨t₂, .cons hu hrun₂, hR₂⟩

theorem Run.congr_of_invariant {U : σ → α → σ → Prop} {I : σ → Prop}
    (hiff : ∀ s a s', I s → (T s a s' ↔ U s a s')) (hinv : ∀ s a s', I s → U s a s' → I s')
    {s s' : σ} {as : List α} (h : I s) : Run T s as s' ↔ Run U s as s' := by
  constructor
  · intro hrun
    induction hrun with
    | nil s => exact .nil s
    | cons ht _ ih =>
      have hu := (hiff _ _ _ h).mp ht
      exact .cons hu (ih (hinv _ _ _ h hu))
  · intro hrun
    induction hrun with
    | nil s => exact .nil s
    | cons hu _ ih => exact .cons ((hiff _ _ _ h).mpr hu) (ih (hinv _ _ _ h hu))

def Guarded (step : σ → α → Option σ) (Pre : σ → α → Prop) (s : σ) (a : α) (s' : σ) : Prop :=
  Pre s a ∧ step s a = some s'

/-- Where an invariant holds, a precondition says of each step whether what it leads to is good: then
the runs with good steps only are the runs that meet the precondition. -/
theorem Run.iff_guarded {step : σ → α → Option σ} {Good : σ → α → σ → Prop} {Pre : σ → α → Prop} {I : σ → Prop}
    (hgood : ∀ s a s', I s → step s a = some s' → (Good s a s' ↔ Pre s a))
    (hinv : ∀ s a s', I s → Pre s a → step s a = some s' → I s') {s s' : σ} {as : List α} (h : I s) :
    Run (fun s a s' ↦ step s a = some s' ∧ Good s a s') s as s' ↔ Run (Guarded step Pre) s as s' := by
  refine Run.congr_of_invariant (fun s a s' hI ↦ ?_) (fun s a s' hI hu ↦ hinv s a s' hI hu.1 hu.2) h
  rw [Guarded, and_comm (a := Pre s a)]
  exact and_congr_right (hgood s a s' hI)

theorem Run.of_guarded {step : σ → α → Option σ} {Pre : σ → α → Prop} {s s' : σ} {as : List α}
    (h : Run (Guarded step Pre) s as s') : Run (fun s a s' ↦ step s a = some s') s as s' := by
  induction h with
  | nil s => exact .nil s
  | cons ht _ ih => exact .cons ht.2 ih

section Observed

variable {β : Type*} (step : σ → α → Option σ) (obs : σ → α → List β)

def observed : σ → List α → List β
  | _, [] => []
  | s, a :: as => obs s a ++ (step s a).elim [] fun s' ↦ observed s' as

variable {step} {s s' : σ} {a : α} {as : List α}

theorem observed_cons (h : step s a = some s') :
    observed step obs s (a :: as) = obs s a ++ observed step obs s' as := by
  rw [observed, h, Option.elim_some]

theorem Run.observed_append (h : Run (fun s a s' ↦ step s a = some s') s as s') (bs : List α) :
    observed step obs s (as ++ bs) = observed step obs s as ++ observed step obs s' bs := by
  induction h with
  | nil s => rfl
  | cons ht _ ih => rw [List.cons_append, observed_cons obs ht, observed_cons obs ht, ih, List.append_assoc]

/-- Some step of the list is taken in a state where it has the property. -/
def Passes (step : σ → α → Option σ) (P : σ → α → Prop) (s : σ) (as : List α) : Prop :=
  ∃ bs a cs s', as = bs ++ a :: cs ∧ Run (fun s a s' ↦ step s a = some s') s bs s' ∧ P s' a

variable {P : σ → α → Prop}

theorem not_passes_nil : ¬Passes step P s [] := by
  rintro ⟨bs, a, cs, s', heq, -, -⟩
  exact List.cons_ne_nil a cs (List.append_eq_nil_iff.mp heq.symm).2

theorem passes_cons (h : step s a = some s') : Passes step P s (a :: as) ↔ P s a ∨ Passes step P s' as := by
  constructor
  · rintro ⟨bs, b, cs, s₁, heq, hrun, hp⟩
    cases hrun with
    | nil =>
      obtain ⟨rfl, -⟩ := List.cons.inj heq
      exact .inl hp
    | cons ht hrun =>
      obtain ⟨rfl, htail⟩ := List.cons.inj heq
      obtain rfl := Option.some.inj (h.symm.trans ht)
      exact .inr ⟨_, b, cs, s₁, htail, hrun, hp⟩
  · rintro (hp | ⟨bs, b, cs, s₁, rfl, hrun, hp⟩)
    · exact ⟨[], a, as, s, rfl, .nil s, hp⟩
    · exact ⟨a :: bs, b, cs, s₁, rfl, .cons h hrun, hp⟩

/-- A flag that the steps with a property raise, and that no step lowers, tells whether there was one. -/
theorem Run.flag_iff (flag : σ → Bool)
    (hstep : ∀ s a s', step s a = some s' → (flag s' = true ↔ flag s = true ∨ P s a))
    (hrun : Run (fun s a s' ↦ step s a = some s') s as s') :
    flag s' = true ↔ flag s = true ∨ Passes step P s as := by
  induction hrun with
  | nil s => rw [or_iff_left not_passes_nil]
  | cons ht _ ih => rw [ih, passes_cons ht, hstep _ _ _ ht, or_assoc]

end Observed

theorem exists_run_of_foldlM {β : Type*} {step : σ → α → Option σ} {Pre : σ → α → Prop}
    [∀ s a, Decidable (Pre s a)] {as : List α} {s : σ} (f : σ → β) {b : β}
    (h : (as.foldlM (fun s a ↦ if Pre s a then step s a else none) s).map f = some b) :
    ∃ s', Run (Guarded step Pre) s as s' ∧ f s' = b := by
  induction as generalizing s with
  | nil => exact ⟨s, .nil s, Option.some.inj h⟩
  | cons a as ih =>
    rw [List.foldlM_cons] at h
    by_cases hpre : Pre s a
    · rw [if_pos hpre] at h
      cases hs : step s a with
      | none => rw [hs] at h; cases h
      | some s₁ =>
        rw [hs] at h
        obtain ⟨s₂, hrun, heq⟩ := ih h
        exact ⟨s₂, .cons ⟨hpre, hs⟩ hrun, heq⟩
    · rw [if_neg hpre] at h
      cases h

theorem exists_run_of_steps {β : Type*} {step : σ → α → Option σ} {as : List α} {s : σ} (f : σ → β) {b : β}
    (h : (as.foldlM step s).map f = some b) :
    ∃ s', Run (fun s a s' ↦ step s a = some s') s as s' ∧ f s' = b := by
  have h' : (as.foldlM (fun s a ↦ if True then step s a else none) s).map f = some b := by
    simpa only [if_true] using h
  obtain ⟨s', hrun, hb⟩ := exists_run_of_foldlM f h'
  exact ⟨s', hrun.of_guarded, hb⟩

end Relation

end Baize.Lib
