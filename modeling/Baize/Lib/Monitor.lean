import Baize.Lib.Run

namespace Baize.Lib

/-- Data under a mutex with a condition variable. Threads wait in a loop until `go` holds of the data,
or they call an update, which notifies all that sleep when `signals` holds behind it. -/
structure Monitor (σ κ : Type) where
  go : σ → Bool
  update : κ → σ → σ
  signals : κ → σ → Bool
  /-- The update that lets the waiting threads go on notifies them. -/
  wakes : ∀ k d, go d = false → go (update k d) = true → signals k (update k d) = true
  /-- No update takes this back. -/
  stays : ∀ k d, go d = true → go (update k d) = true

/-- Where a thread stands. A call is an update, or `none` for the loop that waits. -/
inductive Point (κ : Type)
  | outside
  | locking (call : Option κ)
  | testing
  | asleep
  | waking
  | updating (k : κ)
  | signalling (k : κ)
  | unlocking (call : Option κ)
  deriving DecidableEq

namespace Point

variable {κ : Type}

def holds : Point κ → Bool
  | outside | locking _ | asleep | waking => false
  | testing | updating _ | signalling _ | unlocking _ => true

def inCall : Point κ → Option (Option κ)
  | outside => none
  | testing | asleep | waking => some none
  | updating k | signalling k => some (some k)
  | locking call | unlocking call => some call

def entered : Option κ → Point κ
  | none => testing
  | some k => updating k

@[simp] theorem holds_entered (call : Option κ) : (entered call).holds = true := by
  cases call <;> rfl

@[simp] theorem inCall_entered (call : Option κ) : (entered call).inCall = some call := by
  cases call <;> rfl

def notified : Point κ → Point κ
  | asleep => waking
  | p => p

@[simp] theorem holds_notified (p : Point κ) : p.notified.holds = p.holds := by
  cases p <;> rfl

@[simp] theorem inCall_notified (p : Point κ) : p.notified.inCall = p.inCall := by
  cases p <;> rfl

theorem inCall_eq_none {p : Point κ} (h : p.inCall = none) : p = outside := by
  cases p <;> first | rfl | cases h

theorem notified_ne_asleep (p : Point κ) : p.notified ≠ asleep := by
  intro h
  cases p <;> cases h

theorem notified_eq_signalling {p : Point κ} {k : κ} (h : p.notified = signalling k) : p = signalling k := by
  cases p <;> first | exact h | cases h

theorem notified_eq_unlocking {p : Point κ} {call : Option κ} (h : p.notified = unlocking call) :
    p = unlocking call := by
  cases p <;> first | exact h | cases h

/-- How many steps a thread has in front of it when it need not sleep any more. -/
def rank : Point κ → ℕ
  | outside => 0
  | unlocking _ => 1
  | testing | signalling _ => 2
  | waking | updating _ => 3
  | asleep | locking _ => 4

theorem rank_notified_le (p : Point κ) : p.notified.rank ≤ p.rank := by
  cases p <;> simp only [notified, rank] <;> omega

theorem rank_le (p : Point κ) : p.rank ≤ 4 := by
  cases p <;> simp only [rank] <;> omega

theorem rank_entered_lt (call : Option κ) : (entered call).rank < (locking call).rank := by
  cases call <;> simp only [entered, rank] <;> omega

end Point

/-- The data, the owner of the mutex and where the threads stand; the updates made so far and the
threads that have come out of the waiting loop are records. -/
structure MonitorState (σ κ ι : Type) where
  data : σ
  owner : Option ι
  point : ι → Point κ
  updates : List κ
  passed : ι → Bool

/-- A thread calls the monitor, one wakes up for no reason, or one makes its next step. -/
inductive MonitorAction (κ ι : Type)
  | call (t : ι) (call : Option κ)
  | spurious (t : ι)
  | step (t : ι)

namespace MonitorState

variable {σ κ ι : Type} [DecidableEq ι]

def init (d : σ) : MonitorState σ κ ι := ⟨d, none, fun _ ↦ .outside, [], fun _ ↦ false⟩

def move (s : MonitorState σ κ ι) (t : ι) (p : Point κ) : MonitorState σ κ ι :=
  { s with point := Function.update s.point t p }

def wakeAll (s : MonitorState σ κ ι) : MonitorState σ κ ι := { s with point := fun u ↦ (s.point u).notified }

theorem point_move_self (s : MonitorState σ κ ι) (t : ι) (p : Point κ) : (s.move t p).point t = p :=
  Function.update_self ..

theorem point_move_of_ne {s : MonitorState σ κ ι} {t u : ι} (p : Point κ) (h : u ≠ t) :
    (s.move t p).point u = s.point u :=
  Function.update_of_ne h ..

end MonitorState

namespace Monitor

open MonitorState

variable {σ κ ι : Type} [DecidableEq ι] (m : Monitor σ κ)

def step (s : MonitorState σ κ ι) : MonitorAction κ ι → Option (MonitorState σ κ ι)
  | .call t call =>
    match s.point t with
    | .outside => some (s.move t (.locking call))
    | _ => none
  | .spurious t =>
    match s.point t with
    | .asleep => some (s.move t .waking)
    | _ => none
  | .step t =>
    match s.point t with
    | .outside | .asleep => none
    | .locking call => if s.owner.isNone then some { s.move t (.entered call) with owner := some t } else none
    | .waking => if s.owner.isNone then some { s.move t .testing with owner := some t } else none
    | .testing =>
      some (if m.go s.data then s.move t (.unlocking none) else { s.move t .asleep with owner := none })
    | .updating k =>
      some { s.move t (.signalling k) with data := m.update k s.data, updates := s.updates ++ [k] }
    | .signalling k => some ((if m.signals k s.data then s.wakeAll else s).move t (.unlocking (some k)))
    | .unlocking call => some { s.move t .outside with
        owner := none
        passed := if call.isNone then Function.update s.passed t true else s.passed }

/-- What a step does, case by case. -/
inductive Transition (s : MonitorState σ κ ι) : MonitorAction κ ι → MonitorState σ κ ι → Prop
  | call {t : ι} {call : Option κ} (hp : s.point t = .outside) :
      Transition s (.call t call) (s.move t (.locking call))
  | spurious {t : ι} (hp : s.point t = .asleep) : Transition s (.spurious t) (s.move t .waking)
  | lock {t : ι} {call : Option κ} (hp : s.point t = .locking call) (ho : s.owner = none) :
      Transition s (.step t) { s.move t (.entered call) with owner := some t }
  | relock {t : ι} (hp : s.point t = .waking) (ho : s.owner = none) :
      Transition s (.step t) { s.move t .testing with owner := some t }
  | leave {t : ι} (hp : s.point t = .testing) (hgo : m.go s.data = true) :
      Transition s (.step t) (s.move t (.unlocking none))
  | sleep {t : ι} (hp : s.point t = .testing) (hgo : m.go s.data = false) :
      Transition s (.step t) { s.move t .asleep with owner := none }
  | update {t : ι} {k : κ} (hp : s.point t = .updating k) : Transition s (.step t)
      { s.move t (.signalling k) with data := m.update k s.data, updates := s.updates ++ [k] }
  | notify {t : ι} {k : κ} (hp : s.point t = .signalling k) (hk : m.signals k s.data = true) :
      Transition s (.step t) (s.wakeAll.move t (.unlocking (some k)))
  | quiet {t : ι} {k : κ} (hp : s.point t = .signalling k) (hk : m.signals k s.data = false) :
      Transition s (.step t) (s.move t (.unlocking (some k)))
  | unlock {t : ι} {call : Option κ} (hp : s.point t = .unlocking call) : Transition s (.step t)
      { s.move t .outside with
        owner := none
        passed := if call.isNone then Function.update s.passed t true else s.passed }

variable {m} {s s' : MonitorState σ κ ι} {a : MonitorAction κ ι}

theorem transition_of_step (h : m.step s a = some s') : m.Transition s a s' := by
  cases a with
  | call t call =>
    simp only [step] at h
    split at h
    next hp => exact Option.some.inj h ▸ .call hp
    next => cases h
  | spurious t =>
    simp only [step] at h
    split at h
    next hp => exact Option.some.inj h ▸ .spurious hp
    next => cases h
  | step t =>
    simp only [step] at h
    split at h
    next => cases h
    next => cases h
    next call hp =>
      split at h
      next ho => exact Option.some.inj h ▸ .lock hp (Option.isNone_iff_eq_none.mp ho)
      next => cases h
    next hp =>
      split at h
      next ho => exact Option.some.inj h ▸ .relock hp (Option.isNone_iff_eq_none.mp ho)
      next => cases h
    next hp =>
      obtain rfl := Option.some.inj h
      split
      next hgo => exact .leave hp hgo
      next hgo => exact .sleep hp (Bool.eq_false_of_not_eq_true hgo)
    next k hp => exact Option.some.inj h ▸ .update hp
    next k hp =>
      obtain rfl := Option.some.inj h
      split
      next hk => exact .notify hp hk
      next hk => exact .quiet hp (Bool.eq_false_of_not_eq_true hk)
    next call hp => exact Option.some.inj h ▸ .unlock hp

def Continues : MonitorAction κ ι → Prop
  | .call _ _ => False
  | .spurious _ | .step _ => True

/-- The mutex excludes; a thread that sleeps although the data would let it go on is about to be
notified; and threads come out of the waiting loop only when the data lets them. -/
structure Inv (m : Monitor σ κ) (d : σ) (s : MonitorState σ κ ι) : Prop where
  owner : ∀ t, (s.point t).holds = true ↔ s.owner = some t
  asleep : ∀ t, s.point t = .asleep → m.go s.data = true →
    ∃ u k, s.point u = .signalling k ∧ m.signals k s.data = true
  leaving : ∀ t, s.point t = .unlocking none → m.go s.data = true
  passed : ∀ t, s.passed t = true → m.go s.data = true
  made : ∀ t k, s.point t = .signalling k ∨ s.point t = .unlocking (some k) → k ∈ s.updates
  data : s.data = s.updates.foldl (fun d k ↦ m.update k d) d

variable {d : σ}

omit [DecidableEq ι] in
theorem init_inv (d : σ) : m.Inv d (MonitorState.init d : MonitorState σ κ ι) where
  owner t := ⟨fun h ↦ (by cases h), fun h ↦ (by cases h)⟩
  asleep t h := by cases h
  leaving t h := by cases h
  passed t h := by cases h
  made t k h := by rcases h with h | h <;> cases h
  data := rfl

omit [DecidableEq ι] in
theorem Inv.eq_of_holds (h : m.Inv d s) {t u : ι} (ht : (s.point t).holds = true)
    (hu : (s.point u).holds = true) : u = t :=
  Option.some.inj (((h.owner u).mp hu).symm.trans ((h.owner t).mp ht))

theorem Inv.owner_move (h : m.Inv d s) {t : ι} {p : Point κ} {owner : Option ι}
    (hself : p.holds = true ↔ owner = some t)
    (hother : ∀ u, u ≠ t → (s.owner = some u ↔ owner = some u)) (u : ι) :
    ((s.move t p).point u).holds = true ↔ owner = some u := by
  by_cases hu : u = t
  · subst hu
    rwa [point_move_self]
  · rw [point_move_of_ne p hu, h.owner u]
    exact hother u hu

theorem asleep_of_move {t u : ι} {p : Point κ} (hp : p ≠ .asleep) (h : (s.move t p).point u = .asleep) :
    u ≠ t ∧ s.point u = .asleep := by
  by_cases hu : u = t
  · subst hu
    rw [point_move_self] at h
    exact absurd h hp
  · exact ⟨hu, by rwa [point_move_of_ne p hu] at h⟩

theorem Inv.asleep_move (h : m.Inv d s) {t u : ι} {p : Point κ} (hp : p ≠ .asleep)
    (ht : ∀ k, s.point t ≠ .signalling k) (hu : (s.move t p).point u = .asleep) (hgo : m.go s.data = true) :
    ∃ v k, (s.move t p).point v = .signalling k ∧ m.signals k s.data = true := by
  obtain ⟨v, k, hv, hk⟩ := h.asleep u (asleep_of_move hp hu).2 hgo
  have hvt : v ≠ t := by
    rintro rfl
    exact ht k hv
  exact ⟨v, k, (point_move_of_ne p hvt).trans hv, hk⟩

theorem Inv.leaving_move (h : m.Inv d s) {t u : ι} {p : Point κ} (hp : p = .unlocking none → m.go s.data = true)
    (hu : (s.move t p).point u = .unlocking none) : m.go s.data = true := by
  by_cases hut : u = t
  · subst hut
    rw [point_move_self] at hu
    exact hp hu
  · rw [point_move_of_ne p hut] at hu
    exact h.leaving u hu

theorem Inv.made_move (h : m.Inv d s) {t : ι} {p : Point κ}
    (hp : ∀ k, p = .signalling k ∨ p = .unlocking (some k) → k ∈ s.updates) (u : ι) (k : κ)
    (hu : (s.move t p).point u = .signalling k ∨ (s.move t p).point u = .unlocking (some k)) :
    k ∈ s.updates := by
  by_cases hut : u = t
  · subst hut
    rw [point_move_self] at hu
    exact hp k hu
  · rw [point_move_of_ne p hut] at hu
    exact h.made u k hu

theorem Inv.call (h : m.Inv d s) {t : ι} {call : Option κ} (hp : s.point t = .outside) :
    m.Inv d (s.move t (.locking call)) where
  owner := h.owner_move
    ⟨fun hf ↦ (by cases hf), fun ho ↦ (by have := (h.owner t).mpr ho; rw [hp] at this; cases this)⟩
    fun _ _ ↦ Iff.rfl
  asleep u := h.asleep_move (fun hf ↦ by cases hf) (fun k hk ↦ by rw [hp] at hk; cases hk)
  leaving u := h.leaving_move (fun hf ↦ by cases hf)
  passed := h.passed
  made := h.made_move (fun k hf ↦ by rcases hf with hf | hf <;> cases hf)
  data := h.data

theorem Inv.spurious (h : m.Inv d s) {t : ι} (hp : s.point t = .asleep) : m.Inv d (s.move t .waking) where
  owner := h.owner_move
    ⟨fun hf ↦ (by cases hf), fun ho ↦ (by have := (h.owner t).mpr ho; rw [hp] at this; cases this)⟩
    fun _ _ ↦ Iff.rfl
  asleep u := h.asleep_move (fun hf ↦ by cases hf) (fun k hk ↦ by rw [hp] at hk; cases hk)
  leaving u := h.leaving_move (fun hf ↦ by cases hf)
  passed := h.passed
  made := h.made_move (fun k hf ↦ by rcases hf with hf | hf <;> cases hf)
  data := h.data

theorem Inv.lock (h : m.Inv d s) {t : ι} {p : Point κ} (ho : s.owner = none) (hp : p.holds = true)
    (hleave : p ≠ .unlocking none) (hmade : ∀ k, p = .signalling k ∨ p = .unlocking (some k) → k ∈ s.updates) :
    m.Inv d { s.move t p with owner := some t } where
  owner := h.owner_move (by simp [hp])
    (fun u hu ↦ by rw [ho]; exact ⟨fun hf ↦ (by cases hf), fun hf ↦ absurd (Option.some.inj hf).symm hu⟩)
  asleep u hu hgo := by
    -- nobody holds the mutex, so nobody is about to notify the others
    obtain ⟨v, k, hv, -⟩ := h.asleep u
      (asleep_of_move (fun hpa ↦ by rw [hpa] at hp; cases hp) hu).2 hgo
    have hown := (h.owner v).mp (by rw [hv]; rfl)
    rw [ho] at hown
    cases hown
  leaving u := h.leaving_move fun hf ↦ absurd hf hleave
  passed := h.passed
  made := h.made_move hmade
  data := h.data

theorem Inv.leave (h : m.Inv d s) {t : ι} (hp : s.point t = .testing) (hgo : m.go s.data = true) :
    m.Inv d (s.move t (.unlocking none)) where
  owner := h.owner_move (iff_of_true rfl ((h.owner t).mp (by rw [hp]; rfl))) fun _ _ ↦ Iff.rfl
  asleep u := h.asleep_move (fun hf ↦ by cases hf) (fun k hk ↦ by rw [hp] at hk; cases hk)
  leaving u := h.leaving_move fun _ ↦ hgo
  passed := h.passed
  made := h.made_move (fun k hf ↦ by rcases hf with hf | hf <;> cases hf)
  data := h.data

theorem Inv.owner_release (h : m.Inv d s) {t : ι} {p : Point κ} (hp : (s.point t).holds = true)
    (hp' : p.holds = false) (u : ι) : ((s.move t p).point u).holds = true ↔ none = some u := by
  refine h.owner_move (by simp [hp']) (fun u hu ↦ ?_) u
  rw [(h.owner t).mp hp]
  exact ⟨fun hf ↦ absurd (Option.some.inj hf).symm hu, fun hf ↦ by cases hf⟩

theorem Inv.sleep (h : m.Inv d s) {t : ι} (hp : s.point t = .testing) (hgo : m.go s.data = false) :
    m.Inv d { s.move t .asleep with owner := none } where
  owner := h.owner_release (by rw [hp]; rfl) rfl
  asleep u hu hgo' := absurd (hgo.symm.trans hgo') Bool.false_ne_true
  leaving u := h.leaving_move (fun hf ↦ by cases hf)
  passed := h.passed
  made := h.made_move (fun k hf ↦ by rcases hf with hf | hf <;> cases hf)
  data := h.data

theorem Inv.update (h : m.Inv d s) {t : ι} {k : κ} (hp : s.point t = .updating k) : m.Inv d
    { s.move t (.signalling k) with data := m.update k s.data, updates := s.updates ++ [k] } where
  owner := h.owner_move (iff_of_true rfl ((h.owner t).mp (by rw [hp]; rfl))) fun _ _ ↦ Iff.rfl
  asleep u hu hgo := by
    refine ⟨t, k, point_move_self .., ?_⟩
    cases hbefore : m.go s.data with
    | false => exact m.wakes k s.data hbefore hgo
    | true =>
      obtain ⟨v, k', hv, -⟩ := h.asleep u (asleep_of_move (fun hf ↦ by cases hf) hu).2 hbefore
      obtain rfl := h.eq_of_holds (t := t) (by rw [hp]; rfl) (u := v) (by rw [hv]; rfl)
      rw [hp] at hv
      cases hv
  leaving u hu := m.stays k s.data (h.leaving_move (fun hf ↦ by cases hf) hu)
  passed u hu := m.stays k s.data (h.passed u hu)
  made u k' hu := by
    by_cases hut : u = t
    · subst hut
      have hself : (s.move u (.signalling k)).point u = .signalling k := point_move_self ..
      rcases hu with hu | hu
      · cases hself.symm.trans hu
        exact List.mem_append_right _ List.mem_cons_self
      · cases hself.symm.trans hu
    · have hother := point_move_of_ne (s := s) (.signalling k) hut
      exact List.mem_append_left _ (h.made u k' (hu.imp hother.symm.trans hother.symm.trans))
  data := by
    simp only [List.foldl_append, List.foldl_cons, List.foldl_nil]
    rw [← h.data]

theorem Inv.notify (h : m.Inv d s) {t : ι} {k : κ} (hp : s.point t = .signalling k) :
    m.Inv d (s.wakeAll.move t (.unlocking (some k))) where
  owner u := by
    by_cases hu : u = t
    · subst hu
      rw [point_move_self]
      exact iff_of_true rfl ((h.owner u).mp (by rw [hp]; rfl))
    · rw [point_move_of_ne _ hu]
      exact (Eq.congr_left (s.point u).holds_notified).trans (h.owner u)
  asleep u hu := absurd (asleep_of_move (fun hf ↦ by cases hf) hu).2 (s.point u).notified_ne_asleep
  leaving u hu := by
    by_cases hut : u = t
    · subst hut
      rw [point_move_self] at hu
      cases hu
    · rw [point_move_of_ne _ hut] at hu
      exact h.leaving u (Point.notified_eq_unlocking hu)
  passed := h.passed
  made u k' hu := by
    by_cases hut : u = t
    · subst hut
      rw [point_move_self] at hu
      rcases hu with hu | hu <;> cases hu
      exact h.made u k (.inl hp)
    · rw [point_move_of_ne _ hut] at hu
      exact h.made u k' (hu.imp Point.notified_eq_signalling Point.notified_eq_unlocking)
  data := h.data

theorem Inv.quiet (h : m.Inv d s) {t : ι} {k : κ} (hp : s.point t = .signalling k)
    (hk : m.signals k s.data = false) : m.Inv d (s.move t (.unlocking (some k))) where
  owner := h.owner_move (iff_of_true rfl ((h.owner t).mp (by rw [hp]; rfl))) fun _ _ ↦ Iff.rfl
  asleep u hu hgo := by
    obtain ⟨v, k', hv, hk'⟩ := h.asleep u (asleep_of_move (fun hf ↦ by cases hf) hu).2 hgo
    obtain rfl := h.eq_of_holds (t := t) (by rw [hp]; rfl) (u := v) (by rw [hv]; rfl)
    rw [hp] at hv
    cases hv
    rw [hk] at hk'
    cases hk'
  leaving u := h.leaving_move fun hf ↦ by cases hf
  passed := h.passed
  made := h.made_move fun k' hf ↦ by
    rcases hf with hf | hf <;> cases hf
    exact h.made t k (.inl hp)
  data := h.data

theorem Inv.unlock (h : m.Inv d s) {t : ι} {call : Option κ} (hp : s.point t = .unlocking call) : m.Inv d
    { s.move t .outside with
      owner := none
      passed := if call.isNone then Function.update s.passed t true else s.passed } where
  owner := h.owner_release (by rw [hp]; rfl) rfl
  asleep u := h.asleep_move (fun hf ↦ by cases hf) (fun k hk ↦ by rw [hp] at hk; cases hk)
  leaving u := h.leaving_move (fun hf ↦ by cases hf)
  passed u hu := by
    cases call with
    | some k => exact h.passed u hu
    | none =>
      by_cases hut : u = t
      · exact h.leaving t hp
      · refine h.passed u ?_
        simpa only [Option.isNone_none, if_true, Function.update_of_ne hut] using hu
  made := h.made_move (fun k hf ↦ by rcases hf with hf | hf <;> cases hf)
  data := h.data

theorem Transition.inv (ht : m.Transition s a s') (h : m.Inv d s) : m.Inv d s' := by
  cases ht with
  | call hp => exact h.call hp
  | spurious hp => exact h.spurious hp
  | @lock t call hp ho =>
    refine h.lock ho (Point.holds_entered call) ?_ fun k ↦ ?_
    · cases call <;> exact fun hf ↦ by cases hf
    · cases call <;> exact fun hf ↦ by rcases hf with hf | hf <;> cases hf
  | relock hp ho =>
    exact h.lock ho rfl (fun hf ↦ by cases hf) fun k hf ↦ by rcases hf with hf | hf <;> cases hf
  | leave hp hgo => exact h.leave hp hgo
  | sleep hp hgo => exact h.sleep hp hgo
  | update hp => exact h.update hp
  | notify hp hk => exact h.notify hp
  | quiet hp hk => exact h.quiet hp hk
  | unlock hp => exact h.unlock hp

theorem inCall_move {t : ι} {p : Point κ} (hp : p.inCall = (s.point t).inCall) (u : ι) :
    ((s.move t p).point u).inCall = (s.point u).inCall := by
  by_cases hu : u = t
  · subst hu
    rwa [point_move_self]
  · rw [point_move_of_ne p hu]

theorem Transition.inCall (ht : m.Transition s a s') (h : m.Inv d s) (ha : Continues a) (u : ι) :
    (s'.point u).inCall = (s.point u).inCall ∨
      s'.point u = .outside ∧ ((s.point u).inCall = some none → s'.passed u = true) ∧
        ∀ k, (s.point u).inCall = some (some k) → k ∈ s'.updates := by
  cases ht with
  | call hp => exact ha.elim
  | spurious hp => exact .inl (inCall_move (by rw [hp]; rfl) u)
  | @lock t call hp ho => exact .inl (inCall_move (by rw [hp]; exact Point.inCall_entered call) u)
  | relock hp ho => exact .inl (inCall_move (by rw [hp]; rfl) u)
  | leave hp hgo => exact .inl (inCall_move (by rw [hp]; rfl) u)
  | sleep hp hgo => exact .inl (inCall_move (by rw [hp]; rfl) u)
  | update hp => exact .inl (inCall_move (by rw [hp]; rfl) u)
  | @notify t k hp hk =>
    have hcall : (Point.unlocking (some k)).inCall = (s.wakeAll.point t).inCall :=
      (Eq.trans (by rw [hp]; rfl) (s.point t).inCall_notified.symm)
    exact .inl ((inCall_move hcall u).trans (s.point u).inCall_notified)
  | quiet hp hk => exact .inl (inCall_move (by rw [hp]; rfl) u)
  | @unlock t call hp =>
    by_cases hu : u = t
    · subst hu
      refine .inr ⟨point_move_self .., fun hcall ↦ ?_, fun k hcall ↦ ?_⟩
      · rw [hp] at hcall
        obtain rfl := Option.some.inj hcall
        exact Function.update_self ..
      · rw [hp] at hcall
        obtain rfl := Option.some.inj hcall
        exact h.made u k (.inr hp)
    · exact .inl (congrArg Point.inCall (point_move_of_ne _ hu))

theorem Transition.updates (ht : m.Transition s a s') :
    s'.updates = s.updates ∨ ∃ t k, (s.point t).inCall = some (some k) ∧ s'.updates = s.updates ++ [k] := by
  cases ht with
  | @update t k hp => exact .inr ⟨t, k, by rw [hp]; rfl, rfl⟩
  | call hp | spurious hp | lock hp ho | relock hp ho | leave hp _ | sleep hp _ | notify hp hk | quiet hp hk
  | unlock hp => exact .inl rfl

/-- Every interleaving keeps the invariant. -/
theorem run_inv {as : List (MonitorAction κ ι)} (hrun : Run (fun s a s' ↦ m.step s a = some s') s as s')
    (h : m.Inv d s) : m.Inv d s' :=
  hrun.invariant (I := m.Inv d) (fun _ _ _ hs hstep ↦ (transition_of_step hstep).inv hs) h

section Progress

variable [Fintype ι]

def work (s : MonitorState σ κ ι) : ℕ := ∑ t, (s.point t).rank

omit [DecidableEq ι] in
theorem work_le (s : MonitorState σ κ ι) : work s ≤ 4 * Fintype.card ι :=
  calc work s ≤ ∑ _t : ι, 4 := Finset.sum_le_sum fun t _ ↦ (s.point t).rank_le
    _ = 4 * Fintype.card ι := by rw [Finset.sum_const, Finset.card_univ, smul_eq_mul, Nat.mul_comm]

theorem work_move_lt {t : ι} {p : Point κ} {point : ι → Point κ} (hle : ∀ u, (point u).rank ≤ (s.point u).rank)
    (hp : p.rank < (s.point t).rank) : ∑ u, (Function.update point t p u).rank < work s := by
  refine Finset.sum_lt_sum (fun u _ ↦ ?_) ⟨t, Finset.mem_univ t, ?_⟩
  · by_cases hu : u = t
    · subst hu
      rw [Function.update_self]
      exact hp.le
    · rw [Function.update_of_ne hu]
      exact hle u
  · rw [Function.update_self]
    exact hp

theorem Transition.work_lt (ht : m.Transition s a s') (hgo : m.go s.data = true) (ha : Continues a) :
    work s' < work s := by
  cases ht with
  | call hp => exact ha.elim
  | spurious hp => exact work_move_lt (fun _ ↦ le_rfl) (by rw [hp]; simp only [Point.rank]; omega)
  | @lock t call hp ho => exact work_move_lt (fun _ ↦ le_rfl) (by rw [hp]; exact Point.rank_entered_lt call)
  | relock hp ho => exact work_move_lt (fun _ ↦ le_rfl) (by rw [hp]; simp only [Point.rank]; omega)
  | leave hp hgo => exact work_move_lt (fun _ ↦ le_rfl) (by rw [hp]; simp only [Point.rank]; omega)
  | sleep hp hgo' => exact absurd (hgo'.symm.trans hgo) Bool.false_ne_true
  | update hp => exact work_move_lt (fun _ ↦ le_rfl) (by rw [hp]; simp only [Point.rank]; omega)
  | notify hp hk =>
    exact work_move_lt (fun u ↦ (s.point u).rank_notified_le) (by rw [hp]; simp only [Point.rank]; omega)
  | quiet hp hk => exact work_move_lt (fun _ ↦ le_rfl) (by rw [hp]; simp only [Point.rank]; omega)
  | unlock hp => exact work_move_lt (fun _ ↦ le_rfl) (by rw [hp]; simp only [Point.rank]; omega)

end Progress

theorem Transition.go_data (ht : m.Transition s a s') (hgo : m.go s.data = true) :
    m.go s'.data = true := by
  cases ht with
  | @update t k hp => exact m.stays k s.data hgo
  | call hp | spurious hp | lock hp ho | relock hp ho | leave hp _ | sleep hp _ | notify hp hk | quiet hp hk
  | unlock hp => exact hgo

theorem Inv.stuck (h : m.Inv d s) (hstuck : ∀ t, m.step s (.step t) = none) (t : ι) :
    s.point t = .outside ∨ s.point t = .asleep ∧ m.go s.data = false := by
  have hfree : s.owner = none := by
    cases ho : s.owner with
    | none => rfl
    | some u =>
      have hholds := (h.owner u).mpr ho
      have hu := hstuck u
      cases hp : s.point u <;> rw [hp] at hholds <;> simp only [step, hp] at hu <;> cases hholds <;> cases hu
  have ht := hstuck t
  cases hp : s.point t with
  | outside => exact .inl rfl
  | asleep =>
    refine .inr ⟨rfl, Bool.eq_false_of_not_eq_true fun hgo ↦ ?_⟩
    obtain ⟨u, k, hu, -⟩ := h.asleep t hp hgo
    have hown := (h.owner u).mp (by rw [hu]; rfl)
    rw [hfree] at hown
    cases hown
  | locking call | waking =>
    simp only [step, hp, hfree, Option.isNone_none, if_true] at ht
    cases ht
  | testing | updating k | signalling k | unlocking call =>
    have hown := (h.owner t).mp (by rw [hp]; rfl)
    rw [hfree] at hown
    cases hown

theorem Inv.outside_of_stuck (h : m.Inv d s) (hgo : m.go s.data = true) (hstuck : ∀ t, m.step s (.step t) = none)
    (t : ι) : s.point t = .outside := by
  obtain hout | ⟨-, hwait⟩ := h.stuck hstuck t
  · exact hout
  · cases hwait.symm.trans hgo

/-- Once the data lets the threads go on, the calls that are under way take a bounded number of steps,
in any order, and when no step is left all of them have returned. -/
theorem Inv.calls_return [Fintype ι] (h : m.Inv d s) (hgo : m.go s.data = true) {as : List (MonitorAction κ ι)}
    (has : ∀ a ∈ as, Continues a) (hrun : Run (fun s a s' ↦ m.step s a = some s') s as s') :
    as.length + work s' ≤ work s ∧
      ((∀ t, m.step s' (.step t) = none) → ∀ t, s'.point t = .outside) := by
  induction hrun with
  | nil s => exact ⟨by simp, h.outside_of_stuck hgo⟩
  | @cons s s₁ s' a as hstep _ ih =>
    have ht := transition_of_step hstep
    have hlt := ht.work_lt hgo (has a List.mem_cons_self)
    obtain ⟨hlen, hend⟩ := ih (ht.inv h) (ht.go_data hgo) fun b hb ↦ has b (List.mem_cons_of_mem a hb)
    exact ⟨by rw [List.length_cons]; omega, hend⟩

end Monitor

end Baize.Lib
