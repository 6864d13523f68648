import Baize.Net.Sockets
import Baize.Runtime.Pending

namespace Baize.Net.Sockets

open Baize.Lib Baize.Runtime

variable {Task Park : Type} {polled : Park → Bool}

/-- Nothing is to be read, or its event is still on its way to the park. -/
def Attended (s : Sockets Task Park) (p : Park) : Prop :=
  s.unread p = 0 ∨ s.recorded p = true ∨ (Side.read, p) ∈ s.loop.phase.pending

/-- A routine in `WaitRead` of a polled park is in a reading call and known to the park. -/
structure Watched (s : Sockets Task Park) (r : RoutineId) (p : Park) : Prop where
  reading : ∃ c, s.reading r = some c ∧ c.park = p
  routine : s.loop.routine (.read, p) = some ⟨r, s.loop.waits r⟩
  attended : s.Attended p

structure Inv (polled : Park → Bool) (s : Sockets Task Park) : Prop where
  reader : ∀ r c, s.reading r = some c → s.reader c.park = some r
  blocked : ∀ r c, s.reading r = some c → c.stage = .blocked →
    s.loop.pool.current = some r ∧ (s.unread c.park = 0 ∨ s.recorded c.park = true)
  watched : ∀ r p timed, s.loop.wait r = some (.park .read p timed) → polled p = true → s.Watched r p

theorem Inv.unique {s : Sockets Task Park} (h : s.Inv polled) {r k : RoutineId} {c c' : ReadCall Park}
    (hr : s.reading r = some c) (hk : s.reading k = some c') (hpark : c.park = c'.park) : r = k :=
  Option.some.inj ((h.reader r c hr).symm.trans (hpark ▸ h.reader k c' hk))

theorem new_inv (counter n : ℕ) : (new Task Park counter n).Inv polled :=
  ⟨fun _ _ h ↦ (by cases h), fun _ _ h ↦ (by cases h), fun _ _ _ h ↦ (by cases h)⟩

theorem Inv.not_blocked {s : Sockets Task Park} (h : s.Inv polled) {r k : RoutineId}
    (hcur : s.loop.pool.current = some k) (hne : r ≠ k) {c : ReadCall Park} (hc : s.reading r = some c) :
    c.stage ≠ .blocked :=
  fun hstage ↦ hne (Option.some.inj ((h.blocked r c hc hstage).1.symm.trans hcur))

theorem Inv.setStage {s : Sockets Task Park} (h : s.Inv polled) {k : RoutineId} {c : ReadCall Park}
    (hcur : s.loop.pool.current = some k) (hc : s.reading k = some c) {stage : Stage}
    (hblocked : stage = .blocked → s.unread c.park = 0) : (s.setStage k c stage).Inv polled := by
  have hreading {r : RoutineId} (hr : r ≠ k) : (s.setStage k c stage).reading r = s.reading r :=
    Function.update_of_ne hr _ _
  have hself : (s.setStage k c stage).reading k = some { c with stage := stage } := Function.update_self k _ _
  refine ⟨fun r c' hc' ↦ ?_, fun r c' hc' hstage ↦ ?_, fun r p timed hwait hp ↦ ?_⟩
  · by_cases hr : r = k
    · subst hr
      obtain rfl := Option.some.inj (hself.symm.trans hc')
      exact h.reader r c hc
    · exact h.reader r c' ((hreading hr).symm.trans hc')
  · by_cases hr : r = k
    · subst hr
      obtain rfl := Option.some.inj (hself.symm.trans hc')
      exact ⟨hcur, .inl (hblocked hstage)⟩
    · exact absurd hstage (h.not_blocked hcur hr ((hreading hr).symm.trans hc'))
  · obtain ⟨⟨c', hc', hpark⟩, hroutine, hatt⟩ := h.watched r p timed hwait hp
    refine ⟨?_, hroutine, hatt⟩
    by_cases hr : r = k
    · subst hr
      obtain rfl := Option.some.inj (hc.symm.trans hc')
      exact ⟨_, hself, hpark⟩
    · exact ⟨c', (hreading hr).trans hc', hpark⟩

variable [DecidableEq Park]

theorem Inv.routine_eq {s : Sockets Task Park} (h : s.Inv polled) {a : Action Task Park}
    {loop : EventLoop Task Park} (ht : s.loop.Transition polled a loop) {r : RoutineId} {p : Park} {timed : Bool}
    (hcur : s.loop.pool.current ≠ some r) (hwait : loop.wait r = some (.park .read p timed))
    (hp : polled p = true) (ha : ∀ timed, a ≠ .waitOn .read p timed) :
    s.Watched r p ∧ loop.routine (.read, p) = some ⟨r, loop.waits r⟩ := by
  have hsame := ht.sameWait hcur (Option.isSome_of_eq_some hwait)
  have hw := h.watched r p timed (hsame.wait.symm.trans hwait) hp
  refine ⟨hw, ?_⟩
  have hkey : loop.routine (.read, p) = s.loop.routine (.read, p) := by
    refine ht.routine_eq (fun k timed' hk ↦ ?_) ha
    obtain ⟨c, hc, hpark⟩ := hw.reading
    obtain ⟨c', hc', hpark'⟩ := (h.watched k p timed' hk hp).reading
    rw [h.unique hc' hc (hpark'.trans hpark.symm), hwait]
    rfl
  rw [hkey, hw.routine, hsame.waits]

theorem Inv.loopStep {s : Sockets Task Park} (h : s.Inv polled) (hparked : s.loop.Parked) {a : Action Task Park}
    {loop : EventLoop Task Park} (ht : s.loop.Transition polled a loop) {k : RoutineId}
    (hcur : s.loop.pool.current = some k) {reading : RoutineId → Option (ReadCall Park)}
    (hother : ∀ r ≠ k, reading r = s.reading r)
    (hself : ∀ c, reading k = some c → c.stage ≠ .blocked ∧ s.reader c.park = some k)
    (hwaitOn : ∀ p timed, polled p = true → a = .waitOn .read p timed →
      (∃ c, reading k = some c ∧ c.park = p) ∧ s.Attended p) :
    Inv polled { s with loop := loop, reading := reading } := by
  refine ⟨fun r c hc ↦ ?_, fun r c hc hstage ↦ ?_, fun r p timed hwait hp ↦ ?_⟩
  · by_cases hr : r = k
    · subst hr
      exact (hself c hc).2
    · exact h.reader r c ((hother r hr).symm.trans hc)
  · by_cases hr : r = k
    · subst hr
      exact absurd hstage (hself c hc).1
    · exact absurd hstage (h.not_blocked hcur hr ((hother r hr).symm.trans hc))
  · by_cases hr : r = k
    · subst hr
      obtain ⟨-, ⟨side, p', timed', rfl, heq⟩ | ⟨-, heq⟩⟩ := ht.entered hparked hcur hwait
      · obtain ⟨rfl, rfl, rfl⟩ := Wait.park.inj heq
        obtain ⟨hreading, hatt⟩ := hwaitOn p timed hp rfl
        cases ht with
        | waitOn hk =>
          obtain rfl := Option.some.inj (hcur.symm.trans hk)
          refine ⟨hreading, ?_, hatt⟩
          simp only [EventLoop.waitOn, EventLoop.suspend, Function.update_self]
      · cases heq
    · have hcur' : s.loop.pool.current ≠ some r := fun hc ↦ hr (Option.some.inj (hc.symm.trans hcur))
      have hsame := ht.sameWait hcur' (Option.isSome_of_eq_some hwait)
      obtain ⟨c, hc, hpark⟩ := (h.watched r p timed (hsame.wait.symm.trans hwait) hp).reading
      obtain ⟨hw, hroutine⟩ := h.routine_eq ht hcur' hwait hp fun timed' ha ↦ by
        obtain ⟨⟨c', hc', hpark'⟩, -⟩ := hwaitOn p timed' hp ha
        have hreader := hpark' ▸ (hself c' hc').2
        exact hr (Option.some.inj ((hpark ▸ h.reader r c hc).symm.trans hreader))
      have hatt := hw.attended
      rw [Attended, ← ht.phase_eq hcur] at hatt
      exact ⟨⟨c, (hother r hr).trans hc, hpark⟩, hroutine, hatt⟩

theorem Inv.leave {s : Sockets Task Park} (h : s.Inv polled) (hparked : s.loop.Parked) {k : RoutineId}
    {c : ReadCall Park} (hcur : s.loop.pool.current = some k) (hc : s.reading k = some c) :
    (s.leave k c).Inv polled := by
  have hother {r : RoutineId} {c' : ReadCall Park} (hc' : (s.leave k c).reading r = some c') :
      r ≠ k ∧ s.reading r = some c' := by
    simp only [Sockets.leave, Function.update_apply] at hc'
    split_ifs at hc' with hr
    exact ⟨hr, hc'⟩
  refine ⟨fun r c' hc' ↦ ?_, fun r c' hc' hstage ↦ ?_, fun r p timed hwait hp ↦ ?_⟩
  · obtain ⟨hr, hc'⟩ := hother hc'
    have hne : c'.park ≠ c.park := fun heq ↦ hr (h.unique hc' hc heq)
    exact (Function.update_of_ne hne _ _).trans (h.reader r c' hc')
  · obtain ⟨hr, hc'⟩ := hother hc'
    exact h.blocked r c' hc' hstage
  · obtain ⟨⟨c', hc', hpark⟩, hroutine, hatt⟩ := h.watched r p timed hwait hp
    have hr : r ≠ k := hparked.ne_current hcur (Option.isSome_of_eq_some hwait)
    exact ⟨⟨c', (Function.update_of_ne hr _ _).trans hc', hpark⟩, hroutine, hatt⟩

theorem Inv.consume {s : Sockets Task Park} (h : s.Inv polled) (p : Park) (n : ℕ) :
    Inv polled { s with unread := Function.update s.unread p (s.unread p - n) } := by
  have hzero {q : Park} (hq : s.unread q = 0) : Function.update s.unread p (s.unread p - n) q = 0 := by
    by_cases hqp : q = p
    · subst hqp
      rw [Function.update_self, hq, Nat.zero_sub]
    · rwa [Function.update_of_ne hqp]
  refine ⟨h.reader, fun r c hc hstage ↦ ?_, fun r q timed hwait hq ↦ ?_⟩
  · obtain ⟨hcur, hatt⟩ := h.blocked r c hc hstage
    exact ⟨hcur, hatt.imp hzero id⟩
  · obtain ⟨hreading, hroutine, hatt⟩ := h.watched r q timed hwait hq
    exact ⟨hreading, hroutine, hatt.imp hzero id⟩

theorem Inv.arrive {s : Sockets Task Park} (h : s.Inv polled) (p : Park) (n : ℕ) :
    (s.arrive p n).Inv polled := by
  have hatt (q : Park) : q ≠ p → (s.arrive p n).unread q = s.unread q ∧
      (s.arrive p n).recorded q = s.recorded q :=
    fun hq ↦ ⟨Function.update_of_ne hq _ _, Function.update_of_ne hq _ _⟩
  have hself : (s.arrive p n).recorded p = true := Function.update_self p _ _
  refine ⟨h.reader, fun r c hc hstage ↦ ?_, fun r q timed hwait hq ↦ ?_⟩
  · obtain ⟨hcur, hblocked⟩ := h.blocked r c hc hstage
    refine ⟨hcur, ?_⟩
    by_cases hp : c.park = p
    · exact .inr (hp ▸ hself)
    · rwa [(hatt _ hp).1, (hatt _ hp).2]
  · obtain ⟨hreading, hroutine, hattended⟩ := h.watched r q timed hwait hq
    refine ⟨hreading, hroutine, ?_⟩
    by_cases hp : q = p
    · exact .inr (.inl (hp ▸ hself))
    · rwa [Attended, (hatt _ hp).1, (hatt _ hp).2]

theorem Inv.enter {s : Sockets Task Park} (h : s.Inv polled) {k : RoutineId} {op : ReadOp} {p : Park}
    {timed : Bool} (hcur : s.loop.pool.current = some k) (hreading : s.reading k = none)
    (hreader : s.reader p = none) :
    Inv polled { s with
      reading := Function.update s.reading k (some ⟨op, p, timed, .top⟩)
      reader := Function.update s.reader p (some k) } := by
  refine ⟨fun r c hc ↦ ?_, fun r c hc hstage ↦ ?_, fun r q timed' hwait hq ↦ ?_⟩
  · by_cases hr : r = k
    · subst hr
      simp only [Function.update_self, Option.some.injEq] at hc
      subst hc
      exact Function.update_self p _ _
    · simp only [Function.update_of_ne hr] at hc
      have hne : c.park ≠ p := fun heq ↦ by cases hreader.symm.trans (heq ▸ h.reader r c hc)
      exact (Function.update_of_ne hne _ _).trans (h.reader r c hc)
  · by_cases hr : r = k
    · subst hr
      simp only [Function.update_self, Option.some.injEq] at hc
      subst hc
      cases hstage
    · simp only [Function.update_of_ne hr] at hc
      exact absurd hstage (h.not_blocked hcur hr hc)
  · obtain ⟨⟨c, hc, hpark⟩, hroutine, hatt⟩ := h.watched r q timed' hwait hq
    have hr : r ≠ k := fun heq ↦ by cases hreading.symm.trans (heq ▸ hc)
    exact ⟨⟨c, (Function.update_of_ne hr _ _).trans hc, hpark⟩, hroutine, hatt⟩

theorem recordedAfter_cases {s : Sockets Task Park} {a : Action Task Park} {loop : EventLoop Task Park}
    (ht : s.loop.Transition polled a loop) {p : Park} (hp : s.recorded p = true) :
    s.recordedAfter a p = true ∨ (Side.read, p) ∈ loop.phase.pending := by
  cases ht with
  | @poll events hcur hphase hbatch hall =>
    cases hrep : events.any fun e ↦ e.1 = p ∧ Side.read ∈ scheduled e.2 with
    | false =>
      refine .inl ?_
      simp only [recordedAfter, hp, hrep, Bool.not_false, Bool.and_self]
    | true =>
      obtain ⟨e, he, hdec⟩ := List.any_eq_true.mp hrep
      obtain ⟨rfl, hside⟩ := of_decide_eq_true hdec
      exact .inr (List.mem_flatMap.mpr ⟨e, he, List.mem_map.mpr ⟨.read, hside, rfl⟩⟩)
  | _ => exact .inl hp

theorem Inv.main {s : Sockets Task Park} (h : s.Inv polled) {a : Action Task Park} {loop : EventLoop Task Park}
    (hcur : s.loop.pool.current = none) (ht : s.loop.Transition polled a loop) :
    Inv polled { s with loop := loop, recorded := s.recordedAfter a } := by
  refine ⟨h.reader, fun r c hc hstage ↦ ?_, fun r p timed hwait hp ↦ ?_⟩
  · cases hcur.symm.trans (h.blocked r c hc hstage).1
  · have hr : s.loop.pool.current ≠ some r := fun hc ↦ by cases hcur.symm.trans hc
    obtain ⟨hw, hroutine⟩ := h.routine_eq ht hr hwait hp fun timed' ha ↦ by
      subst ha
      cases ht with
      | waitOn hk => cases hcur.symm.trans hk
    refine ⟨hw.reading, hroutine, ?_⟩
    obtain hzero | hrec | hpending := hw.attended
    · exact .inl hzero
    · exact .inr (recordedAfter_cases ht hrec)
    · exact .inr (.inr (ht.pending hpending hw.routine (Option.isSome_of_eq_some hwait)))

theorem Transition.inv {s s' : Sockets Task Park} {a : SocketAction Task Park} (ht : Transition polled s a s')
    (h : s.Inv polled) (hparked : s.loop.Parked) : s'.Inv polled := by
  cases ht with
  | arrive => exact h.arrive _ _
  | main hcur hloop => exact h.main hcur hloop
  | enter hcur hreading hreader => exact h.enter hcur hreading hreader
  | other hcur hasks hreading hloop =>
    refine h.loopStep hparked hloop hcur (fun _ _ ↦ rfl) (fun c hc ↦ ?_) (fun p timed hp ha ↦ ?_)
    · cases hreading.symm.trans hc
    · subst ha
      simp only [otherAsks, hp, Bool.not_true, Bool.false_eq_true] at hasks
  | @checkTicks k c loop hcur hc hloop =>
    refine h.loopStep hparked hloop hcur (fun r hr ↦ Function.update_of_ne hr _ _) (fun c' hc' ↦ ?_)
      (fun p timed hp ha ↦ by cases ha)
    obtain rfl := Option.some.inj ((Function.update_self k _ _).symm.trans hc')
    exact ⟨fun heq ↦ (by cases heq), h.reader k c hc⟩
  | interrupted hcur hc => exact h.setStage hcur hc fun heq ↦ by cases heq
  | again hcur hc hempty => exact h.setStage hcur hc fun _ ↦ hempty
  | returned hcur hc => exact (h.leave hparked hcur hc).consume _ _
  | @waitRead k c loop hcur hc hstage hloop =>
    refine h.loopStep hparked hloop hcur (fun r hr ↦ Function.update_of_ne hr _ _) (fun c' hc' ↦ ?_)
      (fun p timed hp ha ↦ ?_)
    · obtain rfl := Option.some.inj ((Function.update_self k _ _).symm.trans hc')
      exact ⟨fun heq ↦ (by cases heq), h.reader k c hc⟩
    · obtain ⟨-, rfl, -⟩ := Action.waitOn.inj ha
      exact ⟨⟨_, Function.update_self k _ _, rfl⟩, (h.blocked k c hc hstage).2.imp_right .inl⟩
  | timedOut hcur hc => exact h.leave hparked hcur hc
  | woken hcur hc => exact h.setStage hcur hc fun heq ↦ by cases heq

theorem Transition.loop_cases {s s' : Sockets Task Park} {a : SocketAction Task Park}
    (ht : Transition polled s a s') : s'.loop = s.loop ∨ ∃ b, s.loop.Transition polled b s'.loop := by
  cases ht with
  | main _ hloop => exact .inr ⟨_, hloop⟩
  | other _ _ _ hloop => exact .inr ⟨_, hloop⟩
  | checkTicks _ _ hloop => exact .inr ⟨_, hloop⟩
  | waitRead _ _ _ hloop => exact .inr ⟨_, hloop⟩
  | _ => exact .inl rfl

/-- In every run: what there is to read for a routine in `WaitRead` is announced by an event. -/
theorem run_inv {counter n : ℕ} {as : List (SocketAction Task Park)} {s : Sockets Task Park}
    (hrun : Run (fun s a s' ↦ s.step polled a = some s') (new Task Park counter n) as s) : s.Inv polled := by
  refine (hrun.invariant (I := fun s ↦ (s.loop.pool.fault = none → s.loop.Parked) ∧ s.Inv polled)
    (fun s a s' h hstep ↦ ?_) ⟨fun _ ↦ EventLoop.new_parked counter n, new_inv counter n⟩).2
  obtain ⟨hfault, ht⟩ := transition_of_step hstep
  have hparked := h.1 hfault
  refine ⟨fun hok ↦ ?_, ht.inv h.2 hparked⟩
  obtain heq | ⟨b, hloop⟩ := ht.loop_cases
  · rwa [heq]
  · exact hloop.parked hparked hok

end Baize.Net.Sockets
