import Baize.Webrtc.Ownership

namespace Baize.Webrtc

open Baize.Lib Baize.Runtime

variable {Packet : Type}

def ServerAction.received (pc : ℕ) : ServerAction Packet → List Packet
  | .recv i packet => if i = pc then [packet] else []
  | _ => []

def Media.inHand : Media Packet → List Packet
  | .processing packets => packets
  | _ => []

namespace MediaServer

/-- The timer of a routine expires only while no packet waits for its `PeerConnection`. -/
def TimesOutEmpty (s : MediaServer Packet) (a : ServerAction Packet) : Prop :=
  ∀ r pc, a = .main (.expire r) → s.loop.pool.func r = some (.handleMedia pc) → s.packets pc = []

def timesOutEmpty (s : MediaServer Packet) : ServerAction Packet → Bool
  | .main (.expire r) =>
    match s.loop.pool.func r with
    | some (.handleMedia pc) => (s.packets pc).isEmpty
    | _ => true
  | _ => true

theorem timesOutEmpty_iff (s : MediaServer Packet) (a : ServerAction Packet) :
    s.timesOutEmpty a = true ↔ s.TimesOutEmpty a := by
  unfold timesOutEmpty
  split
  · next r =>
    split
    · next pc hfunc =>
      refine ⟨fun h k pc' ha hk ↦ ?_, fun h ↦ List.isEmpty_iff.mpr (h r pc rfl hfunc)⟩
      cases ha
      cases hfunc.symm.trans hk
      exact List.isEmpty_iff.mp h
    · next hfunc =>
      refine iff_of_true rfl fun k pc ha hk ↦ ?_
      cases ha
      exact absurd hk (hfunc pc)
  · next hne => exact iff_of_true rfl fun k pc ha _ ↦ absurd ha (hne k)

instance (s : MediaServer Packet) (a : ServerAction Packet) : Decidable (s.TimesOutEmpty a) :=
  decidable_of_iff _ (timesOutEmpty_iff s a)

def logged (s : MediaServer Packet) (a : ServerAction Packet) (log : ℕ → List (Packet × Bool)) :
    ℕ → List (Packet × Bool) :=
  match s.running, a with
  | some (_, .handleMedia pc), .processPacket ok =>
    match s.media pc with
    | .processing (packet :: _) => Function.update log pc (log pc ++ [(packet, ok)])
    | _ => log
  | _, _ => log

def stepLogged (s : MediaServer Packet × (ℕ → List (Packet × Bool))) (a : ServerAction Packet) :
    Option (MediaServer Packet × (ℕ → List (Packet × Bool))) :=
  (s.1.step a).map (·, logged s.1 a s.2)

def TimeoutsEmpty (s : MediaServer Packet) : Prop :=
  ∀ r pc, s.running = some (r, .handleMedia pc) → s.media pc = .waiting → s.loop.timeout r = true →
    s.packets pc = []

/-- The packets of a connection are processed in the order in which they came: all of them, or those
up to one that was rejected. -/
def Delivered (received : List Packet) (log : List (Packet × Bool)) : Media Packet → List Packet → Prop
  | .deleted, _ => log.map Prod.fst <+: received ∧ (log.map Prod.fst = received ∨ ∃ e ∈ log, e.2 = false)
  | m, packets => log.map Prod.fst ++ m.inHand ++ packets = received ∧ ∀ e ∈ log, e.2 = true

theorem own_media_ne {s : MediaServer Packet} {k r : RoutineId} {pc' pc : ℕ} {m : Media Packet}
    (hrun : s.running = some (k, .handleMedia pc')) (hcur : s.loop.pool.current = some r)
    (hfunc : s.loop.pool.func r = some (.handleMedia pc)) (hm : m ≠ .waiting) :
    Function.update s.media pc' m pc ≠ .waiting := by
  obtain ⟨hcur', hfunc'⟩ := running_eq_some hrun
  obtain rfl := Option.some.inj (hcur.symm.trans hcur')
  cases hfunc.symm.trans hfunc'
  rwa [Function.update_self]

theorem Owned.closed_media_ne {s : MediaServer Packet} (h : s.Owned) {k r : RoutineId} {pc' pc : ℕ}
    (hrun : s.running = some (k, .handleMedia pc')) {loop : EventLoop ServerTask ServerPark}
    (hloop : s.loop.step ServerPark.polled .finish = some loop) (hok : loop.pool.fault = none)
    (hcur' : loop.pool.current = some r) (hfunc' : loop.pool.func r = some (.handleMedia pc))
    (htimeout : loop.timeout r = true) : Function.update s.media pc' .deleted pc ≠ .waiting := by
  obtain ⟨hcur, hfunc⟩ := running_eq_some hrun
  obtain ⟨hk, hheld⟩ | ⟨-, hexpire⟩ | ⟨hpending, hreading⟩ :=
    h.control (EventLoop.transition_of_step hloop) hok (fun _ _ ha ↦ by cases ha) hcur' hfunc'
  · obtain rfl := Option.some.inj (hcur.symm.trans hk)
    cases (board_func hfunc).symm.trans hheld
    rw [Function.update_self]
    exact fun heq ↦ by cases heq
  · cases hexpire htimeout
  · have hne : pc ≠ pc' := fun heq ↦ h.exclusive.apart pc hpending k (heq ▸ board_func hfunc)
    rw [Function.update_of_ne hne, hreading]
    exact fun heq ↦ by cases heq

theorem Transition.timeoutsEmpty {s s' : MediaServer Packet} {a : ServerAction Packet} (ht : Transition s a s')
    (h : s.Owned) (hempty : s.TimesOutEmpty a) (hok : s'.loop.pool.fault = none) : s'.TimeoutsEmpty := by
  have hparked := (ht.owned h hok).parked
  intro r pc hrun' hwaiting htimeout
  obtain ⟨hcur', hfunc'⟩ := running_eq_some hrun'
  cases ht with
  | main hrun hasks hloop =>
    obtain ⟨hcur, -⟩ | ⟨hheld, hexpire⟩ | ⟨-, hreading⟩ :=
      h.control (EventLoop.transition_of_step hloop) hok (mainAsks_cases hasks).1 hcur' hfunc'
    · cases (current_eq_none h.parked hrun).symm.trans hcur
    · exact hempty r pc (congrArg _ (hexpire htimeout)) (board_func_iff.mp hheld)
    · cases hreading.symm.trans hwaiting
  | @routine k task b _ hrun hasks hloop =>
    obtain ⟨htask, hsubmit, -⟩ := asks_cases hasks
    obtain ⟨hcur, hfunc⟩ := running_eq_some hrun
    obtain ⟨hk, hheld⟩ | ⟨-, hexpire⟩ | ⟨-, hreading⟩ :=
      h.control (EventLoop.transition_of_step hloop) hok hsubmit hcur' hfunc'
    · obtain rfl := Option.some.inj (hcur.symm.trans hk)
      cases (board_func hfunc ▸ htask).symm.trans hheld
    · obtain rfl := hexpire htimeout
      cases task <;> cases hasks
    · cases hreading.symm.trans hwaiting
  | publish hrun _ hloop =>
    obtain ⟨hcur, hfunc⟩ := running_eq_some hrun
    cases EventLoop.transition_of_step hloop with
    | submit hnone => cases hnone.symm.trans hcur
    | defer =>
      obtain rfl := Option.some.inj (hcur.symm.trans hcur')
      cases hfunc.symm.trans hfunc'
  | recv hrun _ _ hloop =>
    obtain ⟨hcur, hfunc⟩ := running_eq_some hrun
    obtain ⟨hk, hheld⟩ | ⟨-, hexpire⟩ | ⟨-, hreading⟩ :=
      h.control (EventLoop.transition_of_step hloop) hok (fun _ _ ha ↦ by cases ha) hcur' hfunc'
    · obtain rfl := Option.some.inj (hcur.symm.trans hk)
      cases (board_func hfunc).symm.trans hheld
    · cases hexpire htimeout
    · cases hreading.symm.trans hwaiting
  | @wait k pc' _ hrun _ _ hloop =>
    obtain ⟨hcur, hfunc⟩ := running_eq_some hrun
    obtain ⟨hk, hheld⟩ | ⟨-, hexpire⟩ | ⟨hpending, hreading⟩ :=
      h.control (EventLoop.transition_of_step hloop) hok (fun _ _ ha ↦ by cases ha) hcur' hfunc'
    · obtain rfl := Option.some.inj (hcur.symm.trans hk)
      cases EventLoop.transition_of_step hloop with
      | waitOn hk' =>
        obtain rfl := Option.some.inj (hcur.symm.trans hk')
        refine absurd rfl (hparked.ne_current hcur' ?_)
        simp only [EventLoop.waitOn, EventLoop.suspend, Function.update_self, Option.isSome_some]
    · cases hexpire htimeout
    · have hne : pc ≠ pc' := fun heq ↦ h.exclusive.apart pc hpending k (heq ▸ board_func hfunc)
      cases hreading.symm.trans ((Function.update_of_ne hne _ _).symm.trans hwaiting)
  | read hrun => exact absurd hwaiting (own_media_ne hrun hcur' hfunc' fun heq ↦ by cases heq)
  | woken hrun => exact absurd hwaiting (own_media_ne hrun hcur' hfunc' fun heq ↦ by cases heq)
  | processed hrun => exact absurd hwaiting (own_media_ne hrun hcur' hfunc' fun heq ↦ by cases heq)
  | process hrun => exact absurd hwaiting (own_media_ne hrun hcur' hfunc' fun heq ↦ by cases heq)
  | timedOut hrun _ _ hloop => exact absurd hwaiting (h.closed_media_ne hrun hloop hok hcur' hfunc' htimeout)
  | failed hrun _ hloop => exact absurd hwaiting (h.closed_media_ne hrun hloop hok hcur' hfunc' htimeout)

theorem delivered_iff {received : List Packet} {log : List (Packet × Bool)} {m : Media Packet}
    {packets : List Packet} (hm : m ≠ .deleted) : Delivered received log m packets ↔
      log.map Prod.fst ++ m.inHand ++ packets = received ∧ ∀ e ∈ log, e.2 = true := by
  cases m with
  | deleted => exact absurd rfl hm
  | _ => rfl

theorem Delivered.move {received : List Packet} {log : List (Packet × Bool)} {m m' : Media Packet}
    {packets packets' : List Packet} (h : Delivered received log m packets) (hm : m ≠ .deleted)
    (hm' : m' ≠ .deleted) (heq : m'.inHand ++ packets' = m.inHand ++ packets) :
    Delivered received log m' packets' := by
  obtain ⟨hrec, hlog⟩ := (delivered_iff hm).mp h
  refine (delivered_iff hm').mpr ⟨?_, hlog⟩
  rw [List.append_assoc, heq, ← List.append_assoc, hrec]

theorem Delivered.recv {received : List Packet} {log : List (Packet × Bool)} {m : Media Packet}
    {packets : List Packet} (h : Delivered received log m packets) (hm : m ≠ .deleted) (packet : Packet) :
    Delivered (received ++ [packet]) log m (packets ++ [packet]) := by
  obtain ⟨hrec, hlog⟩ := (delivered_iff hm).mp h
  exact (delivered_iff hm).mpr ⟨by rw [← List.append_assoc, hrec], hlog⟩

theorem Delivered.process {received : List Packet} {log : List (Packet × Bool)} {packet : Packet}
    {l packets : List Packet} (h : Delivered received log (.processing (packet :: l)) packets) :
    Delivered received (log ++ [(packet, true)]) (.processing l) packets := by
  obtain ⟨hrec, hlog⟩ := h
  refine ⟨?_, fun e he ↦ ?_⟩
  · rw [← hrec, List.map_append]
    simp only [List.map_cons, List.map_nil, Media.inHand, List.append_assoc, List.cons_append, List.nil_append]
  · rcases List.mem_append.mp he with he | he
    · exact hlog e he
    · rw [List.mem_singleton.mp he]

theorem Delivered.failed {received : List Packet} {log : List (Packet × Bool)} {packet : Packet}
    {l packets : List Packet} (h : Delivered received log (.processing (packet :: l)) packets)
    (packets' : List Packet) : Delivered received (log ++ [(packet, false)]) .deleted packets' := by
  refine ⟨⟨l ++ packets, ?_⟩, .inr ⟨(packet, false), List.mem_append_right _ List.mem_cons_self, rfl⟩⟩
  rw [← h.1, List.map_append]
  simp only [List.map_cons, List.map_nil, Media.inHand, List.append_assoc, List.cons_append, List.nil_append]

theorem Delivered.timedOut {received : List Packet} {log : List (Packet × Bool)}
    (h : Delivered received log .waiting []) (packets : List Packet) :
    Delivered received log .deleted packets := by
  have heq : log.map Prod.fst = received := by
    rw [← h.1]
    simp only [Media.inHand, List.append_nil]
  exact ⟨heq ▸ List.prefix_rfl, .inl heq⟩

theorem logged_of_not_process {s : MediaServer Packet} {a : ServerAction Packet}
    (h : ∀ ok, a ≠ .processPacket ok) (log : ℕ → List (Packet × Bool)) : s.logged a log = log := by
  unfold logged
  split
  · exact absurd rfl (h _)
  · rfl

theorem delivered_update {received : ℕ → List Packet} {log : ℕ → List (Packet × Bool)} {media : ℕ → Media Packet}
    {packets : ℕ → List Packet} (h : ∀ pc, Delivered (received pc) (log pc) (media pc) (packets pc)) {pc' : ℕ}
    {l : List (Packet × Bool)} {m : Media Packet} {q : List Packet}
    (hd : Delivered (received pc') l m q) (pc : ℕ) :
    Delivered (received pc) (Function.update log pc' l pc) (Function.update media pc' m pc)
      (Function.update packets pc' q pc) := by
  by_cases hpc : pc = pc'
  · simp only [hpc, Function.update_self]
    exact hd
  · simp only [Function.update_of_ne hpc]
    exact h pc

theorem Transition.delivered {s s' : MediaServer Packet} {a : ServerAction Packet} (ht : Transition s a s')
    (hempty : s.TimeoutsEmpty) {received : ℕ → List Packet} {log : ℕ → List (Packet × Bool)}
    (h : ∀ pc, Delivered (received pc) (log pc) (s.media pc) (s.packets pc)) (pc : ℕ) :
    Delivered (received pc ++ a.received pc) (s.logged a log pc) (s'.media pc) (s'.packets pc) := by
  have hsilent {l : List (Packet × Bool)} {m : Media Packet} {q : List Packet} (ha : a.received pc = [])
      (hd : Delivered (received pc) l m q) : Delivered (received pc ++ a.received pc) l m q := by
    rwa [ha, List.append_nil]
  have hlog (ha : ∀ ok, a ≠ .processPacket ok) : s.logged a log = log := logged_of_not_process ha log
  have hmove (pc' : ℕ) (m : Media Packet) (q : List Packet) (hl : s.logged a log = log) (ha : a.received pc = [])
      (hold : s.media pc' ≠ .deleted) (hm : m ≠ .deleted)
      (heq : m.inHand ++ q = (s.media pc').inHand ++ s.packets pc') :
      Delivered (received pc ++ a.received pc) (s.logged a log pc) (Function.update s.media pc' m pc)
        (Function.update s.packets pc' q pc) := by
    have hd := hsilent ha (delivered_update h ((h pc').move hold hm heq) pc)
    rwa [Function.update_eq_self, ← hl] at hd
  cases ht with
  | main =>
    rw [hlog fun _ heq ↦ by cases heq]
    exact hsilent rfl (h pc)
  | routine =>
    rw [hlog fun _ heq ↦ by cases heq]
    exact hsilent rfl (h pc)
  | @publish r i pc' loop hrun hmedia =>
    have hd := hmove pc' .reading (s.packets pc') (hlog fun _ heq ↦ by cases heq) rfl (by simp [hmedia])
      (fun heq ↦ by cases heq) (by rw [hmedia]; rfl)
    rwa [Function.update_eq_self] at hd
  | @recv r pc' packet loop hrun habsent hdeleted =>
    rw [hlog fun _ heq ↦ by cases heq]
    simp only [ServerAction.received, Function.update_apply]
    by_cases hpc : pc = pc'
    · rw [if_pos hpc.symm, if_pos hpc, hpc]
      exact (h pc').recv hdeleted packet
    · rw [if_neg (Ne.symm hpc), if_neg hpc, List.append_nil]
      exact h pc
  | @wait r pc' loop hrun hmedia =>
    have hd := hmove pc' .waiting (s.packets pc') (hlog fun _ heq ↦ by cases heq) rfl (by simp [hmedia])
      (fun heq ↦ by cases heq) (by rw [hmedia]; rfl)
    rwa [Function.update_eq_self] at hd
  | @read r pc' hrun hmedia =>
    exact hmove pc' (.processing (s.packets pc')) [] (hlog fun _ heq ↦ by cases heq) rfl (by simp [hmedia])
      (fun heq ↦ by cases heq) (by rw [hmedia]; exact List.append_nil _)
  | @woken r pc' hrun hmedia =>
    exact hmove pc' (.processing (s.packets pc')) [] (hlog fun _ heq ↦ by cases heq) rfl (by simp [hmedia])
      (fun heq ↦ by cases heq) (by rw [hmedia]; exact List.append_nil _)
  | @timedOut r pc' loop hrun hmedia htimeout =>
    rw [hlog fun _ heq ↦ by cases heq]
    have hd : Delivered (received pc') (log pc') .waiting [] := by
      have hpc' := h pc'
      rwa [hmedia, hempty r pc' hrun hmedia htimeout] at hpc'
    simpa only [Function.update_eq_self] using hsilent rfl (delivered_update h (hd.timedOut []) pc)
  | @processed r pc' ok hrun hmedia =>
    have hsame : s.logged (.processPacket ok) log = log := by simp only [logged, hrun, hmedia]
    have hd := hmove pc' .reading (s.packets pc') hsame rfl (by simp [hmedia]) (fun heq ↦ by cases heq)
      (by rw [hmedia]; rfl)
    rwa [Function.update_eq_self] at hd
  | @process r pc' packet packets hrun hmedia =>
    have hd : Delivered (received pc') (log pc' ++ [(packet, true)]) (.processing packets) (s.packets pc') :=
      Delivered.process (hmedia ▸ h pc')
    have hnew : s.logged (.processPacket true) log =
        Function.update log pc' (log pc' ++ [(packet, true)]) := by simp only [logged, hrun, hmedia]
    rw [hnew]
    simpa only [Function.update_eq_self] using hsilent rfl (delivered_update h hd pc)
  | @failed r pc' packet packets loop hrun hmedia =>
    have hd : Delivered (received pc') (log pc' ++ [(packet, false)]) .deleted (s.packets pc') :=
      Delivered.failed (hmedia ▸ h pc') _
    have hnew : s.logged (.processPacket false) log =
        Function.update log pc' (log pc' ++ [(packet, false)]) := by simp only [logged, hrun, hmedia]
    rw [hnew]
    simpa only [Function.update_eq_self] using hsilent rfl (delivered_update h hd pc)

structure Recorded (as : List (ServerAction Packet)) (s : MediaServer Packet × (ℕ → List (Packet × Bool))) :
    Prop where
  reached : s.1.Reached
  timeouts : s.1.TimeoutsEmpty
  delivered : ∀ pc, Delivered (as.flatMap (·.received pc)) (s.2 pc) (s.1.media pc) (s.1.packets pc)

theorem step_recorded {as : List (ServerAction Packet)} {s s' : MediaServer Packet × (ℕ → List (Packet × Bool))}
    {a : ServerAction Packet} (h : Recorded as s)
    (hstep : Guarded stepLogged (fun s a ↦ s.1.TimesOutEmpty a) s a s') : Recorded (as ++ [a]) s' := by
  obtain ⟨hempty, hs⟩ := hstep
  obtain ⟨s₁, hs₁, rfl⟩ := Option.map_eq_some_iff.mp hs
  have ht := transition_of_step hs₁
  have howned := ht.owned_of_reached h.reached
  have hreached := step_reached h.reached hs₁
  refine ⟨hreached, ?_, fun pc ↦ ?_⟩
  · rcases hreached with hok | ⟨-, hrun⟩
    · exact ht.timeoutsEmpty howned hempty hok.parked.pool.fault
    · exact fun r pc hsome ↦ by cases hrun.symm.trans hsome
  · rw [List.flatMap_append, List.flatMap_singleton]
    exact ht.delivered h.timeouts h.delivered pc

/-- In the runs in which no timer expires while packets wait for its `PeerConnection`: `AsyncRead`
returns no packets with a timeout, and `ProcessPacket` gets each packet once and in their order. -/
theorem run_delivers {counter n : ℕ} {as : List (ServerAction Packet)} {s : MediaServer Packet}
    {log : ℕ → List (Packet × Bool)}
    (hrun : Run (Guarded stepLogged fun s a ↦ s.1.TimesOutEmpty a)
      (new Packet counter n, fun _ ↦ []) as (s, log)) :
    (∀ r pc, s.running = some (r, .handleMedia pc) → s.media pc = .waiting → s.loop.timeout r = true →
      s.packets pc = []) ∧
    ∀ pc, Delivered (as.flatMap (·.received pc)) (log pc) (s.media pc) (s.packets pc) := by
  have hnew : Recorded [] (new Packet counter n, fun _ ↦ ([] : List (Packet × Bool))) :=
    ⟨.inl (new_owned counter n), fun _ _ h ↦ (by cases h), fun _ ↦ ⟨rfl, fun _ h ↦ (by cases h)⟩⟩
  have h := hrun.invariant_history (I := Recorded) (fun a ↦ [a]) (fun _ _ _ _ ↦ step_recorded) hnew
  rw [List.flatMap_singleton', List.nil_append] at h
  exact ⟨h.timeouts, h.delivered⟩

def servedPeer : List (ServerAction Bytes) :=
  waitingPeer ++ [.main .nextTurn, .main .runFunction, .woken, .processPacket true, .processPacket true,
    .asyncRead, .main (.poll []), .main .turnWheel, .main (.expire 4), .woken]

theorem run_delivers_servedPeer :
    ∃ s log, Run (Guarded stepLogged fun s a ↦ s.1.TimesOutEmpty a) (new Bytes 1 10, fun _ ↦ [])
        servedPeer (s, log) ∧ s.media 0 = .deleted ∧ log 0 = [([0, 1], true)] ∧
      Delivered [[0, 1]] (log 0) (s.media 0) (s.packets 0) := by
  obtain ⟨⟨s, log⟩, hrun, hs⟩ : ∃ s, Run (Guarded stepLogged fun s a ↦ s.1.TimesOutEmpty a)
      (new Bytes 1 10, fun _ ↦ []) servedPeer s ∧ (s.1.media 0, s.2 0) = (.deleted, [([0, 1], true)]) :=
    exists_run_of_foldlM _ (by decide +kernel)
  obtain ⟨hmedia, hlog⟩ := Prod.mk.inj hs
  exact ⟨s, log, hrun, hmedia, hlog, (run_delivers hrun).2 0⟩

/-- The timer expires in the turn in which the datagram came: it is returned with a timeout, and
`HandleMedia` ends without having processed it. -/
theorem waitingPeer_drops_packet :
    (∃ s log, Run (Guarded stepLogged fun _ _ ↦ True) (new Bytes 1 10, fun _ ↦ [])
        (waitingPeer ++ [.main (.expire 4)]) (s, log) ∧ s.running = some (4, .handleMedia 0) ∧
      s.media 0 = .waiting ∧ s.loop.timeout 4 = true ∧ s.packets 0 = [[0, 1]]) ∧
    ∃ s log, Run (Guarded stepLogged fun _ _ ↦ True) (new Bytes 1 10, fun _ ↦ [])
        (waitingPeer ++ [.main (.expire 4), .woken]) (s, log) ∧ s.media 0 = .deleted ∧ s.packets 0 = [] ∧
      log 0 = [] := by
  obtain ⟨⟨s, log⟩, hrun, hs⟩ : ∃ s, Run (Guarded stepLogged fun _ _ ↦ True) (new Bytes 1 10, fun _ ↦ [])
      (waitingPeer ++ [.main (.expire 4)]) s ∧
      (s.1.running, s.1.media 0, s.1.loop.timeout 4, s.1.packets 0) =
        (some (4, .handleMedia 0), .waiting, true, [[0, 1]]) :=
    exists_run_of_foldlM _ (by decide +kernel)
  obtain ⟨⟨s', log'⟩, hrun', hs'⟩ : ∃ s, Run (Guarded stepLogged fun _ _ ↦ True) (new Bytes 1 10, fun _ ↦ [])
      (waitingPeer ++ [.main (.expire 4), .woken]) s ∧
      (s.1.media 0, s.1.packets 0, s.2 0) = (.deleted, [], []) :=
    exists_run_of_foldlM _ (by decide +kernel)
  simp only [Prod.mk.injEq] at hs hs'
  exact ⟨⟨s, log, hrun, hs⟩, s', log', hrun', hs'⟩

end MediaServer

end Baize.Webrtc
