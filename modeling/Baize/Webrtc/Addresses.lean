import Baize.Webrtc.Signalling

namespace Baize.Webrtc

open Lib Net

/-- The room, the `packets_` of each `PeerConnection`, whether its `ProcessPacket` has been called, and
what has been given to `AsyncSend`, with the address. -/
structure Exchange where
  room : Room
  packets : ℕ → List Bytes
  active : ℕ → Bool
  sent : List (ℕ × InetAddress × Bytes)

/-- Besides what happens to the room, `HandleMedia` processes a packet, or a `PeerConnection` sends one:
from `ProcessPacket`, or from a timer that was started there. -/
inductive Exchange.Action
  | server (a : Room.Action)
  | processPacket (pc : ℕ)
  | asyncSend (pc : ℕ) (packet : Bytes)

namespace Exchange

def empty : Exchange := ⟨.empty, fun _ ↦ [], fun _ ↦ false, []⟩

section

variable (inetNtop6 : Bytes → Bytes)

def recipient (room : Room) (peeraddr : InetAddress) (packet : Bytes) : Option ℕ :=
  match room.connections.find (peeraddr.ipPort inetNtop6) with
  | some pc => some pc
  | none => (stunUsername packet).bind room.connections.find

def enqueue (s : Exchange) : Room.Action → ℕ → List Bytes
  | .datagram peeraddr packet =>
    match recipient inetNtop6 s.room peeraddr packet with
    | some pc =>
      if (s.room.peers pc).isSome then Function.update s.packets pc (s.packets pc ++ [packet]) else s.packets
    | none => s.packets
  | .publish _ | .terminate _ => s.packets

def step (s : Exchange) : Action → Option Exchange
  | .server a => (s.room.step inetNtop6 a).map fun room ↦
      { s with room := room, packets := s.enqueue inetNtop6 a }
  | .processPacket pc =>
    match s.room.peers pc, s.packets pc with
    | some _, _ :: rest =>
      some { s with packets := Function.update s.packets pc rest, active := Function.update s.active pc true }
    | _, _ => none
  | .asyncSend pc packet =>
    match s.room.peers pc with
    | some p => if s.active pc then some { s with sent := s.sent ++ [(pc, p.addr, packet)] } else none
    | none => none

end

def Pre (_ : Exchange) : Action → Prop
  | .server (.datagram peeraddr _) => peeraddr.family = afInet ∨ peeraddr.family = afInet6
  | _ => True

instance decidablePre (s : Exchange) (a : Action) : Decidable (s.Pre a) :=
  match a with
  | .server (.datagram peeraddr _) =>
    inferInstanceAs (Decidable (peeraddr.family = afInet ∨ peeraddr.family = afInet6))
  | .server (.publish _) | .server (.terminate _) | .processPacket _ | .asyncSend _ _ => .isTrue trivial

/-- At some point of the run, a STUN packet from `addr` named the key that the peer had at that point. -/
def Named (inetNtop6 : Bytes → Bytes) (as : List Action) (pc : ℕ) (addr : InetAddress) : Prop :=
  ∃ before packet after s p, as = before ++ .server (.datagram addr packet) :: after ∧
    Run (Guarded (step inetNtop6) Pre) empty before s ∧ s.room.peers pc = some p ∧
      stunUsername packet = some (p.key inetNtop6)

/-- The entries of a peer that is alive are under its key, and only a peer that has been named has
packets. -/
structure Inv (inetNtop6 : Bytes → Bytes) (as : List Action) (s : Exchange) : Prop where
  run : Run (Guarded (step inetNtop6) Pre) empty as s
  entry_lt : ∀ k pc, s.room.connections.find k = some pc → pc < s.room.next
  peer_lt : ∀ pc p, s.room.peers pc = some p → pc < s.room.next
  entry_key : ∀ k pc p, s.room.connections.find k = some pc → s.room.peers pc = some p → k = p.key inetNtop6
  idle : ∀ pc, s.room.next ≤ pc → s.packets pc = [] ∧ s.active pc = false
  bound : ∀ pc p, s.room.peers pc = some p → s.packets pc ≠ [] ∨ s.active pc = true → p.addr.family ≠ 0
  named : ∀ pc p, s.room.peers pc = some p → p.addr.family ≠ 0 → Named inetNtop6 as pc p.addr
  sent : ∀ x ∈ s.sent, Named inetNtop6 as x.1 x.2.1

section

variable {inetNtop6 : Bytes → Bytes} {as : List Action} {s s' : Exchange} {a : Action} {pc : ℕ}

theorem Named.snoc {addr : InetAddress} (h : Named inetNtop6 as pc addr) (a : Action) :
    Named inetNtop6 (as ++ [a]) pc addr := by
  obtain ⟨before, packet, after, s, p, rfl, hrun, hp, hname⟩ := h
  exact ⟨before, packet, after ++ [a], s, p, by rw [List.append_assoc, List.cons_append], hrun, hp, hname⟩

theorem empty_inv : Inv inetNtop6 [] empty where
  run := .nil _
  entry_lt := fun _ _ h ↦ by cases h
  peer_lt := fun _ _ h ↦ by cases h
  entry_key := fun _ _ _ h ↦ by cases h
  idle := fun _ _ ↦ ⟨rfl, rfl⟩
  bound := fun _ _ h ↦ by cases h
  named := fun _ _ h ↦ by cases h
  sent := fun _ h ↦ by cases h

theorem Inv.run_snoc (h : Inv inetNtop6 as s) (hstep : Guarded (step inetNtop6) Pre s a s') :
    Run (Guarded (step inetNtop6) Pre) empty (as ++ [a]) s' :=
  h.run.append (.cons hstep (.nil _))

theorem Inv.entry_eq (h : Inv inetNtop6 as s) {k k' : Bytes} {p : Peer} (hp : s.room.peers pc = some p)
    (hk : s.room.connections.find k = some pc) (hk' : s.room.connections.find k' = some pc) : k = k' :=
  (h.entry_key k pc p hk hp).trans (h.entry_key k' pc p hk' hp).symm

/-- A datagram is for the peer of its address, or for nobody, or it binds the peer that its USERNAME
names. -/
theorem datagram_recipient (inetNtop6 : Bytes → Bytes) (room : Room) (peeraddr : InetAddress) (packet : Bytes) :
    (∃ pc, room.connections.find (peeraddr.ipPort inetNtop6) = some pc ∧
      recipient inetNtop6 room peeraddr packet = some pc ∧ room.datagram inetNtop6 peeraddr packet = room) ∨
    (recipient inetNtop6 room peeraddr packet = none ∧ room.datagram inetNtop6 peeraddr packet = room) ∨
    ∃ username pc, room.connections.find (peeraddr.ipPort inetNtop6) = none ∧
      stunUsername packet = some username ∧ room.connections.find username = some pc ∧
      recipient inetNtop6 room peeraddr packet = some pc ∧
      room.datagram inetNtop6 peeraddr packet = room.bind (peeraddr.ipPort inetNtop6) username peeraddr pc := by
  unfold recipient
  cases hremote : room.connections.find (peeraddr.ipPort inetNtop6) with
  | some pc =>
    refine .inl ⟨pc, rfl, rfl, ?_⟩
    simp only [Room.datagram, hremote, Option.isSome_some, if_true]
  | none =>
    right
    simp only [Room.datagram, hremote, Option.isSome_none, Bool.false_eq_true, if_false, stunUsername]
    by_cases hstun : Stun.StunPacket.isStun packet = true
    · simp only [hstun, if_true]
      rcases Stun.StunPacket.parse (packet.length + 1) (.fresh .request 0) packet with _ | _ | stunPacket
      · exact .inl ⟨rfl, rfl⟩
      · exact .inl ⟨rfl, rfl⟩
      · simp only [Option.bind_some]
        cases hpc : room.connections.find stunPacket.username with
        | none => exact .inl ⟨rfl, rfl⟩
        | some pc => exact .inr ⟨_, pc, trivial, rfl, hpc, rfl, rfl⟩
    · rw [if_neg hstun, if_neg hstun]
      exact .inl ⟨rfl, rfl⟩

theorem family_ne_zero {peeraddr : InetAddress} (h : peeraddr.family = afInet ∨ peeraddr.family = afInet6) :
    peeraddr.family ≠ 0 := by
  obtain h | h := h
  · rw [h]
    decide
  · rw [h]
    decide

theorem Inv.family_ne (h : Inv inetNtop6 as s) {peeraddr : InetAddress} {p : Peer}
    (hentry : s.room.connections.find (peeraddr.ipPort inetNtop6) = some pc) (hp : s.room.peers pc = some p) :
    p.addr.family ≠ 0 := by
  intro hfamily
  have hkey := h.entry_key _ pc p hentry hp
  rw [Peer.key, if_pos hfamily] at hkey
  exact Room.ipPort_ne_ufragKey peeraddr p.ufrag hkey

theorem Inv.same_room (h : Inv inetNtop6 as s) (hrun : Run (Guarded (step inetNtop6) Pre) empty (as ++ [a]) s')
    (hconnections : s'.room.connections = s.room.connections) (hpeers : s'.room.peers = s.room.peers)
    (hnext : s'.room.next = s.room.next)
    (hqueue : ∀ pc p, s.room.peers pc = some p → s'.packets pc ≠ [] ∨ s'.active pc = true → p.addr.family ≠ 0)
    (hidle : ∀ pc, s.room.next ≤ pc → s'.packets pc = [] ∧ s'.active pc = false)
    (hsent : ∀ x ∈ s'.sent, Named inetNtop6 (as ++ [a]) x.1 x.2.1) : Inv inetNtop6 (as ++ [a]) s' where
  run := hrun
  entry_lt := by rw [hconnections, hnext]; exact h.entry_lt
  peer_lt := by rw [hpeers, hnext]; exact h.peer_lt
  entry_key := by rw [hconnections, hpeers]; exact h.entry_key
  idle := by rw [hnext]; exact hidle
  bound := by rw [hpeers]; exact hqueue
  named := by rw [hpeers]; exact fun pc p hp hfamily ↦ (h.named pc p hp hfamily).snoc a
  sent := hsent

theorem Inv.sent_snoc (h : Inv inetNtop6 as s) (a : Action) :
    ∀ x ∈ s.sent, Named inetNtop6 (as ++ [a]) x.1 x.2.1 := fun x hx ↦ (h.sent x hx).snoc a

theorem Inv.publish (h : Inv inetNtop6 as s) {body : Bytes} (hs' : s' = { s with room := s.room.publish body })
    (hrun : Run (Guarded (step inetNtop6) Pre) empty (as ++ [a]) s') : Inv inetNtop6 (as ++ [a]) s' := by
  subst hs'
  by_cases hfail : iceUfrag body = [] ∨ (s.room.connections.find (ufragKey (iceUfrag body))).isSome = true
  · have hroom : s.room.publish body = { s.room with aborted := true } := if_pos hfail
    exact h.same_room hrun (by rw [hroom]) (by rw [hroom]) (by rw [hroom]) h.bound h.idle (h.sent_snoc a)
  have hpeers : (s.room.publish body).peers =
      Function.update s.room.peers s.room.next (some ⟨iceUfrag body, .zero⟩) := by
    rw [Room.publish, if_neg hfail]
  have hconnections : (s.room.publish body).connections =
      s.room.connections.insert (ufragKey (iceUfrag body)) s.room.next := by
    rw [Room.publish, if_neg hfail]
  have hnext : (s.room.publish body).next = s.room.next + 1 := by rw [Room.publish, if_neg hfail]
  have hold : ∀ pc p, (s.room.publish body).peers pc = some p → pc = s.room.next ∧ p = ⟨iceUfrag body, .zero⟩ ∨
      pc < s.room.next ∧ s.room.peers pc = some p := by
    intro pc p hp
    rw [hpeers] at hp
    by_cases hpc : pc = s.room.next
    · subst hpc
      rw [Function.update_self] at hp
      exact .inl ⟨rfl, (Option.some.inj hp).symm⟩
    · rw [Function.update_of_ne hpc] at hp
      exact .inr ⟨h.peer_lt pc p hp, hp⟩
  have hentry : ∀ k pc, (s.room.publish body).connections.find k = some pc →
      k = ufragKey (iceUfrag body) ∧ pc = s.room.next ∨ pc < s.room.next ∧
      s.room.connections.find k = some pc := by
    intro k pc hk
    rw [hconnections, SortedMap.find_insert] at hk
    split at hk
    · next heq => exact .inl ⟨heq, (Option.some.inj hk).symm⟩
    · exact .inr ⟨h.entry_lt k pc hk, hk⟩
  refine ⟨hrun, fun k pc hk ↦ ?_, fun pc p hp ↦ ?_, fun k pc p hk hp ↦ ?_, fun pc hle ↦ ?_, fun pc p hp hq ↦ ?_,
    fun pc p hp hfamily ↦ ?_, h.sent_snoc a⟩
  · obtain ⟨-, rfl⟩ | ⟨hlt, -⟩ := hentry k pc hk
    · exact hnext ▸ Nat.lt_succ_self _
    · exact hnext ▸ hlt.trans (Nat.lt_succ_self _)
  · obtain ⟨rfl, -⟩ | ⟨hlt, -⟩ := hold pc p hp
    · exact hnext ▸ Nat.lt_succ_self _
    · exact hnext ▸ hlt.trans (Nat.lt_succ_self _)
  · obtain ⟨rfl, rfl⟩ | ⟨hlt, hp⟩ := hold pc p hp
    · obtain ⟨rfl, -⟩ | ⟨hlt, -⟩ := hentry k _ hk
      · rfl
      · exact absurd hlt (lt_irrefl _)
    · obtain ⟨-, rfl⟩ | ⟨-, hk⟩ := hentry k pc hk
      · exact absurd hlt (lt_irrefl _)
      · exact h.entry_key k pc p hk hp
  · have hle' : s.room.next + 1 ≤ pc := by rwa [← hnext]
    exact h.idle pc ((Nat.le_succ _).trans hle')
  · obtain ⟨rfl, -⟩ | ⟨-, hp⟩ := hold pc p hp
    · obtain ⟨hpackets, hactive⟩ := h.idle _ (le_refl s.room.next)
      obtain hq | hq := hq
      · exact absurd hpackets hq
      · exact absurd (hactive.symm.trans hq) Bool.false_ne_true
    · exact h.bound pc p hp hq
  · obtain ⟨-, rfl⟩ | ⟨-, hp⟩ := hold pc p hp
    · exact absurd rfl hfamily
    · exact (h.named pc p hp hfamily).snoc a

theorem enqueue_datagram {peeraddr : InetAddress} {packet : Bytes} {pc : ℕ}
    (hpc : recipient inetNtop6 s.room peeraddr packet = some pc) {pc' : ℕ}
    (hne : s.enqueue inetNtop6 (.datagram peeraddr packet) pc' ≠ s.packets pc') : pc' = pc := by
  by_contra hother
  refine hne ?_
  simp only [enqueue, hpc]
  split
  · exact Function.update_of_ne hother _ _
  · rfl

theorem enqueue_of_none {peeraddr : InetAddress} {packet : Bytes}
    (hpc : recipient inetNtop6 s.room peeraddr packet = none) :
    s.enqueue inetNtop6 (.datagram peeraddr packet) = s.packets := by
  simp only [enqueue, hpc]

theorem Inv.idle_enqueue (h : Inv inetNtop6 as s) {peeraddr : InetAddress} {packet : Bytes} {pc : ℕ}
    (hpc : recipient inetNtop6 s.room peeraddr packet = some pc) (hlt : pc < s.room.next) :
    ∀ pc', s.room.next ≤ pc' → s.enqueue inetNtop6 (.datagram peeraddr packet) pc' = [] ∧
      s.active pc' = false := by
  intro pc' hle
  obtain ⟨hpackets, hactive⟩ := h.idle pc' hle
  refine ⟨?_, hactive⟩
  by_contra hne
  have heq := enqueue_datagram hpc (by rw [hpackets]; exact hne)
  omega

theorem Inv.bind (h : Inv inetNtop6 as s) {peeraddr : InetAddress} {packet username : Bytes} {pc : ℕ}
    (hfamily : peeraddr.family ≠ 0) (hname : stunUsername packet = some username)
    (hpc : s.room.connections.find username = some pc)
    (hrecipient : recipient inetNtop6 s.room peeraddr packet = some pc)
    (hs' : s' = { s with
      room := s.room.bind (peeraddr.ipPort inetNtop6) username peeraddr pc
      packets := s.enqueue inetNtop6 (.datagram peeraddr packet) })
    (hrun : Run (Guarded (step inetNtop6) Pre) empty (as ++ [.server (.datagram peeraddr packet)]) s') :
    Inv inetNtop6 (as ++ [.server (.datagram peeraddr packet)]) s' := by
  subst hs'
  have hlt := h.entry_lt username pc hpc
  have hpeer : ∀ pc' p, (s.room.bind (peeraddr.ipPort inetNtop6) username peeraddr pc).peers pc' = some p →
      (pc' = pc ∧ ∃ q, s.room.peers pc = some q ∧ p = { q with addr := peeraddr }) ∨
        pc' ≠ pc ∧ s.room.peers pc' = some p := by
    intro pc' p hp
    simp only [Room.bind] at hp
    by_cases heq : pc' = pc
    · subst heq
      rw [Function.update_self] at hp
      obtain ⟨q, hq, rfl⟩ := Option.map_eq_some_iff.mp hp
      exact .inl ⟨rfl, q, hq, rfl⟩
    · rw [Function.update_of_ne heq] at hp
      exact .inr ⟨heq, hp⟩
  have hentry : ∀ k pc',
      (s.room.bind (peeraddr.ipPort inetNtop6) username peeraddr pc).connections.find k = some pc' →
      k ≠ username ∧ (k = peeraddr.ipPort inetNtop6 ∧ pc' = pc ∨ s.room.connections.find k = some pc') := by
    intro k pc' hk
    simp only [Room.bind, SortedMap.find_erase, SortedMap.find_insert] at hk
    split at hk
    · cases hk
    · next hne =>
      split at hk
      · next heq => exact ⟨hne, .inl ⟨heq, (Option.some.inj hk).symm⟩⟩
      · exact ⟨hne, .inr hk⟩
  refine ⟨hrun, fun k pc' hk ↦ ?_, fun pc' p hp ↦ ?_, fun k pc' p hk hp ↦ ?_, h.idle_enqueue hrecipient hlt,
    fun pc' p hp hq ↦ ?_, fun pc' p hp hf ↦ ?_, h.sent_snoc _⟩
  · obtain ⟨-, ⟨-, rfl⟩ | hk⟩ := hentry k pc' hk
    · exact hlt
    · exact h.entry_lt k pc' hk
  · obtain ⟨rfl, -⟩ | ⟨-, hp⟩ := hpeer pc' p hp
    · exact hlt
    · exact h.peer_lt pc' p hp
  · obtain ⟨hne, hk⟩ := hentry k pc' hk
    obtain ⟨rfl, q, hq, rfl⟩ | ⟨hother, hp⟩ := hpeer pc' p hp
    · obtain ⟨rfl, -⟩ | hk := hk
      · exact (if_neg hfamily).symm
      · exact absurd (h.entry_eq hq hk hpc) hne
    · obtain ⟨-, heq⟩ | hk := hk
      · exact absurd heq hother
      · exact h.entry_key k pc' p hk hp
  · obtain ⟨-, q, -, rfl⟩ | ⟨hother, hp⟩ := hpeer pc' p hp
    · exact hfamily
    · refine h.bound pc' p hp (hq.imp_left fun hne hnil ↦ ?_)
      exact hother (enqueue_datagram hrecipient (hnil.symm ▸ hne))
  · obtain ⟨rfl, q, hq, rfl⟩ | ⟨-, hp⟩ := hpeer pc' p hp
    · refine ⟨as, packet, [], s, q, rfl, h.run, hq, ?_⟩
      rw [hname, h.entry_key username pc' q hpc hq]
    · exact (h.named pc' p hp hf).snoc _

theorem Inv.terminate (h : Inv inetNtop6 as s) {pc : ℕ} {p : Peer}
    (hs' : s' = { s with room := s.room.peerConnectionDelete inetNtop6 pc p })
    (hrun : Run (Guarded (step inetNtop6) Pre) empty (as ++ [a]) s') : Inv inetNtop6 (as ++ [a]) s' := by
  subst hs'
  have hpeer : ∀ pc' q, (s.room.peerConnectionDelete inetNtop6 pc p).peers pc' = some q →
      s.room.peers pc' = some q := by
    intro pc' q hq
    simp only [Room.peerConnectionDelete, Function.update_apply] at hq
    split at hq
    · cases hq
    · exact hq
  have hentry : ∀ k pc', (s.room.peerConnectionDelete inetNtop6 pc p).connections.find k = some pc' →
      s.room.connections.find k = some pc' := by
    intro k pc' hk
    simp only [Room.peerConnectionDelete, SortedMap.find_erase] at hk
    split at hk
    · cases hk
    · exact hk
  exact ⟨hrun, fun k pc' hk ↦ h.entry_lt k pc' (hentry k pc' hk),
    fun pc' q hq ↦ h.peer_lt pc' q (hpeer pc' q hq),
    fun k pc' q hk hq ↦ h.entry_key k pc' q (hentry k pc' hk) (hpeer pc' q hq), h.idle,
    fun pc' q hq ↦ h.bound pc' q (hpeer pc' q hq), fun pc' q hq hf ↦ (h.named pc' q (hpeer pc' q hq) hf).snoc a,
    h.sent_snoc a⟩

theorem Inv.server (h : Inv inetNtop6 as s) {act : Room.Action} {room : Room}
    (hroom : s.room.step inetNtop6 act = some room)
    (hs' : s' = { s with room := room, packets := s.enqueue inetNtop6 act }) (hpre : s.Pre (.server act))
    (hrun : Run (Guarded (step inetNtop6) Pre) empty (as ++ [.server act]) s') :
    Inv inetNtop6 (as ++ [.server act]) s' := by
  unfold Room.step at hroom
  split at hroom
  · cases hroom
  cases act with
  | publish body =>
    obtain rfl := Option.some.inj hroom
    exact h.publish hs' hrun
  | terminate pc =>
    obtain ⟨p, -, rfl⟩ := Option.map_eq_some_iff.mp hroom
    exact h.terminate hs' hrun
  | datagram peeraddr packet =>
    obtain rfl := Option.some.inj hroom
    obtain ⟨pc, hentry, hrecipient, heq⟩ | ⟨hrecipient, heq⟩ | ⟨username, pc, -, hname, hpc, hrecipient, heq⟩ :=
      datagram_recipient inetNtop6 s.room peeraddr packet
    · rw [heq] at hs'
      subst hs'
      refine h.same_room hrun rfl rfl rfl (fun pc' p hp hq ↦ ?_)
        (h.idle_enqueue hrecipient (h.entry_lt _ _ hentry))
        (h.sent_snoc _)
      by_cases hsame : pc' = pc
      · subst hsame
        exact h.family_ne hentry hp
      · refine h.bound pc' p hp (hq.imp_left fun hne hnil ↦ ?_)
        exact hsame (enqueue_datagram hrecipient (hnil.symm ▸ hne))
    · rw [heq, enqueue_of_none hrecipient] at hs'
      subst hs'
      exact h.same_room hrun rfl rfl rfl h.bound h.idle (h.sent_snoc _)
    · rw [heq] at hs'
      exact h.bind (family_ne_zero hpre) hname hpc hrecipient hs' hrun

theorem step_inv (h : Inv inetNtop6 as s) (hstep : Guarded (step inetNtop6) Pre s a s') :
    Inv inetNtop6 (as ++ [a]) s' := by
  have hrun := h.run_snoc hstep
  obtain ⟨hpre, hs⟩ := hstep
  cases a with
  | server act =>
    obtain ⟨room, hroom, rfl⟩ := Option.map_eq_some_iff.mp hs
    exact h.server hroom rfl hpre hrun
  | processPacket pc =>
    cases hp : s.room.peers pc with
    | none => simp only [step, hp] at hs; cases hs
    | some p =>
      cases hq : s.packets pc with
      | nil => simp only [step, hp, hq] at hs; cases hs
      | cons packet rest =>
        simp only [step, hp, hq] at hs
        obtain rfl := Option.some.inj hs
        have hfamily := h.bound pc p hp (.inl (by rw [hq]; exact List.cons_ne_nil _ _))
        refine h.same_room hrun rfl rfl rfl (fun pc' q hq' hbusy ↦ ?_) (fun pc' hle ↦ ?_) (h.sent_snoc _)
        · by_cases hsame : pc' = pc
          · subst hsame
            rw [← Option.some.inj (hp.symm.trans hq')]
            exact hfamily
          · simp only [Function.update_of_ne hsame] at hbusy
            exact h.bound pc' q hq' hbusy
        · have hne : pc' ≠ pc := fun heq ↦ absurd (h.peer_lt pc p hp) (not_lt.mpr (heq ▸ hle))
          simp only [Function.update_of_ne hne]
          exact h.idle pc' hle
  | asyncSend pc packet =>
    cases hp : s.room.peers pc with
    | none => simp only [step, hp] at hs; cases hs
    | some p =>
      simp only [step, hp] at hs
      split at hs
      · next hactive =>
        obtain rfl := Option.some.inj hs
        refine h.same_room hrun rfl rfl rfl h.bound h.idle ?_
        rw [List.forall_mem_append, List.forall_mem_singleton]
        exact ⟨h.sent_snoc _, (h.named pc p hp (h.bound pc p hp (.inr hactive))).snoc _⟩
      · cases hs

/-- The server sends nothing to an address unless a STUN packet came from there before, with a USERNAME
that was the key of that peer then: its two ufrags, or the text of the address that it was bound to. -/
theorem run_sends_to_named {as : List Action} {s : Exchange}
    (hrun : Run (Guarded (step inetNtop6) Pre) empty as s) : ∀ x ∈ s.sent, Named inetNtop6 as x.1 x.2.1 := by
  have hinv := hrun.invariant_history (fun a ↦ [a]) (l := []) (I := Inv inetNtop6)
    (fun _ _ _ _ h hstep ↦ step_inv h hstep) empty_inv
  rw [List.nil_append, List.flatMap_singleton'] at hinv
  exact hinv.sent

end

def naming (username : Bytes) : Bytes :=
  let padding := List.replicate ((4 - username.length % 4) % 4) 0
  [0, 1] ++ net2 (UInt16.ofNat (4 + username.length + padding.length)) ++ [33, 18, 164, 66] ++
    List.replicate 12 0 ++ [0, 6] ++ net2 (UInt16.ofNat username.length) ++ username ++ padding

def publisher : InetAddress := { InetAddress.zero with family := afInet, port := 5, sinAddr := 16909060 }

def stranger : InetAddress := { InetAddress.zero with family := afInet, port := 6, sinAddr := 16909060 }

/-- A peer is bound to the address of its STUN packet. Then a STUN packet comes from elsewhere whose
USERNAME is the text of that address, and what the server sends goes there. -/
def takeover : List Action :=
  [.server (.publish Room.ufragLine), .server (.datagram publisher (naming (ufragKey [120]))),
    .server (.datagram stranger (naming (ascii "1.2.3.4:5"))), .processPacket 0, .asyncSend 0 [1]]

theorem run_sends_to_named_takeover : ∃ s, Run (Guarded (step id) Pre) empty takeover s ∧
    s.sent = [(0, stranger, [1])] ∧ Named id takeover 0 stranger := by
  have hsteps : (takeover.foldlM (fun s a ↦ if Pre s a then step id s a else none) empty).map Exchange.sent =
      some [(0, stranger, [1])] := by
    decide +kernel
  obtain ⟨s, hrun, hsent⟩ := exists_run_of_foldlM _ hsteps
  exact ⟨s, hrun, hsent, run_sends_to_named hrun (0, stranger, [1]) (hsent ▸ List.mem_singleton_self _)⟩

end Exchange

end Baize.Webrtc
