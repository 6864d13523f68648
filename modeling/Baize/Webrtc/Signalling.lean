import Baize.Webrtc.Room

namespace Baize.Webrtc

open Baize.Lib Baize.Net Baize.Stun

def stunUsername (packet : Bytes) : Option Bytes :=
  if StunPacket.isStun packet then
    match StunPacket.parse (packet.length + 1) (.fresh .request 0) packet with
    | some (some stunPacket) => some stunPacket.username
    | _ => none
  else none

/-- The server, with the ufrags that were published and that no STUN packet has claimed since. -/
structure Signalling where
  room : Room
  waiting : List Bytes

namespace Signalling

def empty : Signalling := ⟨.empty, []⟩

variable (inetNtop6 : Bytes → Bytes)

/-- A STUN packet claims the ufrag in its USERNAME when it comes from an address without an entry. -/
def Claims (room : Room) (peeraddr : InetAddress) (packet ufrag : Bytes) : Prop :=
  room.connections.find (peeraddr.ipPort inetNtop6) = none ∧ stunUsername packet = some (ufragKey ufrag)

instance (room : Room) (peeraddr : InetAddress) (packet ufrag : Bytes) :
    Decidable (Claims inetNtop6 room peeraddr packet ufrag) :=
  inferInstanceAs (Decidable (_ ∧ _))

def record (s : Signalling) : Room.Action → List Bytes
  | .publish body => iceUfrag body :: s.waiting
  | .datagram peeraddr packet => s.waiting.filter fun ufrag ↦ ¬Claims inetNtop6 s.room peeraddr packet ufrag
  | .terminate _ => s.waiting

def step (s : Signalling) (a : Room.Action) : Option Signalling :=
  (s.room.step inetNtop6 a).map fun room ↦ ⟨room, s.record inetNtop6 a⟩

/-- A publish request names a ufrag that is not waiting for its STUN packet. -/
def Fresh (s : Signalling) : Room.Action → Prop
  | .publish body => iceUfrag body ≠ [] ∧ iceUfrag body ∉ s.waiting
  | _ => True

/-- The entries under ufrags are those of the waiting ones. -/
structure Kept (s : Signalling) : Prop where
  aborted : s.room.aborted = false
  waiting : ∀ ufrag, (s.room.connections.find (ufragKey ufrag)).isSome ↔ ufrag ∈ s.waiting

variable {inetNtop6} {s s' : Signalling} {room : Room}

/-- A datagram leaves the map alone, and then the ufrag that it claims has no entry, or it binds
the peer that its USERNAME names. -/
theorem datagram_claims (inetNtop6 : Bytes → Bytes) (room : Room) (peeraddr : InetAddress) (packet : Bytes) :
    (room.datagram inetNtop6 peeraddr packet = room ∧
      ∀ ufrag, Claims inetNtop6 room peeraddr packet ufrag → room.connections.find (ufragKey ufrag) = none) ∨
    ∃ username pc, room.connections.find (peeraddr.ipPort inetNtop6) = none ∧
      stunUsername packet = some username ∧
      room.datagram inetNtop6 peeraddr packet = room.bind (peeraddr.ipPort inetNtop6) username peeraddr pc := by
  cases hremote : room.connections.find (peeraddr.ipPort inetNtop6) with
  | some pc =>
    refine .inl ⟨by simp only [Room.datagram, hremote, Option.isSome_some, if_true], fun ufrag hclaims ↦ ?_⟩
    cases hremote.symm.trans hclaims.1
  | none =>
    simp only [Room.datagram, hremote, Option.isSome_none, Bool.false_eq_true, if_false]
    split
    · next hstun =>
      split
      · next stunPacket hparse =>
        have hname : stunUsername packet = some stunPacket.username := by
          simp only [stunUsername, hstun, if_true, hparse]
        split
        · next pc hpc => exact .inr ⟨_, pc, trivial, hname, rfl⟩
        · next hnone =>
          refine .inl ⟨rfl, fun ufrag hclaims ↦ ?_⟩
          rwa [Option.some.inj (hname.symm.trans hclaims.2)] at hnone
      · next hfail =>
        have hname : stunUsername packet = none := by
          simp only [stunUsername, hstun, if_true]
        exact .inl ⟨rfl, fun ufrag hclaims ↦ by cases hname.symm.trans hclaims.2⟩
    · next hstun =>
      have hname : stunUsername packet = none := if_neg hstun
      exact .inl ⟨rfl, fun ufrag hclaims ↦ by cases hname.symm.trans hclaims.2⟩

theorem find_datagram (room : Room) (peeraddr : InetAddress) (packet ufrag : Bytes) :
    (room.datagram inetNtop6 peeraddr packet).connections.find (ufragKey ufrag) =
      if Claims inetNtop6 room peeraddr packet ufrag then none else room.connections.find (ufragKey ufrag) := by
  obtain ⟨heq, hnone⟩ | ⟨username, pc, hremote, hname, heq⟩ := datagram_claims inetNtop6 room peeraddr packet
  · rw [heq]
    split
    · next hclaims => exact hnone ufrag hclaims
    · rfl
  · have hne : ufragKey ufrag ≠ peeraddr.ipPort inetNtop6 := (Room.ipPort_ne_ufragKey peeraddr ufrag).symm
    have hclaims : Claims inetNtop6 room peeraddr packet ufrag ↔ ufragKey ufrag = username := by
      rw [Claims, hname, Option.some.injEq]
      exact ⟨fun h ↦ h.2.symm, fun h ↦ ⟨hremote, h.symm⟩⟩
    rw [heq, Room.bind, SortedMap.find_erase, SortedMap.find_insert, if_neg hne]
    exact ite_congr (propext hclaims.symm) (fun _ ↦ rfl) fun _ ↦ rfl

theorem datagram_aborted (room : Room) (peeraddr : InetAddress) (packet : Bytes) :
    (room.datagram inetNtop6 peeraddr packet).aborted = room.aborted := by
  obtain heq | ⟨username, pc, -, -, heq⟩ := Room.datagram_cases inetNtop6 room peeraddr packet
  · rw [heq]
  · rw [heq]
    rfl

theorem find_publish {body : Bytes} (hne : iceUfrag body ≠ [])
    (hnone : room.connections.find (ufragKey (iceUfrag body)) = none) (ufrag : Bytes) :
    (room.publish body).connections.find (ufragKey ufrag) =
      if ufrag = iceUfrag body then some room.next else room.connections.find (ufragKey ufrag) := by
  simp only [Room.publish, hne, hnone, Option.isSome_none, Bool.false_eq_true, or_self, if_false,
    SortedMap.find_insert, Room.ufragKey_inj]

theorem Kept.publish_aborted_iff (h : s.Kept) (body : Bytes) :
    (s.room.publish body).aborted = false ↔ s.Fresh (.publish body) := by
  have hmem := h.waiting (iceUfrag body)
  simp only [Fresh, Room.publish]
  by_cases hne : iceUfrag body = []
  · simp [hne]
  · by_cases hsome : (s.room.connections.find (ufragKey (iceUfrag body))).isSome
    · simp [hsome, hmem.mp hsome]
    · have hnot : iceUfrag body ∉ s.waiting := fun hu ↦ hsome (hmem.mpr hu)
      simp [hne, hsome, h.aborted, hnot]

theorem Kept.step (h : s.Kept) {a : Room.Action} (hstep : s.step inetNtop6 a = some s') (ha : s.Fresh a) :
    s'.Kept := by
  obtain ⟨room', hroom, rfl⟩ := Option.map_eq_some_iff.mp hstep
  simp only [Room.step, h.aborted, Bool.false_eq_true, if_false] at hroom
  cases a with
  | publish body =>
    obtain rfl := Option.some.inj hroom
    have hnone : s.room.connections.find (ufragKey (iceUfrag body)) = none := by
      rw [← Option.not_isSome_iff_eq_none, h.waiting]
      exact ha.2
    refine ⟨(h.publish_aborted_iff body).mpr ha, fun ufrag ↦ ?_⟩
    simp only [find_publish ha.1 hnone, record, List.mem_cons, ← h.waiting]
    split
    · next heq => simp [heq]
    · next hne => simp [hne]
  | datagram peeraddr packet =>
    obtain rfl := Option.some.inj hroom
    refine ⟨(datagram_aborted s.room peeraddr packet).trans h.aborted, fun ufrag ↦ ?_⟩
    simp only [find_datagram, record, List.mem_filter, decide_not, Bool.not_eq_true', decide_eq_false_iff_not,
      ← h.waiting]
    split
    · next hclaims => simp [hclaims]
    · next hclaims => simp [hclaims]
  | terminate pc =>
    obtain ⟨p, -, rfl⟩ := Option.map_eq_some_iff.mp hroom
    refine ⟨h.aborted, fun ufrag ↦ ?_⟩
    simp only [Room.peerConnectionDelete, SortedMap.find_erase,
      if_neg (Room.ipPort_ne_ufragKey p.addr ufrag).symm, record, h.waiting]

/-- The runs in which both assertions of `HandleSignal` hold are those in which every publish request
carries a ufrag that is not waiting. -/
theorem run_asserts_iff (inetNtop6 : Bytes → Bytes) (as : List Room.Action) (s : Signalling) :
    Run (fun s a s' ↦ s.step inetNtop6 a = some s' ∧ s'.room.aborted = false) empty as s ↔
      Run (Guarded (step inetNtop6) Fresh) empty as s := by
  refine Run.iff_guarded (I := Kept)
    (fun s a s' hI hstep ↦ ⟨fun haborted ↦ ?_, fun ha ↦ (hI.step hstep ha).aborted⟩)
    (fun s a s' hI ha hstep ↦ hI.step hstep ha) ⟨rfl, fun ufrag ↦ ⟨nofun, nofun⟩⟩
  cases a with
  | publish body =>
    obtain ⟨room', hroom, rfl⟩ := Option.map_eq_some_iff.mp hstep
    simp only [Room.step, hI.aborted, Bool.false_eq_true, if_false] at hroom
    obtain rfl := Option.some.inj hroom
    exact (hI.publish_aborted_iff body).mp haborted
  | datagram => trivial
  | terminate => trivial

/-- A body without a ufrag fails the first assertion, and a ufrag that is published twice the
second one, also when the first peer is gone. -/
theorem publish_aborts :
    (∃ s, Run (fun s a s' ↦ s.step id a = some s') empty [.publish []] s ∧ s.room.aborted = true) ∧
      ∃ s, Run (fun s a s' ↦ s.step id a = some s') empty
        [.publish Room.ufragLine, .terminate 0, .publish Room.ufragLine] s ∧ s.room.aborted = true := by
  constructor
  · exact exists_run_of_steps _ (by decide +kernel)
  · exact exists_run_of_steps _ (by decide +kernel)

end Signalling

end Baize.Webrtc
