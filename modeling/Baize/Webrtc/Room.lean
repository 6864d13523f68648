import Baize.Lib.Index
import Baize.Lib.Run
import Baize.Stun.Packet
import Baize.Util.StringPiece

namespace Baize.Webrtc

open Baize.Lib Baize.Net Baize.Stun

def iceUfrag (message : Bytes) : Bytes :=
  StringPiece.sliceFragment message [105, 99, 101, 45, 117, 102, 114, 97, 103, 58] [13, 10]

/-- The `ice_ufrag_` of the local description, `2eaP`. -/
def localUfrag : Bytes := [50, 101, 97, 80]

def ufragKey (username : Bytes) : Bytes := localUfrag ++ [58] ++ username

structure Peer where
  ufrag : Bytes
  addr : InetAddress
  deriving DecidableEq

/-- The entry of an unbound peer is under its ufrags, that of a bound one under its address. -/
def Peer.key (inetNtop6 : Bytes → Bytes) (p : Peer) : Bytes :=
  if p.addr.family = 0 then ufragKey p.ufrag else p.addr.ipPort inetNtop6

/-- The part of `WebRTCServer` that `connections_` depends on. A `PeerConnection` has a number,
`peers` holds those that are alive, and `ufrags` records the publish requests. -/
structure Room where
  connections : SortedMap Bytes ℕ
  peers : ℕ → Option Peer
  next : ℕ
  ufrags : List Bytes
  aborted : Bool

inductive Room.Action
  | publish (body : Bytes)
  | datagram (peeraddr : InetAddress) (packet : Bytes)
  | terminate (pc : ℕ)

namespace Room

def empty : Room where
  connections := .empty
  peers := fun _ ↦ none
  next := 0
  ufrags := []
  aborted := false

def publish (s : Room) (body : Bytes) : Room :=
  let username := iceUfrag body
  if username = [] ∨ (s.connections.find (ufragKey username)).isSome then { s with aborted := true }
  else
    { s with
      connections := s.connections.insert (ufragKey username) s.next
      peers := Function.update s.peers s.next (some ⟨username, .zero⟩)
      next := s.next + 1
      ufrags := s.ufrags ++ [username] }

def bind (s : Room) (remote iceUfrag : Bytes) (peeraddr : InetAddress) (pc : ℕ) : Room :=
  { s with
    connections := (s.connections.insert remote pc).erase iceUfrag
    peers := Function.update s.peers pc ((s.peers pc).map fun p ↦ { p with addr := peeraddr }) }

variable (inetNtop6 : Bytes → Bytes)

def datagram (s : Room) (peeraddr : InetAddress) (packet : Bytes) : Room :=
  let remote := peeraddr.ipPort inetNtop6
  if (s.connections.find remote).isSome then s
  else if StunPacket.isStun packet then
    match StunPacket.parse (packet.length + 1) (.fresh .request 0) packet with
    | some (some stunPacket) =>
      match s.connections.find stunPacket.username with
      | some pc => s.bind remote stunPacket.username peeraddr pc
      | none => s
    | _ => s
  else s

def peerConnectionDelete (s : Room) (pc : ℕ) (p : Peer) : Room :=
  { s with
    connections := s.connections.erase (p.addr.ipPort inetNtop6)
    peers := Function.update s.peers pc none }

def step (s : Room) (a : Action) : Option Room :=
  if s.aborted then none
  else
    match a with
    | .publish body => some (s.publish body)
    | .datagram peeraddr packet => some (s.datagram inetNtop6 peeraddr packet)
    | .terminate pc => (s.peers pc).map (s.peerConnectionDelete inetNtop6 pc)

/-- Publish requests carry an ICE ufrag of their own, and datagrams come from IPv4 or IPv6
addresses. -/
def Admissible (s : Room) : Action → Prop
  | .publish body => iceUfrag body ≠ [] ∧ iceUfrag body ∉ s.ufrags
  | .datagram peeraddr _ => peeraddr.family = afInet ∨ peeraddr.family = afInet6
  | .terminate _ => True

def key (s : Room) (pc : ℕ) : Option Bytes := (s.peers pc).map (Peer.key inetNtop6)

/-- `connections_` holds the peers that are alive, each under its key and no other. -/
def Tracks (s : Room) : Prop := Indexes s.connections (s.key inetNtop6)

/-- Only a peer that has been bound terminates. -/
def TerminatesBound (s : Room) (a : Action) : Prop :=
  ∀ pc p, a = .terminate pc → s.peers pc = some p → p.addr.family ≠ 0

structure Sound (s : Room) : Prop where
  aborted : s.aborted = false
  peer : ∀ pc p, s.peers pc = some p → pc < s.next ∧ p.ufrag ∈ s.ufrags

variable {inetNtop6}

theorem ipPort_ne_ufragKey (a : InetAddress) (username : Bytes) :
    a.ipPort inetNtop6 ≠ ufragKey username := by
  intro h
  rcases a.ipPort_head_or_le inetNtop6 with hhead | hle
  · rw [h] at hhead
    cases hhead
  · have := hle 101 (by rw [h]; simp [ufragKey, localUfrag])
    exact absurd this (by decide)

theorem ufragKey_inj {u v : Bytes} : ufragKey u = ufragKey v ↔ u = v :=
  List.append_cancel_left_eq _ u v ▸ Iff.rfl

theorem Sound.update {s s' : Room} (hs : s.Sound) (haborted : s'.aborted = false)
    (hnext : s.next ≤ s'.next) (hufrags : s.ufrags ⊆ s'.ufrags) {pc : ℕ} {p : Option Peer}
    (hpeers : s'.peers = Function.update s.peers pc p)
    (hp : ∀ q, p = some q → pc < s'.next ∧ q.ufrag ∈ s'.ufrags) : s'.Sound := by
  refine ⟨haborted, fun i q hq ↦ ?_⟩
  rw [hpeers, Function.update_apply] at hq
  split_ifs at hq with hi
  · exact hi ▸ hp q hq
  · obtain ⟨hlt, hmem⟩ := hs.peer i q hq
    exact ⟨hlt.trans_le hnext, hufrags hmem⟩

theorem key_update (s : Room) (pc : ℕ) (p : Option Peer) :
    (fun i ↦ (Function.update s.peers pc p i).map (Peer.key inetNtop6)) =
      Function.update (s.key inetNtop6) pc (p.map (Peer.key inetNtop6)) := by
  funext i
  by_cases hi : i = pc
  · simp only [hi, Function.update_self]
  · simp only [Function.update_of_ne hi, key]

theorem find_ufragKey {s : Room} (h : s.Tracks inetNtop6) (hs : s.Sound) {username : Bytes}
    (hu : username ∉ s.ufrags) : s.connections.find (ufragKey username) = none := by
  by_contra hne
  obtain ⟨pc, hpc⟩ := Option.ne_none_iff_exists'.mp hne
  obtain ⟨p, hp, hkey⟩ := Option.map_eq_some_iff.mp ((h _ pc).mp hpc)
  unfold Peer.key at hkey
  split_ifs at hkey
  · exact hu (ufragKey_inj.mp hkey ▸ (hs.peer pc p hp).2)
  · exact ipPort_ne_ufragKey _ _ hkey

theorem publish_spec {s : Room} (h : s.Tracks inetNtop6) (hs : s.Sound) {body : Bytes}
    (hne : iceUfrag body ≠ []) (hnew : iceUfrag body ∉ s.ufrags) :
    (s.publish body).Tracks inetNtop6 ∧ (s.publish body).Sound := by
  have hfind := find_ufragKey h hs hnew
  have hnext : s.peers s.next = none := by
    by_contra hsome
    obtain ⟨p, hp⟩ := Option.ne_none_iff_exists'.mp hsome
    exact lt_irrefl _ (hs.peer s.next p hp).1
  simp only [publish, hne, hfind, Option.isSome_none, Bool.false_eq_true, or_self, if_false]
  constructor
  · have hins := Indexes.insert h (i := s.next) (by rw [key, hnext]; rfl) hfind
    unfold Tracks key
    rw [key_update]
    exact hins
  · refine hs.update hs.aborted (Nat.le_succ s.next) (List.subset_append_left _ _) rfl fun q hq ↦ ?_
    rw [← Option.some.inj hq]
    exact ⟨Nat.lt_succ_self s.next, List.mem_append_right s.ufrags List.mem_cons_self⟩

theorem bind_spec {s : Room} (h : s.Tracks inetNtop6) (hs : s.Sound) {peeraddr : InetAddress}
    {username : Bytes} {pc : ℕ} (hfamily : peeraddr.family ≠ 0)
    (hremote : s.connections.find (peeraddr.ipPort inetNtop6) = none)
    (hpc : s.connections.find username = some pc) :
    (s.bind (peeraddr.ipPort inetNtop6) username peeraddr pc).Tracks inetNtop6 ∧
      (s.bind (peeraddr.ipPort inetNtop6) username peeraddr pc).Sound := by
  have hkey := (h username pc).mp hpc
  obtain ⟨p, hp, -⟩ := Option.map_eq_some_iff.mp hkey
  have hnew : Peer.key inetNtop6 { p with addr := peeraddr } = peeraddr.ipPort inetNtop6 := if_neg hfamily
  constructor
  · unfold Tracks key bind
    rw [key_update, hp, Option.map_some, Option.map_some, hnew]
    exact h.rekey hkey hremote
  · refine hs.update hs.aborted le_rfl (List.Subset.refl _) rfl fun q hq ↦ ?_
    rw [hp] at hq
    rw [← Option.some.inj hq]
    exact hs.peer pc p hp

/-- The deleter finds the entry of its peer only when the peer has been bound: the address of
an unbound peer has an empty text. -/
theorem delete_tracks_iff {s : Room} (h : s.Tracks inetNtop6) {pc : ℕ} {p : Peer}
    (hp : s.peers pc = some p) :
    (s.peerConnectionDelete inetNtop6 pc p).Tracks inetNtop6 ↔ p.addr.family ≠ 0 := by
  have hkey : s.key inetNtop6 pc = some (p.key inetNtop6) := by rw [key, hp, Option.map_some]
  unfold Tracks key peerConnectionDelete
  rw [key_update]
  by_cases hfamily : p.addr.family = 0
  · have hne : p.key inetNtop6 ≠ p.addr.ipPort inetNtop6 := by
      rw [Peer.key, if_pos hfamily]
      exact (ipPort_ne_ufragKey _ _).symm
    exact iff_of_false (h.not_erase hkey hne) fun hf ↦ hf hfamily
  · rw [Peer.key, if_neg hfamily] at hkey
    exact iff_of_true (h.erase hkey) hfamily

theorem delete_sound {s : Room} (hs : s.Sound) (pc : ℕ) (p : Peer) :
    (s.peerConnectionDelete inetNtop6 pc p).Sound :=
  hs.update hs.aborted le_rfl (List.Subset.refl _) rfl nofun

theorem datagram_cases (inetNtop6 : Bytes → Bytes) (s : Room) (peeraddr : InetAddress) (packet : Bytes) :
    s.datagram inetNtop6 peeraddr packet = s ∨
    ∃ username pc, s.connections.find (peeraddr.ipPort inetNtop6) = none ∧
      s.connections.find username = some pc ∧
      s.datagram inetNtop6 peeraddr packet = s.bind (peeraddr.ipPort inetNtop6) username peeraddr pc := by
  by_cases hremote : (s.connections.find (peeraddr.ipPort inetNtop6)).isSome
  · exact .inl (by simp only [datagram, hremote, if_true])
  · simp only [datagram, hremote, Bool.false_eq_true, if_false]
    split
    · split
      · split
        · next pc hpc => exact .inr ⟨_, pc, Option.not_isSome_iff_eq_none.mp hremote, hpc, rfl⟩
        · exact .inl rfl
      · exact .inl rfl
    · exact .inl rfl

theorem datagram_spec {s : Room} (h : s.Tracks inetNtop6) (hs : s.Sound) {peeraddr : InetAddress}
    (hfamily : peeraddr.family ≠ 0) (packet : Bytes) :
    (s.datagram inetNtop6 peeraddr packet).Tracks inetNtop6 ∧ (s.datagram inetNtop6 peeraddr packet).Sound := by
  obtain heq | ⟨username, pc, hremote, hpc, heq⟩ := datagram_cases inetNtop6 s peeraddr packet
  · rw [heq]
    exact ⟨h, hs⟩
  · rw [heq]
    exact bind_spec h hs hfamily hremote hpc

theorem step_tracks_iff {s s' : Room} {a : Action} (h : s.Tracks inetNtop6) (hs : s.Sound)
    (ha : s.Admissible a) (hstep : s.step inetNtop6 a = some s') :
    s'.Sound ∧ (s'.Tracks inetNtop6 ↔ s.TerminatesBound a) := by
  simp only [step, hs.aborted, Bool.false_eq_true, if_false] at hstep
  cases a with
  | publish body =>
    obtain rfl := Option.some.inj hstep
    obtain ⟨htracks, hsound⟩ := publish_spec h hs ha.1 ha.2
    exact ⟨hsound, iff_of_true htracks nofun⟩
  | datagram peeraddr packet =>
    obtain rfl := Option.some.inj hstep
    have hfamily : peeraddr.family ≠ 0 := by
      rcases ha with hf | hf <;> (rw [hf]; decide)
    obtain ⟨htracks, hsound⟩ := datagram_spec h hs hfamily packet
    exact ⟨hsound, iff_of_true htracks nofun⟩
  | terminate pc =>
    obtain ⟨p, hp, rfl⟩ := Option.map_eq_some_iff.mp hstep
    refine ⟨delete_sound hs pc p, (delete_tracks_iff h hp).trans ⟨?_, fun hb ↦ hb pc p rfl hp⟩⟩
    rintro hf _ q ⟨⟩ hq
    rwa [← Option.some.inj (hp.symm.trans hq)]

/-- The runs in which `connections_` tracks the live peers in every state that is reached are
those in which only bound peers terminate. -/
theorem run_tracks_iff (inetNtop6 : Bytes → Bytes) (as : List Action) (s : Room) :
    Run (fun s a s' ↦ Guarded (step inetNtop6) Admissible s a s' ∧ s'.Tracks inetNtop6) empty as s ↔
      Run (Guarded (step inetNtop6) fun s a ↦ s.Admissible a ∧ s.TerminatesBound a) empty as s := by
  refine Run.congr_of_invariant (I := fun s ↦ s.Tracks inetNtop6 ∧ s.Sound)
    (fun s a s' hI ↦ ⟨?_, ?_⟩) (fun s a s' hI hu ↦ ?_) ⟨?_, ⟨rfl, nofun⟩⟩
  · rintro ⟨⟨ha, hstep⟩, htracks⟩
    exact ⟨⟨ha, (step_tracks_iff hI.1 hI.2 ha hstep).2.mp htracks⟩, hstep⟩
  · rintro ⟨⟨ha, hbound⟩, hstep⟩
    exact ⟨⟨ha, hstep⟩, (step_tracks_iff hI.1 hI.2 ha hstep).2.mpr hbound⟩
  · obtain ⟨⟨ha, hbound⟩, hstep⟩ := hu
    obtain ⟨hsound, htracks⟩ := step_tracks_iff hI.1 hI.2 ha hstep
    exact ⟨htracks.mpr hbound, hsound⟩
  · exact fun k i ↦ ⟨nofun, nofun⟩

def ufragLine : Bytes := [97, 61, 105, 99, 101, 45, 117, 102, 114, 97, 103, 58, 120, 13, 10]

instance (s : Room) : ∀ a, Decidable (s.Admissible a)
  | .publish body => inferInstanceAs (Decidable (iceUfrag body ≠ [] ∧ iceUfrag body ∉ s.ufrags))
  | .datagram peeraddr _ =>
    inferInstanceAs (Decidable (peeraddr.family = afInet ∨ peeraddr.family = afInet6))
  | .terminate _ => inferInstanceAs (Decidable True)

/-- A peer that terminates before a STUN packet has come leaves its entry behind. -/
theorem publish_terminate_expired :
    ∃ s, Run (Guarded (step id) Admissible) empty [.publish ufragLine, .terminate 0] s ∧
      s.connections.find (ufragKey [120]) = some 0 ∧ s.peers 0 = none := by
  obtain ⟨s, hrun, hs⟩ : ∃ s, Run (Guarded (step id) Admissible) empty [.publish ufragLine, .terminate 0] s ∧
      (s.connections.find (ufragKey [120]), s.peers 0) = (some 0, none) :=
    exists_run_of_foldlM _ (by decide +kernel)
  simp only [Prod.mk.injEq] at hs
  exact ⟨s, hrun, hs⟩

end Room

end Baize.Webrtc
