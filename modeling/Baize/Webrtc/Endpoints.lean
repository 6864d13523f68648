import Baize.Http.Response
import Baize.Lib.Cut
import Baize.Webrtc.Addresses

namespace Baize.Net

open Lib

theorem decimal_injective : Function.Injective decimal :=
  Function.LeftInverse.injective Http.HttpMessage.decimal_decimal

theorem net4_injective : Function.Injective net4 := by
  intro v w h
  have hv : byte4 (net4 v) 0 = v := byte4_of_drop (q := []) (by rw [List.append_nil]; rfl)
  have hw : byte4 (net4 w) 0 = w := byte4_of_drop (q := []) (by rw [List.append_nil]; rfl)
  rw [← hv, h, hw]

namespace InetAddress

/-- The same family, the same port and, for the two families of the server, the same IP address. -/
structure SameEndpoint (a b : InetAddress) : Prop where
  family : a.family = b.family
  port : a.port = b.port
  sinAddr : a.family = afInet → a.sinAddr = b.sinAddr
  sin6Addr : a.family = afInet6 → a.sin6Addr = b.sin6Addr

/-- `inet_ntop` writes different texts for different IPv6 addresses, and no closing bracket. -/
structure Readable (inetNtop6 : Bytes → Bytes) : Prop where
  injective : Function.Injective inetNtop6
  no_bracket : ∀ addr, 93 ∉ inetNtop6 addr

variable {a b : InetAddress} {inetNtop6 : Bytes → Bytes}

theorem notMem_ip4 (a : InetAddress) : 58 ∉ a.ip4 := fun h ↦ absurd (le_of_mem_ip4 h) (by decide)

theorem sinAddr_of_ip4 (h : a.ip4 = b.ip4) : a.sinAddr = b.sinAddr := by
  have hdot (n : ℕ) : 46 ∉ decimal n := Http.HttpMessage.notMem_decimal (by decide)
  have hsplit {m n : ℕ} {r r' : Bytes} (heq : decimal m ++ 46 :: r = decimal n ++ 46 :: r') :
      m = n ∧ r = r' := by
    obtain ⟨hfront, hrest⟩ := append_cons_inj (hdot m) (hdot n) heq
    exact ⟨decimal_injective hfront, hrest⟩
  simp only [ip4, List.append_assoc, List.singleton_append] at h
  obtain ⟨h₀, h⟩ := hsplit h
  obtain ⟨h₁, h⟩ := hsplit h
  obtain ⟨h₂, h⟩ := hsplit h
  have h₃ := decimal_injective h
  apply net4_injective
  have hbytes (v : UInt32) :
      net4 v = [byte1 (net4 v) 0, byte1 (net4 v) 1, byte1 (net4 v) 2, byte1 (net4 v) 3] := rfl
  rw [hbytes a.sinAddr, hbytes b.sinAddr, UInt8.toNat_inj.mp h₀, UInt8.toNat_inj.mp h₁, UInt8.toNat_inj.mp h₂,
    UInt8.toNat_inj.mp h₃]

theorem ipPort_inet (h : a.family = afInet) : a.ipPort inetNtop6 = a.ip4 ++ 58 :: decimal a.port.toNat := by
  rw [ipPort, if_neg (by rw [h]; decide), if_pos h, List.append_assoc, List.singleton_append]

theorem ipPort_inet6 (h : a.family = afInet6) :
    a.ipPort inetNtop6 = 91 :: (inetNtop6 a.sin6Addr ++ 93 :: 58 :: decimal a.port.toNat) := by
  rw [ipPort, if_pos h, List.append_assoc, List.append_assoc]
  rfl

theorem ipPort_inet_ne_inet6 (ha : a.family = afInet) (hb : b.family = afInet6) :
    a.ipPort inetNtop6 ≠ b.ipPort inetNtop6 := by
  intro h
  rw [ipPort_inet ha, ipPort_inet6 hb] at h
  have hmem : (91 : UInt8) ∈ a.ip4 ++ 58 :: decimal a.port.toNat := by
    rw [h]
    exact List.mem_cons_self
  rw [List.mem_append, List.mem_cons] at hmem
  obtain hmem | heq | hmem := hmem
  · exact absurd (le_of_mem_ip4 hmem) (by decide)
  · exact absurd heq (by decide)
  · exact absurd (le_of_mem_decimal hmem) (by decide)

theorem sameEndpoint_of_ipPort (hread : Readable inetNtop6) (ha : a.family = afInet ∨ a.family = afInet6)
    (hb : b.family = afInet ∨ b.family = afInet6) (h : a.ipPort inetNtop6 = b.ipPort inetNtop6) :
    a.SameEndpoint b := by
  obtain ha | ha := ha
  · obtain hb | hb := hb
    · rw [ipPort_inet ha, ipPort_inet hb] at h
      obtain ⟨hip, hport⟩ := append_cons_inj (notMem_ip4 a) (notMem_ip4 b) h
      refine ⟨ha.trans hb.symm, UInt16.toNat_inj.mp (decimal_injective hport), fun _ ↦ sinAddr_of_ip4 hip, ?_⟩
      rw [ha]
      exact fun heq ↦ absurd heq (by decide)
    · exact absurd h (ipPort_inet_ne_inet6 ha hb)
  · obtain hb | hb := hb
    · exact absurd h.symm (ipPort_inet_ne_inet6 hb ha)
    · rw [ipPort_inet6 ha, ipPort_inet6 hb] at h
      obtain ⟨hip, hport⟩ := append_cons_inj (hread.no_bracket _) (hread.no_bracket _) (List.cons.inj h).2
      refine ⟨ha.trans hb.symm, UInt16.toNat_inj.mp (decimal_injective (List.cons.inj hport).2), ?_,
        fun _ ↦ hread.injective hip⟩
      rw [ha]
      exact fun heq ↦ absurd heq (by decide)

end InetAddress

end Baize.Net

namespace Baize.Webrtc.Exchange

open Lib Net

variable {inetNtop6 : Bytes → Bytes} {as : List Action} {s s' : Exchange} {peeraddr : InetAddress}
  {packet : Bytes} {pc : ℕ}

def Families (s : Exchange) : Prop :=
  ∀ pc p, s.room.peers pc = some p → p.addr.family = 0 ∨ p.addr.family = afInet ∨ p.addr.family = afInet6

theorem enqueue_recipient (hrecipient : recipient inetNtop6 s.room peeraddr packet = some pc) {p : Peer}
    (hp : s.room.peers pc = some p) : s.enqueue inetNtop6 (.datagram peeraddr packet) =
      Function.update s.packets pc (s.packets pc ++ [packet]) := by
  simp only [enqueue, hrecipient, hp, Option.isSome_some, if_true]

theorem Families.update {peers : ℕ → Option Peer} (h : s.Families) {o : Option Peer}
    (ho : ∀ p, o = some p → p.addr.family = 0 ∨ p.addr.family = afInet ∨ p.addr.family = afInet6)
    (hpeers : peers = Function.update s.room.peers pc o) (pc' : ℕ) (p : Peer) (hp : peers pc' = some p) :
    p.addr.family = 0 ∨ p.addr.family = afInet ∨ p.addr.family = afInet6 := by
  rw [hpeers] at hp
  by_cases hsame : pc' = pc
  · subst hsame
    rw [Function.update_self] at hp
    exact ho p hp
  · rw [Function.update_of_ne hsame] at hp
    exact h pc' p hp

theorem step_families {a : Action} (h : s.Families) (hstep : Guarded (step inetNtop6) Pre s a s') :
    s'.Families := by
  obtain ⟨hpre, hstep⟩ := hstep
  cases a with
  | server act =>
    obtain ⟨room, hroom, rfl⟩ := Option.map_eq_some_iff.mp hstep
    unfold Room.step at hroom
    split at hroom
    · cases hroom
    cases act with
    | publish body =>
      obtain rfl := Option.some.inj hroom
      unfold Families Room.publish
      dsimp only
      split_ifs
      · exact h
      · exact h.update (fun p hp ↦ .inl (by rw [← Option.some.inj hp]; rfl)) rfl
    | terminate pc =>
      obtain ⟨p, -, rfl⟩ := Option.map_eq_some_iff.mp hroom
      exact h.update (fun p hp ↦ by cases hp) rfl
    | datagram peeraddr packet =>
      obtain rfl := Option.some.inj hroom
      unfold Families
      dsimp only
      obtain heq | ⟨username, pc, -, -, heq⟩ := Room.datagram_cases inetNtop6 s.room peeraddr packet
      · rw [heq]
        exact h
      · rw [heq]
        refine h.update (fun p hp ↦ ?_) rfl
        obtain ⟨q, -, rfl⟩ := Option.map_eq_some_iff.mp hp
        exact .inr hpre
  | processPacket pc =>
    unfold step at hstep
    dsimp only at hstep
    split at hstep
    · obtain rfl := Option.some.inj hstep
      exact h
    · cases hstep
  | asyncSend pc packet =>
    unfold step at hstep
    dsimp only at hstep
    split at hstep
    · split_ifs at hstep
      obtain rfl := Option.some.inj hstep
      exact h
    · cases hstep

/-- In every run, a datagram is queued for one peer at most, and that peer is then bound to the endpoint
that the datagram came from: no peer is given what another endpoint has sent. -/
theorem run_receives_from_bound (hread : InetAddress.Readable inetNtop6)
    (hrun : Run (Guarded (step inetNtop6) Pre) empty as s)
    (hstep : Guarded (step inetNtop6) Pre s (.server (.datagram peeraddr packet)) s')
    (hqueued : s'.packets pc ≠ s.packets pc) :
    s'.packets = Function.update s.packets pc (s.packets pc ++ [packet]) ∧
      ∃ p, s'.room.peers pc = some p ∧ p.addr.SameEndpoint peeraddr := by
  have hinv := hrun.invariant_history (fun a ↦ [a]) (l := []) (I := Inv inetNtop6)
    (fun _ _ _ _ h hstep ↦ step_inv h hstep) empty_inv
  have hfamilies : s.Families :=
    hrun.invariant (fun _ _ _ h hstep ↦ step_families h hstep) fun _ _ hp ↦ by cases hp
  obtain ⟨hpre, hstep⟩ := hstep
  obtain ⟨room, hroom, rfl⟩ := Option.map_eq_some_iff.mp hstep
  unfold Room.step at hroom
  split at hroom
  · cases hroom
  obtain rfl := Option.some.inj hroom
  dsimp only at hqueued ⊢
  cases hrecipient : recipient inetNtop6 s.room peeraddr packet with
  | none => exact absurd (congrFun (enqueue_of_none hrecipient) pc) hqueued
  | some pc₀ =>
    obtain rfl := enqueue_datagram hrecipient hqueued
    cases hp : s.room.peers pc with
    | none =>
      simp only [enqueue, hrecipient, hp, Option.isSome_none, Bool.false_eq_true, if_false, ne_eq, not_true]
        at hqueued
    | some p =>
      refine ⟨enqueue_recipient hrecipient hp, ?_⟩
      obtain ⟨pc₁, hentry, hpc₁, heq⟩ | ⟨hnone, -⟩ | ⟨username, pc₁, -, -, -, hpc₁, heq⟩ :=
        datagram_recipient inetNtop6 s.room peeraddr packet
      · obtain rfl := Option.some.inj (hrecipient.symm.trans hpc₁)
        rw [heq]
        refine ⟨p, hp, ?_⟩
        have hne := hinv.family_ne hentry hp
        have hkey := hinv.entry_key _ pc p hentry hp
        rw [Peer.key, if_neg hne] at hkey
        exact InetAddress.sameEndpoint_of_ipPort hread ((hfamilies pc p hp).resolve_left hne) hpre hkey.symm
      · cases hrecipient.symm.trans hnone
      · obtain rfl := Option.some.inj (hrecipient.symm.trans hpc₁)
        rw [heq]
        refine ⟨{ p with addr := peeraddr }, ?_, rfl, rfl, fun _ ↦ rfl, fun _ ↦ rfl⟩
        simp only [Room.bind, Function.update_self, hp, Option.map_some]

def nibbles (addr : Bytes) : Bytes := addr.flatMap fun b ↦ [b / 16, b % 16]

theorem nibbles_readable : InetAddress.Readable nibbles where
  injective := by
    intro l
    induction l with
    | nil =>
      intro l' h
      cases l' with
      | nil => rfl
      | cons b l' => cases h
    | cons a l ih =>
      intro l' h
      cases l' with
      | nil => cases h
      | cons b l' =>
        obtain ⟨hdiv, h⟩ := List.cons.inj h
        obtain ⟨hmod, h⟩ := List.cons.inj h
        have hdiv := congrArg UInt8.toNat hdiv
        have hmod := congrArg UInt8.toNat hmod
        simp only [UInt8.toNat_div, UInt8.toNat_mod, UInt8.reduceToNat] at hdiv hmod
        have hab : a = b := UInt8.toNat_inj.mp (by omega)
        rw [hab, ih h]
  no_bracket := by
    intro addr hmem
    obtain ⟨b, -, hb⟩ := List.mem_flatMap.mp hmem
    have hlt := b.toNat_lt
    rw [List.mem_cons, List.mem_singleton] at hb
    obtain hb | hb := hb
    · have := congrArg UInt8.toNat hb
      simp only [UInt8.toNat_div, UInt8.reduceToNat] at this
      omega
    · have := congrArg UInt8.toNat hb
      simp only [UInt8.toNat_mod, UInt8.reduceToNat] at this
      omega

def bound : List Action :=
  [.server (.publish Room.ufragLine), .server (.datagram publisher (naming (ufragKey [120])))]

theorem run_receives_from_bound_bound : ∃ s s', Run (Guarded (step nibbles) Pre) empty bound s ∧
    Guarded (step nibbles) Pre s (.server (.datagram publisher [1])) s' ∧
    ∃ p, s'.room.peers 0 = some p ∧ p.addr.SameEndpoint publisher := by
  have hsteps : (bound.foldlM (fun s a ↦ if Pre s a then step nibbles s a else none) empty).map
      (fun s ↦ (s.packets 0, (step nibbles s (.server (.datagram publisher [1]))).map fun s' ↦ s'.packets 0)) =
        some ([naming (ufragKey [120])], some [naming (ufragKey [120]), [1]]) := by
    decide +kernel
  obtain ⟨s, hrun, hobs⟩ := exists_run_of_foldlM _ hsteps
  obtain ⟨hbefore, hafter⟩ := Prod.mk.inj hobs
  obtain ⟨s', hs', hpackets⟩ := Option.map_eq_some_iff.mp hafter
  have hstep : Guarded (step nibbles) Pre s (.server (.datagram publisher [1])) s' := ⟨.inl rfl, hs'⟩
  have hqueued : s'.packets 0 ≠ s.packets 0 := by
    rw [hpackets, hbefore]
    exact fun h ↦ by cases (List.cons.inj h).2
  exact ⟨s, s', hrun, hstep, (run_receives_from_bound nibbles_readable hrun hstep hqueued).2⟩

end Baize.Webrtc.Exchange
