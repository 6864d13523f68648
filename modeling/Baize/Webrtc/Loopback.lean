import Baize.Dtls.Agreement
import Baize.Webrtc.Echo

namespace Baize.Webrtc

open Baize.Lib Baize.Net Baize.Stun Baize.Dtls Baize.Rtp

theorem SrtpSession.new_of_length {useSrtp : String} {key : Bytes} (h : cipherKeyLen useSrtp = some key.length)
    (type : Bound) : SrtpSession.new true type useSrtp key = some ⟨type, useSrtp, key⟩ := by
  rw [SrtpSession.new, h]
  dsimp only
  rw [if_neg (not_not.mpr rfl), if_pos rfl]

/-- A session that takes off again what an equally keyed one has put on. -/
def Undoes (unprotect protect : SrtpSession → Bytes → Option Bytes) : Prop :=
  ∀ useSrtp key p c, protect ⟨.outBound, useSrtp, key⟩ p = some c → unprotect ⟨.inBound, useSrtp, key⟩ c = some p

theorem Undoes.apply {unprotect protect : SrtpSession → Bytes → Option Bytes} (h : Undoes unprotect protect)
    {useSrtp : String} {key p c : Bytes} (hp : p ≠ [])
    (hc : SrtpSession.apply ⟨.outBound, useSrtp, key⟩ protect p = some c) :
    SrtpSession.apply ⟨.inBound, useSrtp, key⟩ unprotect c = some p := by
  have hplain := h useSrtp key p c (PeerConnection.apply_eq_some hc)
  refine Option.filter_eq_some_iff.mpr ⟨hplain, ?_⟩
  rwa [Bool.not_eq_true', List.isEmpty_eq_false_iff]

namespace PeerConnection

def Action.reads : Action → List SslRead
  | .packet lib _ => [lib.sslRead]
  | _ => []

variable {hmacSha1 : Bytes → Bytes → Bytes} {atoi : Bytes → UInt32} {pc pc' : PeerConnection} {lib : Answers}
  {packet : Bytes} {o : Outcome} {send recv : SrtpSession} {d : DtlsTransport} {datagrams : List Bytes}
  {keyLen saltLen : ℕ} {name : String} {material : Bytes}

def ServerKeys (keyLen saltLen : ℕ) (name : String) (material : Bytes) (pc : PeerConnection) : Prop :=
  ∀ d, pc.dtls = some d → d.Derived keyLen saltLen name material .server

theorem ServerKeys.dtlsTransport (h : ServerKeys keyLen saltLen name material pc)
    (hd : pc.dtlsTransport lib = some d) : d.Derived keyLen saltLen name material .server := by
  unfold PeerConnection.dtlsTransport at hd
  split at hd
  · next d₀ hd₀ =>
    obtain rfl := Option.some.inj hd
    exact h d₀ hd₀
  · obtain ⟨-, hd⟩ := Option.ite_none_right_eq_some.mp hd
    obtain rfl := Option.some.inj hd
    exact DtlsTransport.initializeAs_derived _ _ _ _

section Keys

variable (hlens : DtlsTransport.srtpLens name = some (keyLen, saltLen))
  (hlen : material.length = (keyLen + saltLen) * 2)

include hlens hlen

end Keys

theorem Gated.sessions (hgated : Gated datagrams pc) (hd : pc.dtls = some d)
    (hlocal : cipherKeyLen d.useSrtp = some d.srtpLocalMaster.length)
    (hremote : cipherKeyLen d.useSrtp = some d.srtpRemoteMaster.length)
    (hcreate : ∀ b, lib.srtpCreate b = true) :
    pc.sessions lib d =
      some (⟨.outBound, d.useSrtp, d.srtpLocalMaster⟩, ⟨.inBound, d.useSrtp, d.srtpRemoteMaster⟩) := by
  have horElse (old : Option SrtpSession) (new : SrtpSession) : ∃ s, (old <|> some new) = some s := by
    cases old with
    | none => exact ⟨new, rfl⟩
    | some s => exact ⟨s, rfl⟩
  obtain ⟨send, hsend⟩ := horElse pc.srtpSendSession ⟨.outBound, d.useSrtp, d.srtpLocalMaster⟩
  obtain ⟨recv, hrecv⟩ := horElse pc.srtpRecvSession ⟨.inBound, d.useSrtp, d.srtpRemoteMaster⟩
  have hs : pc.sessions lib d = some (send, recv) := by
    rw [PeerConnection.sessions, hcreate, hcreate, SrtpSession.new_of_length hlocal,
      SrtpSession.new_of_length hremote, hsend, Option.bind_some, hrecv, Option.map_some]
  obtain ⟨rfl, rfl⟩ := hgated.sessions_eq hd hs
  exact hs

end PeerConnection

end Baize.Webrtc
