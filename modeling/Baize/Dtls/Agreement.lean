import Baize.Dtls.Masters
import Baize.Dtls.Persistence

namespace Baize.Dtls.DtlsTransport

open Baize.Lib

/-- If the library has agreed on a profile and exports, then it is `name`, and `material` is exported. -/
def Agrees (name : String) (material : Bytes) (s : SslRead) : Prop :=
  s.profile.isSome = true → s.exportRet = 1 → Exports s name material

instance (name : String) (material : Bytes) (s : SslRead) : Decidable (Agrees name material s) :=
  decidable_of_iff (s.profile.isSome = true → s.exportRet = 1 →
      s.profile = some name ∧ s.exportRet = 1 ∧ s.exported = material)
    ⟨fun h hp he ↦ ⟨(h hp he).1, (h hp he).2.1, (h hp he).2.2⟩,
      fun h hp he ↦ ⟨(h hp he).profile, (h hp he).exportRet, (h hp he).exported⟩⟩

variable {keyLen saltLen : ℕ} {name : String} {material : Bytes} {own : Role}
  {t t' : DtlsTransport} {s : SslRead}

def localAt (keyLen saltLen : ℕ) (role : Role) : List ℕ :=
  positions (keyPointers keyLen saltLen role).localKey (keyPointers keyLen saltLen role).localSalt keyLen saltLen

def remoteAt (keyLen saltLen : ℕ) (role : Role) : List ℕ :=
  positions (keyPointers keyLen saltLen role).remoteKey
    (keyPointers keyLen saltLen role).remoteSalt keyLen saltLen

structure Derived (keyLen saltLen : ℕ) (name : String) (material : Bytes) (own : Role) (t : DtlsTransport) :
    Prop where
  arrays : t.Arrays
  role : t.role = own
  keyed : t.state = .connected ∨ t.state = .closed →
    Keyed name (bytesAt material (localAt keyLen saltLen own)) (bytesAt material (remoteAt keyLen saltLen own)) t

section Role

theorem sendBioData_role (t : DtlsTransport) : t.sendBioData.role = t.role := by
  unfold sendBioData
  split <;> rfl

theorem sendBioData_state (t : DtlsTransport) : t.sendBioData.state = t.state := (sendBioData_same t).state

theorem handleTimeout_keeps {update : DtlsTransport → DtlsTransport}
    (hupdate : ∀ t, (update t).role = t.role ∧ ((update t).state = t.state ∨ (update t).state = .failed))
    (c : SslCall) (t : DtlsTransport) : (handleTimeout update c t).role = t.role ∧
      ((handleTimeout update c t).state = t.state ∨ (handleTimeout update c t).state = .failed) := by
  unfold handleTimeout
  split_ifs
  · exact ⟨rfl, .inl rfl⟩
  · obtain ⟨hrole, hstate⟩ := hupdate (t.ssl c).sendBioData
    rw [sendBioData_role] at hrole
    rw [sendBioData_state] at hstate
    exact ⟨hrole, hstate⟩
  · exact ⟨rfl, .inr rfl⟩
  · exact ⟨rfl, .inl rfl⟩

theorem updateTimeout_keeps (as : List SslTimeout) (t : DtlsTransport) : (updateTimeout as t).role = t.role ∧
    ((updateTimeout as t).state = t.state ∨ (updateTimeout as t).state = .failed) := by
  induction as generalizing t with
  | nil =>
    unfold updateTimeout
    split_ifs
    · exact ⟨rfl, .inl rfl⟩
    · exact ⟨rfl, .inl rfl⟩
  | cons a as ih =>
    unfold updateTimeout
    split_ifs
    · exact ⟨rfl, .inl rfl⟩
    · exact handleTimeout_keeps ih a.handled t
    · exact ⟨rfl, .inl rfl⟩
    · exact ⟨rfl, .inr rfl⟩

theorem extractSrtpKey_role (t : DtlsTransport) (s : SslRead) : (t.extractSrtpKey s).2.role = t.role := by
  unfold extractSrtpKey
  split
  · rfl
  · split
    · rfl
    · dsimp only
      split <;> rfl

theorem checkStatus_role (t : DtlsTransport) (s : SslRead) : (t.checkStatus s).2.role = t.role := by
  unfold checkStatus
  split_ifs
  · exact extractSrtpKey_role { t with extractSrtpKey_ := true, timer := none } s
  · rfl
  · rfl
  · rfl

theorem processDtlsPacket_role (t : DtlsTransport) (s : SslRead) : (t.processDtlsPacket s).role = t.role := by
  have hcheck := checkStatus_role (t.ssl s.read).sendBioData s
  rw [sendBioData_role] at hcheck
  unfold processDtlsPacket
  split_ifs
  · rfl
  · dsimp only
    split
    · exact (updateTimeout_keeps _ _).1.trans hcheck
    · exact hcheck

end Role

theorem extractSrtpKey_exports (h : (t.extractSrtpKey s).1 = true) :
    s.profile = some (t.extractSrtpKey s).2.useSrtp ∧ s.exportRet = 1 := by
  unfold extractSrtpKey at h ⊢
  cases hprofile : s.profile with
  | none =>
    rw [hprofile] at h
    cases h
  | some name =>
    rw [hprofile] at h
    dsimp only at h ⊢
    cases hlens : srtpLens name with
    | none =>
      rw [hlens] at h
      cases h
    | some lens =>
      rw [hlens] at h
      dsimp only at h ⊢
      by_cases hret : s.exportRet = 1
      · rw [if_neg (not_not.mpr hret)]
        exact ⟨rfl, hret⟩
      · rw [if_pos hret] at h
        cases h

theorem processDtlsPacket_arrays (h : t.Arrays) (s : SslRead) : (t.processDtlsPacket s).Arrays := by
  have hcheck := checkStatus_arrays ((sendBioData_same _).arrays ((ssl_same t s.read).arrays h)) s
  unfold processDtlsPacket
  split
  · exact h
  · dsimp only
    split
    · exact updateTimeout_arrays _ hcheck
    · exact hcheck

section Derive

variable (hlens : srtpLens name = some (keyLen, saltLen)) (hlen : material.length = (keyLen + saltLen) * 2)

include hlens hlen

theorem extractSrtpKey_keyed (ht : t.Arrays) (hs : Agrees name material s) (hdone : t.handshakeDone = true)
    (hok : (t.extractSrtpKey s).1 = true) :
    Keyed name (bytesAt material (localAt keyLen saltLen t.role))
      (bytesAt material (remoteAt keyLen saltLen t.role)) (t.extractSrtpKey s).2 := by
  obtain ⟨hprofile, hret⟩ := extractSrtpKey_exports hok
  have hexports := hs (by rw [hprofile]; rfl) hret
  have hall : ExportsAll s := by
    intro name' keyLen' saltLen' hprofile' hlens' _
    obtain rfl := Option.some.inj (hexports.profile.symm.trans hprofile')
    obtain ⟨rfl, rfl⟩ := Prod.mk.inj (Option.some.inj (hlens.symm.trans hlens'))
    rw [hexports.exported, hlen]
  obtain ⟨t', ht', -, hlocal, hremote⟩ := extractSrtpKeyCopies_masters ht hlens hexports hlen
  rw [extractSrtpKeyCopies_eq ht hall] at ht'
  obtain ⟨hframe, hspec⟩ := extractSrtpKey_spec t s
  rw [if_pos hok] at hspec
  refine ⟨.inl hspec.1, hframe.done.trans hdone, ?_, ?_, ?_⟩
  · exact Option.some.inj (hprofile.symm.trans hexports.profile)
  · rw [Except.ok.inj ht']
    exact hlocal
  · rw [Except.ok.inj ht']
    exact hremote

theorem checkStatus_keyed (ht : t.Arrays) (hs : Agrees name material s) (hstate : t.state = .connecting)
    (h : (t.checkStatus s).2.state = .connected ∨ (t.checkStatus s).2.state = .closed) :
    Keyed name (bytesAt material (localAt keyLen saltLen t.role))
      (bytesAt material (remoteAt keyLen saltLen t.role)) (t.checkStatus s).2 := by
  unfold checkStatus at h ⊢
  split_ifs at h ⊢ with hkey hbad hconn
  · obtain ⟨hdone, -⟩ := (Bool.and_eq_true _ _).mp hkey
    obtain ⟨-, hspec⟩ := extractSrtpKey_spec { t with extractSrtpKey_ := true, timer := none } s
    by_cases hok : (extractSrtpKey { t with extractSrtpKey_ := true, timer := none } s).1 = true
    · have hk := extractSrtpKey_keyed (t := { t with extractSrtpKey_ := true, timer := none }) hlens hlen
        ⟨ht.localMaster, ht.remoteMaster⟩ hs hdone hok
      exact ⟨hk.state, hk.done, hk.useSrtp, hk.localMaster, hk.remoteMaster⟩
    · rw [if_neg hok] at hspec
      have hsame : (extractSrtpKey { t with extractSrtpKey_ := true, timer := none } s).2.state = .connecting :=
        hspec.1.trans hstate
      rcases h with h | h
      · cases hsame.symm.trans h
      · cases hsame.symm.trans h
  · cases hstate.symm.trans hconn
  · rcases h with h | h
    · cases h
    · cases h
  · rcases h with h | h
    · cases hstate.symm.trans h
    · cases hstate.symm.trans h

theorem processDtlsPacket_keyed (ht : t.Arrays) (hs : Agrees name material s) (hstate : t.state = .connecting)
    (h : (t.processDtlsPacket s).state = .connected ∨ (t.processDtlsPacket s).state = .closed) :
    Keyed name (bytesAt material (localAt keyLen saltLen t.role))
      (bytesAt material (remoteAt keyLen saltLen t.role)) (t.processDtlsPacket s) := by
  have hsame := (ssl_same t s.read).trans (sendBioData_same _)
  have hrole : (t.ssl s.read).sendBioData.role = t.role := sendBioData_role _
  have hcheck := checkStatus_keyed hlens hlen (hsame.arrays ht) hs (hsame.state.trans hstate)
  rw [hrole] at hcheck
  have hrun : t.isRunning = true := by rw [isRunning, hstate]; rfl
  rw [processDtlsPacket, hrun, Bool.not_true, if_neg Bool.false_ne_true] at h ⊢
  generalize checkStatus (t.ssl s.read).sendBioData s = x at h hcheck ⊢
  obtain ⟨ok, t'⟩ := x
  cases ok with
  | false => exact hcheck h
  | true =>
    have hafter : (updateTimeout s.timeouts t').state = .connected ∨
      (updateTimeout s.timeouts t').state = .closed := h
    have hbefore : t'.state = .connected ∨ t'.state = .closed := by
      rcases (updateTimeout_keeps s.timeouts t').2 with heq | hfailed
      · rwa [heq] at hafter
      · rw [hfailed] at hafter
        rcases hafter with h | h
        · cases h
        · cases h
    have hk := hcheck hbefore
    dsimp only
    rw [if_pos rfl, updateTimeout_of_done s.timeouts hk.done]
    exact hk

theorem Derived.processDtlsPacket (ht : t.Stage) (h : Derived keyLen saltLen name material own t)
    (hs : Agrees name material s) : Derived keyLen saltLen name material own (t.processDtlsPacket s) where
  arrays := processDtlsPacket_arrays h.arrays s
  role := (processDtlsPacket_role t s).trans h.role
  keyed hstate := by
    by_cases hkeyed : t.state = .connected ∨ t.state = .closed
    · exact (h.keyed hkeyed).processDtlsPacket ht s
    by_cases hrun : t.isRunning = true
    · have hconnecting : t.state = .connecting := by
        rw [isRunning, Bool.or_eq_true, decide_eq_true_eq, decide_eq_true_eq] at hrun
        exact hrun.resolve_right fun hconn ↦ hkeyed (.inl hconn)
      have hk := processDtlsPacket_keyed hlens hlen h.arrays hs hconnecting hstate
      rwa [h.role] at hk
    · rw [processDtlsPacket_of_stopped (Bool.eq_false_iff.mpr hrun)] at hstate ⊢
      exact h.keyed hstate

omit hlens hlen in
theorem Derived.onTimer (h : Derived keyLen saltLen name material own t) (c : SslCall)
    (timeouts : List SslTimeout) : Derived keyLen saltLen name material own (t.onTimer c timeouts) where
  arrays := handleTimeout_arrays (t := { t with timer := none }) (fun _ h ↦ updateTimeout_arrays timeouts h)
    ⟨h.arrays.localMaster, h.arrays.remoteMaster⟩ c
  role := (handleTimeout_keeps (updateTimeout_keeps timeouts) c { t with timer := none }).1.trans h.role
  keyed hstate := by
    have hbefore : t.state = .connected ∨ t.state = .closed := by
      rcases (handleTimeout_keeps (updateTimeout_keeps timeouts) c { t with timer := none }).2 with heq | hfailed
      · rwa [show (t.onTimer c timeouts).state = t.state from heq] at hstate
      · rw [show (t.onTimer c timeouts).state = .failed from hfailed] at hstate
        rcases hstate with h | h
        · cases h
        · cases h
    exact (h.keyed hbefore).onTimer c timeouts

omit hlens hlen in
theorem initializeAs_derived (r own : Role) (c : SslCall) (timeouts : List SslTimeout) :
    Derived keyLen saltLen name material own ((fresh r).initializeAs own c timeouts) where
  arrays := initializeAs_arrays (fresh_arrays r) own c timeouts
  role := by
    cases own with
    | client => exact (updateTimeout_keeps timeouts _).1.trans (sendBioData_role _)
    | server => rfl
  keyed hstate := by
    have hno : ((fresh r).initializeAs own c timeouts).state = .connecting ∨
        ((fresh r).initializeAs own c timeouts).state = .failed := by
      cases own with
      | client =>
        rcases (updateTimeout_keeps timeouts
          (({ fresh r with role := .client }.setState .connecting).ssl c).sendBioData).2 with heq | hfailed
        · exact .inl (heq.trans (sendBioData_state _))
        · exact .inr hfailed
      | server => exact .inl rfl
    rcases hno with hno | hno <;> rw [hno] at hstate <;> rcases hstate with h | h <;> cases h

def Action.reads : Action → List SslRead
  | .packet s => [s]
  | .timer _ _ => []

end Derive

end Baize.Dtls.DtlsTransport
