import Baize.Dtls.States
import Baize.Util.Reads

namespace Baize.Dtls.DtlsTransport

open Baize.Lib

/-- The pointers of `ExtractSrtpKey`, as offsets into `srtp_material`. -/
structure KeyPointers where
  localKey : ℕ
  localSalt : ℕ
  remoteKey : ℕ
  remoteSalt : ℕ

def keyPointers (srtpKeyLen srtpSaltLen : ℕ) : Role → KeyPointers
  | .server =>
    let remoteKey := 0
    let localKey := remoteKey + srtpKeyLen
    let remoteSalt := localKey + srtpKeyLen
    let localSalt := remoteSalt + srtpSaltLen
    ⟨localKey, localSalt, remoteKey, remoteSalt⟩
  | .client =>
    let localKey := 0
    let remoteKey := localKey + srtpKeyLen
    let localSalt := remoteKey + srtpKeyLen
    let remoteSalt := localSalt + srtpSaltLen
    ⟨localKey, localSalt, remoteKey, remoteSalt⟩

def memcpyFrom (dst : Bytes) (i : ℕ) (src : Bytes) (j n : ℕ) : Checked Bytes := do
  let bytes ← readSpan src j n
  check (i + n ≤ dst.length) .outOfBounds
  pure (memcpy dst i bytes)

def copyMaster (master material : Bytes) (key salt keyLen saltLen : ℕ) : Checked Bytes := do
  let master ← memcpyFrom master 0 material key keyLen
  memcpyFrom master keyLen material salt saltLen

def extractSrtpKeyCopies (t : DtlsTransport) (s : SslRead) : Checked (Bool × DtlsTransport) :=
  match s.profile with
  | none => pure (false, t)
  | some name =>
    match srtpLens name with
    | none => pure (false, { t with useSrtp := name })
    | some (keyLen, saltLen) =>
      let t := { t with useSrtp := name, srtpMasterLen := keyLen + saltLen }
      if s.exportRet ≠ 1 then pure (false, t)
      else do
        -- the library writes as many bytes as it is asked for
        let material ← memcpyFrom (List.replicate 64 0) 0 s.exported 0 (t.srtpMasterLen * 2)
        let p := keyPointers keyLen saltLen t.role
        let localMaster ← copyMaster t.srtpLocalMaster_ material p.localKey p.localSalt keyLen saltLen
        let remoteMaster ← copyMaster t.srtpRemoteMaster_ material p.remoteKey p.remoteSalt keyLen saltLen
        pure (true,
          { t with srtpLocalMaster_ := localMaster, srtpRemoteMaster_ := remoteMaster }.setState .connected)

structure Arrays (t : DtlsTransport) : Prop where
  localMaster : t.srtpLocalMaster_.length = 64
  remoteMaster : t.srtpRemoteMaster_.length = 64

theorem length_memcpy {dst src : Bytes} {i : ℕ} (h : i + src.length ≤ dst.length) :
    (memcpy dst i src).length = dst.length := by
  simp only [memcpy, List.length_append, List.length_take, List.length_drop]
  omega

theorem memcpyFrom_of {dst src : Bytes} {i j n : ℕ} (hdst : i + n ≤ dst.length) (hsrc : j + n ≤ src.length) :
    memcpyFrom dst i src j n = .ok (memcpy dst i ((src.drop j).take n)) := by
  rw [memcpyFrom, readSpan_of hsrc, ok_bind, check_of hdst]
  rfl

theorem length_span {src : Bytes} {j n : ℕ} (h : j + n ≤ src.length) : ((src.drop j).take n).length = n := by
  rw [List.length_take, List.length_drop]
  omega

theorem copyMaster_of {master material : Bytes} {key salt keyLen saltLen : ℕ}
    (hmaster : keyLen + saltLen ≤ master.length) (hkey : key + keyLen ≤ material.length)
    (hsalt : salt + saltLen ≤ material.length) :
    copyMaster master material key salt keyLen saltLen =
      .ok (memcpy (memcpy master 0 ((material.drop key).take keyLen)) keyLen
        ((material.drop salt).take saltLen)) := by
  have hlen : (memcpy master 0 ((material.drop key).take keyLen)).length = master.length :=
    length_memcpy (by rw [length_span hkey]; omega)
  rw [copyMaster, memcpyFrom_of (by omega) hkey, ok_bind, memcpyFrom_of (by rw [hlen]; exact hmaster) hsalt]

theorem srtpLens_le {name : String} {keyLen saltLen : ℕ} (h : srtpLens name = some (keyLen, saltLen)) :
    keyLen = 16 ∧ saltLen ≤ 14 := by
  unfold srtpLens at h
  split_ifs at h
  · obtain ⟨rfl, rfl⟩ := Prod.mk.inj (Option.some.inj h)
    exact ⟨rfl, by decide⟩
  · obtain ⟨rfl, rfl⟩ := Prod.mk.inj (Option.some.inj h)
    exact ⟨rfl, le_rfl⟩

theorem fresh_arrays (role : Role) : (fresh role).Arrays := ⟨rfl, rfl⟩

theorem SameStage.arrays {t t' : DtlsTransport} (h : SameStage t t') (ht : t.Arrays) : t'.Arrays :=
  ⟨by rw [h.localMaster, ht.localMaster], by rw [h.remoteMaster, ht.remoteMaster]⟩

theorem Arrays.setState {t : DtlsTransport} (h : t.Arrays) (state : DtlsState) : (t.setState state).Arrays :=
  ⟨h.localMaster, h.remoteMaster⟩

theorem handleTimeout_arrays {update : DtlsTransport → DtlsTransport}
    (hupdate : ∀ t, t.Arrays → (update t).Arrays)
    {t : DtlsTransport} (h : t.Arrays) (c : SslCall) : (handleTimeout update c t).Arrays := by
  have hssl := (ssl_same t c).arrays h
  unfold handleTimeout
  split_ifs
  · exact h
  · exact hupdate _ ((sendBioData_same _).arrays hssl)
  · exact hssl.setState .failed
  · exact hssl

theorem updateTimeout_arrays (as : List SslTimeout) {t : DtlsTransport} (h : t.Arrays) :
    (updateTimeout as t).Arrays := by
  induction as generalizing t with
  | nil =>
    rw [updateTimeout]
    split_ifs
    · exact h
    · exact ⟨h.localMaster, h.remoteMaster⟩
  | cons a as ih =>
    rw [updateTimeout]
    split_ifs
    · exact h
    · exact handleTimeout_arrays (fun _ ht ↦ ih ht) h a.handled
    · exact ⟨h.localMaster, h.remoteMaster⟩
    · exact h.setState .failed

theorem length_setMaster {master key salt : Bytes} {keyLen : ℕ} (hkey : key.length ≤ keyLen)
    (hroom : keyLen + salt.length ≤ master.length) :
    (memcpy (memcpy master 0 key) keyLen salt).length = master.length := by
  have hlen : (memcpy master 0 key).length = master.length := length_memcpy (by omega)
  rw [length_memcpy (by omega), hlen]

theorem setMasters_arrays {t : DtlsTransport} (h : t.Arrays) (material : Bytes) {keyLen saltLen : ℕ}
    (hlen : keyLen + saltLen ≤ 64) : (t.setMasters material keyLen saltLen).Arrays := by
  have hkey (q : Bytes) : (q.take keyLen).length ≤ keyLen := List.length_take_le _ _
  have hsalt (q : Bytes) : keyLen + (q.take saltLen).length ≤ 64 :=
    (Nat.add_le_add_left (List.length_take_le _ _) _).trans hlen
  have hl := h.localMaster
  have hr := h.remoteMaster
  unfold setMasters
  cases t.role with
  | server | client =>
    exact ⟨(length_setMaster (hkey _) (hl ▸ hsalt _)).trans hl,
      (length_setMaster (hkey _) (hr ▸ hsalt _)).trans hr⟩

theorem extractSrtpKey_arrays {t : DtlsTransport} (h : t.Arrays) (s : SslRead) :
    (t.extractSrtpKey s).2.Arrays := by
  unfold extractSrtpKey
  split
  · exact h
  · split
    · exact ⟨h.localMaster, h.remoteMaster⟩
    · next keyLen saltLen hlens =>
      obtain ⟨hkey, hsalt⟩ := srtpLens_le hlens
      dsimp only
      split
      · exact ⟨h.localMaster, h.remoteMaster⟩
      · have hlen : keyLen + saltLen ≤ 64 := by omega
        refine (setMasters_arrays ?_ _ hlen).setState .connected
        exact ⟨h.localMaster, h.remoteMaster⟩

theorem checkStatus_arrays {t : DtlsTransport} (h : t.Arrays) (s : SslRead) : (t.checkStatus s).2.Arrays := by
  unfold checkStatus
  split
  · have hkey := extractSrtpKey_arrays (t := { t with extractSrtpKey_ := true, timer := none })
      ⟨h.localMaster, h.remoteMaster⟩ s
    exact ⟨hkey.localMaster, hkey.remoteMaster⟩
  · split
    · exact h.setState _
    · exact h

theorem step_arrays {t t' : DtlsTransport} {a : Action} (h : t.Arrays) (hstep : t.step a = some t') :
    t'.Arrays := by
  obtain ⟨-, hs⟩ := Option.ite_none_left_eq_some.mp hstep
  cases a with
  | packet s =>
    obtain rfl := Option.some.inj hs
    have hcheck := checkStatus_arrays ((sendBioData_same _).arrays ((ssl_same t s.read).arrays h)) s
    unfold processDtlsPacket
    split
    · exact h
    · dsimp only
      split
      · exact updateTimeout_arrays _ hcheck
      · exact hcheck
  | timer c timeouts =>
    obtain rfl := Option.some.inj hs
    have hnone : Arrays { t with timer := none } := ⟨h.localMaster, h.remoteMaster⟩
    exact handleTimeout_arrays (fun _ ht ↦ updateTimeout_arrays timeouts ht) hnone c

theorem initializeAs_arrays {t : DtlsTransport} (h : t.Arrays) (role : Role) (c : SslCall)
    (timeouts : List SslTimeout) : (t.initializeAs role c timeouts).Arrays := by
  unfold initializeAs
  cases role with
  | client => exact updateTimeout_arrays _ ((sendBioData_same _).arrays ⟨h.localMaster, h.remoteMaster⟩)
  | server => exact ⟨h.localMaster, h.remoteMaster⟩

theorem run_arrays {r role : Role} {c : SslCall} {timeouts : List SslTimeout} {as : List Action}
    {t : DtlsTransport}
    (hrun : Run (fun t a t' ↦ t.step a = some t') ((fresh r).initializeAs role c timeouts) as t) : t.Arrays :=
  hrun.invariant (fun _ _ _ h hs ↦ step_arrays h hs) (initializeAs_arrays (fresh_arrays r) role c timeouts)

def ExportsAll (s : SslRead) : Prop :=
  ∀ name keyLen saltLen, s.profile = some name → srtpLens name = some (keyLen, saltLen) → s.exportRet = 1 →
    s.exported.length = (keyLen + saltLen) * 2

/-- All accesses are inside the arrays, and the pointers cut the material as it is meant. -/
theorem extractSrtpKeyCopies_eq {t : DtlsTransport} (ht : t.Arrays) {s : SslRead} (hexp : ExportsAll s) :
    t.extractSrtpKeyCopies s = .ok (t.extractSrtpKey s) := by
  unfold extractSrtpKeyCopies extractSrtpKey
  cases hprofile : s.profile with
  | none => rfl
  | some name =>
    dsimp only
    cases hlens : srtpLens name with
    | none => rfl
    | some lens =>
      obtain ⟨keyLen, saltLen⟩ := lens
      dsimp only
      by_cases hret : s.exportRet = 1
      · have hexported := hexp name keyLen saltLen hprofile hlens hret
        obtain ⟨hkey, hsalt⟩ := srtpLens_le hlens
        have hmaterial : memcpyFrom (List.replicate 64 0) 0 s.exported 0 ((keyLen + saltLen) * 2) =
            .ok (memcpy (List.replicate 64 0) 0 (s.exported.take ((keyLen + saltLen) * 2))) :=
          memcpyFrom_of (by rw [List.length_replicate]; omega) (by omega)
        rw [if_neg (not_not.mpr hret), if_neg (not_not.mpr hret), hmaterial, ok_bind]
        have hlen : (memcpy (List.replicate 64 0) 0 (s.exported.take ((keyLen + saltLen) * 2))).length = 64 := by
          rw [length_memcpy, List.length_replicate]
          rw [List.length_replicate, List.length_take]
          omega
        generalize memcpy (List.replicate 64 0) 0 (s.exported.take ((keyLen + saltLen) * 2)) = material at hlen
        have hl : keyLen + saltLen ≤ t.srtpLocalMaster_.length := by rw [ht.localMaster]; omega
        have hr : keyLen + saltLen ≤ t.srtpRemoteMaster_.length := by rw [ht.remoteMaster]; omega
        unfold setMasters keyPointers
        dsimp only
        cases t.role with
        | server | client =>
          dsimp only
          rw [copyMaster_of hl (by omega) (by omega), ok_bind, copyMaster_of hr (by omega) (by omega), ok_bind]
          simp only [Nat.zero_add, Nat.two_mul, List.drop_zero]
          rfl
      · rw [if_pos hret, if_pos hret]
        rfl

/-- In no run does `ExtractSrtpKey` reach outside of an array. -/
theorem run_copies {r role : Role} {c : SslCall} {timeouts : List SslTimeout} {as : List Action}
    {t : DtlsTransport}
    (hrun : Run (fun t a t' ↦ t.step a = some t') ((fresh r).initializeAs role c timeouts) as t) {s : SslRead}
    (hs : ExportsAll s) : t.extractSrtpKeyCopies s = .ok (t.extractSrtpKey s) :=
  extractSrtpKeyCopies_eq (run_arrays hrun) hs

/-- The library has agreed on the profile `name` and exports `material`. -/
structure Exports (s : SslRead) (name : String) (material : Bytes) : Prop where
  profile : s.profile = some name
  exportRet : s.exportRet = 1
  exported : s.exported = material

def bytesAt (material : Bytes) (positions : List ℕ) : Bytes := positions.map fun i ↦ material.getD i 0

theorem span_eq_bytesAt {material : Bytes} {j n : ℕ} (h : j + n ≤ material.length) :
    (material.drop j).take n = bytesAt material (List.range' j n) := by
  apply List.ext_getElem
  · rw [length_span h, bytesAt, List.length_map, List.length_range']
  · intro i hi _
    rw [length_span h] at hi
    have hlt : j + i < material.length := by omega
    simp only [bytesAt, List.getElem_take, List.getElem_drop, List.getElem_map, List.getElem_range', Nat.one_mul]
    rw [List.getD_eq_getElem?_getD, List.getElem?_eq_getElem hlt, Option.getD_some]

theorem span_memcpy {dst src : Bytes} {j n : ℕ} (h : j + n ≤ src.length) :
    ((memcpy dst 0 src).drop j).take n = (src.drop j).take n := by
  rw [memcpy, List.take_zero, List.nil_append, List.drop_append_of_le_length (by omega),
    List.take_append_of_le_length (by rw [List.length_drop]; omega)]

theorem take_memcpy_memcpy (dst key salt : Bytes) :
    (memcpy (memcpy dst 0 key) key.length salt).take (key.length + salt.length) = key ++ salt := by
  have hkey : (memcpy dst 0 key).take key.length = key := by
    rw [memcpy, List.take_zero, List.nil_append, List.take_left]
  rw [memcpy, hkey, ← List.length_append, List.take_left]

theorem keyPointers_le (keyLen saltLen : ℕ) (role : Role) :
    (keyPointers keyLen saltLen role).localKey + keyLen ≤ (keyLen + saltLen) * 2 ∧
      (keyPointers keyLen saltLen role).localSalt + saltLen ≤ (keyLen + saltLen) * 2 ∧
      (keyPointers keyLen saltLen role).remoteKey + keyLen ≤ (keyLen + saltLen) * 2 ∧
      (keyPointers keyLen saltLen role).remoteSalt + saltLen ≤ (keyLen + saltLen) * 2 := by
  cases role <;> simp only [keyPointers] <;> omega

def positions (key salt keyLen saltLen : ℕ) : List ℕ := List.range' key keyLen ++ List.range' salt saltLen

theorem copyMaster_take (master : Bytes) {material array : Bytes} {key salt keyLen saltLen : ℕ}
    (hmaster : keyLen + saltLen ≤ master.length) (hkey : key + keyLen ≤ material.length)
    (hsalt : salt + saltLen ≤ material.length) (hroom : material.length ≤ array.length) :
    ∃ master', copyMaster master (memcpy array 0 material) key salt keyLen saltLen = .ok master' ∧
      master'.take (keyLen + saltLen) = bytesAt material (positions key salt keyLen saltLen) := by
  have hlen : (memcpy array 0 material).length = array.length := length_memcpy (by omega)
  refine ⟨_, copyMaster_of hmaster (by omega) (by omega), ?_⟩
  rw [span_memcpy hkey, span_memcpy hsalt]
  have htake := take_memcpy_memcpy master ((material.drop key).take keyLen) ((material.drop salt).take saltLen)
  rw [length_span hkey, length_span hsalt] at htake
  rw [htake, span_eq_bytesAt hkey, span_eq_bytesAt hsalt, positions, bytesAt, bytesAt, bytesAt, List.map_append]

theorem extractSrtpKeyCopies_masters {t : DtlsTransport} (ht : t.Arrays) {s : SslRead} {name : String}
    {keyLen saltLen : ℕ} (hlens : srtpLens name = some (keyLen, saltLen)) {material : Bytes}
    (hs : Exports s name material) (hlen : material.length = (keyLen + saltLen) * 2) :
    ∃ t', t.extractSrtpKeyCopies s = .ok (true, t') ∧ t'.srtpMasterLen = keyLen + saltLen ∧
      t'.srtpLocalMaster = bytesAt material (positions (keyPointers keyLen saltLen t.role).localKey
        (keyPointers keyLen saltLen t.role).localSalt keyLen saltLen) ∧
      t'.srtpRemoteMaster = bytesAt material (positions (keyPointers keyLen saltLen t.role).remoteKey
        (keyPointers keyLen saltLen t.role).remoteSalt keyLen saltLen) := by
  obtain ⟨hkey, hsalt⟩ := srtpLens_le hlens
  obtain ⟨h₁, h₂, h₃, h₄⟩ := keyPointers_le keyLen saltLen t.role
  have hroom : material.length ≤ (List.replicate 64 (0 : UInt8)).length := by rw [List.length_replicate]; omega
  obtain ⟨localMaster, hlocal, htakeLocal⟩ := copyMaster_take t.srtpLocalMaster_
    (by rw [ht.localMaster]; omega) (hlen ▸ h₁) (hlen ▸ h₂) hroom
  obtain ⟨remoteMaster, hremote, htakeRemote⟩ := copyMaster_take t.srtpRemoteMaster_
    (by rw [ht.remoteMaster]; omega) (hlen ▸ h₃) (hlen ▸ h₄) hroom
  have hmaterial : memcpyFrom (List.replicate 64 0) 0 material 0 ((keyLen + saltLen) * 2) =
      .ok (memcpy (List.replicate 64 0) 0 material) := by
    rw [memcpyFrom_of (by omega) (by omega), List.drop_zero, ← hlen, List.take_length]
  unfold extractSrtpKeyCopies
  rw [hs.profile, hs.exported, hs.exportRet]
  dsimp only
  rw [hlens]
  dsimp only
  rw [if_neg (not_not.mpr rfl), hmaterial, ok_bind, hlocal, ok_bind, hremote, ok_bind]
  exact ⟨_, rfl, rfl, htakeLocal, htakeRemote⟩

def KeySalt (keyLen saltLen : ℕ) (material master : Bytes) : Prop :=
  ∃ key salt, master = key ++ salt ∧ key.length = keyLen ∧ salt.length = saltLen ∧ key <:+: material ∧
    salt <:+: material

theorem keySalt_bytesAt {material : Bytes} {key salt keyLen saltLen : ℕ} (hkey : key + keyLen ≤ material.length)
    (hsalt : salt + saltLen ≤ material.length) :
    KeySalt keyLen saltLen material (bytesAt material (positions key salt keyLen saltLen)) := by
  refine ⟨(material.drop key).take keyLen, (material.drop salt).take saltLen, ?_, length_span hkey,
    length_span hsalt, (List.take_prefix _ _).isInfix.trans (List.drop_suffix _ _).isInfix,
    (List.take_prefix _ _).isInfix.trans (List.drop_suffix _ _).isInfix⟩
  rw [span_eq_bytesAt hkey, span_eq_bytesAt hsalt, positions, bytesAt, bytesAt, bytesAt, List.map_append]

theorem positions_perm (keyLen saltLen : ℕ) :
    (positions 0 (2 * keyLen) keyLen saltLen ++ positions keyLen (2 * keyLen + saltLen) keyLen saltLen).Perm
      (List.range (2 * (keyLen + saltLen))) := by
  have hkeys : List.range' 0 keyLen ++ List.range' keyLen keyLen = List.range' 0 (2 * keyLen) := by
    rw [Nat.two_mul, ← List.range'_append, Nat.one_mul, Nat.zero_add]
  have hsalts : List.range' (2 * keyLen) saltLen ++ List.range' (2 * keyLen + saltLen) saltLen =
      List.range' (2 * keyLen) (2 * saltLen) := by
    rw [Nat.two_mul saltLen, ← List.range'_append, Nat.one_mul]
  have hall : List.range (2 * (keyLen + saltLen)) =
      List.range' 0 keyLen ++ List.range' keyLen keyLen ++
        (List.range' (2 * keyLen) saltLen ++ List.range' (2 * keyLen + saltLen) saltLen) := by
    rw [hkeys, hsalts, List.range_eq_range', Nat.mul_add, ← List.range'_append, Nat.one_mul, Nat.zero_add]
  rw [hall, positions, positions, List.append_assoc, List.append_assoc]
  refine List.Perm.append_left _ ?_
  rw [← List.append_assoc, ← List.append_assoc]
  exact List.perm_append_comm.append_right _

/-- Both ends of a connection get the same two masters: the local one of the client is the remote one of the
server and the other way round. -/
theorem extractSrtpKey_matching {name : String} {keyLen saltLen : ℕ}
    (hlens : srtpLens name = some (keyLen, saltLen)) :
    ∃ clientAt serverAt : List ℕ, (clientAt ++ serverAt).Perm (List.range (2 * (keyLen + saltLen))) ∧
      ∀ (client server : DtlsTransport) (c s : SslRead) (material : Bytes), client.Arrays → server.Arrays →
        client.role = .client → server.role = .server → Exports c name material → Exports s name material →
        material.length = 2 * (keyLen + saltLen) →
        ∃ client' server', client.extractSrtpKeyCopies c = .ok (true, client') ∧
          server.extractSrtpKeyCopies s = .ok (true, server') ∧
          client'.srtpLocalMaster = server'.srtpRemoteMaster ∧
          client'.srtpRemoteMaster = server'.srtpLocalMaster ∧
          client'.srtpMasterLen = keyLen + saltLen ∧ server'.srtpMasterLen = keyLen + saltLen ∧
          KeySalt keyLen saltLen material client'.srtpLocalMaster ∧
          KeySalt keyLen saltLen material client'.srtpRemoteMaster ∧
          client'.srtpLocalMaster = bytesAt material clientAt ∧
          client'.srtpRemoteMaster = bytesAt material serverAt := by
  refine ⟨_, _, positions_perm keyLen saltLen, ?_⟩
  intro client server c s material hclient hserver hroleClient hroleServer hc hs hlen
  obtain ⟨client', hc', hclen, hclocal, hcremote⟩ :=
    extractSrtpKeyCopies_masters hclient hlens hc (hlen.trans (Nat.mul_comm _ _))
  obtain ⟨server', hs', hslen, hslocal, hsremote⟩ :=
    extractSrtpKeyCopies_masters hserver hlens hs (hlen.trans (Nat.mul_comm _ _))
  rw [hroleClient] at hclocal hcremote
  rw [hroleServer] at hslocal hsremote
  simp only [keyPointers, Nat.zero_add, ← Nat.two_mul] at hclocal hcremote hslocal hsremote
  refine ⟨client', server', hc', hs', hclocal.trans hsremote.symm, hcremote.trans hslocal.symm,
    hclen, hslen, ?_, ?_, hclocal, hcremote⟩
  · rw [hclocal]
    exact keySalt_bytesAt (by omega) (by omega)
  · rw [hcremote]
    exact keySalt_bytesAt (by omega) (by omega)

def sha1Read : SslRead :=
  ⟨⟨[], [], 0⟩, 0, 0, some "SRTP_AES128_CM_SHA1_80", 1, (List.range 60).map UInt8.ofNat, []⟩

theorem extractSrtpKey_matching_sha1 :
    ∃ client server, (fresh .client).extractSrtpKeyCopies sha1Read = .ok (true, client) ∧
      (fresh .server).extractSrtpKeyCopies sha1Read = .ok (true, server) ∧
      client.srtpLocalMaster = server.srtpRemoteMaster ∧ client.srtpRemoteMaster = server.srtpLocalMaster := by
  obtain ⟨_, _, -, h⟩ := extractSrtpKey_matching
    (show srtpLens "SRTP_AES128_CM_SHA1_80" = some (16, 14) from rfl)
  obtain ⟨client, server, hc, hs, hlocal, hremote, -⟩ := h (fresh .client) (fresh .server) sha1Read sha1Read
    sha1Read.exported ⟨rfl, rfl⟩ ⟨rfl, rfl⟩ rfl rfl ⟨rfl, rfl, rfl⟩ ⟨rfl, rfl, rfl⟩ rfl
  exact ⟨client, server, hc, hs, hlocal, hremote⟩

end Baize.Dtls.DtlsTransport
