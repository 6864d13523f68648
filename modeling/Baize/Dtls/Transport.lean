import Baize.Lib.Run
import Baize.Util.Types

namespace Baize.Dtls

inductive DtlsState
  | new
  | connecting
  | connected
  | failed
  | closed
  deriving DecidableEq, Repr

inductive Role
  | client
  | server
  deriving DecidableEq, Repr

/-- A call of `SSL_do_handshake`, `SSL_read` or `DTLSv1_handle_timeout`: the `where` of each call of
the info callback, what is written to `bio_write_`, and the result. -/
structure SslCall where
  infos : List UInt32
  written : Bytes
  ret : ℤ
  deriving DecidableEq, Repr

structure Timeval where
  sec : ℤ
  usec : ℤ
  deriving DecidableEq, Repr

def Timeval.ms (tv : Timeval) : ℕ := ((tv.sec * 1000 + tv.usec.tdiv 1000) % 2 ^ 64).toNat

structure SslTimeout where
  timeout : Timeval
  handled : SslCall
  deriving DecidableEq, Repr

/-- What the SSL library answers in a call of `ProcessDtlsPacket`: `SSL_read`, `SSL_get_error`,
`SSL_get_shutdown`, `SSL_get_selected_srtp_profile`, `SSL_export_keying_material` and the calls of
`UpdateTimeout`. -/
structure SslRead where
  read : SslCall
  error : ℤ
  shutdown : UInt32
  profile : Option String
  exportRet : ℤ
  exported : Bytes
  timeouts : List SslTimeout
  deriving DecidableEq, Repr

/-- `net::DtlsTransport`. `timer` is what `timer_` was started with, `sent` what went to `AsyncSend`.
`trace` records the values that `state_` was given and `extractions` the results of `ExtractSrtpKey`;
in `inCall` the library has not come back. -/
structure DtlsTransport where
  state : DtlsState
  role : Role
  handshakeDone : Bool
  extractSrtpKey_ : Bool
  useSrtp : String
  srtpLocalMaster_ : Bytes
  srtpRemoteMaster_ : Bytes
  srtpMasterLen : ℕ
  bioWrite : Bytes
  timer : Option ℕ
  sent : List Bytes
  trace : List DtlsState
  extractions : List Bool
  inCall : Bool
  deriving DecidableEq, Repr

def memcpy (dst : Bytes) (offset : ℕ) (src : Bytes) : Bytes :=
  dst.take offset ++ src ++ dst.drop (offset + src.length)

def isDtls (packet : Bytes) : Bool := 13 ≤ packet.length && (byte1 packet 0 > 19 && byte1 packet 0 < 64)

namespace DtlsTransport

/-- The constructor leaves `role_` uninitialised, so it is an argument here. -/
def fresh (role : Role) : DtlsTransport where
  state := .new
  role := role
  handshakeDone := false
  extractSrtpKey_ := false
  useSrtp := ""
  srtpLocalMaster_ := List.replicate 64 0
  srtpRemoteMaster_ := List.replicate 64 0
  srtpMasterLen := 0
  bioWrite := []
  timer := none
  sent := []
  trace := []
  extractions := []
  inCall := false

def setState (t : DtlsTransport) (state : DtlsState) : DtlsTransport :=
  { t with state := state, trace := t.trace ++ [state] }

def isRunning (t : DtlsTransport) : Bool := t.state = .connecting || t.state = .connected

def isConnected (t : DtlsTransport) : Bool := t.state = .connected

def srtpLocalMaster (t : DtlsTransport) : Bytes := t.srtpLocalMaster_.take t.srtpMasterLen

def srtpRemoteMaster (t : DtlsTransport) : Bytes := t.srtpRemoteMaster_.take t.srtpMasterLen

/-- The last branch of `OnSslInfo`: none of `SSL_CB_LOOP`, `SSL_CB_ALERT`, `SSL_CB_EXIT` and
`SSL_CB_HANDSHAKE_START` is set, and `SSL_CB_HANDSHAKE_DONE` is. -/
def handshakeDoneIn (info : UInt32) : Bool :=
  info &&& 0x01 = 0 && info &&& 0x4000 = 0 && info &&& 0x02 = 0 && info &&& 0x10 = 0 && info &&& 0x20 ≠ 0

def ssl (t : DtlsTransport) (c : SslCall) : DtlsTransport :=
  { t with
    handshakeDone := t.handshakeDone || c.infos.any handshakeDoneIn
    bioWrite := t.bioWrite ++ c.written }

def sendBioData (t : DtlsTransport) : DtlsTransport :=
  if t.bioWrite.isEmpty then t else { t with sent := t.sent ++ [t.bioWrite], bioWrite := [] }

def handleTimeout (updateTimeout : DtlsTransport → DtlsTransport) (c : SslCall) (t : DtlsTransport) :
    DtlsTransport :=
  if t.handshakeDone then t
  else if c.ret = 1 then updateTimeout (t.ssl c).sendBioData
  else if c.ret = -1 then (t.ssl c).setState .failed
  else t.ssl c

/-- `UpdateTimeout`, which may go through many rounds with `HandleTimeout` in the answers that the
library has given so far. -/
def updateTimeout : List SslTimeout → DtlsTransport → DtlsTransport
  | [], t => if t.handshakeDone then t else { t with inCall := true }
  | a :: as, t =>
    if t.handshakeDone then t
    else if a.timeout.ms = 0 then handleTimeout (updateTimeout as) a.handled t
    else if a.timeout.ms < 5000 then { t with timer := some a.timeout.ms }
    else t.setState .failed

def srtpLens (useSrtp : String) : Option (ℕ × ℕ) :=
  if useSrtp = "SRTP_AEAD_AES_128_GCM" then some (16, 12)
  else if useSrtp = "SRTP_AES128_CM_SHA1_80" then some (16, 14)
  else none

/-- The keying material is cut into the keys and salts of the client and the server, in this order. -/
def setMasters (t : DtlsTransport) (material : Bytes) (keyLen saltLen : ℕ) : DtlsTransport :=
  let client := (material.take keyLen, (material.drop (2 * keyLen)).take saltLen)
  let server := ((material.drop keyLen).take keyLen, (material.drop (2 * keyLen + saltLen)).take saltLen)
  let (local_, remote) :=
    match t.role with
    | .server => (server, client)
    | .client => (client, server)
  { t with
    srtpLocalMaster_ := memcpy (memcpy t.srtpLocalMaster_ 0 local_.1) keyLen local_.2
    srtpRemoteMaster_ := memcpy (memcpy t.srtpRemoteMaster_ 0 remote.1) keyLen remote.2 }

def extractSrtpKey (t : DtlsTransport) (s : SslRead) : Bool × DtlsTransport :=
  match s.profile with
  | none => (false, t)
  | some name =>
    match srtpLens name with
    | none => (false, { t with useSrtp := name })
    | some (keyLen, saltLen) =>
      let t := { t with useSrtp := name, srtpMasterLen := keyLen + saltLen }
      if s.exportRet ≠ 1 then (false, t)
      else
        let material := memcpy (List.replicate 64 0) 0 (s.exported.take (t.srtpMasterLen * 2))
        (true, (t.setMasters material keyLen saltLen).setState .connected)

/-- `SSL_ERROR_SSL` is 1, `SSL_ERROR_SYSCALL` 5 and `SSL_RECEIVED_SHUTDOWN` 2. -/
def checkStatus (t : DtlsTransport) (s : SslRead) : Bool × DtlsTransport :=
  if t.handshakeDone && !t.extractSrtpKey_ then
    let (ok, t) := { t with extractSrtpKey_ := true, timer := none }.extractSrtpKey s
    (ok, { t with extractions := t.extractions ++ [ok] })
  else if s.shutdown &&& 2 ≠ 0 ∨ s.error = 1 ∨ s.error = 5 then
    (false, t.setState (if t.state = .connected then .closed else .failed))
  else (true, t)

def processDtlsPacket (t : DtlsTransport) (s : SslRead) : DtlsTransport :=
  if !t.isRunning then t
  else
    let (ok, t) := (t.ssl s.read).sendBioData.checkStatus s
    if ok then updateTimeout s.timeouts t else t

def initializeAs (t : DtlsTransport) (role : Role) (c : SslCall) (timeouts : List SslTimeout) : DtlsTransport :=
  let t := ({ t with role := role }.setState .connecting).ssl c
  match role with
  | .client => updateTimeout timeouts t.sendBioData
  | .server => t

def onTimer (t : DtlsTransport) (c : SslCall) (timeouts : List SslTimeout) : DtlsTransport :=
  handleTimeout (updateTimeout timeouts) c { t with timer := none }

inductive Action
  | packet (s : SslRead)
  | timer (c : SslCall) (timeouts : List SslTimeout)
  deriving DecidableEq, Repr

def step (t : DtlsTransport) (a : Action) : Option DtlsTransport :=
  if t.inCall then none
  else
    match a with
    | .packet s => some (t.processDtlsPacket s)
    | .timer c timeouts => some (t.onTimer c timeouts)

end DtlsTransport

end Baize.Dtls
