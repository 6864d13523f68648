import Baize.Http.Response
import Baize.Http.Stream
import Baize.Net.AsyncWrite
import Baize.Webrtc.Room

namespace Baize.Webrtc

open Lib Net Http HttpMessage

/-- What `HandleSignal` makes of the url of a request. -/
inductive Route
  | page
  | publish
  | subscribe
  | other
  deriving DecidableEq, Repr

def route (req : HttpMessage) : Route :=
  let url := req.requestLine.url
  if url = ascii "/" then .page
  else if StringPiece.find url (ascii "pub") ≠ url.length then .publish
  else if StringPiece.find url (ascii "sub") ≠ url.length then .subscribe
  else .other

def publication (req : HttpMessage) : Option Bytes := if route req = .publish then some req.body else none

def response (demoFile localSdp : Bytes) (req : HttpMessage) : HttpMessage :=
  match route req with
  | .page => document (ascii "text/html; charset=utf-8") demoFile
  | .publish => plainDocument localSdp
  | .subscribe => fresh
  | .other => fresh.setResponseLine successLine

inductive SessionStage
  | reading (req : HttpMessage)
  | writing (call : WriteCall)
  | ended
  | failed (fault : Fault)

/-- A call of `HandleSignal`, and the room. `requests` are those that `AsyncRead` has returned, with its
values, and `written` is what the stream has accepted in the writes that are back. -/
structure SignalSession where
  room : Room
  stream : HttpStream
  writeBuf : Buffer
  stage : SessionStage
  requests : List (ℤ × HttpMessage)
  written : Bytes

inductive SignalSession.Action
  | read (r : ReadResult)
  | write (a : WriteAction)
  | other (a : Room.Action)

namespace SignalSession

def transport (s : SignalSession) : Transport := if s.stream.tls then .tls else .tcp

section

variable (demoFile localSdp : Bytes)

def handle (s : SignalSession) (rn : ℤ) (req : HttpMessage) : SignalSession :=
  let s := { s with
    room := (publication req).elim s.room s.room.publish
    requests := s.requests ++ [(rn, req)] }
  if s.room.aborted then { s with stage := .failed .assertion }
  else
    match (response demoFile localSdp req).encode s.writeBuf with
    | .error fault => { s with stage := .failed fault }
    | .ok (_, writeBuf) => { s with writeBuf := writeBuf, stage := .writing (.start writeBuf.slice) }

def asyncRead (s : SignalSession) (req : HttpMessage) : SignalSession :=
  match req.decode s.stream.readBuf with
  | .error fault => { s with stage := .failed fault }
  | .ok (parsedLen, req, readBuf) =>
    let s := { s with stream := { s.stream with readBuf := readBuf } }
    if parsedLen < 0 then { s with stage := .ended }
    else if parsedLen = 0 then { s with stage := .reading req }
    else s.handle demoFile localSdp parsedLen req

def start (tls : Bool) (room : Room) (buf : Buffer) : SignalSession :=
  asyncRead demoFile localSdp ⟨room, ⟨tls, buf⟩, buf, .ended, [], []⟩ fresh

def resume (s : SignalSession) (req : HttpMessage) : ReadResult → SignalSession
  | .timeout | .closed _ => { s with stage := .ended }
  | .data d =>
    match s.stream.readBuf.exec (s.stream.readOp d) with
    | .error fault => { s with stage := .failed fault }
    | .ok b => asyncRead demoFile localSdp { s with stream := { s.stream with readBuf := b } } req

def finish (s : SignalSession) (call : WriteCall) (len : ℤ) : SignalSession :=
  let s := { s with written := s.written ++ call.accepted }
  if len = s.writeBuf.readableBytes then
    asyncRead demoFile localSdp { s with writeBuf := s.writeBuf.takeAll } fresh
  else { s with stage := .ended }

def stepWrite (s : SignalSession) (call : WriteCall) : SignalSession :=
  match call.stage with
  | .returned len => s.finish demoFile localSdp call len
  | _ => { s with stage := .writing call }

variable (inetNtop6 : Bytes → Bytes)

def step (s : SignalSession) (a : Action) : Option SignalSession :=
  if s.room.aborted then none
  else
    match a, s.stage with
    | .read r, .reading req => some (s.resume demoFile localSdp req r)
    | .write a, .writing call =>
      (call.step s.transport s.writeBuf.slice a).map (s.stepWrite demoFile localSdp)
    | .other a, _ => (s.room.step inetNtop6 a).map fun room ↦ { s with room := room }
    | _, _ => none

end

def Pre (s : SignalSession) : Action → Prop
  | .read (.data d) => d ≠ [] ∧ s.stream.readBuf.Pre (s.stream.readOp d)
  | .read (.closed rn) => rn ≤ 0
  | _ => True

def chunk : Action → Option Bytes
  | .read (.data d) => some d
  | _ => none

def foreign : Action → Option Room.Action
  | .other a => some a
  | _ => none

/-- What a reader of the chunks has delivered, and what it still has. -/
def reader (as : List Action) : List (ℤ × HttpMessage) × Except (Checked (ℤ × Bool)) Bytes :=
  (as.filterMap chunk).foldl decoder.feed (decoder.drain [])

def answers (demoFile localSdp : Bytes) (requests : List (ℤ × HttpMessage)) : Bytes :=
  (requests.map fun x ↦ (response demoFile localSdp x.2).encoded).flatten

/-- What the room has gone through: the publish requests of this session, and what others did. -/
def Lived (inetNtop6 : Bytes → Bytes) (room : Room) (as : List Action) (s : SignalSession) : Prop :=
  ∃ acts : List (Room.Action ⊕ Room.Action),
    Run (fun r a r' ↦ Room.step inetNtop6 r a = some r') room (acts.map (Sum.elim id id)) s.room ∧
      acts.filterMap Sum.getLeft? = s.requests.filterMap (fun x ↦ (publication x.2).map .publish) ∧
      acts.filterMap Sum.getRight? = as.filterMap foreign

section

variable (demoFile localSdp : Bytes)

/-- The session is behind its answers, or in the middle of one, or it is over. -/
inductive Served (as : List Action) (s : SignalSession) : Prop
  | reading {p : Bytes} (hstage : s.stage = .reading fresh) (hwrite : s.writeBuf.Holds [])
    (hwritten : s.written = answers demoFile localSdp s.requests) (hread : s.stream.readBuf.Holds p)
    (hmore : decoder.decode p = .more) (hreader : reader as = (s.requests, .ok p))
  | writing {call : WriteCall} {init : List (ℤ × HttpMessage)} {last : ℤ × HttpMessage} {p : Bytes}
    {ws : List WriteAction} (hstage : s.stage = .writing call) (hrequests : s.requests = init ++ [last])
    (hwrite : s.writeBuf.Holds (response demoFile localSdp last.2).encoded)
    (hwritten : s.written = answers demoFile localSdp init) (hread : s.stream.readBuf.Holds p)
    (hreader : reader as = (s.requests ++ (decoder.drain p).1, (decoder.drain p).2))
    (hcall : WriteCall.After s.transport (response demoFile localSdp last.2).encoded ws call)
  | stopped (hstage : s.stage = .ended ∨ ∃ fault, s.stage = .failed fault)
      (hrequests : s.requests <+: (reader as).1)
    (hinit : answers demoFile localSdp s.requests.dropLast <+: s.written)
    (hwritten : s.written <+: answers demoFile localSdp s.requests)

end

section

variable {demoFile localSdp : Bytes} {inetNtop6 : Bytes → Bytes} {s s' : SignalSession} {as : List Action}
  {room : Room} {p : Bytes}

theorem answers_append (xs ys : List (ℤ × HttpMessage)) :
    answers demoFile localSdp (xs ++ ys) = answers demoFile localSdp xs ++ answers demoFile localSdp ys := by
  rw [answers, List.map_append, List.flatten_append]
  rfl

theorem answers_singleton (x : ℤ × HttpMessage) :
    answers demoFile localSdp [x] = (response demoFile localSdp x.2).encoded := by
  rw [answers, List.map_singleton, List.flatten_singleton]

theorem answers_dropLast (xs : List (ℤ × HttpMessage)) :
    answers demoFile localSdp xs.dropLast <+: answers demoFile localSdp xs := by
  rcases List.eq_nil_or_concat' xs with rfl | ⟨init, x, rfl⟩
  · exact List.prefix_rfl
  · rw [List.dropLast_concat, answers_append]
    exact List.prefix_append _ _

theorem encode_holds {m : HttpMessage} {b b' : Buffer} {n : ℤ} (hb : b.Holds []) (h : m.encode b = .ok (n, b')) :
    b'.Holds m.encoded := by
  obtain ⟨c, hc, h⟩ := bind_eq_ok.mp h
  obtain ⟨-, rfl⟩ := Prod.mk.inj (Except.ok.inj h)
  exact Buffer.foldlM_append_holds hb _ hc

theorem Lived.own (h : Lived inetNtop6 room as s) (haborted : s.room.aborted = false) (rn : ℤ)
    (req : HttpMessage) (hroom : s'.room = (publication req).elim s.room s.room.publish)
    (hrequests : s'.requests = s.requests ++ [(rn, req)]) : Lived inetNtop6 room as s' := by
  obtain ⟨acts, hrun, hown, hothers⟩ := h
  cases hpub : publication req with
  | none =>
    rw [hpub] at hroom
    refine ⟨acts, hroom ▸ hrun, ?_, hothers⟩
    rw [hrequests, List.filterMap_append, List.filterMap_cons_none (by rw [hpub]; rfl), List.filterMap_nil,
      List.append_nil, hown]
  | some body =>
    rw [hpub] at hroom
    have hstep : s.room.step inetNtop6 (.publish body) = some s'.room := by
      rw [Room.step, haborted, hroom]
      rfl
    refine ⟨acts ++ [.inl (.publish body)], ?_, ?_, ?_⟩
    · rw [List.map_append]
      exact hrun.append (.cons hstep (.nil _))
    · have hlast : [(rn, req)].filterMap (fun x ↦ (publication x.2).map Room.Action.publish) = [.publish body] :=
        List.filterMap_cons_some (by rw [hpub]; rfl)
      rw [hrequests, List.filterMap_append, List.filterMap_append, hown, hlast]
      rfl
    · rw [List.filterMap_append, hothers]
      exact List.append_nil _

theorem Lived.keep (h : Lived inetNtop6 room as s) {a : Action} (ha : foreign a = none)
    (hroom : s'.room = s.room)
    (hrequests : s'.requests = s.requests) : Lived inetNtop6 room (as ++ [a]) s' := by
  obtain ⟨acts, hrun, hown, hothers⟩ := h
  refine ⟨acts, hroom ▸ hrun, hrequests ▸ hown, ?_⟩
  rw [hothers, List.filterMap_append, List.filterMap_cons_none ha, List.filterMap_nil, List.append_nil]

theorem Lived.other (h : Lived inetNtop6 room as s) {a : Room.Action}
    (hstep : s.room.step inetNtop6 a = some s'.room)
    (hrequests : s'.requests = s.requests) : Lived inetNtop6 room (as ++ [.other a]) s' := by
  obtain ⟨acts, hrun, hown, hothers⟩ := h
  refine ⟨acts ++ [.inr a], ?_, ?_, ?_⟩
  · rw [List.map_append]
    exact hrun.append (.cons hstep (.nil _))
  · rw [List.filterMap_append, hown, hrequests]
    exact List.append_nil _
  · rw [List.filterMap_append, hothers, List.filterMap_append]
    rfl

theorem Served.of_requests (hstage : s.stage = .ended ∨ ∃ fault, s.stage = .failed fault)
    (hrequests : s.requests <+: (reader as).1) (hwritten : s.written = answers demoFile localSdp s.requests) :
    Served demoFile localSdp as s :=
  .stopped hstage hrequests (hwritten ▸ answers_dropLast _) (hwritten ▸ List.prefix_rfl)

/-- A request that has been returned is answered, or the process stops before the answer. -/
theorem handle_spec {rn : ℤ} {req : HttpMessage} (hlived : Lived inetNtop6 room as s)
    (haborted : s.room.aborted = false) (hwrite : s.writeBuf.Holds [])
    (hwritten : s.written = answers demoFile localSdp s.requests) (hread : s.stream.readBuf.Holds p)
    (hreader : reader as = (s.requests ++ [(rn, req)] ++ (decoder.drain p).1, (decoder.drain p).2)) :
    Lived inetNtop6 room as (s.handle demoFile localSdp rn req) ∧
      Served demoFile localSdp as (s.handle demoFile localSdp rn req) := by
  have hover : ∀ t : SignalSession, t.requests = s.requests ++ [(rn, req)] → t.written = s.written →
      (t.stage = .ended ∨ ∃ fault, t.stage = .failed fault) → Served demoFile localSdp as t := by
    intro t hrequests hsame hstage
    refine .stopped hstage ?_ ?_ ?_
    · rw [hrequests, hreader]
      exact List.prefix_append _ _
    · rw [hrequests, List.dropLast_concat, hsame, hwritten]
    · rw [hrequests, hsame, hwritten, answers_append]
      exact List.prefix_append _ _
  unfold handle
  dsimp only
  split
  · exact ⟨hlived.own haborted rn req rfl rfl, hover _ rfl rfl (.inr ⟨_, rfl⟩)⟩
  · split
    · exact ⟨hlived.own haborted rn req rfl rfl, hover _ rfl rfl (.inr ⟨_, rfl⟩)⟩
    · next n writeBuf hencode =>
      have hholds := encode_holds hwrite hencode
      have hcall : WriteCall.After s.transport (response demoFile localSdp req).encoded []
          (.start writeBuf.slice) := by
        rw [hholds.slice_eq]
        exact ⟨WriteCall.start_inv _, fun _ h ↦ by cases h⟩
      exact ⟨hlived.own haborted rn req rfl rfl, .writing rfl rfl hholds hwritten hread hreader hcall⟩

theorem asyncRead_spec (hlived : Lived inetNtop6 room as s) (haborted : s.room.aborted = false)
    (hwrite : s.writeBuf.Holds []) (hwritten : s.written = answers demoFile localSdp s.requests)
    (hread : s.stream.readBuf.Holds p)
    (hreader : reader as = (s.requests ++ (decoder.drain p).1, (decoder.drain p).2)) :
    Lived inetNtop6 room as (s.asyncRead demoFile localSdp fresh) ∧
      Served demoFile localSdp as (s.asyncRead demoFile localSdp fresh) := by
  have hfront : s.requests <+: (reader as).1 := by
    rw [hreader]
    exact List.prefix_append _ _
  rw [asyncRead]
  cases hd : decodeSlice fresh p with
  | error fault =>
    rw [decode_error hread hd]
    exact ⟨hlived, .of_requests (.inr ⟨_, rfl⟩) hfront hwritten⟩
  | ok nm =>
    obtain ⟨n, req⟩ := nm
    obtain ⟨b, hdec, hb⟩ := decode_ok hread hd
    have hv := decoder_ok hd
    rw [hdec]
    dsimp only
    by_cases hneg : n < 0
    · rw [if_pos hneg]
      exact ⟨hlived, .of_requests (.inl rfl) hfront hwritten⟩
    by_cases hzero : n = 0
    · subst hzero
      rw [if_neg hneg, if_pos rfl] at hv ⊢
      obtain rfl := decodeSlice_zero hd
      rw [Decoder.drain_more hv, List.append_nil] at hreader
      exact ⟨hlived, .reading rfl hwrite hwritten hb hv hreader⟩
    · rw [if_neg hneg, if_neg hzero] at hv ⊢
      rw [Decoder.drain_item hv] at hreader
      refine handle_spec hlived haborted hwrite hwritten hb ?_
      rw [hreader, List.append_assoc]
      rfl

theorem reader_append_of_none {a : Action} (h : chunk a = none) : reader (as ++ [a]) = reader as := by
  rw [reader, List.filterMap_append, List.filterMap_cons_none h, List.filterMap_nil, List.append_nil, reader]

theorem reader_append_data (d : Bytes) : reader (as ++ [.read (.data d)]) = decoder.feed (reader as) d := by
  rw [reader, List.filterMap_append, List.foldl_append]
  rfl

theorem Served.transfer (h : Served demoFile localSdp as s) {as' : List Action}
    (hreader : reader as' = reader as)
    (hs : s'.stream = s.stream ∧ s'.writeBuf = s.writeBuf ∧ s'.stage = s.stage ∧ s'.requests = s.requests ∧
      s'.written = s.written) : Served demoFile localSdp as' s' := by
  obtain ⟨room', stream', writeBuf', stage', requests', written'⟩ := s'
  obtain ⟨rfl, rfl, rfl, rfl, rfl⟩ := hs
  cases h with
  | reading hstage hwrite hwritten hread hmore hreader' =>
    exact .reading hstage hwrite hwritten hread hmore (hreader.trans hreader')
  | writing hstage hrequests hwrite hwritten hread hreader' hcall =>
    exact .writing hstage hrequests hwrite hwritten hread (hreader.trans hreader') hcall
  | stopped hstage hrequests hinit hwritten => exact .stopped hstage (hreader ▸ hrequests) hinit hwritten

theorem resume_spec {req : HttpMessage} {r : ReadResult} (hlived : Lived inetNtop6 room as s)
    (haborted : s.room.aborted = false) (h : Served demoFile localSdp as s) (hstage : s.stage = .reading req)
    (hpre : s.Pre (.read r)) :
    Lived inetNtop6 room (as ++ [.read r]) (s.resume demoFile localSdp req r) ∧
      Served demoFile localSdp (as ++ [.read r]) (s.resume demoFile localSdp req r) := by
  cases h with
  | writing hstage' => cases hstage.symm.trans hstage'
  | stopped hstage' =>
    rw [hstage] at hstage'
    obtain heq | ⟨fault, heq⟩ := hstage'
    · cases heq
    · cases heq
  | @reading p hstage' hwrite hwritten hread hmore hreader =>
    obtain rfl := SessionStage.reading.inj (hstage.symm.trans hstage')
    have hfront : s.requests <+: (reader as).1 := by rw [hreader]
    have hended : chunk (.read r) = none → Served demoFile localSdp (as ++ [.read r])
        { s with stage := .ended } :=
      fun hr ↦ .of_requests (.inl rfl) ((reader_append_of_none hr).symm ▸ hfront) hwritten
    cases r with
    | timeout => exact ⟨hlived.keep rfl rfl rfl, hended rfl⟩
    | closed rn => exact ⟨hlived.keep rfl rfl rfl, hended rfl⟩
    | data d =>
      obtain ⟨b, hexec, hb, -⟩ := Buffer.exec_spec _ ⟨p, 0, Nat.zero_le _⟩ _ hread hpre.2
      rw [Buffer.Refines, Connection.readOp_contents] at hb
      have hb' : b.Holds (p ++ d) := hb
      simp only [resume, hexec]
      refine asyncRead_spec (s := { s with stream := { s.stream with readBuf := b } }) (hlived.keep rfl rfl rfl)
        haborted hwrite hwritten hb' ?_
      rw [reader_append_data, hreader]
      rfl

theorem stepWrite_spec {call call' : WriteCall} {w : WriteAction} (hlived : Lived inetNtop6 room as s)
    (haborted : s.room.aborted = false) (h : Served demoFile localSdp as s) (hstage : s.stage = .writing call)
    (hcall : call.step s.transport s.writeBuf.slice w = some call') :
    Lived inetNtop6 room (as ++ [.write w]) (s.stepWrite demoFile localSdp call') ∧
      Served demoFile localSdp (as ++ [.write w]) (s.stepWrite demoFile localSdp call') := by
  cases h with
  | reading hstage' => cases hstage.symm.trans hstage'
  | stopped hstage' =>
    rw [hstage] at hstage'
    obtain heq | ⟨fault, heq⟩ := hstage'
    · cases heq
    · cases heq
  | @writing call₀ init last p ws hstage' hrequests hwrite hwritten hread hreader hafter =>
    obtain rfl := SessionStage.writing.inj (hstage.symm.trans hstage')
    rw [hwrite.slice_eq] at hcall
    have hafter' := WriteCall.step_after hafter hcall
    have hreader' : reader (as ++ [.write w]) = reader as := reader_append_of_none rfl
    have hgoing : Served demoFile localSdp (as ++ [.write w]) { s with stage := .writing call' } :=
      .writing rfl hrequests hwrite hwritten hread (hreader'.trans hreader) hafter'
    unfold stepWrite
    cases hreturned : call'.stage with
    | top | syscall | waiting => exact ⟨hlived.keep rfl rfl rfl, hgoing⟩
    | returned len =>
      dsimp only
      obtain rfl := hafter'.1.returned_eq len hreturned
      have haccepted := hafter'.1.accepted_eq
      unfold finish
      dsimp only
      by_cases hall : call'.ret = s.writeBuf.readableBytes
      · rw [if_pos hall]
        rw [hwrite.readable_eq] at hall
        rw [hall, Int.toNat_natCast, List.take_length] at haccepted
        refine asyncRead_spec (s := { s with
            written := s.written ++ call'.accepted, writeBuf := s.writeBuf.takeAll }) (hlived.keep rfl rfl rfl)
          haborted (Buffer.takeAll_holds hwrite) ?_ hread (hreader'.trans hreader)
        rw [hwritten, haccepted, hrequests, answers_append, answers_singleton]
      · rw [if_neg hall]
        refine ⟨hlived.keep rfl rfl rfl, .stopped (.inl rfl) ?_ ?_ ?_⟩
        · rw [hreader', hreader]
          exact List.prefix_append _ _
        · rw [hrequests, List.dropLast_concat, hwritten]
          exact List.prefix_append _ _
        · rw [hrequests, hwritten, answers_append, answers_singleton, haccepted]
          exact (List.prefix_append_right_inj _).mpr (List.take_prefix _ _)

theorem step_served {a : Action} (hlived : Lived inetNtop6 room as s) (h : Served demoFile localSdp as s)
    (hstep : s.step demoFile localSdp inetNtop6 a = some s') (hpre : s.Pre a) :
    Lived inetNtop6 room (as ++ [a]) s' ∧ Served demoFile localSdp (as ++ [a]) s' := by
  unfold step at hstep
  by_cases haborted : s.room.aborted = true
  · rw [if_pos haborted] at hstep
    cases hstep
  rw [if_neg haborted] at hstep
  rw [Bool.not_eq_true] at haborted
  cases a with
  | read r =>
    cases hstage : s.stage with
    | reading req =>
      rw [hstage] at hstep
      obtain rfl := Option.some.inj hstep
      exact resume_spec hlived haborted h hstage hpre
    | writing call | ended | failed fault => rw [hstage] at hstep; cases hstep
  | write w =>
    cases hstage : s.stage with
    | writing call =>
      rw [hstage] at hstep
      obtain ⟨call', hcall, rfl⟩ := Option.map_eq_some_iff.mp hstep
      exact stepWrite_spec hlived haborted h hstage hcall
    | reading req | ended | failed fault => rw [hstage] at hstep; cases hstep
  | other act =>
    obtain ⟨room', hroom, rfl⟩ := Option.map_eq_some_iff.mp hstep
    exact ⟨hlived.other hroom rfl, h.transfer (reader_append_of_none rfl) ⟨rfl, rfl, rfl, rfl, rfl⟩⟩

end

/-- However the requests are cut, whatever the writes answer and whatever else happens to the room in
between: the session answers the requests in their order, each one once, and has answered all that have
come whenever it waits for more. Its publish requests reach the room, which is left to the others
otherwise. -/
theorem run_answers_in_order (demoFile localSdp : Bytes) (inetNtop6 : Bytes → Bytes) (tls : Bool) {room : Room}
    (hroom : room.aborted = false) {buf : Buffer} (hbuf : Buffer.make Buffer.kInitialSize = .ok buf)
    {as : List Action} {s : SignalSession}
    (hrun : Run (Guarded (step demoFile localSdp inetNtop6) Pre) (start demoFile localSdp tls room buf) as s) :
    s.requests <+: (reader as).1 ∧ answers demoFile localSdp s.requests.dropLast <+: s.written ∧
      s.written <+: answers demoFile localSdp s.requests ∧
      (∀ req, s.stage = .reading req →
        s.requests = (reader as).1 ∧ s.written = answers demoFile localSdp s.requests) ∧
      Lived inetNtop6 room as s := by
  obtain ⟨b, hmake, hb, -⟩ := Buffer.make_spec (n := 1508) (by decide)
  obtain rfl : b = buf := Except.ok.inj (hmake.symm.trans hbuf)
  have hnil : decoder.drain [] = ([], .ok []) := Decoder.drain_more (decoder_ok (n := 0) (m := fresh) rfl)
  have hstart : Lived inetNtop6 room [] (start demoFile localSdp tls room b) ∧
      Served demoFile localSdp [] (start demoFile localSdp tls room b) :=
    asyncRead_spec (s := ⟨room, ⟨tls, b⟩, b, .ended, [], []⟩) ⟨[], .nil _, rfl, rfl⟩ hroom hb rfl hb rfl
  have hinv := hrun.invariant_history (fun a ↦ [a]) (l := [])
    (I := fun as s ↦ Lived inetNtop6 room as s ∧ Served demoFile localSdp as s)
    (fun as s a s' h hstep ↦ step_served h.1 h.2 hstep.2 hstep.1) hstart
  rw [List.nil_append, List.flatMap_singleton'] at hinv
  obtain ⟨hlived, hserved⟩ := hinv
  cases hserved with
  | reading hstage _ hwritten _ _ hreader =>
    rw [hreader, hwritten]
    exact ⟨List.prefix_rfl, answers_dropLast _, List.prefix_rfl, fun _ _ ↦ ⟨rfl, rfl⟩, hlived⟩
  | writing hstage hrequests _ hwritten _ hreader _ =>
    refine ⟨?_, ?_, ?_, fun req hreading ↦ ?_, hlived⟩
    · rw [hreader]
      exact List.prefix_append _ _
    · rw [hrequests, List.dropLast_concat, hwritten]
    · rw [hrequests, answers_append, hwritten]
      exact List.prefix_append _ _
    · cases hstage.symm.trans hreading
  | stopped hstage hrequests hinit hwritten =>
    refine ⟨hrequests, hinit, hwritten, fun req hreading ↦ ?_, hlived⟩
    rw [hreading] at hstage
    obtain heq | ⟨fault, heq⟩ := hstage
    · cases heq
    · cases heq

def getPage : Bytes := ascii "GET / HTTP/1.1\r\nA: B\r\n\r\n"

def onePage : List Action :=
  [.read (.data (getPage.take 3)), .read (.data (getPage.drop 3)), .write .checkTicks, .write (.result 10 .ok),
    .write .checkTicks, .write (.result 69 .ok)]

instance decidablePre (s : SignalSession) (a : Action) : Decidable (s.Pre a) :=
  match a with
  | .read (.data _) => inferInstanceAs (Decidable (_ ∧ _))
  | .read (.closed rn) => inferInstanceAs (Decidable (rn ≤ 0))
  | .read .timeout | .write _ | .other _ => .isTrue trivial

def isReading (s : SignalSession) : Bool :=
  match s.stage with
  | .reading _ => true
  | .writing _ | .ended | .failed _ => false

theorem run_answers_in_order_onePage : ∃ buf s, Buffer.make Buffer.kInitialSize = .ok buf ∧
    Run (Guarded (step [66] [67] id) Pre) (start [66] [67] true .empty buf) onePage s ∧ s.requests.length = 1 ∧
      s.written = answers [66] [67] s.requests := by
  have hmake : Buffer.make Buffer.kInitialSize = .ok ⟨List.replicate 1516 0, 8, 8⟩ := by decide +kernel
  have hsteps : ((onePage.foldlM (fun s a ↦ if Pre s a then step [66] [67] id s a else none)
      (start [66] [67] true .empty ⟨List.replicate 1516 0, 8, 8⟩)).map fun s ↦
      (s.isReading, s.requests.length)) =
        some (true, 1) := by
    decide +kernel
  obtain ⟨s, hrun, hend⟩ := exists_run_of_foldlM _ hsteps
  obtain ⟨hreading, hone⟩ := Prod.mk.inj hend
  obtain ⟨-, -, -, hanswered, -⟩ := run_answers_in_order [66] [67] id true rfl hmake hrun
  refine ⟨_, s, hmake, hrun, hone, ?_⟩
  cases hstage : s.stage with
  | reading req => exact (hanswered req hstage).2
  | writing call | ended | failed fault =>
    simp only [isReading, hstage] at hreading
    cases hreading

end SignalSession

end Baize.Webrtc
