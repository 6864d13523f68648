import Baize.Http.Lines
import Baize.Lib.Decoder
import Baize.Net.BufferQueue

namespace Baize.Http

open Lib Net HttpMessage

inductive ReadResult
  | data (d : Bytes)
  | closed (rn : ℤ)
  | timeout
  deriving DecidableEq, Repr

structure HttpStream where
  tls : Bool
  readBuf : Buffer
  deriving DecidableEq

/-- The call that brings `d` into the buffer. TLS writes at `write_index()`
first and then announces the bytes. -/
def HttpStream.readOp (s : HttpStream) (d : Bytes) : Buffer.Op :=
  if s.tls then .addReadableLength d d.length else .readFd (some d)

/-- A connection that calls `AsyncRead` over and over, each time with a fresh
message. `ended` is what the last call returned, and its `timeout`. -/
structure Connection where
  stream : HttpStream
  message : HttpMessage
  delivered : List (ℤ × HttpMessage)
  ended : Option (Checked (ℤ × Bool))
  deriving DecidableEq

namespace Connection

/-- The loop of `AsyncRead`, up to its next read of the socket. A message that
is complete goes to the caller, who comes back with the next one. -/
def asyncRead : ℕ → Connection → Connection
  | 0, c => c
  | rounds + 1, c =>
    match c.message.decode c.stream.readBuf with
    | .error fault => { c with ended := some (.error fault) }
    | .ok (parsedLen, message, readBuf) =>
      let stream := { c.stream with readBuf := readBuf }
      if parsedLen < 0 then
        { c with stream := stream, message := message, ended := some (.ok (parsedLen, false)) }
      else if parsedLen = 0 then { c with stream := stream, message := message }
      else
        asyncRead rounds { c with
          stream := stream
          message := .fresh
          delivered := c.delivered ++ [(parsedLen, message)] }

def start (tls : Bool) (readBuf : Buffer) : Connection :=
  asyncRead (readBuf.readableBytes.toNat + 1) ⟨⟨tls, readBuf⟩, .fresh, [], none⟩

def resume (c : Connection) (r : ReadResult) : Connection :=
  if c.ended.isSome then c
  else
    match r with
    | .timeout => { c with ended := some (.ok (-1, true)) }
    | .closed rn => { c with ended := some (.ok (rn, false)) }
    | .data d =>
      match c.stream.readBuf.exec (c.stream.readOp d) with
      | .error fault => { c with ended := some (.error fault) }
      | .ok b =>
        asyncRead (b.readableBytes.toNat + 1) { c with stream := { c.stream with readBuf := b } }

/-- The reads that can come back: not more bytes than there was room for, and
the buffer staying below 2 GiB. -/
def Admits (c : Connection) (r : ReadResult) : Prop :=
  c.ended = none →
    match r with
    | .data d => d ≠ [] ∧ c.stream.readBuf.Pre (c.stream.readOp d)
    | .closed rn => rn ≤ 0
    | .timeout => True

def Fits (c : Connection) : List ReadResult → Prop
  | [] => True
  | r :: rs => c.Admits r ∧ Fits (c.resume r) rs

end Connection

namespace HttpMessage

theorem decodeSlice_zero {m m' : HttpMessage} {s : Bytes} (h : decodeSlice m s = .ok (0, m')) :
    m' = m := by
  obtain ⟨-, rfl⟩ | h1 | ⟨hpos, -⟩ := decodeSlice_cases h
  · rfl
  · exact absurd h1 (by decide)
  · exact absurd hpos (Int.lt_irrefl 0)

theorem decodeSlice_le {m m' : HttpMessage} {s : Bytes} {n : ℤ}
    (h : decodeSlice m s = .ok (n, m')) (hn : 0 < n) : n ≤ s.length := by
  obtain ⟨_, _, _, -, -, -, hle, -⟩ := decodeSlice_accepts h hn
  exact hle

theorem decode_error {m : HttpMessage} {b : Buffer} {p : Bytes} {fault : Fault} (hb : b.Holds p)
    (h : decodeSlice m p = .error fault) : decode m b = .error fault := by
  rw [decode, hb.slice_eq, h, error_bind]

theorem decode_ok {m m' : HttpMessage} {b : Buffer} {p : Bytes} {n : ℤ} (hb : b.Holds p)
    (h : decodeSlice m p = .ok (n, m')) :
    ∃ b', decode m b = .ok (n, m', b') ∧ b'.Holds (p.drop n.toNat) := by
  rw [decode, hb.slice_eq, h, ok_bind]
  dsimp only
  by_cases hn : 0 < n
  · obtain ⟨b', he, hh, -⟩ := Buffer.take_spec hb (decodeSlice_le h hn)
    rw [if_pos hn, he]
    exact ⟨b', rfl, hh⟩
  · rw [if_neg hn, Int.toNat_of_nonpos (by omega), List.drop_zero]
    exact ⟨b, rfl, hb⟩

theorem decodeSlice_of_decode {m m' : HttpMessage} {b b' : Buffer} {q : Bytes} {n : ℤ} (hb : b.Holds q)
    (h : decode m b = .ok (n, m', b')) : decodeSlice m q = .ok (n, m') := by
  cases hs : decodeSlice m q with
  | error fault => cases (decode_error hb hs).symm.trans h
  | ok r =>
    obtain ⟨b₁, h₁, -⟩ := decode_ok hb hs
    cases h₁.symm.trans h
    rfl

/-- `Decode` of a fresh message, as its caller in `AsyncRead` sees it. -/
def decoder : Decoder UInt8 (ℤ × HttpMessage) (Checked (ℤ × Bool)) where
  decode s :=
    match decodeSlice fresh s with
    | .error fault => .stop (.error fault)
    | .ok (n, m) =>
      if n < 0 then .stop (.ok (n, false))
      else if n = 0 then .more
      else .item n.toNat (n, m)
  item_le := by
    intro p k m h
    split at h
    · cases h
    · next n m' hs =>
      split at h
      · cases h
      split at h
      · cases h
      have hle := decodeSlice_le hs (by omega)
      cases h
      omega

theorem decoder_error {p : Bytes} {fault : Fault} (h : decodeSlice fresh p = .error fault) :
    decoder.decode p = .stop (.error fault) := by
  simp only [decoder, h]

theorem decoder_ok {p : Bytes} {n : ℤ} {m : HttpMessage} (h : decodeSlice fresh p = .ok (n, m)) :
    decoder.decode p = if n < 0 then .stop (.ok (n, false)) else if n = 0 then .more
      else .item n.toNat (n, m) := by
  simp only [decoder, h]

theorem decoder_stableAt {s : Bytes} (hs : ¬ (Headerless s ∧ Blank s)) : decoder.StableAt s := by
  intro p q t hpqt hp
  have hmore : ∀ m', decodeSlice fresh p ≠ .ok (0, m') := by
    intro m' h
    exact hp (by rw [decoder_ok h, if_neg (by decide), if_pos rfl])
  have hq : Headerless p → ¬ Blank (p ++ q) := by
    intro hh hb
    have hpq := hh.append q
    exact hs (hpqt ▸ ⟨hpq.append t, hb.append hpq t⟩)
  simp only [decoder, decodeSlice_append hmore q hq]

end HttpMessage

namespace Connection

/-- The connection is where the reader `r` of the byte stream is. -/
def Refines (c : Connection) (r : List (ℤ × HttpMessage) × Except (Checked (ℤ × Bool)) Bytes) :
    Prop :=
  c.delivered = r.1 ∧
    match r.2 with
    | .ok p => c.ended = none ∧ c.message = fresh ∧ c.stream.readBuf.Holds p
    | .error e => c.ended = some e

theorem asyncRead_refines {rounds : ℕ} {c : Connection} {p : Bytes} (he : c.ended = none)
    (hm : c.message = fresh) (hb : c.stream.readBuf.Holds p) (hr : p.length < rounds) :
    Refines (asyncRead rounds c) (c.delivered ++ (decoder.drain p).1, (decoder.drain p).2) := by
  induction rounds generalizing c p with
  | zero => exact absurd hr (Nat.not_lt_zero _)
  | succ rounds ih =>
    rw [asyncRead, hm]
    cases hd : decodeSlice fresh p with
    | error fault =>
      rw [decode_error hb hd, Decoder.drain_stop (decoder_error hd), List.append_nil]
      exact ⟨rfl, rfl⟩
    | ok nm =>
      obtain ⟨n, m⟩ := nm
      obtain ⟨b', hdec, hb'⟩ := decode_ok hb hd
      have hv := decoder_ok hd
      rw [hdec]
      dsimp only
      by_cases hneg : n < 0
      · rw [if_pos hneg] at hv ⊢
        rw [Decoder.drain_stop hv, List.append_nil]
        exact ⟨rfl, rfl⟩
      by_cases hzero : n = 0
      · subst hzero
        rw [if_neg hneg, if_pos rfl] at hv ⊢
        rw [Decoder.drain_more hv, List.append_nil]
        exact ⟨rfl, he, decodeSlice_zero hd, hb'⟩
      · rw [if_neg hneg, if_neg hzero] at hv ⊢
        have hlen : (p.drop n.toNat).length < rounds := by
          have := decoder.item_le hv
          rw [List.length_drop]
          omega
        have hrec := ih (c := { c with
          stream := { c.stream with readBuf := b' }
          message := fresh
          delivered := c.delivered ++ [(n, m)] }) he rfl hb' hlen
        rw [List.append_assoc] at hrec
        rw [Decoder.drain_item hv]
        exact hrec

theorem start_refines {b : Buffer} (hb : b.Holds []) (tls : Bool) :
    Refines (start tls b) (decoder.drain []) :=
  asyncRead_refines rfl rfl hb (Nat.succ_pos _)

theorem readOp_contents (s : HttpStream) (q : Fifo UInt8) (d : Bytes) :
    (Buffer.queueStep q (s.readOp d)).contents = q.contents ++ d := by
  unfold HttpStream.readOp
  split
  · exact q.contents_push d
  · exact q.contents_push d

theorem resume_of_ended {c : Connection} {e : Checked (ℤ × Bool)} (h : c.ended = some e)
    (r : ReadResult) : c.resume r = c :=
  if_pos (by rw [h]; rfl)

theorem resume_data {c : Connection} {d : Bytes} {b : Buffer} (h : c.ended = none)
    (hexec : c.stream.readBuf.exec (c.stream.readOp d) = .ok b) :
    c.resume (.data d) = asyncRead (b.readableBytes.toNat + 1)
      { c with stream := { c.stream with readBuf := b } } := by
  rw [resume, if_neg (by rw [h]; exact Bool.false_ne_true)]
  simp only [hexec]

theorem resume_refines {c : Connection} {d : Bytes}
    {r : List (ℤ × HttpMessage) × Except (Checked (ℤ × Bool)) Bytes} (h : Refines c r)
    (ha : c.Admits (.data d)) : Refines (c.resume (.data d)) (decoder.feed r d) := by
  obtain ⟨items, state⟩ := r
  cases state with
  | error e =>
    rw [resume_of_ended h.2]
    exact h
  | ok p =>
    obtain ⟨rfl, he, hm, hb⟩ := h
    obtain ⟨b, hexec, hb', -⟩ := Buffer.exec_spec _ ⟨p, 0, Nat.zero_le _⟩ _ hb (ha he).2
    rw [Buffer.Refines, readOp_contents] at hb'
    change b.Holds (p ++ d) at hb'
    have hlen : (p ++ d).length < b.readableBytes.toNat + 1 := by
      rw [hb'.readable_eq]
      exact Nat.lt_succ_self _
    rw [resume_data he hexec]
    exact asyncRead_refines (c := { c with stream := { c.stream with readBuf := b } }) he hm hb' hlen

theorem foldl_resume_refines {cs : List Bytes} {e : List ReadResult} {c : Connection}
    {r : List (ℤ × HttpMessage) × Except (Checked (ℤ × Bool)) Bytes} (h : Refines c r)
    (hf : c.Fits (cs.map .data ++ e)) :
    Refines ((cs.map .data).foldl resume c) (cs.foldl decoder.feed r) := by
  induction cs generalizing c r with
  | nil => exact h
  | cons d cs ih => exact ih (resume_refines h hf.1) hf.2

def Agree (c c' : Connection) : Prop := c.delivered = c'.delivered ∧ c.ended = c'.ended

theorem Refines.agree {c c' : Connection}
    {r : List (ℤ × HttpMessage) × Except (Checked (ℤ × Bool)) Bytes} (h : Refines c r)
    (h' : Refines c' r) : Agree c c' := by
  obtain ⟨items, state⟩ := r
  refine ⟨h.1.trans h'.1.symm, ?_⟩
  cases state with
  | error e => exact Eq.trans h.2 (Eq.symm h'.2)
  | ok p => exact h.2.1.trans h'.2.1.symm

theorem Agree.resume {c c' : Connection} (h : Agree c c') {r : ReadResult}
    (hr : ∀ d, r ≠ .data d) : Agree (c.resume r) (c'.resume r) := by
  unfold Connection.resume
  rw [← h.2]
  split
  · exact h
  · cases r with
    | data d => exact absurd rfl (hr d)
    | closed rn => exact ⟨h.1, rfl⟩
    | timeout => exact ⟨h.1, rfl⟩

theorem Agree.foldl_resume {c c' : Connection} (h : Agree c c') {e : List ReadResult}
    (he : ∀ d, .data d ∉ e) : Agree (e.foldl Connection.resume c) (e.foldl Connection.resume c') := by
  induction e generalizing c c' with
  | nil => exact h
  | cons r e ih =>
    refine ih (h.resume ?_) (fun d hd ↦ he d (List.mem_cons_of_mem _ hd))
    rintro d rfl
    exact he d List.mem_cons_self

/-- Where the stream has no message without headers followed by a line end, the
chunks it comes in make no difference. -/
theorem foldl_resume_agree {b : Buffer} (hb : b.Holds []) (tls : Bool) {cs ds : List Bytes}
    {e : List ReadResult} (hflat : cs.flatten = ds.flatten) (he : ∀ d, .data d ∉ e)
    (hc : (start tls b).Fits (cs.map .data ++ e)) (hd : (start tls b).Fits (ds.map .data ++ e))
    (hs : ∀ r, decoder.Boundary cs.flatten r → ¬ (Headerless r ∧ Blank r)) :
    Agree ((cs.map ReadResult.data ++ e).foldl resume (start tls b))
      ((ds.map ReadResult.data ++ e).foldl resume (start tls b)) := by
  have hstable : decoder.Stable ([] ++ cs.flatten) := fun r hr ↦ decoder_stableAt (hs r hr)
  have hrc := foldl_resume_refines (start_refines hb tls) hc
  have hrd := foldl_resume_refines (start_refines hb tls) hd
  rw [Decoder.foldl_feed cs hstable] at hrc
  rw [hflat] at hstable hrc
  rw [Decoder.foldl_feed ds hstable] at hrd
  rw [List.foldl_append, List.foldl_append]
  exact (hrc.agree hrd).foldl_resume he

end Connection

namespace HttpMessage

def SegmentFree (b b' : Buffer) (q : Bytes) : Prop :=
  ∀ n m c, decode fresh b = .ok (n, m, c) → n ≠ 0 →
    ∃ m' c', decode fresh b' = .ok (n, m', c') ∧ (0 < n → m' = m) ∧ c'.slice = c.slice ++ q

theorem segmentFree_of {p q : Bytes} {b b' : Buffer} (hb : b.Holds p) (hb' : b'.Holds (p ++ q))
    (hq : Headerless p → ¬ Blank (p ++ q)) : SegmentFree b b' q := by
  intro n m c hdec hn
  obtain ⟨⟨n', m'⟩, hs, -⟩ := bind_eq_ok.mp hdec
  rw [hb.slice_eq] at hs
  obtain ⟨c₁, hdec₁, hc₁⟩ := decode_ok hb hs
  obtain ⟨rfl, h₁⟩ := Prod.mk.inj (Except.ok.inj (hdec₁.symm.trans hdec))
  obtain ⟨rfl, rfl⟩ := Prod.mk.inj h₁
  have hmore : ∀ m', decodeSlice fresh p ≠ .ok (0, m') := by
    intro m' h
    exact hn (Prod.mk.inj (Except.ok.inj (hs.symm.trans h))).1
  obtain ⟨c', hdec', hc'⟩ := decode_ok hb' ((decodeSlice_append hmore q hq).trans hs)
  refine ⟨_, c', hdec', fun _ ↦ rfl, ?_⟩
  have hle : n'.toNat ≤ p.length := by
    by_cases hpos : 0 < n'
    · have := decodeSlice_le hs hpos
      omega
    · omega
  rw [hc'.slice_eq, hc₁.slice_eq, List.drop_append_of_le_length hle]

/-- Decoding depends on the segmentation exactly where a line end comes behind
a message without headers that was complete without it. -/
theorem segmentation_independent_iff (p q : Bytes) {b b' : Buffer} (hb : b.Holds p) (hb' : b'.Holds (p ++ q)) :
    (SegmentFree b b' q ↔ ¬ (Headerless p ∧ ¬ Blank p ∧ Blank (p ++ q))) ∧
    ∀ (tls : Bool) (buf : Buffer) (cs ds : List Bytes) (e : List ReadResult),
      Buffer.make Buffer.kInitialSize = .ok buf → cs.flatten = ds.flatten →
      (∀ d, .data d ∉ e) → (Connection.start tls buf).Fits (cs.map .data ++ e) →
      (Connection.start tls buf).Fits (ds.map .data ++ e) →
      (∀ r, decoder.Boundary cs.flatten r → ¬ (Headerless r ∧ Blank r)) →
      Connection.Agree
        ((cs.map ReadResult.data ++ e).foldl Connection.resume (Connection.start tls buf))
        ((ds.map ReadResult.data ++ e).foldl Connection.resume (Connection.start tls buf)) := by
  refine ⟨⟨?_, ?_⟩, ?_⟩
  · rintro hfree ⟨hh, hp, hpq⟩
    have hs := decodeSlice_headerless hh fresh
    have hs' := decodeSlice_headerless (hh.append q) fresh
    rw [if_neg hp] at hs
    rw [if_pos hpq] at hs'
    obtain ⟨c, hdec, -⟩ := decode_ok hb hs
    obtain ⟨m', c', hdec', -⟩ := hfree _ _ _ hdec (by decide)
    cases (decode_error hb' hs').symm.trans hdec'
  · intro hcond
    by_cases hh : Headerless p
    · by_cases hp : Blank p
      · intro n m c hdec
        have hs := decodeSlice_headerless hh fresh
        rw [if_pos hp] at hs
        cases (decode_error hb hs).symm.trans hdec
      · exact segmentFree_of hb hb' (fun _ hpq ↦ hcond ⟨hh, hp, hpq⟩)
    · exact segmentFree_of hb hb' (fun h ↦ absurd h hh)
  · intro tls buf cs ds e hmake hflat he hc hd hs
    obtain ⟨b₀, hmake₀, hh, -⟩ := Buffer.make_spec (n := 1508) (by decide)
    obtain rfl : b₀ = buf := Except.ok.inj (hmake₀.symm.trans hmake)
    exact Connection.foldl_resume_agree hh tls hflat he hc hd hs

def oneLine : Bytes := [65, 13, 10, 66, 58, 67, 13, 10, 13, 10]

theorem decodeSlice_oneLine : decodeSlice fresh oneLine = .ok (10, ⟨[65], .empty, []⟩) := by
  have hloop : headerLoop oneLine 6 .empty 3 = .ok (.empty, some 3) := by
    rw [headerLoop]
    rfl
  rw [decodeSlice, show checkCompleted oneLine = .ok 10 from rfl, ok_bind]
  change (headerLoop oneLine 6 .empty 3 >>= _) = _
  rw [hloop]
  rfl

theorem boundary_oneLine {r : Bytes} (h : decoder.Boundary oneLine r) : r = oneLine ∨ r = [] := by
  have hitem : decoder.decode oneLine = .item 10 (10, ⟨[65], .empty, []⟩) := decoder_ok decodeSlice_oneLine
  have hmore : decoder.decode [] = .more := decoder_ok (n := 0) (m := fresh) rfl
  cases h with
  | refl => exact .inl rfl
  | item h hr =>
    cases hitem.symm.trans h
    cases hr with
    | refl => exact .inr rfl
    | item h _ => cases hmore.symm.trans h

theorem segmentation_independent_oneLine :
    ∃ b, Buffer.make Buffer.kInitialSize = .ok b ∧
      Connection.Agree
        ([.data (oneLine.take 4), .data (oneLine.drop 4), .closed 0].foldl Connection.resume
          (Connection.start false b))
        ([.data oneLine, .closed 0].foldl Connection.resume (Connection.start false b)) ∧
      ∃ c c', Buffer.Holds c oneLine ∧ Buffer.Holds c' (oneLine ++ [65]) ∧ SegmentFree c c' [65] := by
  obtain ⟨b, hmake, hb, -⟩ := Buffer.make_spec (n := 1508) (by decide)
  obtain ⟨c, hc⟩ := Buffer.exists_holds (p := oneLine) (by decide)
  obtain ⟨c', hc'⟩ := Buffer.exists_holds (p := oneLine ++ [65]) (by decide)
  obtain ⟨hfree, hagree⟩ := segmentation_independent_iff oneLine [65] hc hc'
  refine ⟨b, hmake, ?_, c, c', hc, hc', hfree.mpr (by decide)⟩
  have hb' : b = ⟨List.replicate 1516 0, 8, 8⟩ := Except.ok.inj (hmake.symm.trans (by decide +kernel))
  refine hagree false b [oneLine.take 4, oneLine.drop 4] [oneLine] [.closed 0] hmake rfl (by simp) ?_ ?_ ?_
  · subst hb'
    refine ⟨?_, ?_, fun _ ↦ Int.le_refl 0, trivial⟩
    · exact fun _ ↦ ⟨by decide, by decide +kernel⟩
    · exact fun _ ↦ ⟨by decide, by decide +kernel⟩
  · subst hb'
    refine ⟨?_, fun _ ↦ Int.le_refl 0, trivial⟩
    exact fun _ ↦ ⟨by decide, by decide +kernel⟩
  · intro r hr
    rcases boundary_oneLine hr with rfl | rfl
    · decide
    · decide

/-- `A` and a blank line: refused at once, but when a line end has come behind
it the length of the body is negative and `std::string` throws. -/
theorem bareRequest_depends_on_segmentation :
    ∃ b b', Buffer.Holds b [65, 13, 10, 13, 10] ∧ Buffer.Holds b' ([65, 13, 10, 13, 10] ++ crlf) ∧
      (∃ m c, decode fresh b = .ok (-1, m, c)) ∧ decode fresh b' = .error .lengthError ∧
      ¬ SegmentFree b b' crlf := by
  obtain ⟨b, hb⟩ := Buffer.exists_holds (p := [65, 13, 10, 13, 10]) (by decide)
  obtain ⟨b', hb'⟩ := Buffer.exists_holds (p := [65, 13, 10, 13, 10] ++ crlf) (by decide)
  have hs : decodeSlice fresh [65, 13, 10, 13, 10] = .ok (-1, { fresh with firstLine := [65] }) := rfl
  have hh : Headerless ([65, 13, 10, 13, 10] ++ crlf) := by decide
  have hs' := decodeSlice_headerless hh fresh
  rw [if_pos (by decide)] at hs'
  obtain ⟨c, hdec, -⟩ := decode_ok hb hs
  have hdec' := decode_error hb' hs'
  refine ⟨b, b', hb, hb', ⟨_, c, hdec⟩, hdec', ?_⟩
  intro hfree
  obtain ⟨_, _, hok, -⟩ := hfree _ _ _ hdec (by decide)
  cases hdec'.symm.trans hok

end HttpMessage

end Baize.Http
