import Baize.Net.BufferQueue
import Baize.Transfer.FileTransfer

namespace Baize.Transfer

open Lib Net StringPiece

theorem le_readvLimit_iff {b : Buffer} {n : ℤ} : n ≤ b.readvLimit ↔
    n ≤ b.writableBytes ∨ b.writableBytes < 65536 ∧ n ≤ b.writableBytes + 65536 := by
  have hextra : Buffer.extrabufSize = 65536 := rfl
  rw [Buffer.readvLimit, Buffer.iovcnt]
  by_cases hsmall : b.writableBytes < Buffer.extrabufSize
  · rw [if_pos hsmall, if_pos rfl]
    omega
  · rw [if_neg hsmall, if_neg (by decide)]
    omega

theorem readFd_grows {b : Buffer} {q d : Bytes} (hb : b.Holds q) (hd : (d.length : ℤ) ≤ b.readvLimit)
    (hsize : b.buffer.length + 65536 < 2147483648) :
    ∃ b', b.readFd (some d) = .ok b' ∧ b'.Holds (q ++ d) ∧
      b.buffer.length ≤ b'.buffer.length ∧ b'.buffer.length ≤ b.buffer.length + 65536 := by
  have hbounds : (b.buffer.length : ℤ) ≤ b.readFdSize d ∧ b.readFdSize d ≤ b.buffer.length + 65536 := by
    simp only [Buffer.readFdSize, Buffer.sizeFor]
    rw [le_readvLimit_iff] at hd
    split_ifs <;> omega
  obtain ⟨b', hread, hb', hs⟩ := Buffer.readFd_spec (d := d) hb (by omega)
  exact ⟨b', hread, hb', by omega, by omega⟩

theorem readFd_empty {b : Buffer} {d : Bytes} (hb : b.Holds []) (hw : b.writerIndex = 8)
    (hlarge : 65544 ≤ b.buffer.length) (hd : (d.length : ℤ) ≤ b.readvLimit) :
    ∃ b', b.readFd (some d) = .ok b' ∧ b'.Holds d ∧ b'.buffer.length = b.buffer.length := by
  have hwritable : b.writableBytes = b.buffer.length - 8 := by rw [Buffer.writableBytes, hw]
  have hsize : b.readFdSize d = b.buffer.length := by
    rw [le_readvLimit_iff] at hd
    exact if_pos (by omega)
  have hlt := hb.size_lt
  obtain ⟨b', hread, hb', hs⟩ := Buffer.readFd_spec (d := d) hb (by omega)
  exact ⟨b', hread, hb', by omega⟩

theorem readable_of_small {b : Buffer} {q d : Bytes} (hb : b.Holds q) (hd : d ≠ [] ∧ d.length ≤ 65536) :
    Readable b d := by
  obtain ⟨-, -, hw⟩ := hb.indices
  refine ⟨hd.1, le_readvLimit_iff.mpr ?_⟩
  rw [Buffer.writableBytes]
  omega

theorem flatten_prefix_of_append {ds ds' : List Bytes} {stream : Bytes} (h : (ds ++ ds').flatten <+: stream) :
    ds.flatten <+: stream := by
  rw [List.flatten_append] at h
  exact (List.prefix_append _ _).trans h

namespace FileTransferClient

variable {h : Header} {c : FileTransferClient} {d p : Bytes} {ds : List Bytes}

structure Reading (h : Header) (p : Bytes) (c : FileTransferClient) : Prop where
  alive : c.fatal = false
  header : c.header = none
  written : c.written = []
  buf : c.buf.Holds p
  large : 65544 ≤ c.buf.buffer.length
  bounded : c.buf.buffer.length ≤ 65544 + 65536 * p.length
  incomplete : p.length < h.encode.length

structure Parsed (h : Header) (rest : Bytes) (c : FileTransferClient) : Prop where
  alive : c.fatal = false
  header : c.header = some h
  written : c.written = []
  buf : c.buf.Holds rest
  large : 65544 ≤ c.buf.buffer.length
  bounded : c.buf.buffer.length ≤ 65544 + 65536 * 536

structure Writing (h : Header) (file : Bytes) (c : FileTransferClient) : Prop where
  alive : c.fatal = false
  header : c.header = some h
  written : c.written = file
  buf : c.buf.Holds []
  writer : c.buf.writerIndex = 8
  large : 65544 ≤ c.buf.buffer.length

theorem Reading.read (hr : Reading h p c) (hshort : h.Short) (hd : Readable c.buf d) :
    ∃ b, c.buf.readFd (some d) = .ok b ∧ b.Holds (p ++ d) ∧ 65544 ≤ b.buffer.length ∧
      b.buffer.length ≤ 65544 + 65536 * p.length + 65536 := by
  have hH := Header.encode_length_le hshort
  have hless := hr.incomplete
  have hbounded := hr.bounded
  obtain ⟨b, hread, hb, hlow, hup⟩ := readFd_grows hr.buf hd.2 (by omega)
  exact ⟨b, hread, hb, hr.large.trans hlow, hup.trans (Nat.add_le_add_right hbounded 65536)⟩

theorem Reading.turn_incomplete (hr : Reading h p c) (hshort : h.Short) (hd : Readable c.buf d) {rest : Bytes}
    (hstream : p ++ d <+: h.encode ++ rest) (hless : (p ++ d).length < h.encode.length) :
    ∃ c', c.turn d = .ok c' ∧ (c'.fatal = true ∨ Reading h (p ++ d) c') := by
  obtain ⟨b, hread, hb, hlarge, hbounded⟩ := hr.read hshort hd
  have hparse := Header.parse_of_prefix hshort hstream
  rw [if_neg (by omega)] at hparse
  have hpos : 0 < d.length := List.length_pos_of_ne_nil hd.1
  have hsize : b.buffer.length ≤ 65544 + 65536 * (p ++ d).length := by
    rw [List.length_append]
    omega
  have hwait : Reading h (p ++ d) { c with buf := b } :=
    ⟨hr.alive, hr.header, hr.written, hb, hlarge, hsize, hless⟩
  rw [turn, if_neg (by rw [hr.alive]; exact Bool.false_ne_true), hread, ok_bind,
    if_pos (by rw [hr.header]; rfl), hb.slice_eq]
  dsimp only
  rw [hparse]
  split
  · exact ⟨_, rfl, .inr hwait⟩
  · split
    · exact ⟨_, rfl, .inr hwait⟩
    · exact ⟨_, rfl, .inl rfl⟩

theorem Reading.turn_complete (hr : Reading h p c) (hshort : h.Short) (hd : Readable c.buf d) {rest : Bytes}
    (hstream : p ++ d <+: h.encode ++ rest) (hle : h.encode.length ≤ (p ++ d).length) :
    ∃ c', c.turn d = .ok c' ∧ Parsed h ((p ++ d).drop h.encode.length) c' := by
  obtain ⟨b, hread, hb, hlarge, hbounded⟩ := hr.read hshort hd
  have hH := Header.encode_length_le hshort
  have hless := hr.incomplete
  have hbounded' : b.buffer.length ≤ 65544 + 65536 * 536 := by omega
  have hparse := Header.parse_of_prefix hshort hstream
  rw [if_pos hle] at hparse
  have hbody := (Header.laid_encode hshort rest).body
  have hlen := Header.length_encode h
  have hfound : bzftbody <+: (p ++ d).drop (10 + h.filename.length + h.filemd5.length) := by
    rw [← Header.take_drop_of_prefix hstream (by omega)] at hbody
    rw [← hbody]
    exact List.take_prefix _ _
  have hindex : find (p ++ d) bzftbody ≤ 10 + h.filename.length + h.filemd5.length := search_le hfound
  have hne : find (p ++ d) bzftbody ≠ (p ++ d).length := search_ne_length (List.cons_ne_nil _ _) hfound
  have henough : ¬(p ++ d).length < find (p ++ d) bzftbody + 8 + 8 := by omega
  have hle' : (h.encode.length : ℤ) ≤ ((p ++ d).length : ℤ) := by omega
  obtain ⟨b', htake, hb', hsize⟩ := Buffer.take_spec hb hle'
  simp only [turn, hr.alive, hread, hr.header, hb.slice_eq, hparse, Bool.false_eq_true, if_false, ok_bind,
    Option.isNone_none, if_true, hne, henough, htake, pure_eq_ok]
  exact ⟨_, rfl, rfl, rfl, hr.written, hb', hsize ▸ hlarge, hsize ▸ hbounded'⟩

theorem Parsed.turn {rest : Bytes} (hp : Parsed h rest c) (hd : Readable c.buf d) :
    ∃ c', c.turn d = .ok c' ∧ Writing h (rest ++ d) c' := by
  have hbounded := hp.bounded
  have hlarge := hp.large
  obtain ⟨b, hread, hb, hlow, -⟩ := readFd_grows hp.buf hd.2 (by omega)
  simp only [FileTransferClient.turn, hp.alive, hread, hp.header, hb.slice_eq, hp.written, Bool.false_eq_true,
    if_false, ok_bind, Option.isNone_some, pure_eq_ok, List.nil_append]
  exact ⟨_, rfl, rfl, rfl, rfl, Buffer.takeAll_holds hb, rfl, hlarge.trans hlow⟩

theorem Writing.turn {file : Bytes} (hw : Writing h file c) (hd : Readable c.buf d) :
    ∃ c', c.turn d = .ok c' ∧ Writing h (file ++ d) c' := by
  obtain ⟨b, hread, hb, hsize⟩ := readFd_empty hw.buf hw.writer hw.large hd.2
  simp only [FileTransferClient.turn, hw.alive, hread, hw.header, hb.slice_eq, hw.written, Bool.false_eq_true,
    if_false, ok_bind, Option.isNone_some, pure_eq_ok]
  exact ⟨_, rfl, rfl, rfl, rfl, Buffer.takeAll_holds hb, rfl, hsize ▸ hw.large⟩

/-- Where the client is when the reads `ds` have come in. It gives up at a read that leaves the
header incomplete. -/
inductive Progress (h : Header) (ds : List Bytes) (c : FileTransferClient) : Prop
  | fatal (hfatal : c.fatal = true)
    (hless : ∃ ds', ds' ≠ [] ∧ ds' <+: ds ∧ ds'.flatten.length < h.encode.length)
  | reading (hr : Reading h ds.flatten c)
  | parsed (hp : Parsed h (ds.flatten.drop h.encode.length) c)
    (hless : ds.dropLast.flatten.length < h.encode.length)
    (hle : h.encode.length ≤ ds.flatten.length)
  | writing (hw : Writing h (ds.flatten.drop h.encode.length) c)
    (hle : h.encode.length ≤ ds.dropLast.flatten.length)

theorem Progress.turn (hc : Progress h ds c) (hshort : h.Short) (hd : c.fatal = false → Readable c.buf d)
    {rest : Bytes} (hstream : (ds ++ [d]).flatten <+: h.encode ++ rest) :
    ∃ c', c.turn d = .ok c' ∧ Progress h (ds ++ [d]) c' := by
  have hflat : (ds ++ [d]).flatten = ds.flatten ++ d := by simp
  rw [hflat] at hstream
  cases hc with
  | fatal hfatal hless =>
    obtain ⟨ds', hne, hds', hless⟩ := hless
    refine ⟨c, ?_, .fatal hfatal ⟨ds', hne, hds'.trans (List.prefix_append ds [d]), hless⟩⟩
    rw [FileTransferClient.turn, if_pos hfatal]
    rfl
  | reading hr =>
    by_cases hle : h.encode.length ≤ (ds.flatten ++ d).length
    · obtain ⟨c', hturn, hp⟩ := hr.turn_complete hshort (hd hr.alive) hstream hle
      refine ⟨c', hturn, .parsed (hflat ▸ hp) ?_ (hflat ▸ hle)⟩
      rw [List.dropLast_concat]
      exact hr.incomplete
    · obtain ⟨c', hturn, hfatal | hr'⟩ := hr.turn_incomplete hshort (hd hr.alive) hstream (not_le.mp hle)
      · refine ⟨c', hturn, .fatal hfatal ⟨ds ++ [d], List.concat_ne_nil d ds, List.prefix_rfl, ?_⟩⟩
        rw [hflat]
        exact not_le.mp hle
      · exact ⟨c', hturn, .reading (hflat ▸ hr')⟩
  | parsed hp hless hle =>
    obtain ⟨c', hturn, hw⟩ := hp.turn (hd hp.alive)
    refine ⟨c', hturn, .writing ?_ ?_⟩
    · rw [hflat, List.drop_append_of_le_length hle]
      exact hw
    · rw [List.dropLast_concat]
      exact hle
  | writing hw hle =>
    have hle' : h.encode.length ≤ ds.flatten.length := hle.trans (ds.dropLast_sublist.flatten.length_le)
    obtain ⟨c', hturn, hw⟩ := hw.turn (hd hw.alive)
    refine ⟨c', hturn, .writing ?_ ?_⟩
    · rw [hflat, List.drop_append_of_le_length hle']
      exact hw
    · rw [List.dropLast_concat]
      exact hle'

theorem Progress.alive (hc : Progress h ds c) (hfirst : ∀ d ∈ ds.head?, h.encode.length ≤ d.length) :
    c.fatal = false := by
  cases hc with
  | fatal _ hless =>
    obtain ⟨ds', hne, ⟨t, ht⟩, hless⟩ := hless
    cases ds' with
    | nil => exact absurd rfl hne
    | cons d ds' =>
      have hle := hfirst d (by rw [← ht]; rfl)
      rw [List.flatten_cons, List.length_append] at hless
      omega
  | reading hr => exact hr.alive
  | parsed hp => exact hp.alive
  | writing hw => exact hw.alive

theorem Progress.readable (hc : Progress h ds c) (hd : d ≠ [] ∧ d.length ≤ 65536) (halive : c.fatal = false) :
    Readable c.buf d := by
  cases hc with
  | fatal hfatal => cases halive.symm.trans hfatal
  | reading hr => exact readable_of_small hr.buf hd
  | parsed hp => exact readable_of_small hp.buf hd
  | writing hw => exact readable_of_small hw.buf hd

theorem new_reading (h : Header) : ∃ c, new = .ok c ∧ Reading h [] c := by
  obtain ⟨b, hmake, hb, hsize⟩ := Buffer.make_spec (n := 65536) (by decide)
  have hpos : 0 < h.encode.length := by
    rw [Header.length_encode]
    omega
  refine ⟨⟨b, none, [], false⟩, ?_, rfl, rfl, rfl, hb, ?_, ?_, hpos⟩
  · rw [new, show Buffer.make 65536 = .ok b from hmake]
    rfl
  · exact hsize.ge
  · exact hsize.le

theorem start_progress (hshort : h.Short) {chunks : List Bytes} (hreads : Reads chunks) {rest : Bytes}
    (hstream : chunks.flatten <+: h.encode ++ rest) :
    ∃ c, start chunks = .ok c ∧ Progress h chunks c := by
  obtain ⟨c₀, hnew, hc₀⟩ := new_reading h
  obtain ⟨c, hfold, hc⟩ := foldlM_history (R := Progress h) (Q := fun ds ↦ ds.flatten <+: h.encode ++ rest)
    (fun _ _ ↦ flatten_prefix_of_append) (fun _ _ _ hc hd hstream ↦ hc.turn hshort hd hstream) chunks
    (l := []) (.reading hc₀) hstream (hreads c₀ hnew)
  refine ⟨c, ?_, hc⟩
  rw [start, hnew]
  exact hfold

theorem reads_of_small (hshort : h.Short) {chunks : List Bytes}
    (hsmall : ∀ d ∈ chunks, d ≠ [] ∧ d.length ≤ 65536) {rest : Bytes}
    (hstream : chunks.flatten <+: h.encode ++ rest) : Reads chunks := by
  intro c hnew
  obtain ⟨c₀, hnew₀, hc₀⟩ := new_reading h
  obtain rfl := Except.ok.inj (hnew₀.symm.trans hnew)
  refine admissible_of_history (R := Progress h)
    (Q := fun ds ↦ (∀ d ∈ ds, d ≠ [] ∧ d.length ≤ 65536) ∧ ds.flatten <+: h.encode ++ rest) ?_ ?_ ?_ chunks
    (l := []) (.reading hc₀) ⟨hsmall, hstream⟩
  · intro ds ds' hq
    exact ⟨fun d hd ↦ hq.1 d (List.mem_append_left ds' hd), flatten_prefix_of_append hq.2⟩
  · intro ds c d hc hq
    exact hc.readable (hq.1 d List.mem_concat_self)
  · intro ds c d hc hd hq
    exact hc.turn hshort hd hq.2

end FileTransferClient

namespace FileTransferServer

variable {h : Header} {s : FileTransferServer} {d : Bytes} {rs : List Bytes}

inductive Sending (h : Header) (rs : List Bytes) (s : FileTransferServer) : Prop
  | first (hnil : rs = []) (hsent : s.sent = []) (hbuf : s.buf.Holds h.encode)
    (hlarge : 65544 ≤ s.buf.buffer.length) (hbounded : s.buf.buffer.length ≤ 65544 + 536)
  | next (hne : rs.flatten ≠ []) (hsent : s.sent = h.encode ++ rs.flatten) (hbuf : s.buf.Holds [])
    (hwriter : s.buf.writerIndex = 8) (hlarge : 65544 ≤ s.buf.buffer.length)

theorem Sending.turn (hs : Sending h rs s) (hd : Readable s.buf d) :
    ∃ s', s.turn d = .ok s' ∧ Sending h (rs ++ [d]) s' := by
  have hne : (rs ++ [d]).flatten ≠ [] := by simp [hd.1]
  cases hs with
  | first hnil hsent hbuf hlarge hbounded =>
    obtain ⟨b, hread, hb, hlow, -⟩ := readFd_grows hbuf hd.2 (by omega)
    refine ⟨⟨b.takeAll, s.sent ++ b.slice⟩, ?_, .next hne ?_ (Buffer.takeAll_holds hb) rfl (hlarge.trans hlow)⟩
    · rw [FileTransferServer.turn, hread]
      rfl
    · simp [hsent, hb.slice_eq, hnil]
  | next _ hsent hbuf hwriter hlarge =>
    obtain ⟨b, hread, hb, hsize⟩ := readFd_empty hbuf hwriter hlarge hd.2
    refine ⟨⟨b.takeAll, s.sent ++ b.slice⟩, ?_, .next hne ?_ (Buffer.takeAll_holds hb) rfl (hsize ▸ hlarge)⟩
    · rw [FileTransferServer.turn, hread]
      rfl
    · simp [hsent, hb.slice_eq]

theorem Sending.sent_prefix (hs : Sending h rs s) : s.sent <+: h.encode ++ rs.flatten := by
  cases hs with
  | first _ hsent => rw [hsent]; exact List.nil_prefix
  | next _ hsent => rw [hsent]

theorem Sending.sent_eq (hs : Sending h rs s) (hne : rs.flatten ≠ []) : s.sent = h.encode ++ rs.flatten := by
  cases hs with
  | first hnil => exact absurd (by rw [hnil]; rfl) hne
  | next _ hsent => exact hsent

theorem Sending.ne_nil (hs : Sending h rs s) (hle : h.encode.length ≤ s.sent.length) : rs.flatten ≠ [] := by
  cases hs with
  | first _ hsent =>
    rw [hsent, Header.length_encode, List.length_nil] at hle
    omega
  | next hne => exact hne

theorem Sending.finish_iff (hs : Sending h rs s) : s.finish = .ok () ↔ rs.flatten ≠ [] := by
  cases hs with
  | first hnil _ hbuf =>
    have hne : s.buf.readableBytes ≠ 0 := by
      rw [hbuf.readable_eq, Header.length_encode]
      omega
    refine iff_of_false ?_ (by simp [hnil])
    rw [finish, check, if_neg hne]
    exact nofun
  | next hne _ hbuf => exact iff_of_true (check_of hbuf.readable_eq) hne

theorem Sending.readable (hs : Sending h rs s) (hd : d ≠ [] ∧ d.length ≤ 65536) : Readable s.buf d := by
  cases hs with
  | first _ _ hbuf => exact readable_of_small hbuf hd
  | next _ _ hbuf => exact readable_of_small hbuf hd

theorem new_sending (hshort : h.Short) : ∃ s, new h = .ok s ∧ Sending h [] s := by
  obtain ⟨b, hmake, hb, hsize⟩ := Buffer.make_spec (n := 65536) (by decide)
  have hlen : h.pieces.flatten.length ≤ 536 := Header.encode_length_le hshort
  obtain ⟨b', hfold, hb', hlow, hup⟩ := Buffer.foldlM_append_grows hb h.pieces (by omega)
  refine ⟨⟨b', []⟩, ?_, .first rfl rfl hb' ?_ ?_⟩
  · rw [new, show Buffer.make 65536 = .ok b from hmake, ok_bind, hfold]
    rfl
  · exact hsize.ge.trans hlow
  · exact hup.trans (by omega)

theorem start_sending (hshort : h.Short) {reads : List Bytes} (hreads : Reads h reads) :
    ∃ s, start h reads = .ok s ∧ Sending h reads s := by
  obtain ⟨s₀, hnew, hs₀⟩ := new_sending hshort
  obtain ⟨s, hfold, hs⟩ := foldlM_history (R := Sending h) (Q := fun _ ↦ True) (fun _ _ _ ↦ trivial)
    (fun _ _ _ hs hd _ ↦ hs.turn hd) reads hs₀ trivial (hreads s₀ hnew)
  refine ⟨s, ?_, hs⟩
  rw [start, hnew]
  exact hfold

theorem reads_of_small (hshort : h.Short) {reads : List Bytes}
    (hsmall : ∀ d ∈ reads, d ≠ [] ∧ d.length ≤ 65536) : Reads h reads := by
  intro s hnew
  obtain ⟨s₀, hnew₀, hs₀⟩ := new_sending hshort
  obtain rfl := Except.ok.inj (hnew₀.symm.trans hnew)
  refine admissible_of_history (R := Sending h)
    (Q := fun rs ↦ ∀ d ∈ rs, d ≠ [] ∧ d.length ≤ 65536) ?_ ?_ ?_ reads
    (l := []) hs₀ hsmall
  · intro rs rs' hsmall d hd
    exact hsmall d (List.mem_append_left rs' hd)
  · intro rs s d hs hsmall
    exact hs.readable (hsmall d List.mem_concat_self)
  · intro rs s d hs hd _
    exact hs.turn hd

end FileTransferServer

def headerOf (filename filemd5 file : Bytes) : Header := ⟨filename, filemd5, UInt64.ofNat file.length⟩

/-- A client that reports success has the file just when the header was complete before the last
read: what comes with the end of the header stays in the buffer until the next one. The header of an
empty file is not even sent. -/
theorem transfer_delivers_iff {filename filemd5 : Bytes} {reads : List Bytes} (hname : filename.length ≤ 255)
    (hmd5 : filemd5.length ≤ 255)
    (hreads : FileTransferServer.Reads (headerOf filename filemd5 reads.flatten) reads) :
    ∃ s, FileTransferServer.start (headerOf filename filemd5 reads.flatten) reads = .ok s ∧
      (s.finish = .ok () ↔ reads.flatten ≠ []) ∧
      ∀ chunks, chunks.flatten = s.sent → FileTransferClient.Reads chunks →
        ∃ c, FileTransferClient.start chunks = .ok c ∧ (c.fatal = false →
          (c.header = some (headerOf filename filemd5 reads.flatten) ∧ c.written = reads.flatten ↔
            (headerOf filename filemd5 reads.flatten).encode.length ≤ chunks.dropLast.flatten.length)) := by
  have hshort : (headerOf filename filemd5 reads.flatten).Short := ⟨hname, hmd5⟩
  obtain ⟨s, hstart, hs⟩ := FileTransferServer.start_sending hshort hreads
  refine ⟨s, hstart, hs.finish_iff, fun chunks hchunks hclient ↦ ?_⟩
  obtain ⟨c, hc, hprogress⟩ := FileTransferClient.start_progress hshort hclient (hchunks ▸ hs.sent_prefix)
  refine ⟨c, hc, fun halive ↦ ?_⟩
  have hlast : chunks.dropLast.flatten.length ≤ chunks.flatten.length :=
    chunks.dropLast_sublist.flatten.length_le
  cases hprogress with
  | fatal hfatal => cases halive.symm.trans hfatal
  | reading hr =>
    have hless := hr.incomplete
    refine iff_of_false (fun h ↦ ?_) (by omega)
    cases hr.header.symm.trans h.1
  | parsed hp hless hle =>
    refine iff_of_false (fun h ↦ ?_) (not_le.mpr hless)
    exact hs.ne_nil (hchunks ▸ hle) (hp.written.symm.trans h.2).symm
  | writing hw hle =>
    refine iff_of_true ⟨hw.header, hw.written.trans ?_⟩ hle
    rw [hchunks, hs.sent_eq (hs.ne_nil (hchunks ▸ hle.trans hlast)), List.drop_left]

theorem transfer_delivers_twoReads :
    ∃ s c, FileTransferServer.start (headerOf [102] [109] [1, 2]) [[1], [2]] = .ok s ∧
      FileTransferClient.start [(headerOf [102] [109] [1, 2]).encode ++ [1], [2]] = .ok c ∧
      c.fatal = false ∧ c.header = some (headerOf [102] [109] [1, 2]) ∧ c.written = [1, 2] := by
  have hshort : (headerOf [102] [109] [1, 2]).Short := ⟨by decide, by decide⟩
  have hreads : FileTransferServer.Reads (headerOf [102] [109] [1, 2]) [[1], [2]] :=
    FileTransferServer.reads_of_small hshort (by decide)
  have hstream : [(headerOf [102] [109] [1, 2]).encode ++ [1], [2]].flatten =
      (headerOf [102] [109] [1, 2]).encode ++ [1, 2] := by simp
  have hpart : [(headerOf [102] [109] [1, 2]).encode ++ [1], [2]].flatten <+:
      (headerOf [102] [109] [1, 2]).encode ++ [1, 2] := by rw [hstream]
  have hclient : FileTransferClient.Reads [(headerOf [102] [109] [1, 2]).encode ++ [1], [2]] :=
    FileTransferClient.reads_of_small hshort (by decide) hpart
  obtain ⟨s, hs, -, hdelivers⟩ := @transfer_delivers_iff [102] [109] [[1], [2]] (by decide) (by decide) hreads
  obtain ⟨_, hs', hsending⟩ := FileTransferServer.start_sending hshort hreads
  obtain rfl := Except.ok.inj (hs.symm.trans hs')
  obtain ⟨c, hc, hiff⟩ := hdelivers _ (hstream.trans (hsending.sent_eq (by decide)).symm) hclient
  obtain ⟨_, hc', hprogress⟩ := FileTransferClient.start_progress hshort hclient hpart
  obtain rfl := Except.ok.inj (hc.symm.trans hc')
  have halive := hprogress.alive (by decide)
  exact ⟨s, c, hs, hc, halive, (hiff halive).mpr (by decide)⟩

/-- A file of one byte comes with its header, and is not written. -/
theorem oneByte_not_written :
    ∃ s c, FileTransferServer.start (headerOf [102] [109] [1]) [[1]] = .ok s ∧ s.finish = .ok () ∧
      FileTransferClient.start [s.sent] = .ok c ∧ c.fatal = false ∧ c.written = [] := by
  have hshort : (headerOf [102] [109] [1]).Short := ⟨by decide, by decide⟩
  have hreads : FileTransferServer.Reads (headerOf [102] [109] [1]) [[1]] :=
    FileTransferServer.reads_of_small hshort (by decide)
  obtain ⟨s, hs, hsending⟩ := FileTransferServer.start_sending hshort hreads
  have hsent : s.sent = (headerOf [102] [109] [1]).encode ++ [1] := hsending.sent_eq (by decide)
  have hpart : [s.sent].flatten <+: (headerOf [102] [109] [1]).encode ++ [1] := by
    rw [hsent, List.flatten_singleton]
  have hclient : FileTransferClient.Reads [s.sent] :=
    FileTransferClient.reads_of_small hshort (by rw [hsent]; decide) hpart
  obtain ⟨c, hc, hprogress⟩ := FileTransferClient.start_progress hshort hclient hpart
  have halive := hprogress.alive (by rw [hsent]; decide)
  refine ⟨s, c, hs, hsending.finish_iff.mpr (by decide), hc, halive, ?_⟩
  cases hprogress with
  | fatal hfatal => cases halive.symm.trans hfatal
  | reading hr => exact hr.written
  | parsed hp => exact hp.written
  | writing _ hle => exact absurd (show (headerOf [102] [109] [1]).encode.length ≤ 0 from hle) (by decide)

end Baize.Transfer
