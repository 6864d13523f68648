import Baize.Http.HeaderOrder
import Baize.Http.Response
import Baize.Http.Stream
import Baize.Lib.Frames

namespace Baize.Http

open Lib Net HttpMessage

namespace HttpMessage

/-- What the other side makes of a message: `Decode` does not enter the last header. -/
def received (m : HttpMessage) : HttpMessage :=
  { m with headers := ⟨m.headers.entries.dropLast, m.headers.sorted.sublist (List.dropLast_sublist _)⟩ }

/-- The messages that come through: their last header is not the one with the length. -/
structure Sendable (m : HttpMessage) : Prop extends WellFormed m where
  last : ∃ e ∈ m.headers.entries.getLast?, e.1 ≠ contentLength
  fits : m.encoded.length < 2147483648

structure Unsendable (m : HttpMessage) : Prop extends WellFormed m where
  last : ∃ e ∈ m.headers.entries.getLast?, e.1 = contentLength
  fits : m.encoded.length < 2147483648

section

variable {m : HttpMessage} {es : List (Bytes × Bytes)} {e : Bytes × Bytes}

theorem LineOk.take_eq (h : LineOk e) : (lineOf e).take (StringPiece.findChar (lineOf e) colon) = e.1 := by
  have hcolon : StringPiece.findChar (lineOf e) colon = e.1.length := findChar_colon h.no_colon (32 :: e.2)
  rw [hcolon, lineOf, List.take_left]

theorem LineOk.drop_eq (h : LineOk e) :
    (lineOf e).drop (StringPiece.findChar (lineOf e) colon + 1) = 32 :: e.2 := by
  have hcolon : StringPiece.findChar (lineOf e) colon = e.1.length := findChar_colon h.no_colon (32 :: e.2)
  rw [hcolon, lineOf, ← List.drop_drop, List.drop_left]
  rfl

theorem WellFormed.linesOk (h : WellFormed m) : LinesOk m.firstLine (m.headers.entries.map lineOf) m.body where
  firstLine_clean := not_crlf_of_notMem h.firstLine_clean.1
  clean := List.forall_mem_map.mpr fun e he ↦ not_crlf_of_notMem (h.lines e he).cr_notMem
  colon_mem := List.forall_mem_map.mpr fun e _ ↦ List.mem_append_right _ List.mem_cons_self
  keys := by
    have hkeys : (m.headers.entries.map lineOf).map key = m.headers.entries.map Prod.fst := by
      rw [List.map_map]
      exact List.map_congr_left fun e he ↦ (h.lines e he).key_eq
    rw [hkeys]
    exact (List.pairwise_map.mpr m.headers.sorted).imp fun hlt ↦ hlt.ne
  name_plain := List.forall_mem_map.mpr fun e he hk ↦ by
    rw [(h.lines e he).take_eq]
    exact (h.plain e he).1 fun hkey ↦ hk ((h.lines e he).key_eq.trans hkey)
  value_plain := List.forall_mem_map.mpr fun e he ↦ by
    rw [(h.lines e he).drop_eq, ← List.nil_append (32 :: e.2)]
    exact not_infix_append_cons (by decide) (by decide) (h.plain e he).2
  framed := List.forall_mem_map.mpr fun e he hk ↦ by
    rw [(h.lines e he).key_eq] at hk
    rw [(h.lines e he).value_eq]
    exact h.framed e.2 (hk ▸ he)
  unframed := fun hno ↦ h.unframed fun hmem ↦ by
    obtain ⟨e, he, hk⟩ := List.mem_map.mp hmem
    exact hno _ (List.mem_map_of_mem he) ((h.lines e he).key_eq.trans hk)

theorem encoded_eq_message (m : HttpMessage) :
    m.encoded = message m.firstLine (m.headers.entries.map lineOf) m.body := by
  have happend := encoded_append m []
  rwa [List.append_nil, List.append_nil] at happend

theorem WellFormed.checkCompleted_encoded (h : WellFormed m) (hes : m.headers.entries = es ++ [e])
    (hfit : m.encoded.length < 2147483648) :
    checkCompleted m.encoded = .ok (if e.1 = contentLength then -1 else (m.encoded.length : ℤ)) := by
  have hlines := h.linesOk
  have he : LineOk e := h.lines e (hes ▸ List.mem_append_right es (List.mem_singleton_self e))
  rw [encoded_eq_message, length_message] at hfit
  rw [encoded_eq_message, hlines.checkCompleted_eq, verdict_cons_of_not_mention h.firstLine_plain,
    length_message]
  rw [hes, List.map_append, List.map_cons, List.map_nil] at hlines hfit ⊢
  rw [hlines.verdict_eq hfit, he.key_eq]

theorem Sendable.exists_last (h : Sendable m) :
    ∃ es e, m.headers.entries = es ++ [e] ∧ e.1 ≠ contentLength := by
  obtain ⟨e, hlast, hne⟩ := h.last
  obtain ⟨es, hes⟩ := List.getLast?_eq_some_iff.mp hlast
  exact ⟨es, e, hes, hne⟩

theorem WellFormed.encoded_length_pos (h : WellFormed m) : 0 < m.encoded.length := by
  have hpos := List.length_pos_of_ne_nil h.firstLine_ne
  rw [encoded_eq, List.length_append]
  omega

theorem Sendable.decodeSlice_encoded (h : Sendable m) :
    decodeSlice fresh m.encoded = .ok (m.encoded.length, m.received) := by
  obtain ⟨es, e, hes, hne⟩ := h.exists_last
  have hc := h.checkCompleted_encoded hes h.fits
  rw [if_neg hne] at hc
  have hsorted : (es ++ [e]).Pairwise (fun a b ↦ a.1 < b.1) := hes ▸ m.headers.sorted
  have hok : ∀ a ∈ es, LineOk a := fun a ha ↦ h.lines a (hes ▸ List.mem_append_left _ ha)
  have hlines := lines_encoded h.toWellFormed []
  rw [List.append_nil, hes, List.map_append, List.map_cons, List.map_nil] at hlines
  obtain ⟨l, ls, hls⟩ := List.exists_cons_of_ne_nil (l := es.map lineOf ++ [lineOf e])
    (List.append_ne_nil_of_right_ne_nil _ (List.cons_ne_nil _ _))
  have hs := decodeSlice_lines hc (Int.natCast_pos.mpr h.encoded_length_pos) (hls ▸ hlines) fresh
  have hcolons : ∀ line ∈ es.map lineOf, StringPiece.findChar line colon ≠ line.length :=
    List.forall_mem_map.mpr fun a ha ↦ (hok a ha).colon_ne
  have henter : (enter .empty (es.map lineOf)).1 = m.received.headers := by
    rw [enter_lineOf es hok, SortedMap.foldl_insert SortedMap.empty es (List.pairwise_append.mp hsorted).1]
    refine SortedMap.ext ?_
    change es = m.headers.entries.dropLast
    rw [hes, List.dropLast_concat]
  have hblank : StringPiece.find m.encoded crlfcrlf + 4 + m.body.length = m.encoded.length := by
    rw [encoded_eq_message, find_message h.linesOk.all_clean h.linesOk.not_nil, length_message]
  have hbody : m.encoded.drop (StringPiece.find m.encoded crlfcrlf + 4) = m.body := by
    rw [encoded_eq_message, find_message h.linesOk.all_clean h.linesOk.not_nil, message, ← List.drop_drop,
      List.drop_left]
    rfl
  rw [← hls, List.dropLast_concat] at hs
  change _ = Except.ok (if (enter .empty (es.map lineOf)).2 = true then _ else _) at hs
  rw [if_pos (enter_of_colons hcolons _), hbody] at hs
  rw [hs]
  refine congrArg Except.ok (Prod.ext rfl ?_)
  change HttpMessage.mk _ (enter .empty (es.map lineOf)).1 _ = _
  rw [henter, List.take_of_length_le (by omega)]
  rfl

theorem Sendable.frames (h : Sendable m) : decoder.Frames m.encoded ((m.encoded.length : ℤ), m.received) := by
  have hpos : (0 : ℤ) < m.encoded.length := Int.natCast_pos.mpr h.encoded_length_pos
  obtain ⟨hc, f, l, ls, hlines, -⟩ := decodeSlice_accepted h.decodeSlice_encoded hpos
  have hplain : ¬Headerless m.encoded := by
    intro hh
    have hs := (decodeSlice_headerless hh fresh).symm.trans h.decodeSlice_encoded
    split at hs
    · cases hs
    · have hlen : (-1 : ℤ) = m.encoded.length := congrArg Prod.fst (Except.ok.inj hs)
      omega
  refine .of_stableAt (fun q ↦ ?_) (decoder_stableAt fun hno ↦ hplain hno.1)
  have hs := (decodeSlice_append_of_headers hc hpos hlines fresh q).trans h.decodeSlice_encoded
  rw [decoder_ok hs, if_neg (by omega), if_neg (by omega), Int.toNat_natCast]

theorem Unsendable.checkCompleted_append (h : Unsendable m) (q : Bytes) :
    checkCompleted (m.encoded ++ q) = .ok (-1) := by
  obtain ⟨e, hlast, heq⟩ := h.last
  obtain ⟨es, hes⟩ := List.getLast?_eq_some_iff.mp hlast
  have hc := h.checkCompleted_encoded hes h.fits
  rw [if_pos heq] at hc
  exact (HttpMessage.checkCompleted_append (by rw [hc]; decide) q).trans hc

theorem Unsendable.decode_append (h : Unsendable m) (q : Bytes) :
    decoder.decode (m.encoded ++ q) = .stop (.ok (-1, false)) := by
  have hs : decodeSlice fresh (m.encoded ++ q) = .ok (-1, fresh) := by
    rw [decodeSlice, h.checkCompleted_append, ok_bind]
    rfl
  exact decoder_ok hs

theorem Unsendable.stable (h : Unsendable m) (q : Bytes) : decoder.Stable (m.encoded ++ q) := by
  intro r hr
  cases hr with
  | refl =>
    refine decoder_stableAt fun hno ↦ ?_
    have hc := (checkCompleted_headerless hno.1).symm.trans (h.checkCompleted_append q)
    have hneg := Except.ok.inj hc
    omega
  | item hitem _ => cases (h.decode_append q).symm.trans hitem

theorem sendable_document {type body : Bytes} (h : ValueOk type)
    (hfit : (document type body).encoded.length < 2147483648) : Sendable (document type body) :=
  ⟨wellFormed_document h body, ⟨(contentType, type), rfl, show contentType ≠ contentLength by decide⟩, hfit⟩

theorem unsendable_plainDocument {body : Bytes} (hfit : (plainDocument body).encoded.length < 2147483648) :
    Unsendable (plainDocument body) :=
  ⟨wellFormed_plainDocument body, ⟨(contentLength, decimal body.length), rfl, rfl⟩, hfit⟩

def frame (m : HttpMessage) : Bytes × ℤ × HttpMessage := (m.encoded, m.encoded.length, m.received)

theorem wire_frame (ms : List HttpMessage) : Decoder.wire (ms.map frame) = (ms.map encoded).flatten := by
  rw [Decoder.wire, List.map_map]
  rfl

theorem frames_of_sendable {ms : List HttpMessage} (h : ∀ m ∈ ms, Sendable m) :
    ∀ x ∈ ms.map frame, decoder.Frames x.1 x.2 :=
  List.forall_mem_map.mpr fun m hm ↦ (h m hm).frames

end

end HttpMessage

namespace Connection

variable {ms : List HttpMessage} {cs : List Bytes} {buf : Buffer} {p : Bytes}

theorem foldl_resume_drain (hbuf : Buffer.make Buffer.kInitialSize = .ok buf) (tls : Bool)
    (hstable : decoder.Stable cs.flatten) (hfits : (start tls buf).Fits (cs.map .data)) :
    Refines ((cs.map .data).foldl resume (start tls buf)) (decoder.drain cs.flatten) := by
  obtain ⟨b, hmake, hb, -⟩ := Buffer.make_spec (n := 1508) (by decide)
  obtain rfl : b = buf := Except.ok.inj (hmake.symm.trans hbuf)
  have hrefines := foldl_resume_refines (e := []) (start_refines hb tls) (by rwa [List.append_nil])
  rwa [Decoder.foldl_feed cs hstable] at hrefines

/-- Messages that one side encodes and sends one behind the other come to the reader on the other side in
this order, each one when its last byte is there and however the bytes are cut, and each without its last
header. A message whose last header is `Content-Length` ends the connection. -/
theorem reads_encoded (hms : ∀ m ∈ ms, Sendable m) (tls : Bool)
    (hbuf : Buffer.make Buffer.kInitialSize = .ok buf) :
    (∀ cs : List Bytes, cs.flatten <+: (ms.map encoded).flatten → (start tls buf).Fits (cs.map .data) →
      ∃ done rest t, ms = done ++ rest ∧ cs.flatten = (done.map encoded).flatten ++ t ∧
        (∀ m ∈ rest.head?, t.length < m.encoded.length) ∧
        ((cs.map .data).foldl resume (start tls buf)).delivered =
          done.map (fun m ↦ ((m.encoded.length : ℤ), m.received)) ∧
        ((cs.map .data).foldl resume (start tls buf)).ended = none) ∧
      ∀ (m : HttpMessage) (q : Bytes) (cs : List Bytes), Unsendable m →
        cs.flatten = (ms.map encoded).flatten ++ (m.encoded ++ q) → (start tls buf).Fits (cs.map .data) →
        ((cs.map .data).foldl resume (start tls buf)).delivered =
          ms.map (fun m ↦ ((m.encoded.length : ℤ), m.received)) ∧
        ((cs.map .data).foldl resume (start tls buf)).ended = some (.ok (-1, false)) := by
  have hframes := frames_of_sendable hms
  have hnil : decoder.decode [] = .more := decoder_ok (n := 0) (m := fresh) rfl
  refine ⟨fun cs hcs hfits ↦ ?_, fun m q cs hm hcs hfits ↦ ?_⟩
  · rw [← wire_frame] at hcs
    obtain ⟨done', rest', t, hsplit, ht, hmore, hlt⟩ := Decoder.exists_cut hnil hframes hcs
    obtain ⟨done, rest, rfl, rfl, rfl⟩ := List.map_eq_append_iff.mp hsplit
    have hstable : decoder.Stable cs.flatten := by
      obtain ⟨z, hz⟩ := hcs
      have hall := Decoder.stable_wire hframes Decoder.stable_nil
      rw [List.append_nil, ← hz] at hall
      exact hall.of_append
    have hrefines := foldl_resume_drain hbuf tls hstable hfits
    have hdone : ∀ x ∈ done.map frame, decoder.Frames x.1 x.2 := fun x hx ↦
      hframes x (hsplit ▸ List.mem_append_left _ hx)
    rw [ht, Decoder.drain_wire hdone, Decoder.drain_more hmore, List.append_nil, List.map_map] at hrefines
    obtain ⟨hdelivered, hended, -⟩ := hrefines
    refine ⟨done, rest, t, rfl, ?_, fun m hm ↦ hlt (frame m) ?_, hdelivered, hended⟩
    · rw [ht, wire_frame]
    · rw [List.head?_map]
      exact Option.mem_map_of_mem frame hm
  · have hstable := Decoder.stable_wire hframes (hm.stable q)
    rw [← wire_frame] at hcs
    have hrefines := foldl_resume_drain hbuf tls (hcs ▸ hstable) hfits
    rw [hcs, Decoder.drain_wire hframes, Decoder.drain_stop (hm.decode_append q), List.append_nil, List.map_map]
      at hrefines
    exact hrefines

def hello : HttpMessage := document (ascii "text/plain; charset=utf-8") (ascii "hello")

def twoAnswers : List Bytes :=
  [(hello.encoded ++ (plainDocument [66]).encoded).take 4,
    (hello.encoded ++ (plainDocument [66]).encoded).drop 4]

theorem reads_encoded_twoAnswers :
    ∃ buf, Buffer.make Buffer.kInitialSize = .ok buf ∧
      ((twoAnswers.map .data).foldl resume (start false buf)).delivered = [(84, hello.received)] ∧
      ((twoAnswers.map .data).foldl resume (start false buf)).ended = some (.ok (-1, false)) := by
  obtain ⟨buf, hmake, -⟩ := Buffer.make_spec (n := 1508) (by decide)
  have hbuf : buf = ⟨List.replicate 1516 0, 8, 8⟩ := Except.ok.inj (hmake.symm.trans (by decide +kernel))
  have htype : ValueOk (ascii "text/plain; charset=utf-8") :=
    ⟨⟨by decide +kernel, by decide +kernel⟩, by decide, by decide⟩
  have hsend : ∀ m ∈ [hello], Sendable m :=
    List.forall_mem_singleton.mpr (sendable_document htype (by decide +kernel))
  have hflat : twoAnswers.flatten = ([hello].map encoded).flatten ++ ((plainDocument [66]).encoded ++ []) := by
    decide +kernel
  have hfits : (start false buf).Fits (twoAnswers.map .data) := by
    subst hbuf
    exact ⟨fun _ ↦ ⟨by decide +kernel, by decide +kernel⟩,
      fun _ ↦ ⟨by decide +kernel, by decide +kernel⟩, trivial⟩
  have hlen : hello.encoded.length = 84 := by decide +kernel
  obtain ⟨hdelivered, hended⟩ := (reads_encoded hsend false hmake).2 _ [] _
    (unsendable_plainDocument (by decide +kernel)) hflat hfits
  rw [List.map_singleton, hlen] at hdelivered
  exact ⟨buf, hmake, hdelivered, hended⟩

end Connection

end Baize.Http
