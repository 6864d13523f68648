import Baize.Http.Pipelining
import Baize.Webrtc.SignalSession

namespace Baize.Webrtc

open Lib Net Http HttpMessage

namespace SignalSession

section

variable {s : Bytes}

theorem barren_of_stop (hstable : decoder.Stable s) {e : Checked (ℤ × Bool)}
    (hstop : decoder.decode s = .stop e) : decoder.Barren s := by
  rintro p n m ⟨q, rfl⟩ hitem
  cases hstop.symm.trans (hstable.item_append hitem)

theorem barren_of_headerless (h : Headerless s) : decoder.Barren s := by
  rintro p n ⟨k, m⟩ ⟨q, rfl⟩ hitem
  cases hd : decodeSlice fresh p with
  | error fault => cases (decoder_error hd).symm.trans hitem
  | ok nm =>
    have hv := (decoder_ok hd).symm.trans hitem
    by_cases hpos : 0 < nm.1
    · obtain ⟨hc, f, l, ls, hlines, -⟩ := decodeSlice_accepted hd hpos
      have hsame := decodeSlice_append_of_headers hc hpos hlines fresh q
      rw [decodeSlice_headerless h, hd] at hsame
      split at hsame
      · cases hsame
      · have hone : -1 = nm.1 := congrArg Prod.fst (Except.ok.inj hsame)
        omega
    · split at hv
      · cases hv
      · rw [if_pos (by omega)] at hv
        cases hv

theorem decode_headerless (h : Headerless s) : ∃ e, decoder.decode s = .stop e := by
  have hs := decodeSlice_headerless h fresh
  split at hs
  · exact ⟨_, decoder_error hs⟩
  · exact ⟨_, decoder_ok hs⟩

end

theorem headerless_other (q : Bytes) : Headerless ((fresh.setResponseLine successLine).encoded ++ q) :=
  Headerless.append (by decide +kernel) q

theorem headerless_subscribe (q : Bytes) : Headerless (fresh.encoded ++ q) :=
  Headerless.append (by decide +kernel) q

section

variable {demoFile localSdp : Bytes}

def page (demoFile : Bytes) : HttpMessage := document (ascii "text/html; charset=utf-8") demoFile

theorem sendable_page (hdemo : (page demoFile).encoded.length < 2147483648) : Sendable (page demoFile) :=
  sendable_document ⟨⟨by decide +kernel, by decide +kernel⟩, by decide, by decide⟩ hdemo

/-- An answer other than the page is not read, whatever comes behind it. -/
theorem response_barren (hsdp : (plainDocument localSdp).encoded.length < 2147483648) {req : HttpMessage}
    (hroute : route req ≠ .page) (q : Bytes) :
    decoder.Barren ((response demoFile localSdp req).encoded ++ q) ∧
      ∃ e, decoder.decode ((response demoFile localSdp req).encoded ++ q) = .stop e := by
  cases hkind : route req with
  | page => exact absurd hkind hroute
  | publish =>
    have hun := unsendable_plainDocument hsdp
    simp only [response, hkind]
    exact ⟨barren_of_stop (hun.stable q) (hun.decode_append q), _, hun.decode_append q⟩
  | subscribe =>
    simp only [response, hkind]
    exact ⟨barren_of_headerless (headerless_subscribe q), decode_headerless (headerless_subscribe q)⟩
  | other =>
    simp only [response, hkind]
    exact ⟨barren_of_headerless (headerless_other q), decode_headerless (headerless_other q)⟩

/-- The requests in front of the first one that does not ask for the page. -/
def pages (requests : List (ℤ × HttpMessage)) : List (ℤ × HttpMessage) :=
  requests.takeWhile fun x ↦ route x.2 = .page

theorem answers_eq_wire {requests : List (ℤ × HttpMessage)} (h : ∀ x ∈ requests, route x.2 = .page) :
    answers demoFile localSdp requests = Decoder.wire (requests.map fun _ ↦ frame (page demoFile)) := by
  induction requests with
  | nil => rfl
  | cons x requests ih =>
    obtain ⟨hx, hrest⟩ := List.forall_mem_cons.mp h
    have hpage : response demoFile localSdp x.2 = page demoFile := by
      simp only [response, hx]
      rfl
    rw [← List.singleton_append, answers_append, answers_singleton, ih hrest, hpage]
    rfl

/-- A client that reads the answers with `HttpStream::AsyncRead` gets the pages that it asked for first,
each without its `Content-Type`. At the answer to any other request its connection ends. -/
theorem client_reads_pages (hdemo : (page demoFile).encoded.length < 2147483648)
    (hsdp : (plainDocument localSdp).encoded.length < 2147483648)
    (requests : List (ℤ × HttpMessage)) (tls : Bool)
    {buf : Buffer} (hbuf : Buffer.make Buffer.kInitialSize = .ok buf) {cs : List Bytes}
    (hcs : cs.flatten = answers demoFile localSdp requests)
    (hfits : (Connection.start tls buf).Fits (cs.map .data)) :
    ((cs.map .data).foldl Connection.resume (Connection.start tls buf)).delivered =
        (pages requests).map (fun _ ↦ (((page demoFile).encoded.length : ℤ), (page demoFile).received)) ∧
      (((cs.map .data).foldl Connection.resume (Connection.start tls buf)).ended = none ↔
        ∀ x ∈ requests, route x.2 = .page) := by
  obtain ⟨b, hmake, hb, -⟩ := Buffer.make_spec (n := 1508) (by decide)
  obtain rfl : b = buf := Except.ok.inj (hmake.symm.trans hbuf)
  have hrefines := Connection.foldl_resume_refines (e := []) (Connection.start_refines hb tls)
    (by rwa [List.append_nil])
  have hnil : decoder.decode [] = .more := decoder_ok (n := 0) (m := fresh) rfl
  have hframes : ∀ requests : List (ℤ × HttpMessage), ∀ x ∈ requests.map (fun _ ↦ frame (page demoFile)),
      decoder.Frames x.1 x.2 := fun _ ↦ List.forall_mem_map.mpr fun _ _ ↦ (sendable_page hdemo).frames
  have hpages : ∀ x ∈ pages requests, route x.2 = .page := by
    intro x hx
    have hroute := List.mem_takeWhile_imp hx
    exact of_decide_eq_true hroute
  have hsplit := List.takeWhile_append_dropWhile (p := fun x : ℤ × HttpMessage ↦ route x.2 = .page)
    (l := requests)
  cases hrest : requests.dropWhile fun x ↦ route x.2 = .page with
  | nil =>
    rw [hrest, List.append_nil] at hsplit
    have hall : ∀ x ∈ requests, route x.2 = .page := by
      intro x hx
      apply hpages
      rw [pages, hsplit]
      exact hx
    rw [answers_eq_wire hall] at hcs
    have hstable := Decoder.stable_wire (hframes requests) Decoder.stable_nil
    rw [List.append_nil, ← hcs] at hstable
    rw [Decoder.foldl_feed cs hstable, List.nil_append, hcs, ← List.append_nil (Decoder.wire _),
      Decoder.drain_wire (hframes requests), Decoder.drain_more hnil, List.append_nil, List.map_map] at hrefines
    refine ⟨?_, fun _ ↦ hall, fun _ ↦ hrefines.2.1⟩
    rw [pages, hsplit]
    exact hrefines.1
  | cons x rest =>
    have hx : route x.2 ≠ .page := by
      have hhead := List.head?_dropWhile_not (fun x : ℤ × HttpMessage ↦ decide (route x.2 = .page)) requests
      rw [hrest] at hhead
      simpa using hhead
    rw [hrest, ← pages] at hsplit
    obtain ⟨hbarren, e₀, hstop⟩ := @response_barren demoFile _ hsdp _ hx (answers demoFile localSdp rest)
    rw [← hsplit, ← List.singleton_append, answers_append, answers_append, answers_singleton,
      answers_eq_wire hpages] at hcs
    obtain ⟨e, hfold⟩ := Decoder.foldl_feed_barren hnil (hframes _) hbarren hstop hcs
    rw [hfold, List.map_map] at hrefines
    refine ⟨hrefines.1, ?_⟩
    have hended : _ = some e := hrefines.2
    rw [hended]
    refine ⟨fun h ↦ (by cases h), fun hall ↦ ?_⟩
    exact absurd (hall x (hsplit ▸ List.mem_append_right _ List.mem_cons_self)) hx

end

def pageThenOther : List (ℤ × HttpMessage) := [(24, fresh.setResponseLine (ascii "GET / HTTP/1.1")), (4, fresh)]

def pageThenOtherParts : List Bytes :=
  [(answers [66] [67] pageThenOther).take 4, (answers [66] [67] pageThenOther).drop 4]

theorem client_reads_pages_pageThenOther : ∃ buf, Buffer.make Buffer.kInitialSize = .ok buf ∧
    ((pageThenOtherParts.map .data).foldl Connection.resume (Connection.start true buf)).delivered =
      [(79, (page [66]).received)] ∧
    ((pageThenOtherParts.map .data).foldl Connection.resume (Connection.start true buf)).ended ≠ none := by
  have hmake : Buffer.make Buffer.kInitialSize = .ok ⟨List.replicate 1516 0, 8, 8⟩ := by decide +kernel
  have hfits : (Connection.start true ⟨List.replicate 1516 0, 8, 8⟩).Fits (pageThenOtherParts.map .data) :=
    ⟨fun _ ↦ ⟨by decide +kernel, by decide +kernel⟩, fun _ ↦ ⟨by decide +kernel, by decide +kernel⟩, trivial⟩
  have hflat : pageThenOtherParts.flatten = answers [66] [67] pageThenOther := by decide +kernel
  have hlen : (page [66]).encoded.length = 79 := by decide +kernel
  have hpages : pages pageThenOther = [(24, fresh.setResponseLine (ascii "GET / HTTP/1.1"))] := by decide +kernel
  have hdemo : (page [66]).encoded.length < 2147483648 := by decide +kernel
  have hsdp : (plainDocument [67]).encoded.length < 2147483648 := by decide +kernel
  obtain ⟨hdelivered, hended⟩ := client_reads_pages hdemo hsdp pageThenOther true hmake hflat hfits
  rw [hpages, List.map_singleton, hlen] at hdelivered
  refine ⟨_, hmake, hdelivered, fun hnone ↦ ?_⟩
  exact absurd (hended.mp hnone) (by decide +kernel)

end SignalSession

end Baize.Webrtc
