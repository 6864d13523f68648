import Baize.Sdp.Mention

namespace Baize.Sdp

open Lib StringPiece

/-- The lines in front of the first `m=` line, and the media sections. -/
def sections : List Bytes → List Bytes × List (List Bytes)
  | [] => ([], [])
  | l :: ls =>
    let (pre, secs) := sections ls
    if mediaMark <+: l then ([], (l :: pre) :: secs) else (l :: pre, secs)

def mediaOf (line : Bytes) : Option MediaType :=
  if mediaMark ++ audioMark <+: line then some .audio
  else if mediaMark ++ videoMark <+: line then some .video
  else none

def ssrcGroupLine : Bytes := [97, 61] ++ ssrcGroupMark

def ssrcLine : Bytes := [97, 61] ++ ssrcMark

/-- The words of the first line with a group of SSRCs, or else the id of the
first line with an SSRC. -/
def idsOf (media : List Bytes) : List Bytes :=
  match media.find? (ssrcGroupLine <+: ·) with
  | some l => words (l.drop ssrcGroupLine.length)
  | none =>
    match media.find? (ssrcLine <+: ·) with
    | some l => firstWord (l.drop ssrcLine.length)
    | none => []

def tracksOf (ls : List Bytes) : List TrackSdp :=
  (sections ls).2.filterMap fun s ↦ (s.head?.bind mediaOf).map fun t ↦ ⟨t, idsOf s⟩

/-- The lines up to the first one that mentions `m=`, and of that one what stands in front. -/
def seen : List Bytes → List Bytes
  | [] => [[]]
  | l :: ls => if mediaMark <:+: l then [l.take (find l mediaMark)] else l :: seen ls

def unmark (media : List Bytes) : List Bytes := media.modifyHead (·.drop mediaMark.length)

def Quiet (s : Bytes) : Prop := ¬mediaMark ++ audioMark <:+: s ∧ ¬mediaMark ++ videoMark <:+: s

instance (s : Bytes) : Decidable (Quiet s) := inferInstanceAs (Decidable (_ ∧ _))

theorem mediaMark_unbordered : Unbordered mediaMark := by decide

theorem mediaMark_ne_nil : mediaMark ≠ [] := List.cons_ne_nil _ _

section Quiet

variable {l : Bytes} {ls : List Bytes}

theorem quiet_of_not_mention (h : ¬mediaMark <:+: l) : Quiet l :=
  ⟨fun hin ↦ h ((List.prefix_append _ _).isInfix.trans hin),
    fun hin ↦ h ((List.prefix_append _ _).isInfix.trans hin)⟩

theorem quiet_text_iff : Quiet (text ls) ↔ ∀ l ∈ ls, Quiet l := by
  have haudio := infix_text_iff (w := mediaMark ++ audioMark) (by decide) (by decide) (by decide) ls
  have hvideo := infix_text_iff (w := mediaMark ++ videoMark) (by decide) (by decide) (by decide) ls
  simp only [Quiet, haudio, hvideo, not_exists, not_and]
  exact ⟨fun h l hl ↦ ⟨h.1 l hl, h.2 l hl⟩, fun h ↦ ⟨fun l hl ↦ (h l hl).1, fun l hl ↦ (h l hl).2⟩⟩

theorem quiet_cons_iff {c : UInt8} (h : ¬mediaMark <+: c :: l) : Quiet (c :: l) ↔ Quiet l := by
  have hskip (v : Bytes) : ¬mediaMark ++ v <+: c :: l := fun hp ↦ h ((List.prefix_append _ _).trans hp)
  rw [Quiet, Quiet, List.infix_cons_iff, List.infix_cons_iff, or_iff_right (hskip _), or_iff_right (hskip _)]

theorem quiet_drop_iff (h : ¬mediaMark <+: l) : Quiet (l.drop 1) ↔ Quiet l := by
  cases l with
  | nil => rfl
  | cons c l => exact (quiet_cons_iff h).symm

theorem quiet_mark_iff : Quiet ((mediaMark ++ l).drop 1) ↔ Quiet l := by
  change Quiet (61 :: l) ↔ Quiet l
  exact quiet_cons_iff fun hp ↦ absurd (List.cons_prefix_cons.mp hp).1 (by decide)

end Quiet

theorem sections_cons_of_media {l : Bytes} (h : mediaMark <+: l) (ls : List Bytes) :
    sections (l :: ls) = ([], (l :: (sections ls).1) :: (sections ls).2) := if_pos h

theorem sections_cons_of_not_media {l : Bytes} (h : ¬mediaMark <+: l) (ls : List Bytes) :
    sections (l :: ls) = (l :: (sections ls).1, (sections ls).2) := if_neg h

def IsSection (s : List Bytes) : Prop := ∃ l rest, s = (mediaMark ++ l) :: rest ∧ ∀ x ∈ rest, ¬mediaMark <+: x

theorem sections_spec (ls : List Bytes) : (sections ls).1 ++ (sections ls).2.flatten = ls ∧
    (∀ x ∈ (sections ls).1, ¬mediaMark <+: x) ∧ ∀ s ∈ (sections ls).2, IsSection s := by
  induction ls with
  | nil => exact ⟨rfl, List.forall_mem_nil _, List.forall_mem_nil _⟩
  | cons l ls ih =>
    obtain ⟨hflat, hpre, hsecs⟩ := ih
    by_cases hm : mediaMark <+: l
    · rw [sections_cons_of_media hm, List.flatten_cons, List.nil_append, List.cons_append, hflat]
      obtain ⟨l', rfl⟩ := hm
      exact ⟨rfl, List.forall_mem_nil _, List.forall_mem_cons.mpr ⟨⟨l', _, rfl, hpre⟩, hsecs⟩⟩
    · rw [sections_cons_of_not_media hm, List.cons_append, hflat]
      exact ⟨rfl, List.forall_mem_cons.mpr ⟨hm, hpre⟩, hsecs⟩

theorem mem_of_mem_sections {ls s : List Bytes} (hs : s ∈ (sections ls).2) : ∀ x ∈ s, x ∈ ls := by
  intro x hx
  rw [← (sections_spec ls).1]
  exact List.mem_append_right _ (List.mem_flatten.mpr ⟨s, hs, hx⟩)

theorem seen_ne_nil (ls : List Bytes) : seen ls ≠ [] := by
  cases ls with
  | nil => exact List.cons_ne_nil _ _
  | cons l ls =>
    rw [seen]
    split
    · exact List.cons_ne_nil _ _
    · exact List.cons_ne_nil _ _

theorem seen_clean {ls : List Bytes} (h : ∀ l ∈ ls, ¬crlf <:+: l) : ∀ l ∈ seen ls, ¬crlf <:+: l := by
  induction ls with
  | nil => decide
  | cons l ls ih =>
    obtain ⟨hl, h⟩ := List.forall_mem_cons.mp h
    rw [seen]
    split
    · exact List.forall_mem_singleton.mpr fun hin ↦ hl (hin.trans (List.take_prefix _ _).isInfix)
    · exact List.forall_mem_cons.mpr ⟨hl, ih h⟩

theorem splitBy_line {l p : Bytes} {ls ps : List Bytes} (hl : ¬mediaMark <:+: l)
    (h : splitBy mediaMark (text ls) = p :: ps) :
    splitBy mediaMark (text (l :: ls)) = (l ++ (crlf ++ p)) :: ps := by
  have hlf := splitBy_append_cons (w := mediaMark) (l := []) (c := 10) (by decide) (by decide) (text ls)
  rw [List.nil_append, h] at hlf
  rw [text_cons, crlf, List.cons_append, List.cons_append, List.nil_append,
    splitBy_append_cons (by decide) hl, hlf]
  rfl

theorem splitBy_text (ls : List Bytes) :
    ∃ ps, splitBy mediaMark (text ls) = crlf.intercalate (seen ls) :: ps := by
  induction ls with
  | nil => exact ⟨[], rfl⟩
  | cons l ls ih =>
    by_cases hm : mediaMark <:+: l
    · have hfound : find l mediaMark ≠ l.length := mt (search_eq_length_iff mediaMark_ne_nil).mp (not_not.mpr hm)
      have hin : mediaMark <:+: l ++ (crlf ++ text ls) := hm.trans (List.prefix_append _ _).isInfix
      have hfind : search mediaMark (l ++ (crlf ++ text ls)) = find l mediaMark := search_append hfound _
      have hle : find l mediaMark ≤ l.length := search_le_length _ _
      rw [text_cons, splitBy_eq_cons mediaMark_ne_nil hin, hfind, List.take_append_of_le_length hle,
        seen, if_pos hm, List.intercalate_singleton]
      exact ⟨_, rfl⟩
    · obtain ⟨ps, hps⟩ := ih
      obtain ⟨x, b, hseen⟩ := List.exists_cons_of_ne_nil (seen_ne_nil ls)
      refine ⟨ps, ?_⟩
      rw [splitBy_line hm hps, seen, if_neg hm, hseen, List.intercalate_cons_cons, List.append_assoc]

theorem intercalate_seen {ls : List Bytes} (h : ∀ l ∈ ls, ¬mediaMark <:+: l) :
    crlf.intercalate (seen ls) = text ls := by
  obtain ⟨ps, hps⟩ := splitBy_text ls
  have hnot : ¬mediaMark <:+: text ls := by
    rw [infix_text_iff (by decide) (by decide) mediaMark_ne_nil]
    rintro ⟨l, hl, hin⟩
    exact h l hl hin
  rw [splitBy_eq_singleton hnot] at hps
  exact (List.cons.inj hps).1.symm

theorem splitBy_sections (x : Bytes) {secs : List (List Bytes)} (h : ∀ s ∈ secs, IsSection s) :
    splitBy mediaMark (x ++ text secs.flatten) =
      splitBy mediaMark x ++ secs.flatMap fun s ↦ splitBy mediaMark (text (unmark s)) := by
  induction secs generalizing x with
  | nil =>
    rw [List.flatten_nil, List.flatMap_nil, List.append_nil]
    exact congrArg _ (List.append_nil x)
  | cons s secs ih =>
    obtain ⟨⟨l, rest, rfl, -⟩, hsecs⟩ := List.forall_mem_cons.mp h
    have htext : text ((mediaMark ++ l) :: rest) = mediaMark ++ text (unmark ((mediaMark ++ l) :: rest)) := by
      rw [unmark, List.modifyHead_cons, List.drop_left, text_cons, text_cons, List.append_assoc]
    rw [List.flatten_cons, text_append, htext, List.append_assoc,
      mediaMark_unbordered.splitBy_append_append mediaMark_ne_nil, ih _ hsecs, List.flatMap_cons]

theorem prefix_piece_iff {v s p : Bytes} {ps : List Bytes} (hv : 109 ∉ v) (h : splitBy mediaMark s = p :: ps) :
    v <+: p ↔ v <+: s := by
  induction s using infix_induction mediaMark_ne_nil with
  | last s hs =>
    rw [splitBy_eq_singleton hs] at h
    rw [(List.cons.inj h).1]
  | piece l s hl _ =>
    rw [mediaMark_unbordered.splitBy_append mediaMark_ne_nil hl] at h
    rw [(List.cons.inj h).1]
    exact (prefix_append_cons hv).symm

theorem ofItem_piece {s p : Bytes} {ps : List Bytes} (h : splitBy mediaMark s = p :: ps) :
    TrackSdp.ofItem p = (mediaOf (mediaMark ++ s)).map fun t ↦ ⟨t, TrackSdp.ssrcIds p⟩ := by
  have haudio := prefix_piece_iff (v := audioMark) (by decide) h
  have hvideo := prefix_piece_iff (v := videoMark) (by decide) h
  simp only [TrackSdp.ofItem, startsWith, decide_eq_true_eq, haudio, hvideo, mediaOf,
    List.prefix_append_right_inj]
  split_ifs
  · rfl
  · rfl
  · rfl

theorem mediaOf_text (l : Bytes) (rest : List Bytes) :
    mediaOf (mediaMark ++ text (l :: rest)) = mediaOf (mediaMark ++ l) := by
  have hline (v : Bytes) (hv : 13 ∉ v) : v <+: text (l :: rest) ↔ v <+: l := by
    rw [text_cons]
    exact prefix_append_cons hv
  simp only [mediaOf, List.prefix_append_right_inj, hline audioMark (by decide), hline videoMark (by decide)]

theorem filterMap_tail_eq_nil_iff (s : Bytes) :
    (splitBy mediaMark s).tail.filterMap TrackSdp.ofItem = [] ↔ Quiet s := by
  induction s using infix_induction mediaMark_ne_nil with
  | last s hs =>
    rw [splitBy_eq_singleton hs]
    exact iff_of_true rfl (quiet_of_not_mention hs)
  | piece l s hl ih =>
    obtain ⟨p, ps, hps⟩ := List.exists_cons_of_ne_nil (splitBy_ne_nil mediaMark s)
    have hfirst : TrackSdp.ofItem p = none ↔ ¬audioMark <+: s ∧ ¬videoMark <+: s := by
      rw [ofItem_piece hps, Option.map_eq_none_iff, mediaOf]
      simp only [List.prefix_append_right_inj]
      split_ifs with haudio hvideo
      · exact iff_of_false id fun h ↦ h.1 haudio
      · exact iff_of_false id fun h ↦ h.2 hvideo
      · exact iff_of_true rfl ⟨haudio, hvideo⟩
    rw [hps, List.tail_cons, List.filterMap_eq_nil_iff] at ih
    rw [mediaMark_unbordered.splitBy_append mediaMark_ne_nil hl, List.tail_cons, hps, List.filterMap_eq_nil_iff,
      List.forall_mem_cons, ih, hfirst, Quiet, Quiet, mediaMark_unbordered.infix_append_iff hl,
      mediaMark_unbordered.infix_append_iff hl]
    tauto

theorem filterMap_ofItem_filter (items : List Bytes) :
    (items.filter (· ≠ [])).filterMap TrackSdp.ofItem = items.filterMap TrackSdp.ofItem := by
  induction items with
  | nil => rfl
  | cons item items ih =>
    by_cases hitem : item = []
    · rw [List.filter_cons_of_neg (by simpa using hitem), ih, hitem,
        List.filterMap_cons_none (show TrackSdp.ofItem [] = none by decide)]
    · rw [List.filter_cons_of_pos (by simpa using hitem), List.filterMap_cons, List.filterMap_cons, ih]

/-- `Decode` goes by what stands between the occurrences of `m=`, wherever these are. -/
theorem decode_tracks_splitBy (message : Bytes) : (SdpMessage.fresh.decode message).2.tracks =
    (splitBy mediaMark message).tail.filterMap TrackSdp.ofItem := by
  change (split (message.drop (find message mediaMark)) mediaMark).filterMap TrackSdp.ofItem = _
  rw [split_eq_filter mediaMark_ne_nil, filterMap_ofItem_filter, find, splitBy_drop_search mediaMark_ne_nil,
    List.filterMap_cons_none (show TrackSdp.ofItem [] = none by decide)]

theorem decode_tracks_sections (ls : List Bytes) : (SdpMessage.fresh.decode (text ls)).2.tracks =
    (splitBy mediaMark (text (sections ls).1)).tail.filterMap TrackSdp.ofItem ++
      (sections ls).2.flatMap fun s ↦ (TrackSdp.ofItem (crlf.intercalate (seen (unmark s)))).toList ++
        (splitBy mediaMark (text (unmark s))).tail.filterMap TrackSdp.ofItem := by
  obtain ⟨hflat, -, hsecs⟩ := sections_spec ls
  have hpiece (s : List Bytes) : (splitBy mediaMark (text (unmark s))).filterMap TrackSdp.ofItem =
      (TrackSdp.ofItem (crlf.intercalate (seen (unmark s)))).toList ++
        (splitBy mediaMark (text (unmark s))).tail.filterMap TrackSdp.ofItem := by
    obtain ⟨ps, hps⟩ := splitBy_text (unmark s)
    rw [hps, List.tail_cons]
    cases hitem : TrackSdp.ofItem (crlf.intercalate (seen (unmark s))) with
    | none => rw [List.filterMap_cons_none hitem, Option.toList_none, List.nil_append]
    | some t => rw [List.filterMap_cons_some hitem, Option.toList_some, List.singleton_append]
  have htext : text ls = text (sections ls).1 ++ text (sections ls).2.flatten := by rw [← text_append, hflat]
  rw [decode_tracks_splitBy, htext, splitBy_sections _ hsecs, List.tail_append_of_ne_nil (splitBy_ne_nil _ _),
    List.filterMap_append, List.filterMap_flatMap]
  simp only [hpiece]

section Aligned

variable {α β : Type} {f h : α → Option β} {g : α → List β} {xs : List α}

theorem toList_length_eq {x y : Option β} (h : x.isSome = y.isSome) : x.toList.length = y.toList.length := by
  cases x with
  | none =>
    cases y with
    | none => rfl
    | some b => cases h
  | some a =>
    cases y with
    | none => cases h
    | some b => rfl

theorem length_filterMap_le (hsame : ∀ x ∈ xs, (f x).isSome = (h x).isSome) :
    (xs.filterMap h).length ≤ (xs.flatMap fun x ↦ (f x).toList ++ g x).length := by
  induction xs with
  | nil => exact le_rfl
  | cons x xs ih =>
    obtain ⟨hx, hsame⟩ := List.forall_mem_cons.mp hsame
    have hlen := toList_length_eq hx
    have hrest := ih hsame
    rw [List.filterMap_eq_flatMap_toList, List.flatMap_cons, ← List.filterMap_eq_flatMap_toList,
      List.flatMap_cons]
    simp only [List.length_append]
    omega

theorem append_flatMap_eq_iff {pre : List β} (hsame : ∀ x ∈ xs, (f x).isSome = (h x).isSome) :
    pre ++ xs.flatMap (fun x ↦ (f x).toList ++ g x) = xs.filterMap h ↔
      pre = [] ∧ ∀ x ∈ xs, g x = [] ∧ f x = h x := by
  induction xs generalizing pre with
  | nil => simp
  | cons x xs ih =>
    obtain ⟨hx, hrest⟩ := List.forall_mem_cons.mp hsame
    have hlen := toList_length_eq hx
    have hcons : (x :: xs).filterMap h = (h x).toList ++ xs.filterMap h := by
      rw [List.filterMap_eq_flatMap_toList, List.flatMap_cons, ← List.filterMap_eq_flatMap_toList]
    rw [hcons, List.flatMap_cons, List.forall_mem_cons]
    constructor
    · intro heq
      have hpre : pre = [] := by
        have hle := length_filterMap_le (g := g) hrest
        have hsum := congrArg List.length heq
        simp only [List.length_append] at hsum
        exact List.length_eq_zero_iff.mp (by omega)
      rw [hpre, List.nil_append, List.append_assoc] at heq
      obtain ⟨hvalue, htail⟩ := List.append_inj heq hlen
      obtain ⟨hg, hall⟩ := (ih hrest).mp htail
      have hhead := congrArg List.head? hvalue
      rw [Option.head?_toList, Option.head?_toList] at hhead
      exact ⟨hpre, ⟨hg, hhead⟩, hall⟩
    · rintro ⟨rfl, ⟨hg, hvalue⟩, hall⟩
      have htail : [] ++ xs.flatMap (fun x ↦ (f x).toList ++ g x) = xs.filterMap h := (ih hrest).mpr ⟨rfl, hall⟩
      rw [hg, hvalue, List.append_nil, List.nil_append, ← htail, List.nil_append]

end Aligned

theorem idsOf_clean {media : List Bytes} (h : ∀ l ∈ media, ¬crlf <:+: l) :
    ∀ id ∈ idsOf media, ¬crlf <:+: id := by
  intro id hid hin
  unfold idsOf at hid
  split at hid
  · next l hl =>
    have hpiece := infix_of_mem_splitBy (List.cons_ne_nil _ _) (List.mem_of_mem_filter hid)
    exact h l (List.mem_of_find?_eq_some hl) (hin.trans (hpiece.trans (List.drop_suffix _ _).isInfix))
  · split at hid
    · next l hl =>
      obtain rfl := List.mem_singleton.mp (List.mem_of_mem_filter hid)
      exact h l (List.mem_of_find?_eq_some hl)
        (hin.trans ((List.takeWhile_prefix _).isInfix.trans (List.drop_suffix _ _).isInfix))
    · cases hid

section Section

variable {s : List Bytes} (hs : IsSection s)

include hs

theorem IsSection.ofItem_eq : TrackSdp.ofItem (crlf.intercalate (seen (unmark s))) =
    (s.head?.bind mediaOf).map fun t ↦ ⟨t, TrackSdp.ssrcIds (crlf.intercalate (seen (unmark s)))⟩ := by
  obtain ⟨l, rest, rfl, -⟩ := hs
  obtain ⟨ps, hps⟩ := splitBy_text (unmark ((mediaMark ++ l) :: rest))
  have hunmark : unmark ((mediaMark ++ l) :: rest) = l :: rest := by
    rw [unmark, List.modifyHead_cons, List.drop_left]
  rw [ofItem_piece hps, hunmark, mediaOf_text]
  rfl

theorem IsSection.quiet_iff : Quiet (text (unmark s)) ↔ ∀ l ∈ s, Quiet (l.drop 1) := by
  obtain ⟨l, rest, rfl, hrest⟩ := hs
  rw [unmark, List.modifyHead_cons, List.drop_left, quiet_text_iff, List.forall_mem_cons, List.forall_mem_cons,
    quiet_mark_iff]
  exact and_congr_right fun _ ↦ forall₂_congr fun x hx ↦ (quiet_drop_iff (hrest x hx)).symm

theorem IsSection.unmark_clean (hclean : ∀ l ∈ s, ¬crlf <:+: l) : ∀ l ∈ unmark s, ¬crlf <:+: l := by
  obtain ⟨l, rest, rfl, -⟩ := hs
  obtain ⟨hl, hrest⟩ := List.forall_mem_cons.mp hclean
  rw [unmark, List.modifyHead_cons]
  exact List.forall_mem_cons.mpr ⟨fun hin ↦ hl (hin.trans (List.drop_suffix _ _).isInfix), hrest⟩

theorem IsSection.track_iff (hclean : ∀ l ∈ s, ¬crlf <:+: l) :
    TrackSdp.ofItem (crlf.intercalate (seen (unmark s))) = (s.head?.bind mediaOf).map (fun t ↦ ⟨t, idsOf s⟩) ↔
      ((s.head?.bind mediaOf).isSome → mentioned (seen (unmark s)) = some (idsOf s)) := by
  rw [hs.ofItem_eq, ← ssrcIds_eq_iff (seen_clean (hs.unmark_clean hclean)) (idsOf_clean hclean)]
  cases s.head?.bind mediaOf with
  | none => exact iff_of_true rfl fun h ↦ by cases h
  | some t =>
    rw [Option.map_some, Option.map_some, Option.some_inj, TrackSdp.mk.injEq]
    exact ⟨fun h _ ↦ h.2, fun h ↦ ⟨rfl, h rfl⟩⟩

end Section

/-- `Decode` finds the tracks of the `m=` lines exactly if `m=audio` and `m=video` come only at the
beginning of a line, and if the lines of each audio or video section, up to a further `m=`, mention the
ids of the section. -/
theorem decode_tracks_iff {ls : List Bytes} (hclean : ∀ l ∈ ls, ¬crlf <:+: l) :
    (SdpMessage.fresh.decode (text ls)).2.tracks = tracksOf ls ↔
      (∀ l ∈ ls, Quiet (l.drop 1)) ∧
      ∀ s ∈ (sections ls).2, (s.head?.bind mediaOf).isSome → mentioned (seen (unmark s)) = some (idsOf s) := by
  obtain ⟨hflat, hpre, hsecs⟩ := sections_spec ls
  have hsame : ∀ s ∈ (sections ls).2, (TrackSdp.ofItem (crlf.intercalate (seen (unmark s)))).isSome =
      ((s.head?.bind mediaOf).map fun t ↦ (⟨t, idsOf s⟩ : TrackSdp)).isSome := by
    intro s hs
    rw [(hsecs s hs).ofItem_eq, Option.isSome_map, Option.isSome_map]
  have htrack : ∀ s ∈ (sections ls).2,
      ((splitBy mediaMark (text (unmark s))).tail.filterMap TrackSdp.ofItem = [] ∧
        TrackSdp.ofItem (crlf.intercalate (seen (unmark s))) = (s.head?.bind mediaOf).map fun t ↦ ⟨t, idsOf s⟩) ↔
      (∀ l ∈ s, Quiet (l.drop 1)) ∧
        ((s.head?.bind mediaOf).isSome → mentioned (seen (unmark s)) = some (idsOf s)) := by
    intro s hs
    have hclean' : ∀ l ∈ s, ¬crlf <:+: l := fun l hl ↦ hclean l (mem_of_mem_sections hs l hl)
    rw [filterMap_tail_eq_nil_iff, (hsecs s hs).quiet_iff, (hsecs s hs).track_iff hclean']
  have hfront : (splitBy mediaMark (text (sections ls).1)).tail.filterMap TrackSdp.ofItem = [] ↔
      ∀ l ∈ (sections ls).1, Quiet (l.drop 1) := by
    rw [filterMap_tail_eq_nil_iff, quiet_text_iff]
    exact forall₂_congr fun x hx ↦ (quiet_drop_iff (hpre x hx)).symm
  have hlines : (∀ l ∈ ls, Quiet (l.drop 1)) ↔
      (∀ l ∈ (sections ls).1, Quiet (l.drop 1)) ∧ ∀ s ∈ (sections ls).2, ∀ l ∈ s, Quiet (l.drop 1) := by
    conv_lhs => rw [← hflat]
    rw [List.forall_mem_append]
    refine and_congr_right fun _ ↦ ?_
    simp only [List.mem_flatten]
    exact ⟨fun h s hs l hl ↦ h l ⟨s, hs, hl⟩, fun h l hl ↦ hl.elim fun s hs ↦ h s hs.1 l hs.2⟩
  rw [decode_tracks_sections, tracksOf, append_flatMap_eq_iff hsame, hfront, forall₂_congr htrack,
    hlines, and_assoc]
  refine and_congr_right fun _ ↦ ?_
  exact ⟨fun h ↦ ⟨fun s hs ↦ (h s hs).1, fun s hs ↦ (h s hs).2⟩, fun h s hs ↦ ⟨h.1 s hs, h.2 s hs⟩⟩

def twoTracks : List Bytes :=
  [[118, 61, 48], mediaMark ++ audioMark, ssrcLine ++ [53, 32, 99], mediaMark ++ videoMark,
    ssrcGroupLine ++ [32, 54, 32, 55]]

theorem decode_tracks_twoTracks : (SdpMessage.fresh.decode (text twoTracks)).2.tracks =
    [⟨.audio, [[53]]⟩, ⟨.video, [[54], [55]]⟩] := by
  rw [(decode_tracks_iff (by decide +kernel)).mpr ⟨by decide +kernel, by decide +kernel⟩]
  decide +kernel

/-- A text in a line of the section cuts the section; an `a=ssrc:` line without a
blank gives an id that runs on into the next line. -/
theorem decode_tracks_astray :
    (SdpMessage.fresh.decode
      (text [mediaMark ++ videoMark, [97, 61, 109, 61, 49], ssrcLine ++ [53, 32, 99]])).2.tracks =
        [⟨.video, []⟩] ∧
      tracksOf [mediaMark ++ videoMark, [97, 61, 109, 61, 49], ssrcLine ++ [53, 32, 99]] = [⟨.video, [[53]]⟩] ∧
      (SdpMessage.fresh.decode
        (text [mediaMark ++ videoMark, ssrcLine ++ [53], [97, 61, 120, 32, 121]])).2.tracks =
        [⟨.video, [[53, 13, 10, 97, 61, 120]]⟩] ∧
      tracksOf [mediaMark ++ videoMark, ssrcLine ++ [53], [97, 61, 120, 32, 121]] = [⟨.video, [[53]]⟩] := by
  rw [decode_tracks_splitBy, decode_tracks_splitBy]
  decide +kernel

end Baize.Sdp
