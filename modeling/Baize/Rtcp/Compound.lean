import Baize.Rtcp.Packet

namespace Baize.Rtcp

open Lib

def subPackets : Format UInt8 where
  header := 4
  size := packetLen
  header_pos := word_pos
  header_le p := by rw [packetLen]; omega
  size_append p q h := by rw [packetLen, packetLen, byte2_append h]

def ownCall (t : Bytes) : Option (Decoder × Bytes) := (decoder t).map (·, t)

/-- Part by part: the packet is accepted when it is made of RTCP packets, every
`Decode` gets the bytes of one of them, in order, and none is left out. -/
structure PartByPart (p : Bytes) (o : Outcome) : Prop where
  ret : o.ret = 0 ↔ ∃ parts : List Bytes, p = parts.flatten ∧
    ∀ t ∈ parts, subPackets.Frame t ∧ isRtcp t = true
  calls : o.calls <+: (subPackets.split p).1.filterMap ownCall
  all : o.ret = 0 → o.calls = (subPackets.split p).1.filterMap ownCall

theorem decoder_append {t : Bytes} (h : 4 ≤ t.length) (q : Bytes) : decoder (t ++ q) = decoder t := by
  unfold decoder type count
  rw [byte1_append (show 0 < t.length by omega), byte1_append (show 1 < t.length by omega)]

theorem isRtcp_append {t : Bytes} (h : 4 ≤ t.length) (q : Bytes) : isRtcp (t ++ q) = isRtcp t := by
  have hlen : commonHeaderSize ≤ (t ++ q).length := by
    rw [List.length_append, commonHeaderSize]
    omega
  unfold isRtcp version type
  rw [byte1_append (show 0 < t.length by omega), byte1_append (show 1 < t.length by omega),
    decide_eq_true hlen, decide_eq_true (show commonHeaderSize ≤ t.length from h)]

theorem processLoop_of_not_isRtcp {packet rest : Bytes} (h : isRtcp packet = false) (hrest : rest ≠ []) :
    processLoop packet rest = ⟨-1, []⟩ := by
  rw [processLoop, if_neg (fun h0 ↦ hrest (List.length_eq_zero_iff.mp h0)), h]
  rfl

/-- The loop walks over the sub-packets, but looks at the whole packet in each turn. -/
theorem processLoop_eq {packet : Bytes} (h : isRtcp packet = true) (rest : Bytes) :
    processLoop packet rest =
      ⟨if (subPackets.split rest).2 = [] then 0 else -1,
        (subPackets.split rest).1.filterMap fun t ↦ (decoder t).map (·, packet)⟩ := by
  induction rest using subPackets.split_induction with
  | rest p hp =>
    rw [Format.split_of_lt hp, processLoop, h, if_pos (show p.length < packetLen p from hp)]
    simp only [List.length_eq_zero_iff, Bool.not_true, Bool.false_eq_true, if_false]
    split <;> rfl
  | frame t q ht ih =>
    have h4 : 4 ≤ t.length := ht.header_le_length
    have hlen : packetLen (t ++ q) = t.length := ht.size_append q
    rw [Format.split_frame_append ht, List.filterMap_cons, processLoop, hlen, decoder_append h4,
      List.drop_left, ih, if_neg (by rw [List.length_append]; omega), h, if_neg (by decide),
      if_neg (by rw [List.length_append]; omega)]
    cases decoder t <;> rfl

theorem compound_iff {p : Bytes} :
    (∃ parts : List Bytes, p = parts.flatten ∧ ∀ t ∈ parts, subPackets.Frame t ∧ isRtcp t = true) ↔
      (subPackets.split p).2 = [] ∧ ∀ t ∈ (subPackets.split p).1, isRtcp t = true := by
  constructor
  · rintro ⟨parts, rfl, hparts⟩
    have hsplit := Format.split_flatten (fun t ht ↦ (hparts t ht).1) []
    rw [List.append_nil, Format.split_nil, List.append_nil] at hsplit
    rw [hsplit]
    exact ⟨rfl, fun t ht ↦ (hparts t ht).2⟩
  · rintro ⟨hrest, hparts⟩
    refine ⟨_, ?_, fun t ht ↦ ⟨Format.frame_of_mem_split ht, hparts t ht⟩⟩
    have htile := subPackets.split_append p
    rw [hrest, List.append_nil] at htile
    exact htile.symm

theorem isRtcp_of_split_cons {p t : Bytes} {ts : List Bytes} (h : (subPackets.split p).1 = t :: ts) :
    isRtcp p = isRtcp t := by
  have ht : subPackets.Frame t := Format.frame_of_mem_split (by rw [h]; exact List.mem_cons_self)
  have htile := subPackets.split_append p
  rw [h, List.flatten_cons, List.append_assoc] at htile
  rw [← htile, isRtcp_append ht.header_le_length]

theorem partByPart_of_not_isRtcp {p : Bytes} (h : isRtcp p = false) : PartByPart p (processRtcp p) := by
  by_cases hp : p = []
  · subst hp
    have hnil : processRtcp [] = ⟨0, []⟩ := by rw [processRtcp, processLoop]; rfl
    rw [hnil]
    refine ⟨⟨fun _ ↦ ⟨[], rfl, nofun⟩, fun _ ↦ rfl⟩, List.nil_prefix, fun _ ↦ ?_⟩
    rw [Format.split_nil]
    rfl
  · have hret : processRtcp p = ⟨-1, []⟩ := processLoop_of_not_isRtcp h hp
    rw [hret]
    refine ⟨⟨nofun, ?_⟩, List.nil_prefix, nofun⟩
    rw [compound_iff]
    rintro ⟨hrest, hparts⟩
    cases hsplit : (subPackets.split p).1 with
    | nil =>
      have htile := subPackets.split_append p
      rw [hsplit, hrest] at htile
      exact absurd htile.symm hp
    | cons t ts =>
      have ht := hparts t (by rw [hsplit]; exact List.mem_cons_self)
      rw [← isRtcp_of_split_cons hsplit, h] at ht
      cases ht

theorem partByPart_of_isRtcp {p : Bytes} (h : isRtcp p = true) :
    PartByPart p (processRtcp p) ↔ subPackets.Frame p ∨
      ((∀ t ∈ (subPackets.split p).1, decoder t = none) ∧
        ((subPackets.split p).2 = [] → ∀ t ∈ (subPackets.split p).1, isRtcp t = true)) := by
  rw [processRtcp, processLoop_eq h]
  constructor
  · rintro ⟨hret, hcalls, -⟩
    by_cases hframe : subPackets.Frame p
    · exact Or.inl hframe
    refine Or.inr ⟨?_, ?_⟩
    · -- a call would be handed the whole packet, which is not one of the parts
      intro t ht
      by_contra hne
      obtain ⟨d, hd⟩ := Option.ne_none_iff_exists'.mp hne
      have hmem : (d, p) ∈ (subPackets.split p).1.filterMap ownCall :=
        hcalls.subset (List.mem_filterMap.mpr ⟨t, ht, by rw [hd]; rfl⟩)
      obtain ⟨t', ht', hcall⟩ := List.mem_filterMap.mp hmem
      obtain ⟨d', -, heq⟩ := Option.map_eq_some_iff.mp hcall
      obtain rfl : t' = p := congrArg Prod.snd heq
      exact hframe (Format.frame_of_mem_split ht')
    · intro hrest
      exact (compound_iff.mp (hret.mp (if_pos hrest))).2
  · rintro (hframe | ⟨hnone, hrest⟩)
    · have hsplit : subPackets.split p = ([p], []) := by
        have := Format.split_frame_append hframe []
        rwa [List.append_nil, Format.split_nil] at this
      refine ⟨?_, ?_, fun _ ↦ ?_⟩
      · rw [compound_iff, hsplit]
        simpa using h
      · rw [hsplit]
        exact List.prefix_rfl
      · rw [hsplit]
        rfl
    · have hcalls : (subPackets.split p).1.filterMap (fun t ↦ (decoder t).map (·, p)) = [] :=
        List.filterMap_eq_nil_iff.mpr fun t ht ↦ by rw [hnone t ht]; rfl
      have hown : (subPackets.split p).1.filterMap ownCall = [] :=
        List.filterMap_eq_nil_iff.mpr fun t ht ↦ by rw [ownCall, hnone t ht]; rfl
      refine ⟨?_, ?_, fun _ ↦ ?_⟩
      · rw [compound_iff]
        by_cases hq : (subPackets.split p).2 = []
        · simpa [hq] using hrest hq
        · simp [hq]
      · rw [hcalls]
        exact List.nil_prefix
      · rw [hcalls, hown]

theorem processRtcp_partByPart_iff (p : Bytes) :
    PartByPart p (processRtcp p) ↔
      isRtcp p = false ∨ subPackets.Frame p ∨
      ((∀ t ∈ (subPackets.split p).1, decoder t = none) ∧
        ((subPackets.split p).2 = [] → ∀ t ∈ (subPackets.split p).1, isRtcp t = true)) := by
  cases h : isRtcp p with
  | false => exact iff_of_true (partByPart_of_not_isRtcp h) (Or.inl rfl)
  | true => rw [partByPart_of_isRtcp h]; simp

def receiverReport : Bytes := [0x80, 0xC9, 0x00, 0x01, 0x00, 0x00, 0x00, 0x01]

def pictureLoss : Bytes :=
  [0x81, 0xCE, 0x00, 0x02, 0x00, 0x00, 0x00, 0x01, 0x00, 0x00, 0x00, 0x02]

/-- A receiver report with a PLI behind it: both decoders get all twenty bytes. -/
theorem processRtcp_report_pli :
    isRtcp receiverReport = true ∧ isRtcp pictureLoss = true ∧
      processRtcp (receiverReport ++ pictureLoss) =
        ⟨0, [(.rr, receiverReport ++ pictureLoss), (.pli, receiverReport ++ pictureLoss)]⟩ ∧
      ¬PartByPart (receiverReport ++ pictureLoss) (processRtcp (receiverReport ++ pictureLoss)) := by
  have hframes : ∀ t ∈ [receiverReport, pictureLoss], subPackets.Frame t := by
    simp only [List.forall_mem_cons]
    exact ⟨rfl, rfl, nofun⟩
  have hsplit : subPackets.split (receiverReport ++ pictureLoss) = ([receiverReport, pictureLoss], []) := by
    have := Format.split_flatten hframes []
    rwa [List.append_nil, Format.split_nil] at this
  have hrun : processRtcp (receiverReport ++ pictureLoss) =
      ⟨0, [(.rr, receiverReport ++ pictureLoss), (.pli, receiverReport ++ pictureLoss)]⟩ := by
    rw [processRtcp, processLoop_eq (by decide), hsplit]
    decide
  refine ⟨by decide, by decide, hrun, fun h ↦ ?_⟩
  have hcalls := h.calls
  rw [hrun, hsplit] at hcalls
  revert hcalls
  decide

end Baize.Rtcp
