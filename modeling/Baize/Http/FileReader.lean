import Baize.Lib.Run
import Baize.Net.BufferQueue

namespace Baize.Net.Buffer

open Lib

variable {b b' : Buffer} {len : ℤ} {d : Bytes}

theorem makeSpace_front (h : makeSpace b len = .ok b') (hfront : b.readerIndex = kCheapPrepend) :
    b'.readerIndex = kCheapPrepend := by
  obtain ⟨room, -, h⟩ := bind_eq_ok.mp h
  obtain ⟨need, -, h⟩ := bind_eq_ok.mp h
  split_ifs at h
  · obtain ⟨size, -, h⟩ := bind_eq_ok.mp h
    exact Except.ok.inj h ▸ hfront
  · obtain ⟨-, -, h⟩ := bind_eq_ok.mp h
    obtain ⟨moved, -, h⟩ := bind_eq_ok.mp h
    obtain ⟨-, -, h⟩ := bind_eq_ok.mp h
    exact Except.ok.inj h ▸ rfl

theorem ensureWritableBytes_front (h : ensureWritableBytes b len = .ok b')
    (hfront : b.readerIndex = kCheapPrepend) : b'.readerIndex = kCheapPrepend := by
  unfold ensureWritableBytes at h
  split_ifs at h
  · obtain ⟨b₁, hb₁, h⟩ := bind_eq_ok.mp h
    obtain ⟨-, -, h⟩ := bind_eq_ok.mp h
    exact Except.ok.inj h ▸ makeSpace_front hb₁ hfront
  · obtain ⟨b₁, hb₁, h⟩ := bind_eq_ok.mp h
    obtain ⟨-, -, h⟩ := bind_eq_ok.mp h
    obtain rfl := Except.ok.inj hb₁
    exact Except.ok.inj h ▸ hfront

theorem append_front (h : append b d len = .ok b') (hfront : b.readerIndex = kCheapPrepend) :
    b'.readerIndex = kCheapPrepend := by
  unfold append at h
  split_ifs at h
  · obtain ⟨b₁, hb₁, h⟩ := bind_eq_ok.mp h
    obtain ⟨bytes, -, h⟩ := bind_eq_ok.mp h
    obtain ⟨w, -, h⟩ := bind_eq_ok.mp h
    obtain rfl := Except.ok.inj h
    exact (ensureWritableBytes_front hb₁ hfront :)
  · exact Except.ok.inj h ▸ hfront

theorem readFd_front (h : readFd b (some d) = .ok b') (hfront : b.readerIndex = kCheapPrepend) :
    b'.readerIndex = kCheapPrepend := by
  obtain ⟨b₁, hb₁, h⟩ := bind_eq_ok.mp h
  obtain ⟨bytes, -, hb₁⟩ := bind_eq_ok.mp hb₁
  obtain rfl := Except.ok.inj hb₁
  split_ifs at h
  · obtain ⟨w, -, h⟩ := bind_eq_ok.mp h
    exact Except.ok.inj h ▸ hfront
  · exact append_front h hfront

theorem readFdSize_le {q : Bytes} {m : ℕ} (hb : b.Holds q) (hfront : b.readerIndex = kCheapPrepend)
    (hsize : b.buffer.length ≤ m) (hd : q.length + d.length + 8 ≤ m) : b.readFdSize d ≤ m := by
  have hread := hb.readable_eq
  unfold readableBytes kCheapPrepend at *
  unfold readFdSize
  split_ifs
  · exact Int.ofNat_le.mpr hsize
  · unfold sizeFor writableBytes
    dsimp only
    split_ifs
    · omega
    · exact Int.ofNat_le.mpr hsize

end Baize.Net.Buffer

namespace Baize.Http

open Lib Net

/-- `FileReader`, with the offset of `fd_` in the file; `opened` is `fd_ >= 0`. -/
structure FileReader where
  opened : Bool
  offset : ℕ
  buf : Buffer
  deriving DecidableEq

namespace FileReader

/-- A read that does not fail returns something unless the file is at its end. -/
def Positive (answers : List (Option ℕ)) : Prop := ∀ n, some n ∈ answers → 0 < n

section

-- what the file contains
variable (file : Bytes)

/-- The loop of `ReadAll`. An answer of `readv` is an error, or the number of bytes that it returns where
the file has as many left. The loop is not back when the answers are used up. -/
def readLoop : List (Option ℕ) → FileReader → Option (Checked FileReader)
  | [], _ => none
  | none :: _, r => some (.ok r)
  | some n :: answers, r =>
    let d := (file.drop r.offset).take n
    match r.buf.readFd (some d) with
    | .error fault => some (.error fault)
    | .ok buf =>
      let r := { r with offset := r.offset + d.length, buf := buf }
      if d.length = 0 then some (.ok r) else readLoop answers r

def readAll (answers : List (Option ℕ)) (r : FileReader) : Option (Checked (Bytes × FileReader)) :=
  if !r.opened then some (.ok ([], r))
  else if !r.buf.slice.isEmpty then some (.ok (r.buf.slice, r))
  else (readLoop file answers r).map fun x ↦ x.map fun r ↦ (r.buf.slice, r)

def Call (r : FileReader) (c : List (Option ℕ) × Bytes) (r' : FileReader) : Prop :=
  Positive c.1 ∧ readAll file c.1 r = some (.ok (c.2, r'))

structure Inv (r : FileReader) : Prop where
  opened : r.opened = true
  offset_le : r.offset ≤ file.length
  holds : r.buf.Holds (file.take r.offset)
  front : r.buf.readerIndex = Buffer.kCheapPrepend
  size : r.buf.buffer.length ≤ max 1516 (file.length + 8)

end

section

variable {file : Bytes} {r r' : FileReader} {answers : List (Option ℕ)}

theorem Inv.readFd (h : Inv file r) (hfile : file.length + 8 < 2147483648) (n : ℕ) :
    ∃ b, r.buf.readFd (some ((file.drop r.offset).take n)) = .ok b ∧
      Inv file { r with offset := r.offset + ((file.drop r.offset).take n).length, buf := b } := by
  obtain ⟨hopened, hoffset, hholds, hfront, hsize⟩ := h
  have hlen : ((file.drop r.offset).take n).length ≤ file.length - r.offset := by
    rw [List.length_take, List.length_drop]
    exact min_le_right _ _
  have hfor : r.buf.readFdSize ((file.drop r.offset).take n) ≤ (max 1516 (file.length + 8) : ℕ) := by
    apply Buffer.readFdSize_le hholds hfront hsize
    rw [List.length_take, min_eq_left hoffset]
    omega
  obtain ⟨b, hread, hb, hblen⟩ := Buffer.readFd_spec hholds (hfor.trans_lt (by omega))
  refine ⟨b, hread, hopened, ?_, ?_, Buffer.readFd_front hread hfront, ?_⟩
  · dsimp only
    omega
  · dsimp only
    rw [List.take_add, List.length_take, List.length_drop, ← List.length_drop, ← List.take_eq_take_min]
    exact hb
  · dsimp only
    exact Int.ofNat_le.mp (hblen.trans_le hfor)

theorem Inv.readLoop_end (h : Inv file r) (hfile : file.length + 8 < 2147483648) (hend : r.offset = file.length)
    (n : ℕ) (answers : List (Option ℕ)) :
    ∃ r', readLoop file (some n :: answers) r = some (.ok r') ∧ Inv file r' ∧ r'.offset = file.length := by
  obtain ⟨b, hread, hinv⟩ := h.readFd hfile n
  have hnone : ((file.drop r.offset).take n).length = 0 := by
    rw [hend, List.drop_length, List.take_nil]
    rfl
  refine ⟨_, ?_, hinv, ?_⟩
  · rw [readLoop]
    dsimp only
    rw [hread]
    dsimp only
    rw [if_pos hnone]
  · dsimp only
    rw [hnone]
    exact hend

theorem Inv.readLoop_more (h : Inv file r) (hfile : file.length + 8 < 2147483648)
    (hmore : r.offset ≠ file.length) {n : ℕ} (hn : 0 < n) (answers : List (Option ℕ)) :
    ∃ r', readLoop file (some n :: answers) r = readLoop file answers r' ∧ Inv file r' ∧
      r.offset < r'.offset := by
  obtain ⟨b, hread, hinv⟩ := h.readFd hfile n
  have hsome : 0 < ((file.drop r.offset).take n).length := by
    have := h.offset_le
    rw [List.length_take, List.length_drop]
    omega
  refine ⟨_, ?_, hinv, Nat.lt_add_of_pos_right hsome⟩
  rw [readLoop]
  dsimp only
  rw [hread]
  dsimp only
  rw [if_neg hsome.ne']

theorem Inv.readLoop (h : Inv file r) (hfile : file.length + 8 < 2147483648) (hpos : Positive answers)
    {x : Checked FileReader} (hx : readLoop file answers r = some x) :
    ∃ r', x = .ok r' ∧ Inv file r' ∧ (none ∉ answers → r'.offset = file.length) := by
  induction answers generalizing r with
  | nil => cases hx
  | cons answer answers ih =>
    have hrest : Positive answers := fun n hn ↦ hpos n (List.mem_cons_of_mem _ hn)
    cases answer with
    | none => exact ⟨r, (Option.some.inj hx).symm, h, fun hno ↦ absurd List.mem_cons_self hno⟩
    | some n =>
      by_cases hend : r.offset = file.length
      · obtain ⟨r', hr', hinv, hoffset⟩ := h.readLoop_end hfile hend n answers
        exact ⟨r', Option.some.inj (hx.symm.trans hr'), hinv, fun _ ↦ hoffset⟩
      · obtain ⟨r₁, hr₁, hinv, -⟩ := h.readLoop_more hfile hend (hpos n List.mem_cons_self) answers
        obtain ⟨r', hr', hinv', hoffset⟩ := ih hinv hrest (hr₁ ▸ hx)
        exact ⟨r', hr', hinv', fun hno ↦ hoffset fun hmem ↦ hno (List.mem_cons_of_mem _ hmem)⟩

theorem Inv.readLoop_returns (h : Inv file r) (hfile : file.length + 8 < 2147483648) (hpos : Positive answers)
    (hmany : file.length - r.offset < answers.length) : ∃ x, FileReader.readLoop file answers r = some x := by
  induction answers generalizing r with
  | nil => exact absurd hmany (Nat.not_lt_zero _)
  | cons answer answers ih =>
    have hrest : Positive answers := fun n hn ↦ hpos n (List.mem_cons_of_mem _ hn)
    cases answer with
    | none => exact ⟨_, rfl⟩
    | some n =>
      by_cases hend : r.offset = file.length
      · obtain ⟨r', hr', -⟩ := h.readLoop_end hfile hend n answers
        exact ⟨_, hr'⟩
      · obtain ⟨r₁, hr₁, hinv, hlt⟩ := h.readLoop_more hfile hend (hpos n List.mem_cons_self) answers
        rw [hr₁]
        apply ih hinv hrest
        have := h.offset_le
        rw [List.length_cons] at hmany
        omega

theorem Inv.readAll_returns (h : Inv file r) (hfile : file.length + 8 < 2147483648) (hpos : Positive answers)
    (hmany : file.length < answers.length) : ∃ x, FileReader.readAll file answers r = some x := by
  obtain ⟨x, hx⟩ := h.readLoop_returns hfile hpos ((Nat.sub_le _ _).trans_lt hmany)
  unfold FileReader.readAll
  rw [hx]
  split_ifs
  · exact ⟨_, rfl⟩
  · exact ⟨_, rfl⟩
  · exact ⟨_, rfl⟩

theorem Inv.slice_eq (h : Inv file r) : r.buf.slice = file.take r.offset := h.holds.slice_eq

/-- `ReadAll` faults nowhere. It returns what it has where that is something, and reads otherwise. -/
theorem Inv.readAll (h : Inv file r) (hfile : file.length + 8 < 2147483648) (hpos : Positive answers)
    {x : Checked (Bytes × FileReader)} (hx : readAll file answers r = some x) :
    ∃ r', x = .ok (r'.buf.slice, r') ∧ Inv file r' ∧ (r.buf.slice ≠ [] → r' = r) ∧
      (r.buf.slice = [] → none ∉ answers → r'.offset = file.length) := by
  unfold FileReader.readAll at hx
  rw [h.opened, Bool.not_true, if_neg Bool.false_ne_true] at hx
  split_ifs at hx with hsome
  · refine ⟨r, (Option.some.inj hx).symm, h, fun _ ↦ rfl, fun hnil ↦ ?_⟩
    rw [hnil] at hsome
    cases hsome
  · have hnil : r.buf.slice = [] := by simpa using hsome
    obtain ⟨y, hy, rfl⟩ := Option.map_eq_some_iff.mp hx
    obtain ⟨r', rfl, hinv, hoffset⟩ := h.readLoop hfile hpos hy
    exact ⟨r', rfl, hinv, fun hne ↦ absurd hnil hne, fun _ ↦ hoffset⟩

structure Called (file : Bytes) (calls : List (List (Option ℕ) × Bytes)) (r : FileReader) : Prop where
  inv : Inv file r
  texts : ∀ c ∈ calls, c.2 <+: file
  last : ∀ c ∈ calls, c.2 = [] ∨ c.2 = r.buf.slice
  same : calls.Pairwise fun c c' ↦ c.2 = [] ∨ c'.2 = c.2
  whole : (∀ c ∈ calls, none ∉ c.1) → (r.buf.slice = [] ∨ r.buf.slice = file) ∧ ∀ c ∈ calls, c.2 = file

theorem Called.call {calls : List (List (Option ℕ) × Bytes)} {c : List (Option ℕ) × Bytes}
    (h : Called file calls r) (hfile : file.length + 8 < 2147483648) (hcall : Call file r c r') :
    Called file (calls ++ [c]) r' := by
  obtain ⟨r₁, hok, hinv, hkeep, hread⟩ := h.inv.readAll hfile hcall.1 hcall.2
  obtain ⟨htext, rfl⟩ := Prod.mk.inj (Except.ok.inj hok)
  have hlast : ∀ c' ∈ calls, c'.2 = [] ∨ c'.2 = r'.buf.slice := by
    intro c' hc'
    by_cases hnil : r.buf.slice = []
    · exact .inl ((h.last c' hc').elim id fun heq ↦ heq.trans hnil)
    · rw [hkeep hnil]
      exact h.last c' hc'
  refine ⟨hinv, ?_, ?_, ?_, ?_⟩
  · rw [List.forall_mem_append, List.forall_mem_singleton]
    refine ⟨h.texts, ?_⟩
    rw [htext, hinv.slice_eq]
    exact List.take_prefix _ _
  · rw [List.forall_mem_append, List.forall_mem_singleton]
    exact ⟨hlast, .inr htext⟩
  · rw [List.pairwise_append]
    refine ⟨h.same, List.pairwise_singleton _ _, fun c' hc' c'' hc'' ↦ ?_⟩
    obtain rfl := List.mem_singleton.mp hc''
    exact (hlast c' hc').imp_right fun heq ↦ htext.trans heq.symm
  · intro hno
    rw [List.forall_mem_append, List.forall_mem_singleton] at hno ⊢
    obtain ⟨hslice, hwhole⟩ := h.whole hno.1
    have hfull : r'.buf.slice = file := by
      by_cases hnil : r.buf.slice = []
      · rw [hinv.slice_eq, hread hnil hno.2, List.take_length]
      · rw [hkeep hnil]
        exact hslice.resolve_left hnil
    exact ⟨.inr hfull, hwhole, htext.trans hfull⟩

/-- However `readv` cuts the file and wherever it fails: each `ReadAll` comes back without a fault and returns
a front part of the file, which all later calls return too once it is not empty. Without a failure it is the
whole file, and a part that a failure has left is never completed. -/
theorem run_readAll (hfile : file.length + 8 < 2147483648) {buf : Buffer}
    (hbuf : Buffer.make Buffer.kInitialSize = .ok buf) {calls : List (List (Option ℕ) × Bytes)}
    (hrun : Run (Call file) ⟨true, 0, buf⟩ calls r) :
    (∀ c ∈ calls, c.2 <+: file) ∧ (calls.Pairwise fun c c' ↦ c.2 = [] ∨ c'.2 = c.2) ∧
      ((∀ c ∈ calls, none ∉ c.1) → ∀ c ∈ calls, c.2 = file) ∧
      ∀ answers, Positive answers → file.length < answers.length →
        ∃ text r', readAll file answers r = some (.ok (text, r')) := by
  obtain ⟨b, hmake, hb, -⟩ := Buffer.make_spec (n := 1508) (by decide)
  obtain rfl : b = buf := Except.ok.inj (hmake.symm.trans hbuf)
  have hbytes : b = ⟨List.replicate 1516 0, 8, 8⟩ := Except.ok.inj (hmake.symm.trans (by decide +kernel))
  have hstart : Called file [] ⟨true, 0, b⟩ := by
    refine ⟨⟨rfl, Nat.zero_le _, hb, ?_, ?_⟩, List.forall_mem_nil _, List.forall_mem_nil _, .nil,
      fun _ ↦ ⟨.inl hb.slice_eq, List.forall_mem_nil _⟩⟩
    · rw [hbytes]
      rfl
    · rw [hbytes]
      exact (List.length_replicate).trans_le (le_max_left _ _)
  have hcalled := hrun.invariant_history (fun c ↦ [c]) (l := []) (I := Called file)
    (fun _ _ _ _ h hcall ↦ h.call hfile hcall) hstart
  rw [List.nil_append, List.flatMap_singleton'] at hcalled
  refine ⟨hcalled.texts, hcalled.same, fun hno ↦ (hcalled.whole hno).2, fun answers hpos hmany ↦ ?_⟩
  obtain ⟨x, hx⟩ := hcalled.inv.readAll_returns hfile hpos hmany
  obtain ⟨r', rfl, -⟩ := hcalled.inv.readAll hfile hpos hx
  exact ⟨_, r', hx⟩

end

def cutShort : List (List (Option ℕ) × Bytes) := [([some 2, none], [1, 2]), ([some 5, some 1], [1, 2])]

def twoRead : FileReader := ⟨true, 2, ⟨List.replicate 8 0 ++ [1, 2] ++ List.replicate 1506 0, 8, 10⟩⟩

theorem run_readAll_cutShort : ∃ buf r, Buffer.make Buffer.kInitialSize = .ok buf ∧
    Run (Call [1, 2, 3]) ⟨true, 0, buf⟩ cutShort r ∧ cutShort.Pairwise fun c c' ↦ c.2 = [] ∨ c'.2 = c.2 := by
  have hmake : Buffer.make Buffer.kInitialSize = .ok ⟨List.replicate 1516 0, 8, 8⟩ := by decide +kernel
  have hfirst : Call [1, 2, 3] ⟨true, 0, ⟨List.replicate 1516 0, 8, 8⟩⟩ ([some 2, none], [1, 2]) twoRead := by
    refine ⟨fun n hn ↦ ?_, by decide +kernel⟩
    obtain rfl : n = 2 := by simpa using hn
    decide
  have hsecond : Call [1, 2, 3] twoRead ([some 5, some 1], [1, 2]) twoRead := by
    refine ⟨fun n hn ↦ ?_, by decide +kernel⟩
    obtain rfl | rfl : n = 5 ∨ n = 1 := by simpa using hn
    · decide
    · decide
  have hrun : Run (Call [1, 2, 3]) ⟨true, 0, ⟨List.replicate 1516 0, 8, 8⟩⟩ cutShort twoRead :=
    .cons hfirst (.cons hsecond (.nil _))
  exact ⟨_, twoRead, hmake, hrun, (run_readAll (by decide) hmake hrun).2.1⟩

end FileReader

end Baize.Http
