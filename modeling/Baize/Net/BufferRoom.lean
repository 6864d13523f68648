import Baize.Net.BufferQueue

namespace Baize.Net.Buffer

open Lib

/-- The calls of a read path that hands out the writable area: what `SSL_read` or `recvfrom` wrote
there is added, and the reader takes from the front. -/
def ReadPre (b : Buffer) : Op → Prop
  | .addReadableLength written len => written.length = len.toNat ∧ 1 ≤ len ∧ len ≤ b.writableBytes
  | .take len => len ≤ b.readableBytes
  | .takeAll => True
  | .append _ _ | .readFd _ | .takeUntil _ => False

instance (b : Buffer) : (op : Op) → Decidable (ReadPre b op)
  | .addReadableLength _ _ => inferInstanceAs (Decidable (_ ∧ _))
  | .take _ => inferInstanceAs (Decidable (_ ≤ _))
  | .takeAll => .isTrue trivial
  | .append _ _ | .readFd _ | .takeUntil _ => .isFalse id

/-- The call returns, and the next read has 1024 bytes to write into. -/
def LeavesRoom (b : Buffer) (op : Op) : Prop := ∃ b', exec b op = .ok b' ∧ 1024 ≤ b'.writableBytes

/-- The vector does not have to grow to 2 GiB. -/
def Fits (b : Buffer) (op : Op) : Prop := b.sizeAfter op < 2147483648

instance (b : Buffer) (op : Op) : Decidable (Fits b op) := inferInstanceAs (Decidable (_ < _))

theorem pre_of_readPre {b : Buffer} {op : Op} (hpre : ReadPre b op) (hfit : Fits b op) : Pre b op := by
  refine ⟨hfit, ?_⟩
  cases op with
  | addReadableLength written len => exact ⟨hpre.1, hpre.2.2⟩
  | take len => exact hpre
  | takeAll => trivial
  | append data len | readFd r | takeUntil off => exact hpre.elim

theorem reserve_room {b b' : Buffer} (hsize : 1024 ≤ b.buffer.length) (he : reserve b = .ok b') :
    1024 ≤ b'.writableBytes := by
  by_cases hlow : b.writableBytes < 1024
  · rw [reserve_eq hlow] at he
    have hroom := ensureWritableBytes_room he
    have hgrow : 1024 ≤ growth b.buffer.length := by
      unfold growth
      split <;> omega
    omega
  · rw [reserve, if_neg hlow] at he
    obtain rfl : b = b' := Except.ok.inj he
    omega

theorem reserveSize_lt_of_reserve {b b' : Buffer} (hlt : b.buffer.length < 2147483648)
    (he : reserve b = .ok b') : b.reserveSize < 2147483648 := by
  by_cases hlow : b.writableBytes < 1024
  · rw [reserve_eq hlow] at he
    rw [reserveSize_eq hlow]
    exact sizeFor_lt_of_ensureWritableBytes hlt he
  · rw [reserveSize, if_neg hlow]
    exact_mod_cast hlt

theorem le_reserveSize (b : Buffer) : (b.buffer.length : ℤ) ≤ b.reserveSize := by
  unfold reserveSize sizeFor writableBytes
  split_ifs <;> omega

theorem exec_addReadableLength {b : Buffer} {q written : Bytes} {len : ℤ} (h : Holds b q)
    (hpre : ReadPre b (.addReadableLength written len)) :
    ∃ b₁, exec b (.addReadableLength written len) = reserve b₁ ∧ Holds b₁ (q ++ written) ∧
      b₁.buffer.length = b.buffer.length ∧ b₁.writerIndex = b.writerIndex + len ∧
      b.sizeAfter (.addReadableLength written len) = b₁.reserveSize := by
  obtain ⟨hlen, hpos, hroom⟩ := hpre
  have hpos : 0 < len := by omega
  obtain ⟨b₁, b₂, hfill, hadd, hq₂, hsame, hwriter, hres⟩ := fill_addReadableLength h hlen hpos hroom
  refine ⟨b₂, ?_, hq₂, hsame, hwriter, ?_⟩
  · rw [exec, hfill, ok_bind, hadd]
  · rw [sizeAfter, if_pos hpos, hres]

/-- What the read calls keep. No call makes the vector smaller than a new buffer has it. -/
structure Roomy (b : Buffer) : Prop where
  holds : ∃ q, Holds b q
  size_le : 1516 ≤ b.buffer.length
  room : 1024 ≤ b.writableBytes

theorem Roomy.takeAll {b : Buffer} (h : Roomy b) : Roomy b.takeAll := by
  obtain ⟨q, hq⟩ := h.holds
  refine ⟨⟨[], takeAll_holds hq⟩, h.size_le, ?_⟩
  have hsize := h.size_le
  simp only [Buffer.takeAll, writableBytes, kCheapPrepend]
  omega

theorem take_cases {b b' : Buffer} {len : ℤ} (he : take b len = .ok b') :
    b' = { b with readerIndex := b'.readerIndex } ∨ b' = b.takeAll := by
  unfold take at he
  split at he
  · obtain ⟨-, -, he⟩ := bind_eq_ok.mp he
    split at he
    · obtain ⟨r, -, he⟩ := bind_eq_ok.mp he
      obtain rfl := Except.ok.inj he
      exact .inl rfl
    · exact .inr (Except.ok.inj he).symm
  · exact .inl (Except.ok.inj he ▸ rfl)

theorem Roomy.take {b b' : Buffer} (h : Roomy b) {len : ℤ} (hlen : len ≤ b.readableBytes)
    (he : take b len = .ok b') : Roomy b' := by
  obtain ⟨q, hq⟩ := h.holds
  rw [Holds.readable_eq hq] at hlen
  obtain ⟨b₁, he₁, hq₁, hsize₁⟩ := take_spec hq hlen
  obtain rfl : b₁ = b' := Except.ok.inj (he₁.symm.trans he)
  obtain hsame | hall := take_cases he
  · refine ⟨⟨_, hq₁⟩, hsize₁ ▸ h.size_le, ?_⟩
    rw [hsame]
    exact h.room
  · rw [hall]
    exact h.takeAll

theorem exec_ok_iff_fits {b : Buffer} (h : Roomy b) {op : Op} (hpre : ReadPre b op) :
    (∃ b', exec b op = .ok b') ↔ Fits b op := by
  obtain ⟨q, hq⟩ := h.holds
  constructor
  · rintro ⟨b', he⟩
    cases op with
    | addReadableLength written len =>
      obtain ⟨b₁, hb₁, hq₁, -, -, hsize⟩ := exec_addReadableLength hq hpre
      rw [Fits, hsize]
      exact reserveSize_lt_of_reserve hq₁.size_lt (hb₁ ▸ he)
    | take len | takeAll =>
      have hlt := hq.size_lt
      simp only [Fits, sizeAfter]
      omega
    | append data len | readFd r | takeUntil off => exact hpre.elim
  · intro hfit
    obtain ⟨b', he, -, -⟩ := exec_spec b ⟨q, 0, Nat.zero_le _⟩ op hq (pre_of_readPre hpre hfit)
    exact ⟨b', he⟩

theorem exec_roomy {b b' : Buffer} (h : Roomy b) {op : Op} (hpre : ReadPre b op)
    (he : exec b op = .ok b') : Roomy b' := by
  cases op with
  | addReadableLength written len =>
    obtain ⟨q, hq⟩ := h.holds
    obtain ⟨b₁, hb₁, hq₁, hsame, -, -⟩ := exec_addReadableLength hq hpre
    have hsize := h.size_le
    rw [hb₁] at he
    obtain ⟨pre, post, hl⟩ := id hq₁
    obtain ⟨b₂, he₂, hq₂, hsize₂⟩ := reserve_spec hl (reserveSize_lt_of_reserve hq₁.size_lt he)
    obtain rfl : b₂ = b' := Except.ok.inj (he₂.symm.trans he)
    have hle := le_reserveSize b₁
    exact ⟨⟨_, hq₂⟩, by omega, reserve_room (by omega) he⟩
  | take len => exact h.take hpre he
  | takeAll =>
    obtain rfl : b.takeAll = b' := Except.ok.inj he
    exact h.takeAll
  | append data len | readFd r | takeUntil off => exact hpre.elim

theorem leavesRoom_iff {b : Buffer} (h : Roomy b) {op : Op} (hpre : ReadPre b op) :
    LeavesRoom b op ↔ Fits b op := by
  rw [← exec_ok_iff_fits h hpre]
  constructor
  · rintro ⟨b', he, -⟩
    exact ⟨b', he⟩
  · rintro ⟨b', he⟩
    exact ⟨b', he, (exec_roomy h hpre he).room⟩

theorem make_default :
    ∃ b₀, make kInitialSize = .ok b₀ ∧ Holds b₀ [] ∧ b₀.buffer.length = 1516 ∧ b₀.writableBytes = 1508 := by
  obtain ⟨b₀, hmake, hh, hsize⟩ := make_spec (show 1508 + 8 < 2147483648 by omega)
  refine ⟨b₀, hmake, hh, hsize, ?_⟩
  rw [make] at hmake
  obtain ⟨size, -, hmake⟩ := bind_eq_ok.mp hmake
  obtain ⟨u, -, hmake⟩ := bind_eq_ok.mp hmake
  obtain ⟨v, hw, hmake⟩ := bind_eq_ok.mp hmake
  obtain ⟨-, -, hmake⟩ := bind_eq_ok.mp hmake
  obtain rfl := Except.ok.inj hmake
  exact check_eq_ok hw

theorem make_roomy {b₀ : Buffer} (hmake : make kInitialSize = .ok b₀) : Roomy b₀ := by
  obtain ⟨b₁, hmake₁, hh, hsize, hw⟩ := make_default
  obtain rfl : b₁ = b₀ := Except.ok.inj (hmake₁.symm.trans hmake)
  exact ⟨⟨[], hh⟩, by omega, by omega⟩

/-- A new buffer starts with room, and every call of a read path leaves room for the next read as
long as the bytes that were not taken do not make the vector grow to 2 GiB. -/
theorem run_leavesRoom_iff {b₀ : Buffer} (hmake : make kInitialSize = .ok b₀) (ops : List Op)
    (hpres : Admissible exec ReadPre b₀ ops) :
    1024 ≤ b₀.writableBytes ∧ (Admissible exec LeavesRoom b₀ ops ↔ Admissible exec Fits b₀ ops) := by
  have hroomy := make_roomy hmake
  refine ⟨hroomy.room, ?_⟩
  exact Admissible.congr_of_invariant (fun b op h hpre ↦ leavesRoom_iff h hpre)
    (fun b op b' h hpre _ he ↦ exec_roomy h hpre he) ops hroomy hpres

theorem run_leavesRoom_iff_short :
    ∃ b₀, make kInitialSize = .ok b₀ ∧
      Admissible exec LeavesRoom b₀ [.addReadableLength [1, 2, 3] 3, .take 2, .takeAll] := by
  have hmake : make kInitialSize = .ok ⟨List.replicate 1516 0, 8, 8⟩ := by decide +kernel
  refine ⟨_, hmake, (run_leavesRoom_iff hmake _ ?_).2.mpr ?_⟩
  · decide +kernel
  · decide +kernel

section Flood

def Untaken (b : Buffer) (s w : ℕ) : Prop :=
  ∃ q, Holds b q ∧ q.length + 8 + w = s ∧ b.buffer.length = s ∧ b.writableBytes = w

def fillUp (w : ℕ) : Op := .addReadableLength (List.replicate w 0) w

def flood (s w : ℕ) : ℕ → List Op
  | 0 => []
  | n + 1 => fillUp w :: flood (s + growth s) (growth s) n

def floodSize (s : ℕ) : ℕ → ℕ
  | 0 => s
  | n + 1 => floodSize (s + growth s) n

variable {b b' : Buffer} {s w : ℕ}

theorem growth_pos (hs : 0 < s) : 0 < growth s := by
  unfold growth
  split <;> omega

theorem Untaken.readPre (h : Untaken b s w) (hw : 0 < w) : ReadPre b (fillUp w) := by
  obtain ⟨q, -, -, -, hroom⟩ := h
  refine ⟨?_, by omega, by omega⟩
  rw [List.length_replicate, Int.toNat_natCast]

theorem Untaken.fillUp (h : Untaken b s w) (hw : 0 < w) (he : exec b (fillUp w) = .ok b') :
    Untaken b' (s + growth s) (growth s) := by
  have hpre := h.readPre hw
  obtain ⟨q, hq, hs, hsize, hroom⟩ := h
  obtain ⟨b₁, hb₁, hq₁, hsame, hwriter, -⟩ := exec_addReadableLength hq hpre
  have hfull : b₁.writableBytes = 0 := by
    simp only [writableBytes] at hroom ⊢
    omega
  have hpos := growth_pos (s := s) (by omega)
  rw [Buffer.fillUp, hb₁, reserve_eq (by omega), hsame, hsize] at he
  obtain ⟨pre, post, hl⟩ := id hq₁
  obtain ⟨b₂, pre', post', he₂, hl₂, hroom₂, hsize₂⟩ :=
    ensureWritableBytes_spec hl (sizeFor_lt_of_ensureWritableBytes hq₁.size_lt he)
  obtain rfl : b₂ = b' := Except.ok.inj (he₂.symm.trans he)
  have hlen := hl.length_eq
  have hw := hl.writable_eq
  rw [List.length_append, List.length_replicate] at hlen
  have hgrown : b₁.sizeFor (growth s) = s + growth s := by
    rw [sizeFor, if_pos ⟨by omega, by simp only [prependableBytes, kCheapPrepend, hl.reader_eq]; omega⟩]
    simp only [writableBytes] at hfull
    omega
  have hw₂ := hl₂.writable_eq
  have hlen₂ := hl₂.length_eq
  have hp₂ := hl₂.prepend_le
  refine ⟨_, ⟨pre', post', hl₂⟩, ?_, by omega, ?_⟩
  · rw [List.length_append, List.length_replicate]
    omega
  · rw [List.length_append, List.length_replicate] at hlen₂
    omega

theorem flood_readPre (h : Untaken b s w) (hw : 0 < w) (n : ℕ) :
    Admissible exec ReadPre b (flood s w n) := by
  induction n generalizing b s w with
  | zero => trivial
  | succ n ih =>
    refine ⟨h.readPre hw, ?_⟩
    cases he : exec b (fillUp w) with
    | error fault => trivial
    | ok b' => exact ih (h.fillUp hw he) (growth_pos (by obtain ⟨q, -, hs, -, -⟩ := h; omega))

theorem floodSize_lt (h : Untaken b s w) (hw : 0 < w) (n : ℕ)
    (hrooms : Admissible exec LeavesRoom b (flood s w n)) : floodSize s n < 2147483648 := by
  induction n generalizing b s w with
  | zero =>
    obtain ⟨q, hq, -, hsize, -⟩ := h
    exact hsize ▸ hq.size_lt
  | succ n ih =>
    obtain ⟨⟨b', he, -⟩, hrest⟩ := hrooms
    rw [he] at hrest
    exact ih (h.fillUp hw he) (growth_pos (by obtain ⟨q, -, hs, -, -⟩ := h; omega)) hrest

/-- From 64 KiB on the vector grows by 64 KiB with every read. -/
theorem floodSize_large (hs : 65536 ≤ s) (n : ℕ) : floodSize s n = s + 65536 * n := by
  induction n generalizing s with
  | zero => rfl
  | succ n ih =>
    have hgrow : growth s = 65536 := if_neg (by omega)
    rw [floodSize, hgrow, ih (by omega)]
    omega

/-- A peer that sends and is never read: the vector doubles six times, grows by 64 KiB with each
read after that, and the 32773rd read overflows `writer_index_ + len`. -/
theorem flood_overflows : ∃ b₀, make kInitialSize = .ok b₀ ∧
    Admissible exec ReadPre b₀ (flood 1516 1508 32773) ∧
    ¬ Admissible exec LeavesRoom b₀ (flood 1516 1508 32773) := by
  obtain ⟨b₀, hmake, hh, hsize, hw⟩ := make_default
  have hnew : Untaken b₀ 1516 1508 := ⟨[], hh, rfl, hsize, hw⟩
  refine ⟨b₀, hmake, flood_readPre hnew (by omega) _, fun hrooms ↦ ?_⟩
  have hlt := floodSize_lt hnew (by omega) (32766 + 7) hrooms
  have hseven : ∀ n, floodSize 1516 (n + 7) = floodSize 162560 n := fun _ ↦ rfl
  rw [hseven, floodSize_large (by omega)] at hlt
  omega

end Flood

end Baize.Net.Buffer
