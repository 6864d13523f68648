import Baize.Log.Logger

namespace Baize.Log

open Lib

section

variable (formatG : Float → Bytes)

def Value.text (v : Value) : Bytes :=
  match v.form formatG with
  | .chars data len => data.take len.toNat
  | .number text => text

def Value.Sized (v : Value) : Prop :=
  match v.form formatG with
  | .chars _ len => 0 ≤ len
  | .number _ => True

instance (v : Value) : Decidable (v.Sized formatG) :=
  match h : v.form formatG with
  | .chars _ len => decidable_of_iff (0 ≤ len) (by rw [Value.Sized, h])
  | .number _ => .isTrue (by rw [Value.Sized, h]; trivial)

/-- A line with one value more. A string is left out when it does not fit; of a number that reaches the end of
the buffer the last digit becomes the zero of `snprintf`. -/
def shown (line : Bytes) (v : Value) : Bytes :=
  match v.form formatG with
  | .chars data len => if line.length + len ≤ klogBufferLen then line ++ data.take len.toNat else line
  | .number text => line ++ (text.take (65536 - line.length - 1) ++ [0]).take text.length

/-- Where it is written behind the line, every number ends within the buffer. -/
def Roomy (line : Bytes) : List Value → Prop
  | [] => True
  | v :: values =>
    v.Sized formatG ∧ (∀ text, v.form formatG = .number text → line.length + text.length ≤ 65536) ∧
      Roomy (shown formatG line v) values

end

namespace LogStream

variable {formatG : Float → Bytes} {s s' : LogStream} {line : Bytes} {v : Value}

structure Holds (s : LogStream) (line : Bytes) : Prop where
  length : s.length = line.length
  line_le : line.length ≤ 65536
  take : s.buffer.take line.length = line

theorem Holds.inside (h : s.Holds line) : s.Inside := by
  have hle := h.line_le
  have hlen := h.length
  exact ⟨by omega, by rw [klogBufferLen]; omega⟩

theorem new_holds (earlier : LogStream) : (new earlier).Holds [] := ⟨rfl, Nat.zero_le _, rfl⟩

theorem Holds.store (h : s.Holds line) {d : Bytes} {n : ℕ} (hn : n ≤ d.length) (hs : s.store d = .ok s') :
    Holds { s' with cur := s'.cur + n } (line ++ d.take n) := by
  have hlen : s.cur = line.length := h.length
  have hcur : s.cur.toNat = line.length := by omega
  have htake : (d.take n).length = n := List.length_take_of_le hn
  unfold LogStream.store at hs
  split at hs
  · next hroom =>
    rw [klogBufferLen] at hroom
    obtain rfl := Except.ok.inj hs
    refine ⟨?_, ?_, ?_⟩
    · rw [List.length_append, htake, LogStream.length]
      dsimp only
      omega
    · rw [List.length_append, htake]
      omega
    · dsimp only
      rw [List.length_append, htake, hcur, h.take, List.append_assoc, List.take_length_add_append,
        List.take_append_of_le_length hn]
  · cases hs

theorem Holds.append (h : s.Holds line) {data : Bytes} {len : ℤ} (hle : len ≤ data.length) (hlen : 0 ≤ len)
    (hroom : line.length + len ≤ klogBufferLen) :
    ∃ s', s.append data len = .ok s' ∧ s'.Holds (line ++ data.take len.toNat) := by
  have htake : (data.take len.toNat).length = len.toNat := List.length_take_of_le (by omega)
  have hroom' : s.length + len ≤ klogBufferLen := h.length ▸ hroom
  obtain ⟨s₁, hs₁, -⟩ := store_ok h.inside (d := data.take len.toNat) (by rw [htake]; omega)
  have hholds := h.store htake.ge hs₁
  rw [List.take_of_length_le htake.le, Int.toNat_of_nonneg hlen] at hholds
  refine ⟨_, ?_, hholds⟩
  rw [LogStream.append, if_pos (show s.cur + len ≤ klogBufferLen from hroom'),
    check_of ⟨hlen, hle⟩, ok_bind, hs₁, ok_bind]
  rfl

theorem Holds.format (h : s.Holds line) {text : Bytes} (hroom : line.length + text.length ≤ 65536) :
    ∃ s', s.format text = .ok s' ∧
      s'.Holds (line ++ (text.take (65536 - line.length - 1) ++ [0]).take text.length) := by
  have hlen : s.length = line.length := h.length
  unfold LogStream.format
  dsimp only
  by_cases hsize : klogBufferLen - s.length = 0
  · have hnil : text = [] := List.eq_nil_of_length_eq_zero (by rw [klogBufferLen] at hsize; omega)
    rw [if_pos hsize, hnil]
    refine ⟨_, rfl, ?_⟩
    rw [List.length_nil, List.take_zero, List.append_nil, Nat.cast_zero, Int.add_zero]
    exact h
  · have hnat : (klogBufferLen - s.length).toNat - 1 = 65536 - line.length - 1 := by rw [klogBufferLen]; omega
    have hpos : ¬klogBufferLen - s.length < 0 := by rw [klogBufferLen]; omega
    have htext : text.length ≤ (text.take (65536 - line.length - 1) ++ [0]).length := by
      rw [List.length_append, List.length_take, List.length_singleton]
      rw [klogBufferLen] at hsize
      omega
    obtain ⟨s₁, hs₁, -⟩ := store_ok h.inside (d := text.take (65536 - line.length - 1) ++ [0]) (by
      rw [List.length_append, List.length_take, List.length_singleton, klogBufferLen]
      rw [klogBufferLen] at hsize
      omega)
    rw [if_neg hsize, if_neg hpos, hnat, hs₁, ok_bind]
    exact ⟨_, rfl, h.store htext hs₁⟩

theorem Holds.put (h : s.Holds line) (hfit : s.Fits formatG v) :
    ∃ s', s.put formatG v = .ok s' ∧ s'.Holds (shown formatG line v) := by
  unfold Fits at hfit
  unfold LogStream.put shown
  cases hform : v.form formatG with
  | chars data len =>
    rw [hform] at hfit
    dsimp only at hfit ⊢
    by_cases hroom : line.length + len ≤ klogBufferLen
    · rw [if_pos hroom]
      exact h.append (form_chars_le hform) hfit hroom
    · rw [if_neg hroom]
      exact ⟨s, append_drops (h.length.symm ▸ hroom), h⟩
  | number text =>
    rw [hform] at hfit
    dsimp only at hfit ⊢
    rw [h.length, klogBufferLen] at hfit
    exact h.format (by omega)

end LogStream

namespace Logger

end Logger

end Baize.Log
