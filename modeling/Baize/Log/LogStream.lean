import Baize.Lib.Checked
import Baize.Lib.Run
import Baize.Net.InetAddress

namespace Baize.Log

open Lib

def klogBufferLen : ℤ := 65536

structure LogStream where
  buffer : Bytes
  buffer_length : buffer.length = 65536
  cur : ℤ

namespace LogStream

/-- The constructor goes back to the front of the buffer, and leaves in it what an earlier line has
put there. -/
def new (earlier : LogStream) : LogStream := { earlier with cur := 0 }

def length (s : LogStream) : ℤ := s.cur

def store (s : LogStream) (d : Bytes) : Checked LogStream :=
  if h : 0 ≤ s.cur ∧ s.cur + d.length ≤ klogBufferLen then
    .ok
      { s with
        buffer := s.buffer.take s.cur.toNat ++ d ++ s.buffer.drop (s.cur.toNat + d.length)
        buffer_length := by
          have hlen := s.buffer_length
          simp only [klogBufferLen] at h
          simp only [List.length_append, List.length_take, List.length_drop]
          omega }
  else .error .outOfBounds

/-- What does not fit is dropped. `memcpy` takes a negative `len` for a huge one. -/
def append (s : LogStream) (data : Bytes) (len : ℤ) : Checked LogStream :=
  if s.cur + len ≤ klogBufferLen then do
    check (0 ≤ len ∧ len ≤ data.length) .outOfBounds
    let s ← s.store (data.take len.toNat)
    pure { s with cur := s.cur + len }
  else pure s

/-- `snprintf` writes what fits in front of the terminating zero, and nothing for a size of zero; it
takes a negative size for a huge one. `cur_` moves by the length of the whole text. -/
def format (s : LogStream) (text : Bytes) : Checked LogStream :=
  let size := klogBufferLen - s.length
  if size = 0 then pure { s with cur := s.cur + text.length }
  else do
    let s ← s.store ((if size < 0 then text else text.take (size.toNat - 1)) ++ [0])
    pure { s with cur := s.cur + text.length }

end LogStream

/-- The values that a stream takes. A `const char*` may be null; a `StringPiece` may have a length
that is not that of its data, but never a larger one. -/
inductive Value
  | bool (v : Bool)
  | char (v : UInt8)
  | short (v : Int16)
  | unsignedShort (v : UInt16)
  | int (v : Int32)
  | unsignedInt (v : UInt32)
  | long (v : Int64)
  | unsignedLong (v : UInt64)
  | longLong (v : Int64)
  | unsignedLongLong (v : UInt64)
  | float (v : Float32)
  | double (v : Float)
  | cstr (v : Option Bytes)
  | string (v : Bytes)
  | piece (data : Bytes) (len : ℤ) (len_le : len ≤ data.length)

inductive Form
  | chars (data : Bytes) (len : ℤ)
  | number (text : Bytes)

def decimal (n : ℤ) : Bytes := if n < 0 then 45 :: Net.decimal n.natAbs else Net.decimal n.natAbs

def toInt (n : ℕ) : ℤ := Int.bmod n 4294967296

def trueText : Bytes := [116, 114, 117, 101]

def falseText : Bytes := [102, 97, 108, 115, 101]

def nullText : Bytes := [40, 110, 117, 108, 108, 41]

section

-- `formatG v` is the text of `%g` for `v`
variable (formatG : Float → Bytes)

def Value.form : Value → Form
  | .bool true => .chars trueText 4
  | .bool false => .chars falseText 5
  | .char v => .chars [v] 1
  | .short v => .number (decimal v.toInt)
  | .unsignedShort v => .number (decimal v.toNat)
  | .int v => .number (decimal v.toInt)
  | .unsignedInt v => .number (decimal v.toNat)
  | .long v => .number (decimal v.toInt)
  | .unsignedLong v => .number (decimal v.toNat)
  | .longLong v => .number (decimal v.toInt)
  | .unsignedLongLong v => .number (decimal v.toNat)
  | .float v => .number (formatG v.toFloat)
  | .double v => .number (formatG v)
  | .cstr (some v) => .chars v (toInt v.length)
  | .cstr none => .chars nullText 6
  | .string v => .chars v (toInt v.length)
  | .piece data len _ => .chars data len

namespace LogStream

def write (s : LogStream) : Form → Checked LogStream
  | .chars data len => s.append data len
  | .number text => s.format text

def put (s : LogStream) (v : Value) : Checked LogStream := s.write (v.form formatG)

/-- The size that `snprintf` is given is not negative, and the stream ends up within its buffer. -/
def InBounds (s : LogStream) (v : Value) : Prop :=
  (∀ text, v.form formatG = .number text → 0 ≤ klogBufferLen - s.length) ∧
    ∃ s', s.put formatG v = .ok s' ∧ 0 ≤ s'.length ∧ s'.length ≤ klogBufferLen

/-- A number fits into what is left, and the length of a string is an `int`. -/
def Fits (s : LogStream) (v : Value) : Prop :=
  match v.form formatG with
  | .chars _ len => 0 ≤ len
  | .number text => s.length + text.length ≤ klogBufferLen

end LogStream

end

section Bounds

theorem toInt_le (n : ℕ) : toInt n ≤ n := by
  have hlow := Int.le_bmod (x := n) (m := 4294967296) (by decide)
  have hup := Int.bmod_lt (x := n) (m := 4294967296) (by decide)
  unfold toInt
  by_cases h : n < 2147483648
  · rw [Int.bmod_eq_of_le (by omega) (by omega)]
  · omega

theorem form_chars_le {formatG : Float → Bytes} {v : Value} {data : Bytes} {len : ℤ}
    (h : v.form formatG = .chars data len) : len ≤ data.length := by
  cases v with
  | bool v => cases v <;> cases h <;> decide
  | char v => cases h; exact le_refl _
  | cstr v =>
    cases v with
    | none => cases h; decide
    | some v => cases h; exact toInt_le _
  | string v => cases h; exact toInt_le _
  | piece data len hle => cases h; exact hle
  | short v | unsignedShort v | int v | unsignedInt v | long v | unsignedLong v | longLong v | unsignedLongLong v
  | float v | double v => cases h

namespace LogStream

variable {s s' : LogStream}

def Inside (s : LogStream) : Prop := 0 ≤ s.length ∧ s.length ≤ klogBufferLen

theorem store_ok (h : Inside s) {d : Bytes} (hd : s.length + d.length ≤ klogBufferLen) :
    ∃ s', s.store d = .ok s' ∧ s'.cur = s.cur := by
  unfold store
  rw [dif_pos ⟨h.1, hd⟩]
  exact ⟨_, rfl, rfl⟩

theorem store_cur {d : Bytes} (h : s.store d = .ok s') : s'.cur = s.cur := by
  unfold store at h
  split at h
  · obtain rfl := Except.ok.inj h
    rfl
  · cases h

theorem append_fits (h : Inside s) {data : Bytes} {len : ℤ} (hle : len ≤ data.length) (hlen : 0 ≤ len)
    (hroom : s.length + len ≤ klogBufferLen) :
    ∃ s', s.append data len = .ok s' ∧ s'.length = s.length + len := by
  have htake : (data.take len.toNat).length = len.toNat := List.length_take_of_le (by omega)
  obtain ⟨s₁, hs₁, hcur⟩ := store_ok h (d := data.take len.toNat) (by rw [htake]; omega)
  rw [append, if_pos (show s.cur + len ≤ klogBufferLen from hroom), check_of ⟨hlen, hle⟩, ok_bind, hs₁, ok_bind]
  exact ⟨_, rfl, congrArg (· + len) hcur⟩

theorem append_drops {data : Bytes} {len : ℤ} (hroom : ¬s.length + len ≤ klogBufferLen) :
    s.append data len = .ok s :=
  if_neg hroom

theorem nonneg_of_append (hroom : s.length ≤ klogBufferLen) {data : Bytes} {len : ℤ}
    (he : s.append data len = .ok s') : 0 ≤ len := by
  by_contra hneg
  rw [append, if_pos (by rw [length] at hroom; omega)] at he
  obtain ⟨u, hcheck, -⟩ := bind_eq_ok.mp he
  exact hneg (check_eq_ok hcheck).1

theorem format_cur {text : Bytes} (he : s.format text = .ok s') : s'.length = s.length + text.length := by
  unfold format at he
  dsimp only at he
  split at he
  · obtain rfl := Except.ok.inj he
    rfl
  · obtain ⟨s₁, hs₁, he⟩ := bind_eq_ok.mp he
    obtain rfl := Except.ok.inj he
    rw [length, length, store_cur hs₁]

theorem format_ok (h : Inside s) (text : Bytes) : ∃ s', s.format text = .ok s' := by
  have hup := h.2
  unfold format
  dsimp only
  split
  · exact ⟨_, rfl⟩
  · next hsize =>
    have hneg : ¬klogBufferLen - s.length < 0 := by omega
    rw [if_neg hneg]
    obtain ⟨s₁, hs₁, -⟩ := store_ok h (d := text.take ((klogBufferLen - s.length).toNat - 1) ++ [0]) (by
      rw [List.length_append, List.length_singleton, List.length_take]
      omega)
    rw [hs₁]
    exact ⟨_, rfl⟩

theorem fits_of_put {formatG : Float → Bytes} (h : Inside s) {v : Value} (he : s.put formatG v = .ok s')
    (hup : s'.length ≤ klogBufferLen) : s.Fits formatG v := by
  unfold put at he
  unfold Fits
  cases hform : v.form formatG with
  | chars data len =>
    rw [hform] at he
    exact nonneg_of_append h.2 he
  | number text =>
    rw [hform] at he
    rw [format_cur he] at hup
    exact hup

theorem put_of_fits {formatG : Float → Bytes} (h : Inside s) {v : Value} (hfit : s.Fits formatG v) :
    ∃ s', s.put formatG v = .ok s' ∧ Inside s' := by
  have hlow := h.1
  unfold Fits at hfit
  unfold put
  cases hform : v.form formatG with
  | chars data len =>
    rw [hform] at hfit
    by_cases hroom : s.length + len ≤ klogBufferLen
    · obtain ⟨s', he, hcur⟩ := append_fits h (form_chars_le hform) hfit hroom
      refine ⟨s', he, ?_, hcur ▸ hroom⟩
      dsimp only at hfit
      omega
    · exact ⟨s, append_drops hroom, h⟩
  | number text =>
    rw [hform] at hfit
    obtain ⟨s', he⟩ := format_ok h text
    have hcur := format_cur he
    exact ⟨s', he, by omega, hcur ▸ hfit⟩

theorem inBounds_iff (formatG : Float → Bytes) (h : Inside s) (v : Value) :
    s.InBounds formatG v ↔ s.Fits formatG v := by
  constructor
  · rintro ⟨-, s', he, -, hup⟩
    exact fits_of_put h he hup
  · intro hfit
    exact ⟨fun _ _ ↦ sub_nonneg.mpr h.2, put_of_fits h hfit⟩

theorem put_inside {formatG : Float → Bytes} (h : Inside s) {v : Value} (hfit : s.Fits formatG v)
    (he : s.put formatG v = .ok s') : Inside s' := by
  obtain ⟨s₁, he₁, hin⟩ := put_of_fits h hfit
  obtain rfl : s₁ = s' := Except.ok.inj (he₁.symm.trans he)
  exact hin

theorem new_inside (earlier : LogStream) : Inside (new earlier) := ⟨le_refl 0, show (0 : ℤ) ≤ 65536 by decide⟩

/-- The stream stays within its buffer, and no size that `snprintf` is given is negative, exactly if
every number fits where it is written and the length of every string is an `int`. -/
theorem run_inBounds_iff (formatG : Float → Bytes) (earlier : LogStream) (values : List Value) :
    Admissible (put formatG) (InBounds formatG) (new earlier) values ↔
      Admissible (put formatG) (Fits formatG) (new earlier) values :=
  Admissible.congr_of_invariant (fun _ v h _ ↦ inBounds_iff formatG h v)
    (fun _ _ _ h _ hfit he ↦ put_inside h hfit he) values (new_inside earlier) (admissible_true values _)

theorem format_overrun (h : klogBufferLen < s.length) (text : Bytes) : s.format text = .error .outOfBounds := by
  have hsize : ¬klogBufferLen - s.length = 0 := by omega
  have hout : ∀ d, s.store d = .error .outOfBounds := by
    intro d
    rw [store, dif_neg]
    rw [length] at h
    omega
  unfold format
  dsimp only
  rw [if_neg hsize, hout, error_bind]

/-- A string that fills the buffer, and a digit: the stream is one byte behind its buffer, and the next
number is written there. -/
theorem digit_overruns :
    let blank : LogStream := ⟨List.replicate 65536 0, List.length_replicate, 0⟩
    ∃ s, [Value.string (List.replicate 65536 97), .int 1].foldlM (put fun _ ↦ []) (new blank) = .ok s ∧
      s.length = 65537 ∧ klogBufferLen - s.length = -1 ∧ s.put (fun _ ↦ []) (.int 1) = .error .outOfBounds := by
  intro blank
  have hlen : toInt (List.replicate 65536 (97 : UInt8)).length = 65536 := by
    rw [List.length_replicate]
    decide
  have hzero : (new blank).length = 0 := rfl
  obtain ⟨s₁, hs₁, hcur₁⟩ := append_fits (new_inside blank) (toInt_le (List.replicate 65536 (97 : UInt8)).length)
    (by rw [hlen]; decide) (by rw [hlen, hzero]; decide)
  rw [hlen, hzero, zero_add] at hcur₁
  obtain ⟨s₂, hs₂⟩ := format_ok (s := s₁) ⟨by omega, by rw [hcur₁]; decide⟩ (decimal 1)
  have hcur₂ : s₂.length = 65537 := by
    rw [format_cur hs₂, hcur₁]
    decide
  refine ⟨s₂, ?_, hcur₂, by rw [hcur₂]; decide, format_overrun (by rw [hcur₂]; decide) _⟩
  rw [List.foldlM_cons, put, Value.form, write, hs₁, ok_bind, List.foldlM_cons, put, Value.form, write]
  rw [show (1 : Int32).toInt = 1 from rfl, hs₂]
  rfl

end LogStream

end Bounds

end Baize.Log
