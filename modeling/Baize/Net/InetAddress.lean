import Baize.Util.Types

namespace Baize.Net

def afInet : UInt16 := 2

def afInet6 : UInt16 := 10

/-- `net::InetAddress`: the members of the `sockaddr_in` and `sockaddr_in6` union
that the code reads. They do not overlap, apart from the shared family and port. -/
structure InetAddress where
  family : UInt16
  port : UInt16
  sinAddr : UInt32
  sin6Addr : Bytes
  sin6Addr_length : sin6Addr.length = 16

instance : DecidableEq InetAddress := fun a b ↦
  decidable_of_iff (a.family = b.family ∧ a.port = b.port ∧ a.sinAddr = b.sinAddr ∧
    a.sin6Addr = b.sin6Addr) (by cases a; cases b; simp)

def InetAddress.zero : InetAddress := ⟨0, 0, 0, List.replicate 16 0, rfl⟩

def decimal (n : ℕ) : Bytes := (Nat.toDigits 10 n).map fun c ↦ UInt8.ofNat c.toNat

theorem le_of_mem_decimal {n : ℕ} {b : UInt8} (h : b ∈ decimal n) : b ≤ 57 := by
  obtain ⟨c, hc, rfl⟩ := List.mem_map.mp h
  have hdigit := Nat.isDigit_of_mem_toDigits (by decide) (by decide) hc
  simp only [Char.isDigit, Bool.and_eq_true, decide_eq_true_eq] at hdigit
  have hle : c.toNat ≤ 57 := UInt32.le_iff_toNat_le.mp hdigit.2
  rw [UInt8.le_iff_toNat_le, UInt8.toNat_ofNat_of_lt' (hle.trans_lt (by decide))]
  exact hle

namespace InetAddress

def ip4 (a : InetAddress) : Bytes :=
  let byte (i : ℕ) := decimal (byte1 (net4 a.sinAddr) i).toNat
  byte 0 ++ [46] ++ byte 1 ++ [46] ++ byte 2 ++ [46] ++ byte 3

def ipPort (inetNtop6 : Bytes → Bytes) (a : InetAddress) : Bytes :=
  if a.family = afInet6 then [91] ++ inetNtop6 a.sin6Addr ++ [93, 58] ++ decimal a.port.toNat
  else if a.family = afInet then a.ip4 ++ [58] ++ decimal a.port.toNat
  else []

theorem le_of_mem_ip4 {a : InetAddress} {b : UInt8} (h : b ∈ a.ip4) : b ≤ 57 := by
  have hdot : (46 : UInt8) ≤ 57 := by decide
  simp only [ip4, List.mem_append, List.mem_singleton] at h
  rcases h with (((((h | rfl) | h) | rfl) | h) | rfl) | h
  all_goals first | exact hdot | exact le_of_mem_decimal h

theorem ipPort_head_or_le (inetNtop6 : Bytes → Bytes) (a : InetAddress) :
    (a.ipPort inetNtop6).head? = some 91 ∨ ∀ b ∈ a.ipPort inetNtop6, b ≤ 58 := by
  unfold ipPort
  split_ifs
  · exact .inl rfl
  · refine .inr fun b hb ↦ ?_
    simp only [List.mem_append, List.mem_singleton] at hb
    rcases hb with (hb | rfl) | hb
    · exact (le_of_mem_ip4 hb).trans (by decide)
    · exact le_rfl
    · exact (le_of_mem_decimal hb).trans (by decide)
  · exact .inr nofun

end InetAddress

end Baize.Net
