import Baize.Lib.Region
import Baize.Lib.Run
import Baize.Util.Types

namespace Baize.Log

open Lib

abbrev ExtBuf := Region UInt8 65536

namespace ExtBuf

def start : ExtBuf := .filled 0 65536

/-- `vsnprintf(g_extbuf, sizeof(g_extbuf), fmt, args)`, where `text` is what the format makes of the
arguments. -/
def format (g : ExtBuf) (text : Bytes) : Checked ExtBuf := g.store 0 (text.take 65535 ++ [0])

def stringAppend (g : ExtBuf) (s text : Bytes) : Checked (Bytes × ExtBuf) := do
  let g ← g.format text
  let appended ← g.text 0
  pure (s ++ appended ++ [10], g)

def tempFmt (g : ExtBuf) (text : Bytes) : Checked (Bytes × ExtBuf) := do
  let g ← g.format text
  let out ← g.text 0
  pure (out, g)

def hexDigit (n : ℕ) : UInt8 := UInt8.ofNat (if n < 10 then 48 + n else 87 + n)

def hexByte (b : UInt8) : Bytes := [hexDigit (b.toNat / 16), hexDigit (b.toNat % 16)]

def gap (i : ℕ) : Bytes := if i % 16 = 0 then [10] else if i % 8 = 0 then [32] else []

def dumpHexFormatLoop (g : ExtBuf) (pos i : ℕ) : Bytes → Checked (ExtBuf × ℕ)
  | [] => pure (g, pos)
  | b :: s => do
    let g ← g.store pos (gap i)
    let pos := pos + (gap i).length
    let g ← g.store pos (hexByte b ++ [32, 0])
    dumpHexFormatLoop g (pos + 3) (i + 1) s

def dumpHexFormat (g : ExtBuf) (s : Bytes) : Checked (Bytes × ExtBuf) := do
  let (g, pos) ← dumpHexFormatLoop g 0 0 s
  let g ← g.store pos [0]
  let out ← g.text 0
  pure (out, g)

def dumpHexLoop (g : ExtBuf) (i : ℕ) : Bytes → Checked ExtBuf
  | [] => pure g
  | b :: s => do
    let g ← g.store (i * 2) (hexByte b ++ [0])
    dumpHexLoop g (i + 1) s

def dumpHex (g : ExtBuf) (s : Bytes) : Checked (Bytes × ExtBuf) := do
  let g ← dumpHexLoop g 0 s
  let out ← g.text 0
  pure (out, g)

inductive Call
  | stringAppend (s text : Bytes)
  | tempFmt (text : Bytes)
  | dumpHexFormat (s : Bytes)
  | dumpHex (s : Bytes)
  deriving DecidableEq, Repr

def call (g : ExtBuf) : Call → Checked (Bytes × ExtBuf)
  | .stringAppend s text => g.stringAppend s text
  | .tempFmt text => g.tempFmt text
  | .dumpHexFormat s => g.dumpHexFormat s
  | .dumpHex s => g.dumpHex s

def exec (g : ExtBuf) (c : Call) : Checked ExtBuf := Prod.snd <$> g.call c

def hexDigits (s : Bytes) : Bytes := s.flatMap hexByte

theorem hexDigit_ne_zero {n : ℕ} (h : n < 16) : hexDigit n ≠ 0 := by
  interval_cases n <;> decide

theorem zero_notMem_hexDigits (s : Bytes) : 0 ∉ hexDigits s := by
  intro hmem
  obtain ⟨b, -, hb⟩ := List.mem_flatMap.mp hmem
  have hlt := b.toNat_lt
  rcases List.mem_cons.mp hb with h0 | h0
  · exact hexDigit_ne_zero (by omega) h0.symm
  · exact hexDigit_ne_zero (by omega) (List.mem_singleton.mp h0).symm

/-- Each turn writes its digits behind those of the turns before it, over the zero that the last of them
has left, and leaves a zero behind its own. -/
theorem prefix_dumpHexLoop {g g' : ExtBuf} {i : ℕ} {s p : Bytes} (h : dumpHexLoop g i s = .ok g')
    (hp : p <+: g.cells) (hlen : p.length = i * 2) :
    p ++ hexDigits s <+: g'.cells ∧ (s ≠ [] → p ++ hexDigits s ++ [0] <+: g'.cells) := by
  induction s generalizing g i p with
  | nil =>
    obtain rfl := Except.ok.inj h
    rw [hexDigits, List.flatMap_nil, List.append_nil]
    exact ⟨hp, fun hne ↦ absurd rfl hne⟩
  | cons b s ih =>
    obtain ⟨g₁, hstore, hrest⟩ := bind_eq_ok.mp h
    rw [← hlen] at hstore
    have hwritten := Region.append_prefix_store hstore hp
    rw [← List.append_assoc] at hwritten
    have hlen₁ : (p ++ hexByte b).length = (i + 1) * 2 := by
      rw [List.length_append, hlen, hexByte, List.length_cons, List.length_singleton]
      omega
    obtain ⟨hdigits, hzero⟩ := ih hrest ((List.prefix_append _ _).trans hwritten) hlen₁
    rw [List.append_assoc p (hexByte b)] at hdigits
    refine ⟨hdigits, fun _ ↦ ?_⟩
    cases s with
    | nil =>
      obtain rfl := Except.ok.inj hrest
      rw [hexDigits, List.flatMap_singleton]
      exact hwritten
    | cons c s =>
      have hlast := hzero (List.cons_ne_nil _ _)
      rw [List.append_assoc p (hexByte b)] at hlast
      exact hlast

theorem exists_dumpHexLoop (g : ExtBuf) {i : ℕ} {s : Bytes} (h : 2 * (i + s.length) < 65536) :
    ∃ g', dumpHexLoop g i s = .ok g' := by
  induction s generalizing g i with
  | nil => exact ⟨g, rfl⟩
  | cons b s ih =>
    rw [List.length_cons] at h
    have hfits : i * 2 + (hexByte b ++ [0]).length ≤ 65536 := by
      simp only [hexByte, List.length_append, List.length_cons, List.length_nil]
      omega
    obtain ⟨g₁, hstore⟩ := g.exists_store hfits
    obtain ⟨g', hrest⟩ := ih g₁ (i := i + 1) (by omega)
    exact ⟨g', bind_eq_ok.mpr ⟨g₁, hstore, hrest⟩⟩

theorem dumpHex_of_ne_nil (g : ExtBuf) {s : Bytes} (hs : 2 * s.length < 65536) (hne : s ≠ []) :
    ∃ g', g.dumpHex s = .ok (hexDigits s, g') := by
  obtain ⟨g', hloop⟩ := exists_dumpHexLoop g (i := 0) (by rwa [Nat.zero_add])
  have hpre := (prefix_dumpHexLoop hloop List.nil_prefix rfl).2 hne
  rw [List.nil_append] at hpre
  refine ⟨g', ?_⟩
  rw [dumpHex, hloop, ok_bind, Region.text_of_prefix hpre (zero_notMem_hexDigits s)]
  rfl

/-- Of no bytes it gives what an earlier call has left in the buffer. -/
theorem dumpHex_nil (g : ExtBuf) : g.dumpHex [] = (fun out ↦ (out, g)) <$> Region.text 0 g := by
  rw [dumpHex, dumpHexLoop, pure_eq_ok, ok_bind, map_eq_pure_bind]

theorem dumpHex_eq_hexDigits_iff (g : ExtBuf) {s : Bytes} (hs : 2 * s.length < 65536) :
    (∃ g', g.dumpHex s = .ok (hexDigits s, g')) ↔ s ≠ [] ∨ g.cells.head? = some 0 := by
  by_cases hne : s = []
  · subst hne
    rw [dumpHex_nil, ← Region.text_eq_nil_iff, hexDigits, List.flatMap_nil]
    cases htext : Region.text 0 g with
    | error fault => simp
    | ok out => simp
  · exact iff_of_true (dumpHex_of_ne_nil g hs hne) (.inl hne)

/-- Whether the buffer begins with a zero after a call, when `blank` says so of the buffer before it. -/
def Call.blank (blank : Bool) : Call → Bool
  | .stringAppend _ text | .tempFmt text => text.head?.getD 0 = 0
  | .dumpHexFormat s => s = []
  | .dumpHex s => s = [] && blank

def blank (calls : List Call) : Bool := calls.foldl Call.blank true

theorem head?_format {g g' : ExtBuf} {text : Bytes} (h : g.format text = .ok g') :
    g'.cells.head? = some (text.head?.getD 0) := by
  have hpre := Region.append_prefix_store (p := []) h List.nil_prefix
  rw [List.nil_append] at hpre
  rw [Region.head?_of_prefix hpre (List.append_ne_nil_of_right_ne_nil _ (List.cons_ne_nil _ _))]
  cases text <;> rfl

theorem eq_of_text {g g' : ExtBuf} {out : Bytes} {f : Bytes → Bytes}
    (h : (do let text ← g.text 0; pure (f text, g)) = Except.ok (out, g')) : g' = g := by
  obtain ⟨text, -, hpair⟩ := bind_eq_ok.mp h
  exact (Prod.mk.inj (Except.ok.inj hpair)).2.symm

theorem prefix_dumpHexFormatLoop {g g' : ExtBuf} {pos pos' i : ℕ} {s p : Bytes}
    (h : dumpHexFormatLoop g pos i s = .ok (g', pos')) (hp : p <+: g.cells) (hlen : p.length ≤ pos) :
    p <+: g'.cells ∧ p.length ≤ pos' := by
  induction s generalizing g pos i with
  | nil =>
    obtain ⟨rfl, rfl⟩ := Prod.mk.inj (Except.ok.inj h)
    exact ⟨hp, hlen⟩
  | cons b s ih =>
    obtain ⟨g₁, hgap, hrest⟩ := bind_eq_ok.mp h
    obtain ⟨g₂, hbyte, hrest⟩ := bind_eq_ok.mp hrest
    have hp₁ := Region.prefix_store hgap hp hlen
    have hp₂ := Region.prefix_store hbyte hp₁ (by omega)
    exact ih hrest hp₂ (by omega)

theorem head?_dumpHexFormat {g g' : ExtBuf} {s out : Bytes} (h : g.dumpHexFormat s = .ok (out, g')) :
    g'.cells.head? = some (if s = [] then 0 else 10) := by
  obtain ⟨⟨g₁, pos⟩, hloop, hrest⟩ := bind_eq_ok.mp h
  obtain ⟨g₂, hstore, hrest⟩ := bind_eq_ok.mp hrest
  obtain rfl := eq_of_text hrest
  cases s with
  | nil =>
    obtain ⟨rfl, rfl⟩ := Prod.mk.inj (Except.ok.inj hloop)
    exact Region.head?_of_prefix (Region.append_prefix_store (p := []) hstore List.nil_prefix)
      (List.cons_ne_nil _ _)
  | cons b s =>
    obtain ⟨g₃, hgap, hturn⟩ := bind_eq_ok.mp hloop
    obtain ⟨g₄, hbyte, hturn⟩ := bind_eq_ok.mp hturn
    have hbreak : [10] <+: g₃.cells := Region.append_prefix_store (p := []) hgap List.nil_prefix
    have hkept := Region.prefix_store hbyte hbreak (Nat.le_add_left _ _)
    obtain ⟨hloop', hle⟩ := prefix_dumpHexFormatLoop hturn hkept (Nat.le_add_left _ _)
    exact Region.head?_of_prefix (Region.prefix_store hstore hloop' hle) (List.cons_ne_nil _ _)

theorem head?_dumpHex {g g' : ExtBuf} {s out : Bytes} (h : g.dumpHex s = .ok (out, g')) :
    g'.cells.head? = some 0 ↔ s = [] ∧ g.cells.head? = some 0 := by
  obtain ⟨g₁, hloop, hrest⟩ := bind_eq_ok.mp h
  obtain rfl := eq_of_text hrest
  cases s with
  | nil =>
    obtain rfl := Except.ok.inj hloop
    exact (and_iff_right rfl).symm
  | cons b s =>
    have hpre := (prefix_dumpHexLoop hloop List.nil_prefix rfl).1
    have hb := b.toNat_lt
    rw [Region.head?_of_prefix hpre (List.cons_ne_nil _ _)]
    refine iff_of_false (fun h0 ↦ ?_) (fun h0 ↦ List.cons_ne_nil _ _ h0.1)
    exact hexDigit_ne_zero (n := b.toNat / 16) (by omega) (Option.some.inj h0)

theorem exec_blank {g g' : ExtBuf} {c : Call} {b : Bool} (hb : g.cells.head? = some 0 ↔ b = true)
    (h : g.exec c = .ok g') : g'.cells.head? = some 0 ↔ c.blank b = true := by
  obtain ⟨⟨out, g₁⟩, hcall, rfl⟩ := map_eq_ok.mp h
  cases c with
  | stringAppend s text =>
    obtain ⟨g₂, hformat, hrest⟩ := bind_eq_ok.mp hcall
    obtain rfl := eq_of_text hrest
    rw [head?_format hformat, Option.some_inj, Call.blank, decide_eq_true_iff]
  | tempFmt text =>
    obtain ⟨g₂, hformat, hrest⟩ := bind_eq_ok.mp hcall
    obtain rfl := eq_of_text hrest
    rw [head?_format hformat, Option.some_inj, Call.blank, decide_eq_true_iff]
  | dumpHexFormat s =>
    rw [head?_dumpHexFormat hcall, Call.blank, decide_eq_true_iff]
    by_cases hs : s = [] <;> simp [hs]
  | dumpHex s => rw [head?_dumpHex hcall, hb, Call.blank, Bool.and_eq_true, decide_eq_true_iff]

theorem blank_iff {calls : List Call} {g : ExtBuf} (h : calls.foldlM exec start = .ok g) :
    g.cells.head? = some 0 ↔ blank calls = true :=
  foldlM_keeps (f := Call.blank) (R := fun (g : ExtBuf) b ↦ g.cells.head? = some 0 ↔ b = true)
    (fun _ _ _ _ hb hcall ↦ exec_blank hb hcall) calls (iff_of_true rfl rfl) h

/-- After any two histories `DumpHex` gives the digits of its bytes, provided that there are bytes or
that the histories have left no text behind. -/
theorem dumpHex_histories_iff {s : Bytes} (hs : 2 * s.length < 65536) {calls₁ calls₂ : List Call}
    {g₁ g₂ : ExtBuf} (h₁ : calls₁.foldlM exec start = .ok g₁) (h₂ : calls₂.foldlM exec start = .ok g₂) :
    ((∃ g, g₁.dumpHex s = .ok (hexDigits s, g)) ∧ ∃ g, g₂.dumpHex s = .ok (hexDigits s, g)) ↔
      s ≠ [] ∨ (blank calls₁ = true ∧ blank calls₂ = true) := by
  rw [dumpHex_eq_hexDigits_iff g₁ hs, dumpHex_eq_hexDigits_iff g₂ hs, blank_iff h₁, blank_iff h₂, or_and_left]

theorem exec_tempFmt (g : ExtBuf) (text : Bytes) (hlen : text.length < 65536) (hzero : 0 ∉ text) :
    ∃ g', g.exec (.tempFmt text) = .ok g' ∧ Region.text 0 g' = .ok text := by
  have htake : text.take 65535 = text := List.take_of_length_le (by omega)
  have hfits : 0 + (text.take 65535 ++ [0]).length ≤ 65536 := by
    rw [htake, List.length_append, List.length_singleton]
    omega
  obtain ⟨g', hformat⟩ := g.exists_store hfits
  have hpre := Region.append_prefix_store (p := []) hformat List.nil_prefix
  rw [List.nil_append, htake] at hpre
  have htext := Region.text_of_prefix hpre hzero
  refine ⟨g', map_eq_ok.mpr ⟨(text, g'), ?_, rfl⟩, htext⟩
  rw [call, tempFmt, format, hformat, ok_bind, htext]
  rfl

/-- Once `TempFmt("x")` has been called, the dump of no bytes is `x`. -/
theorem dumpHex_nil_leftover : ∃ g, [Call.tempFmt [120]].foldlM exec start = .ok g ∧
    g.dumpHex [] = .ok ([120], g) ∧ start.dumpHex [] = .ok ([], start) := by
  obtain ⟨g, hexec, htext⟩ := exec_tempFmt start [120] (by decide) (by decide)
  refine ⟨g, ?_, ?_, ?_⟩
  · rw [List.foldlM_cons, hexec]
    rfl
  · rw [dumpHex_nil, htext]
    rfl
  · rw [dumpHex_nil, (Region.text_eq_nil_iff start).mpr rfl]
    rfl

theorem dumpHex_histories_iff_tempFmt : ∃ g, [Call.tempFmt [120]].foldlM exec start = .ok g ∧
    (∃ g', start.dumpHex [171] = .ok ([97, 98], g')) ∧ ∃ g', g.dumpHex [171] = .ok ([97, 98], g') := by
  obtain ⟨g, hexec, -⟩ := exec_tempFmt start [120] (by decide) (by decide)
  have hfresh : [].foldlM exec start = .ok start := rfl
  have hrun : [Call.tempFmt [120]].foldlM exec start = .ok g := by
    rw [List.foldlM_cons, hexec]
    rfl
  have hdigits : hexDigits [171] = [97, 98] := by decide
  rw [← hdigits]
  exact ⟨g, hrun, (dumpHex_histories_iff (by decide) hfresh hrun).mpr (.inl (List.cons_ne_nil _ _))⟩

end ExtBuf

end Baize.Log
