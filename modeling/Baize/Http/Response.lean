import Baize.Http.RequestLine
import Baize.Http.RoundTrip
import Baize.Net.InetAddress

namespace Baize.Http

open Lib

inductive StatusCode
  | none
  | k200
  deriving DecidableEq, Repr

inductive StatusDescription
  | none
  | ok
  deriving DecidableEq, Repr

structure ResponseLine where
  version : Version := .none
  code : StatusCode := .none
  description : StatusDescription := .none
  deriving DecidableEq, Repr

namespace HttpMessage

/-- Where one of the three is not set there is no line at all. -/
def makeResponseLine (line : ResponseLine) : Bytes :=
  if line.version = .http11 then
    if line.code = .k200 then
      if line.description = .ok then ascii "HTTP/1.1 " ++ ascii "200 " ++ ascii "OK" else []
    else []
  else []

def setResponseLine (m : HttpMessage) (line : Bytes) : HttpMessage := { m with firstLine := line }

def setHeaders (m : HttpMessage) (key value : Bytes) : HttpMessage :=
  { m with headers := m.headers.insert key value }

def setBody (m : HttpMessage) (body : Bytes) : HttpMessage := { m with body := body }

def successLine : Bytes := makeResponseLine ⟨.http11, .k200, .ok⟩

def contentType : Bytes := ascii "Content-Type"

def document (type body : Bytes) : HttpMessage :=
  ((((fresh.setResponseLine successLine).setHeaders contentType type).setHeaders contentLength
    (Net.decimal body.length)).setBody body)

def plainDocument (body : Bytes) : HttpMessage :=
  (((fresh.setResponseLine successLine).setHeaders contentLength (Net.decimal body.length)).setBody body)

theorem digit_toNat {c : Char} (h : c.isDigit = true) : (UInt8.ofNat c.toNat).toNat = c.toNat := by
  simp only [Char.isDigit, Bool.and_eq_true, decide_eq_true_eq] at h
  have hle : c.toNat ≤ 57 := UInt32.le_iff_toNat_le.mp h.2
  exact UInt8.toNat_ofNat_of_lt' (hle.trans_lt (by decide))

theorem decimal_decimal (n : ℕ) : StringPiece.decimal (Net.decimal n) = n := by
  have hfold : ∀ (cs : List Char) (k : ℕ), (∀ c ∈ cs, c.isDigit = true) →
      (cs.map fun c ↦ UInt8.ofNat c.toNat).foldl (fun n c ↦ n * 10 + (c.toNat - 48)) k =
        Nat.ofDigitChars 10 cs k := by
    intro cs
    induction cs with
    | nil => exact fun _ _ ↦ rfl
    | cons c cs ih =>
      intro k hcs
      obtain ⟨hc, hrest⟩ := List.forall_mem_cons.mp hcs
      rw [List.map_cons, List.foldl_cons, ih _ hrest, digit_toNat hc, Nat.mul_comm k 10]
      rfl
  rw [StringPiece.decimal, Net.decimal,
    hfold _ 0 fun c hc ↦ Nat.isDigit_of_mem_toDigits (by decide) (by decide) hc, Nat.ofDigitChars_ten_toDigits]

theorem allDigits_decimal (n : ℕ) : StringPiece.AllDigits (Net.decimal n) := by
  intro b hb
  obtain ⟨c, hc, rfl⟩ := List.mem_map.mp hb
  have hdigit := Nat.isDigit_of_mem_toDigits (by decide) (by decide) hc
  rw [StringPiece.isDigit_iff, digit_toNat hdigit]
  simp only [Char.isDigit, Bool.and_eq_true, decide_eq_true_eq] at hdigit
  exact ⟨UInt32.le_iff_toNat_le.mp hdigit.1, UInt32.le_iff_toNat_le.mp hdigit.2⟩

theorem decimal_ne_nil (n : ℕ) : Net.decimal n ≠ [] := by
  rw [Net.decimal, Ne, List.map_eq_nil_iff]
  exact Nat.toDigits_ne_nil

theorem notMem_decimal {n : ℕ} {b : UInt8} (h : StringPiece.isDigit b = false) : b ∉ Net.decimal n := by
  intro hb
  rw [allDigits_decimal n b hb] at h
  cases h

theorem isSpace_of_isDigit {b : UInt8} (h : StringPiece.isDigit b = true) : StringPiece.isSpace b = false := by
  rw [StringPiece.isDigit_iff] at h
  simp only [StringPiece.isSpace, Bool.or_eq_false_iff, Bool.and_eq_false_iff, decide_eq_false_iff_not,
    UInt8.le_iff_toNat_le, not_le, UInt8.reduceToNat]
  refine ⟨?_, .inr (by omega)⟩
  rintro rfl
  exact absurd h.1 (by decide)

theorem trimmed_decimal (n : ℕ) : StringPiece.Trimmed (Net.decimal n) :=
  ⟨fun b hb ↦ isSpace_of_isDigit (allDigits_decimal n b (List.mem_of_mem_head? hb)),
    fun b hb ↦ isSpace_of_isDigit (allDigits_decimal n b (List.mem_of_mem_getLast? hb))⟩

theorem not_mention_decimal (n : ℕ) : ¬contentLength <:+: Net.decimal n := by
  intro hin
  exact notMem_decimal (b := 67) (by decide) (hin.subset (by decide))

structure NameOk (k : Bytes) : Prop where
  ne_nil : k ≠ []
  trimmed : StringPiece.Trimmed k
  clean : 13 ∉ k ∧ 10 ∉ k
  no_colon : 58 ∉ k

structure ValueOk (v : Bytes) : Prop where
  trimmed : StringPiece.Trimmed v
  clean : 13 ∉ v ∧ 10 ∉ v
  plain : ¬contentLength <:+: v

theorem LineOk.of_name {k v : Bytes} (hk : NameOk k) (hv : ValueOk v) : LineOk (k, v) :=
  ⟨hk.ne_nil, hk.trimmed, hv.trimmed, hk.clean, hv.clean, hk.no_colon⟩

theorem nameOk_contentLength : NameOk contentLength :=
  ⟨by decide, ⟨by decide +kernel, by decide +kernel⟩, by decide, by decide⟩

theorem nameOk_contentType : NameOk contentType :=
  ⟨by decide, ⟨by decide +kernel, by decide +kernel⟩, by decide, by decide⟩

theorem valueOk_decimal (n : ℕ) : ValueOk (Net.decimal n) :=
  ⟨trimmed_decimal n, ⟨notMem_decimal (by decide), notMem_decimal (by decide)⟩, not_mention_decimal n⟩

theorem successLine_ok : successLine ≠ [] ∧ (13 ∉ successLine ∧ 10 ∉ successLine) ∧
    ¬contentLength <:+: successLine := by
  decide

section

variable {type : Bytes}

theorem entries_document (type body : Bytes) :
    (document type body).headers.entries = [(contentLength, Net.decimal body.length), (contentType, type)] := rfl

theorem entries_plainDocument (body : Bytes) :
    (plainDocument body).headers.entries = [(contentLength, Net.decimal body.length)] := rfl

theorem wellFormed_document (h : ValueOk type) (body : Bytes) : WellFormed (document type body) where
  firstLine_ne := successLine_ok.1
  firstLine_clean := successLine_ok.2.1
  firstLine_plain := successLine_ok.2.2
  lines := by
    rw [entries_document, List.forall_mem_cons, List.forall_mem_singleton]
    exact ⟨.of_name nameOk_contentLength (valueOk_decimal _), .of_name nameOk_contentType h⟩
  plain := by
    have htype : ¬contentLength <:+: contentType := by decide
    rw [entries_document, List.forall_mem_cons, List.forall_mem_singleton]
    exact ⟨⟨fun hne ↦ absurd rfl hne, not_mention_decimal _⟩, fun _ ↦ htype, h.plain⟩
  framed := by
    intro v hv
    rw [entries_document, List.mem_cons, List.mem_singleton] at hv
    obtain heq | heq := hv
    · rw [(Prod.mk.inj heq).2]
      exact ⟨decimal_ne_nil _, allDigits_decimal _, decimal_decimal _⟩
    · exact absurd (Prod.mk.inj heq).1 (by decide)
  unframed := fun hno ↦ absurd List.mem_cons_self hno

theorem wellFormed_plainDocument (body : Bytes) : WellFormed (plainDocument body) where
  firstLine_ne := successLine_ok.1
  firstLine_clean := successLine_ok.2.1
  firstLine_plain := successLine_ok.2.2
  lines := by
    rw [entries_plainDocument, List.forall_mem_singleton]
    exact .of_name nameOk_contentLength (valueOk_decimal _)
  plain := by
    rw [entries_plainDocument, List.forall_mem_singleton]
    exact ⟨fun hne ↦ absurd rfl hne, not_mention_decimal _⟩
  framed := by
    intro v hv
    rw [entries_plainDocument, List.mem_singleton] at hv
    rw [(Prod.mk.inj hv).2]
    exact ⟨decimal_ne_nil _, allDigits_decimal _, decimal_decimal _⟩
  unframed := fun hno ↦ absurd List.mem_cons_self hno

end

end HttpMessage

end Baize.Http
