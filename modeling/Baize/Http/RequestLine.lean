import Baize.Http.Message

namespace Baize.Http

open Lib StringPiece

inductive Method
  | none
  | get
  | post
  deriving DecidableEq, Repr

inductive Version
  | none
  | http11
  deriving DecidableEq, Repr

structure RequestLine where
  method : Method := .none
  url : Bytes := []
  query : SortedMap Bytes Bytes := .empty
  version : Version := .none
  deriving DecidableEq

namespace HttpMessage

def space : UInt8 := 32

def questionMark : UInt8 := 63

def ampersand : UInt8 := 38

def equals : UInt8 := 61

def getText : Bytes := [71, 69, 84]

def postText : Bytes := [80, 79, 83, 84]

def http11Text : Bytes := [72, 84, 84, 80, 47, 49, 46, 49]

/-- The loop over the items of the query. It ends `request_line` with what it has so far at an item
that has no `=`. -/
def queryLoop (req : RequestLine) : List Bytes → Except RequestLine RequestLine
  | [] => .ok req
  | item :: items =>
    let seg := findChar item equals
    if seg = item.length then .error req
    else
      let key := item.take seg
      let value := item.drop (seg + 1)
      queryLoop { req with query := req.query.insert key value } items

/-- The second piece of the first line: a path, and a query behind the first `?`. -/
def splitPath (req : RequestLine) (path : Bytes) : Except RequestLine RequestLine :=
  let pos := findChar path questionMark
  if pos = path.length then .ok { req with url := path }
  else queryLoop { req with url := path.take pos } (splitChar (path.drop (pos + 1)) ampersand)

def requestLine (m : HttpMessage) : RequestLine :=
  match splitChar m.firstLine space with
  | [method, path, version] =>
    let req : RequestLine := {}
    let method : Method :=
      if method = getText then .get else if method = postText then .post else .none
    let req := { req with method := method }
    if method = .none then req
    else
      match splitPath req path with
      | .error req => req
      | .ok req => { req with version := if version = http11Text then .http11 else .none }
  | _ => {}

def methodText : Method → Bytes
  | .none => []
  | .get => getText
  | .post => postText

def itemText (e : Bytes × Bytes) : Bytes := e.1 ++ equals :: e.2

def queryText (pairs : List (Bytes × Bytes)) : Bytes :=
  if pairs = [] then [] else questionMark :: [ampersand].intercalate (pairs.map itemText)

def requestText (method : Method) (path : Bytes) (pairs : List (Bytes × Bytes)) : Bytes :=
  methodText method ++ space :: (path ++ queryText pairs) ++ space :: http11Text

structure PairOk (e : Bytes × Bytes) : Prop where
  key_equals : equals ∉ e.1
  key_ampersand : ampersand ∉ e.1
  key_space : space ∉ e.1
  value_ampersand : ampersand ∉ e.2
  value_space : space ∉ e.2

instance (e : Bytes × Bytes) : Decidable (PairOk e) :=
  decidable_of_iff (equals ∉ e.1 ∧ ampersand ∉ e.1 ∧ space ∉ e.1 ∧ ampersand ∉ e.2 ∧ space ∉ e.2)
    ⟨fun ⟨h₁, h₂, h₃, h₄, h₅⟩ ↦ ⟨h₁, h₂, h₃, h₄, h₅⟩, fun ⟨h₁, h₂, h₃, h₄, h₅⟩ ↦ ⟨h₁, h₂, h₃, h₄, h₅⟩⟩

section

variable {pairs : List (Bytes × Bytes)}

theorem itemText_ne_nil (e : Bytes × Bytes) : itemText e ≠ [] :=
  List.append_ne_nil_of_right_ne_nil _ (List.cons_ne_nil _ _)

theorem notMem_itemText {e : Bytes × Bytes} {c : UInt8} (hkey : c ∉ e.1) (hne : c ≠ equals) (hvalue : c ∉ e.2) :
    c ∉ itemText e := by
  rw [itemText, List.mem_append, List.mem_cons]
  exact not_or.mpr ⟨hkey, not_or.mpr ⟨hne, hvalue⟩⟩

theorem PairOk.ampersand_notMem {e : Bytes × Bytes} (h : PairOk e) : ampersand ∉ itemText e :=
  notMem_itemText h.key_ampersand (by decide) h.value_ampersand

theorem PairOk.space_notMem {e : Bytes × Bytes} (h : PairOk e) : space ∉ itemText e :=
  notMem_itemText h.key_space (by decide) h.value_space

theorem queryLoop_map (req : RequestLine) (h : ∀ e ∈ pairs, PairOk e) :
    queryLoop req (pairs.map itemText) =
      .ok { req with query := pairs.foldl (fun m e ↦ m.insert e.1 e.2) req.query } := by
  induction pairs generalizing req with
  | nil => rfl
  | cons e pairs ih =>
    have hseg : findChar (itemText e) equals = e.1.length :=
      findChar_append (h e List.mem_cons_self).key_equals e.2
    have hne : e.1.length ≠ (itemText e).length := by
      rw [itemText, List.length_append, List.length_cons]
      omega
    have hkey : (itemText e).take e.1.length = e.1 := List.take_left
    have hvalue : (itemText e).drop (e.1.length + 1) = e.2 := by
      rw [itemText, ← List.drop_drop, List.drop_left]
      rfl
    rw [List.map_cons, queryLoop]
    dsimp only
    rw [hseg, if_neg hne, hkey, hvalue, ih _ (fun a ha ↦ h a (List.mem_cons_of_mem _ ha))]
    rfl

theorem splitPath_text (req : RequestLine) {path : Bytes} (hpath : questionMark ∉ path)
    (h : ∀ e ∈ pairs, PairOk e) : splitPath req (path ++ queryText pairs) =
      .ok { req with url := path, query := pairs.foldl (fun m e ↦ m.insert e.1 e.2) req.query } := by
  cases pairs with
  | nil =>
    rw [queryText, if_pos rfl, List.append_nil, splitPath]
    exact if_pos (findChar_eq_length hpath)
  | cons e pairs =>
    have hpos := findChar_append hpath ([ampersand].intercalate ((e :: pairs).map itemText))
    have hitems : splitChar ([ampersand].intercalate ((e :: pairs).map itemText)) ampersand =
        (e :: pairs).map itemText := by
      refine splitChar_intercalate fun l hl ↦ ?_
      rw [← List.map_cons] at hl
      obtain ⟨a, ha, rfl⟩ := List.mem_map.mp hl
      exact ⟨itemText_ne_nil a, (h a ha).ampersand_notMem⟩
    rw [queryText, if_neg (List.cons_ne_nil _ _), splitPath, hpos, if_neg, List.take_left, ← List.drop_drop,
      List.drop_left, List.drop_one, List.tail_cons, hitems, queryLoop_map _ h]
    rw [List.length_append, List.length_cons]
    omega

theorem space_notMem_queryText (h : ∀ e ∈ pairs, PairOk e) : space ∉ queryText pairs := by
  rw [queryText]
  split
  · exact List.not_mem_nil
  · refine List.not_mem_cons_of_ne_of_not_mem (by decide) (notMem_intercalate (by decide) ?_)
    intro l hl
    obtain ⟨e, he, rfl⟩ := List.mem_map.mp hl
    exact (h e he).space_notMem

end

theorem methodText_spec {method : Method} (h : method ≠ .none) : methodText method ≠ [] ∧
    space ∉ methodText method ∧ (if methodText method = getText then Method.get else
      if methodText method = postText then .post else .none) = method := by
  cases method with
  | none => exact absurd rfl h
  | get => decide
  | post => decide

/-- A request line that is written out is read back: the method, the path, the version, and the
query as the map in which the last value of a key counts. -/
theorem requestLine_requestText (method : Method) (path : Bytes) (pairs : List (Bytes × Bytes))
    (hmethod : method ≠ .none) (hpath : path ≠ []) (hspace : space ∉ path) (hmark : questionMark ∉ path)
    (hpairs : ∀ e ∈ pairs, PairOk e) (m : HttpMessage) (hline : m.firstLine = requestText method path pairs) :
    m.requestLine.method = method ∧ m.requestLine.url = path ∧
      (∀ k, m.requestLine.query.find k = pairs.reverse.lookup k) ∧ m.requestLine.version = .http11 := by
  obtain ⟨hnil, hblank, hread⟩ := methodText_spec hmethod
  have hjoin : requestText method path pairs =
      [space].intercalate [methodText method, path ++ queryText pairs, http11Text] := by
    simp only [requestText, List.intercalate_cons_cons, List.intercalate_singleton, List.append_assoc,
      List.cons_append, List.nil_append]
  have hsplit : splitChar m.firstLine space = [methodText method, path ++ queryText pairs, http11Text] := by
    have hquery : space ∉ path ++ queryText pairs := by
      rw [List.mem_append]
      exact not_or.mpr ⟨hspace, space_notMem_queryText hpairs⟩
    rw [hline, hjoin]
    refine splitChar_intercalate fun l hl ↦ ?_
    rw [List.mem_cons, List.mem_cons, List.mem_singleton] at hl
    obtain rfl | rfl | rfl := hl
    · exact ⟨hnil, hblank⟩
    · exact ⟨List.append_ne_nil_of_left_ne_nil hpath _, hquery⟩
    · decide
  have hreq : m.requestLine = ⟨method, path, pairs.foldl (fun m e ↦ m.insert e.1 e.2) .empty, .http11⟩ := by
    rw [requestLine, hsplit]
    dsimp only
    rw [hread, if_neg hmethod, splitPath_text _ hmark hpairs]
    rfl
  rw [hreq]
  refine ⟨rfl, rfl, fun k ↦ ?_, rfl⟩
  rw [SortedMap.find_foldl_insert]
  exact Option.or_none

/-- `GET /a?k=1&=&k=b=? HTTP/1.1` has an empty key, an empty value and a key that comes twice. -/
theorem requestLine_requestText_twice :
    let pairs : List (Bytes × Bytes) := [([107], [49]), ([], []), ([107], [98, 61, 63])]
    let m : HttpMessage := ⟨requestText .get [47, 97] pairs, .empty, []⟩
    m.requestLine.method = .get ∧ m.requestLine.url = [47, 97] ∧ m.requestLine.version = .http11 ∧
      m.requestLine.query.find [107] = some [98, 61, 63] ∧ m.requestLine.query.find [] = some [] := by
  obtain ⟨hmethod, hurl, hquery, hversion⟩ := requestLine_requestText .get [47, 97]
    [([107], [49]), ([], []), ([107], [98, 61, 63])] (by decide) (by decide) (by decide) (by decide)
    (by decide) ⟨_, .empty, []⟩ rfl
  exact ⟨hmethod, hurl, hversion, hquery [107], hquery []⟩

end HttpMessage

end Baize.Http
