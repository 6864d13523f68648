import Baize.Time.Links
import Baize.Time.Pointers

namespace Baize.Time

open Lib

def TimeWheel.nodes (w : TimeWheel) (i k : ℕ) : List Node := .head i k :: (w.slots i k).map .timer

theorem timer_ne_head (t : TimerId) (i k : ℕ) : Node.timer t ≠ .head i k := by
  intro h
  cases h

theorem timer_mem_map {l : List TimerId} {t : TimerId} : Node.timer t ∈ l.map Node.timer ↔ t ∈ l :=
  List.mem_map_of_injective fun _ _ h ↦ Node.timer.inj h

namespace PointerWheel

variable {v v' : PointerWheel} {w w' : TimeWheel} {t : TimerId} {i k : ℕ}

/-- The slots of `w` are the lists that the pointers of `v` make up, and every other timer is free. -/
structure Represents (v : PointerWheel) (w : TimeWheel) : Prop where
  unique : w.Unique
  lastMs : v.lastMs = w.lastMs
  us : v.us = w.us
  hangs : ∀ i k, v.cells.Hangs (.head i k) ((w.slots i k).map .timer)
  free : ∀ t, ¬w.Linked t → v.cells.prev (.timer t) = none ∧ v.cells.next (.timer t) = none

theorem nodes_nodup (h : w.Unique) (i k : ℕ) : (w.nodes i k).Nodup := by
  refine List.nodup_cons.mpr ⟨fun hmem ↦ ?_, (h.nodup i k).map fun _ _ heq ↦ Node.timer.inj heq⟩
  obtain ⟨t, -, ht⟩ := List.mem_map.mp hmem
  cases ht

theorem nodes_disjoint (h : w.Unique) {x : Node} {i k i' k' : ℕ} (hx : x ∈ w.nodes i k)
    (hx' : x ∈ w.nodes i' k') : i' = i ∧ k' = k := by
  obtain rfl | hx := List.mem_cons.mp hx
  · obtain heq | hx' := List.mem_cons.mp hx'
    · cases heq
      exact ⟨rfl, rfl⟩
    · obtain ⟨t, -, ht⟩ := List.mem_map.mp hx'
      cases ht
  · obtain ⟨t, ht, rfl⟩ := List.mem_map.mp hx
    obtain heq | hx' := List.mem_cons.mp hx'
    · cases heq
    · exact h.disjoint ht (timer_mem_map.mp hx')

theorem linked_of_mem_nodes (h : Node.timer t ∈ w.nodes i k) : w.Linked t := by
  obtain heq | h := List.mem_cons.mp h
  · cases heq
  · exact ⟨i, k, timer_mem_map.mp h⟩

theorem delTimer_lastMs_us (v : PointerWheel) (n : Node) :
    (v.delTimer n).lastMs = v.lastMs ∧ (v.delTimer n).us = v.us := by
  unfold delTimer
  cases v.cells.prev n with
  | none => exact ⟨rfl, rfl⟩
  | some a => cases v.cells.next n <;> exact ⟨rfl, rfl⟩

theorem delTimer_unlinked {n a : Node} (hprev : v.cells.prev n = some a) (hne : a ≠ n)
    (hnext : v.cells.next n ≠ some n) :
    Cells.Unlinked v.cells (v.delTimer n).cells a n ∧
      (v.delTimer n).cells.prev n = none ∧ (v.delTimer n).cells.next n = none := by
  unfold delTimer
  rw [hprev]
  cases hn : v.cells.next n with
  | none =>
    refine ⟨⟨fun x hxa hxn ↦ ?_, fun x hxn _ ↦ ?_, ?_, fun b hb ↦ ?_⟩, ?_, ?_⟩
    · simp [hxa, hxn]
    · simp [hxn]
    · simp [hne, hn]
    · cases hn.symm.trans hb
    · simp
    · simp
  | some b =>
    have hb : b ≠ n := fun heq ↦ hnext (heq ▸ hn)
    refine ⟨⟨fun x hxa hxn ↦ ?_, fun x hxn hxb ↦ ?_, ?_, fun b' hb' ↦ ?_⟩, ?_, ?_⟩
    · simp [hxa, hxn]
    · have hxb' : x ≠ b := fun heq ↦ hxb (heq ▸ hn)
      simp [hxn, hxb']
    · simp [hne, hn]
    · obtain rfl := Option.some.inj (hn.symm.trans hb')
      simp [hb]
    · simp
    · simp

theorem insertBehind_lastMs_us (v : PointerWheel) (p n : Node) :
    (v.insertBehind p n).lastMs = v.lastMs ∧ (v.insertBehind p n).us = v.us := by
  unfold insertBehind
  cases v.cells.next p <;> exact ⟨rfl, rfl⟩

theorem insertBehind_inserted {p n : Node} (hne : p ≠ n) (hnext : v.cells.next p ≠ some n) :
    Cells.Inserted v.cells (v.insertBehind p n).cells p n := by
  unfold insertBehind
  cases hp : v.cells.next p with
  | none =>
    refine ⟨⟨?_, ?_⟩, fun x hxp hxn ↦ ?_, fun x hxn _ ↦ ?_, ?_, fun b hb ↦ ?_⟩
    · simp
    · simp
    · simp [hxp, hxn]
    · simp [hxn]
    · simp [hne.symm, hp]
    · cases hp.symm.trans hb
  | some b =>
    have hb : b ≠ n := fun heq ↦ hnext (heq ▸ hp)
    refine ⟨⟨?_, ?_⟩, fun x hxp hxn ↦ ?_, fun x hxn hxb ↦ ?_, ?_, fun b' hb' ↦ ?_⟩
    · simp
    · simp
    · simp [hxp, hxn]
    · have hxb' : x ≠ b := fun heq ↦ hxb (heq ▸ hp)
      simp [hxn, hxb']
    · simp [hne.symm, hp]
    · obtain rfl := Option.some.inj (hp.symm.trans hb')
      simp [hb]

structure Frame (S : Node → Prop) (c c' : Cells Node) : Prop where
  next_eq : ∀ x, ¬S x → c'.next x = c.next x
  prev_eq : ∀ x, ¬S x → c'.prev x = c.prev x

theorem Represents.hangs_frame (h : Represents v w) {S : Node → Prop} {c : Cells Node} (hf : Frame S v.cells c)
    (hS : ∀ x ∈ w.nodes i k, ¬S x) : c.Hangs (.head i k) ((w.slots i k).map .timer) :=
  (h.hangs i k).congr (fun x hx ↦ hf.next_eq x (hS x hx)) fun x hx ↦
    hf.prev_eq x (hS x (List.mem_cons_of_mem _ hx))

theorem Represents.free_frame (h : Represents v w) {S : Node → Prop} {c : Cells Node} (hf : Frame S v.cells c)
    (hS : ¬S (.timer t)) (ht : ¬w.Linked t) : c.prev (.timer t) = none ∧ c.next (.timer t) = none :=
  ⟨(hf.prev_eq _ hS).trans (h.free t ht).1, (hf.next_eq _ hS).trans (h.free t ht).2⟩

theorem Represents.delTimer_linked (h : Represents v w) (ht : t ∈ w.slots i k) :
    Represents (v.delTimer (.timer t)) (w.delTimer t) := by
  obtain ⟨l₁, l₂, hl⟩ := List.append_of_mem ht
  have hnodes : w.nodes i k = .head i k :: l₁.map .timer ++ .timer t :: l₂.map .timer := by
    simp [TimeWheel.nodes, hl]
  have hnodup : (.head i k :: l₁.map .timer ++ .timer t :: l₂.map .timer : List Node).Nodup :=
    hnodes ▸ nodes_nodup h.unique i k
  have hhangs : v.cells.Hangs (.head i k) (l₁.map .timer ++ .timer t :: l₂.map .timer) := by
    have := h.hangs i k
    rwa [hl, List.map_append, List.map_cons] at this
  obtain ⟨-, hat, hback⟩ := Cells.hangs_append_cons.mp hhangs
  obtain ⟨-, hback', hdisjoint⟩ := List.nodup_append.mp hnodup
  have hlast := Cells.last_mem (Node.head i k) (l₁.map Node.timer)
  obtain ⟨hu, hprev, hnext⟩ := delTimer_unlinked hat.2 (hdisjoint _ hlast _ List.mem_cons_self) fun hself ↦
    (List.nodup_cons.mp hback').1 (hback.next_of_mem List.mem_cons_self hself).1
  have hf : Frame (· ∈ w.nodes i k) v.cells (v.delTimer (.timer t)).cells := by
    refine ⟨fun x hx ↦ hu.next_eq x ?_ ?_, fun x hx ↦ hu.prev_eq x ?_ fun hb ↦ hx ?_⟩
    · rintro rfl
      exact hx (hnodes ▸ List.mem_append_left _ hlast)
    · rintro rfl
      exact hx (hnodes ▸ List.mem_append_right _ List.mem_cons_self)
    · rintro rfl
      exact hx (hnodes ▸ List.mem_append_right _ List.mem_cons_self)
    · have hb' := (hback.next_of_mem List.mem_cons_self hb).1
      exact hnodes ▸ List.mem_append_right _ (List.mem_cons_of_mem _ hb')
  refine ⟨TimeWheel.delTimer_unique h.unique, ?_, ?_, fun i' k' ↦ ?_, fun x hx ↦ ?_⟩
  · exact (delTimer_lastMs_us v _).1.trans h.lastMs
  · exact (delTimer_lastMs_us v _).2.trans h.us
  · by_cases hik : i' = i ∧ k' = k
    · obtain ⟨rfl, rfl⟩ := hik
      have hl₁ : t ∉ l₁ := fun ht₁ ↦
        hdisjoint _ (List.mem_cons_of_mem _ (timer_mem_map.mpr ht₁)) _ List.mem_cons_self rfl
      have herase : (w.delTimer t).slots i' k' = l₁ ++ l₂ := by
        change (w.slots i' k').erase t = l₁ ++ l₂
        rw [hl, List.erase_append_right _ hl₁, List.erase_cons_head]
      rw [herase, List.map_append]
      exact hhangs.unlink hnodup hu
    · have herase : (w.delTimer t).slots i' k' = w.slots i' k' :=
        List.erase_of_not_mem fun ht' ↦ hik (h.unique.disjoint ht ht')
      rw [herase]
      exact h.hangs_frame hf fun x hx hx' ↦ hik (nodes_disjoint h.unique hx' hx)
  · by_cases hxt : x = t
    · subst hxt
      exact ⟨hprev, hnext⟩
    · have hx' : ¬w.Linked x := fun hlinked ↦ hx ((TimeWheel.linked_delTimer h.unique).mpr ⟨hxt, hlinked⟩)
      exact h.free_frame hf (fun hmem ↦ hx' (linked_of_mem_nodes hmem)) hx'

theorem Represents.delTimer_free (h : Represents v w) (ht : ¬w.Linked t) :
    v.delTimer (.timer t) = v ∧ w.delTimer t = w := by
  obtain ⟨hprev, hnext⟩ := h.free t ht
  constructor
  · have hupdate : Function.update v.cells.next (.timer t) none = v.cells.next :=
      Function.update_eq_self_iff.mpr hnext.symm
    simp only [delTimer, hprev, setNext, hupdate]
  · have herase (i k : ℕ) : (w.slots i k).erase t = w.slots i k :=
      List.erase_of_not_mem fun hmem ↦ ht ⟨i, k, hmem⟩
    simp only [TimeWheel.delTimer, herase]

theorem Represents.delTimer (h : Represents v w) (t : TimerId) :
    Represents (v.delTimer (.timer t)) (w.delTimer t) := by
  by_cases ht : w.Linked t
  · obtain ⟨i, k, hmem⟩ := ht
    exact h.delTimer_linked hmem
  · obtain ⟨hv, hw⟩ := h.delTimer_free ht
    rw [hv, hw]
    exact h

theorem Represents.findHead_eq (h : Represents v w) (t : TimerId) :
    v.findHead (.timer t) = (w.findHead t).map fun ik ↦ .head ik.1 ik.2 := by
  have hexp : v.expiration (.timer t) = w.expiration t := by rw [expiration, h.us, TimeWheel.expiration]
  simp only [findHead, TimeWheel.findHead, hexp, h.lastMs]
  split
  · rfl
  · rw [Option.map_map]
    rfl

theorem Represents.insert (h : Represents v w) (ht : ¬w.Linked t) (i k : ℕ) :
    Represents (v.insertBehind (.head i k) (.timer t)) (w.setSlot i k (t :: w.slots i k)) := by
  have hout : Node.timer t ∉ w.nodes i k := fun hmem ↦ ht (linked_of_mem_nodes hmem)
  have hnodup := nodes_nodup h.unique i k
  have hmem {b : Node} (hb : v.cells.next (.head i k) = some b) : b ∈ (w.slots i k).map .timer :=
    ((h.hangs i k).next_of_mem List.mem_cons_self hb).1
  have hi := insertBehind_inserted (v := v) (p := .head i k) (n := .timer t) (timer_ne_head t i k).symm fun hb ↦
    hout (List.mem_cons_of_mem _ (hmem hb))
  have hf : Frame (fun x ↦ x = .timer t ∨ x ∈ w.nodes i k) v.cells
      (v.insertBehind (.head i k) (.timer t)).cells := by
    refine ⟨fun x hx ↦ hi.next_eq x ?_ ?_, fun x hx ↦ hi.prev_eq x ?_ fun hb ↦ hx ?_⟩
    · rintro rfl
      exact hx (.inr List.mem_cons_self)
    · exact fun heq ↦ hx (.inl heq)
    · exact fun heq ↦ hx (.inl heq)
    · exact .inr (List.mem_cons_of_mem _ (hmem hb))
  have hunique : (w.setSlot i k (t :: w.slots i k)).Unique := by
    refine TimeWheel.setSlot_unique h.unique ?_ fun x hx i' k' hx' ↦ ?_
    · exact List.nodup_cons.mpr ⟨fun hmem ↦ ht ⟨i, k, hmem⟩, h.unique.nodup i k⟩
    · obtain rfl | hx := List.mem_cons.mp hx
      · exact absurd ⟨i', k', hx'⟩ ht
      · exact h.unique.disjoint hx hx'
  refine ⟨hunique, ?_, ?_, fun i' k' ↦ ?_, fun x hx ↦ ?_⟩
  · exact (insertBehind_lastMs_us v _ _).1.trans h.lastMs
  · exact (insertBehind_lastMs_us v _ _).2.trans h.us
  · by_cases hik : i' = i ∧ k' = k
    · obtain ⟨rfl, rfl⟩ := hik
      simp only [TimeWheel.setSlot, and_self, if_true]
      exact (h.hangs i' k').insert hnodup hout hi
    · simp only [TimeWheel.setSlot, if_neg hik]
      refine h.hangs_frame hf fun x hx hx' ↦ ?_
      obtain rfl | hx' := hx'
      · exact ht (linked_of_mem_nodes hx)
      · exact hik (nodes_disjoint h.unique hx' hx)
  · have hxt : x ≠ t := by
      rintro rfl
      exact hx ⟨i, k, TimeWheel.mem_setSlot.mpr (.inl ⟨rfl, rfl, List.mem_cons_self⟩)⟩
    have hx' : ¬w.Linked x := by
      rintro ⟨i', k', hslot⟩
      refine hx ⟨i', k', TimeWheel.mem_setSlot.mpr ?_⟩
      by_cases hik : i' = i ∧ k' = k
      · obtain ⟨rfl, rfl⟩ := hik
        exact .inl ⟨rfl, rfl, List.mem_cons_of_mem _ hslot⟩
      · exact .inr ⟨hik, hslot⟩
    refine h.free_frame hf (fun hS ↦ ?_) hx'
    obtain heq | hmem := hS
    · exact hxt (Node.timer.inj heq)
    · exact hx' (linked_of_mem_nodes hmem)

theorem Represents.addTimer (h : Represents v w) (t : TimerId) :
    Represents (v.addTimer (.timer t)) (w.addTimer t) := by
  have hdel := h.delTimer t
  have hout : ¬(w.delTimer t).Linked t := fun hlinked ↦
    ((TimeWheel.linked_delTimer h.unique).mp hlinked).1 rfl
  unfold PointerWheel.addTimer TimeWheel.addTimer
  simp only [hdel.findHead_eq t]
  cases (w.delTimer t).findHead t with
  | none => exact hdel
  | some ik => exact hdel.insert hout ik.1 ik.2

theorem Represents.setUs (h : Represents v w) (t : TimerId) (us : ℕ) :
    Represents (v.setUs t us) (w.setUs t us) where
  unique := h.unique.setUs t us
  lastMs := h.lastMs
  us := by rw [PointerWheel.setUs, TimeWheel.setUs, h.us]
  hangs := h.hangs
  free := h.free

/-- The slot `[i][k]` while `MoveTimerList` holds its list in `timer_list_head`. -/
structure Cut (c : Cells Node) (w : TimeWheel) (i k : ℕ) (t : TimerId) (ts : List TimerId) : Prop where
  hangs : ∀ a b, c.Hangs (.head a b) (((w.setSlot i k []).slots a b).map .timer)
  list : c.Hangs (.timer t) (ts.map .timer)

theorem Represents.cut (h : Represents v w) {ts : List TimerId} (hslot : w.slots i k = t :: ts) :
    Cut (v.setNext (.head i k) none).cells w i k t ts := by
  have hf : Frame (· = .head i k) v.cells (v.setNext (.head i k) none).cells :=
    ⟨fun x hx ↦ Function.update_of_ne hx _ _, fun _ _ ↦ rfl⟩
  have hlist := h.hangs i k
  rw [hslot, List.map_cons, Cells.hangs_cons] at hlist
  refine ⟨fun a b ↦ ?_, hlist.2.congr (fun x hx ↦ hf.next_eq x ?_) fun _ _ ↦ rfl⟩
  · by_cases hab : a = i ∧ b = k
    · obtain ⟨rfl, rfl⟩ := hab
      simp only [TimeWheel.setSlot, and_self, if_true, List.map_nil]
      exact Cells.hangs_nil.mpr (Function.update_self _ _ _)
    · simp only [TimeWheel.setSlot, if_neg hab]
      refine h.hangs_frame hf fun x hx heq ↦ hab ?_
      exact nodes_disjoint h.unique List.mem_cons_self (heq ▸ hx)
  · obtain ⟨x', -, rfl⟩ := List.mem_map.mp (List.map_cons ▸ hx : x ∈ (t :: ts).map Node.timer)
    exact timer_ne_head x' i k

def hangBehind (v : PointerWheel) (tail timer : Node) : PointerWheel :=
  (v.setNext tail (some timer)).setPrev timer (some tail)

theorem hangBehind_joined (tail timer : Node) :
    Cells.Joined v.cells (v.hangBehind tail timer).cells tail timer := by
  refine ⟨⟨?_, ?_⟩, fun x hx ↦ ?_, fun x hx ↦ ?_⟩
  · exact Function.update_self _ _ _
  · exact Function.update_self _ _ _
  · exact Function.update_of_ne hx _ _
  · exact Function.update_of_ne hx _ _

theorem Represents.moved (h : Represents v w) {ts : List TimerId} (hslot : w.slots i k = t :: ts) (i' k' : ℕ) :
    Represents ((v.setNext (.head i k) none).hangBehind
      (Cells.last (.head i' k') (((w.setSlot i k []).slots i' k').map .timer)) (.timer t))
      (w.moved i k i' k') := by
  have hcut := h.cut hslot
  have hmoved := TimeWheel.moved_links h.unique i k i' k'
  have hclear := TimeWheel.setSlot_nil_unique h.unique i k
  have hlast := Cells.last_mem (Node.head i' k') (((w.setSlot i k []).slots i' k').map Node.timer)
  have hj := hangBehind_joined (v := v.setNext (.head i k) none)
    (Cells.last (.head i' k') (((w.setSlot i k []).slots i' k').map .timer)) (.timer t)
  have ht : t ∈ w.slots i k := hslot ▸ List.mem_cons_self
  refine ⟨hmoved.toUnique, h.lastMs, h.us, fun a b ↦ ?_, fun x hx ↦ ?_⟩
  · by_cases hab : a = i' ∧ b = k'
    · obtain ⟨rfl, rfl⟩ := hab
      have hslots : ((w.moved i k a b).slots a b).map Node.timer =
          ((w.setSlot i k []).slots a b).map .timer ++ .timer t :: ts.map .timer := by
        rw [TimeWheel.moved, hslot, ← List.map_cons, ← List.map_append]
        exact congrArg _ (if_pos ⟨rfl, rfl⟩)
      have hnodup := nodes_nodup hmoved.toUnique a b
      rw [TimeWheel.nodes, hslots] at hnodup
      rw [hslots]
      exact (hcut.hangs a b).join hcut.list hnodup hj
    · have hslots : (w.moved i k i' k').slots a b = (w.setSlot i k []).slots a b := if_neg hab
      rw [hslots]
      refine (hcut.hangs a b).congr (fun x hx ↦ hj.next_eq x ?_) fun x hx ↦ hj.prev_eq x ?_
      · rintro rfl
        exact hab (nodes_disjoint hclear hlast hx)
      · rintro rfl
        exact TimeWheel.not_mem_setSlot_nil h.unique ht a b (timer_mem_map.mp hx)
  · have hx' : ¬w.Linked x := fun hlinked ↦ hx ((hmoved.linked x).mpr hlinked)
    have hne : Node.timer x ≠ Cells.last (.head i' k') (((w.setSlot i k []).slots i' k').map .timer) := by
      intro heq
      exact hx' (TimeWheel.linked_of_setSlot_nil (linked_of_mem_nodes (heq ▸ hlast)))
    constructor
    · refine (hj.prev_eq _ ?_).trans (h.free x hx').1
      rintro ⟨rfl⟩
      exact hx' ⟨i, k, ht⟩
    · rw [hj.next_eq _ hne]
      exact (Function.update_of_ne (timer_ne_head x i k) none v.cells.next).trans (h.free x hx').2

inductive Agree : Option (Option PointerWheel) → Option TimeWheel → Prop
  | abort : Agree (some none) none
  | done {v : PointerWheel} {w : TimeWheel} (h : Represents v w) : Agree (some (some v)) (some w)

theorem length_slot_le (h : w.Unique) {n : ℕ} (hn : ∀ x, w.Linked x → x < n) (i k : ℕ) :
    (w.slots i k).length ≤ n := by
  have hsub : w.slots i k ⊆ List.range n := fun x hx ↦ List.mem_range.mpr (hn x ⟨i, k, hx⟩)
  have hle := ((h.nodup i k).subperm hsub).length_le
  rwa [List.length_range] at hle

/-- The search for the tail ends, and `MoveTimerList` hangs the whole list behind it. -/
theorem Represents.moveTimerList (h : Represents v w) {rounds : ℕ} (hn : ∀ x, w.Linked x → x < rounds)
    (i k : ℕ) : Agree (v.moveTimerList rounds (.head i k)) (w.moveTimerList i k) := by
  have hnext := (h.hangs i k).next_eq
  cases hslot : w.slots i k with
  | nil =>
    rw [hslot] at hnext
    rw [PointerWheel.moveTimerList, TimeWheel.moveTimerList, hslot, hnext]
    exact .done h
  | cons t ts =>
    rw [hslot] at hnext
    have hfind : (v.setNext (.head i k) none).findHead (.timer t) = _ := h.findHead_eq t
    cases hw : w.findHead t with
    | none =>
      have hw' : (w.setSlot i k []).findHead t = none := hw
      rw [PointerWheel.moveTimerList, TimeWheel.moveTimerList, hslot, hnext]
      simp only [hfind, hw, hw', List.map_cons, List.head?_cons, Option.map_none]
      exact .abort
    | some ik =>
      obtain ⟨i', k'⟩ := ik
      have hlen : (((w.setSlot i k []).slots i' k').map Node.timer).length ≤ rounds := by
        have hclear := TimeWheel.setSlot_nil_unique h.unique i k
        rw [List.length_map]
        exact length_slot_le hclear (fun x hx ↦ hn x (TimeWheel.linked_of_setSlot_nil hx)) i' k'
      have htail := ((h.cut hslot).hangs i' k').tail_eq hlen
      rw [TimeWheel.moveTimerList_cons hslot hw, PointerWheel.moveTimerList, hnext]
      simp only [hfind, hw, List.map_cons, List.head?_cons, Option.map_some, htail]
      exact .done (h.moved hslot i' k')

theorem Represents.moveLevels (h : Represents v w) {rounds : ℕ} (hn : ∀ x, w.Linked x → x < rounds)
    (js : List ℕ) : Agree (PointerWheel.moveLevels rounds js v) (TimeWheel.moveLevels js w) := by
  induction js generalizing v w with
  | nil => exact .done h
  | cons j js ih =>
    have hmove := h.moveTimerList hn j (calcTime w.lastMs 1)
    simp only [PointerWheel.moveLevels, TimeWheel.moveLevels, h.lastMs]
    revert hmove
    generalize hv : v.moveTimerList rounds (.head j (calcTime w.lastMs 1)) = r
    generalize hw : w.moveTimerList j (calcTime w.lastMs 1) = s
    intro hmove
    cases hmove with
    | abort => exact .abort
    | @done v₁ w₁ h₁ =>
      have hlinks := TimeWheel.moveTimerList_links h.unique hw
      by_cases hindex : calcTime w.lastMs 1 = 0
      · simp only [hindex, ne_eq, not_true_eq_false, if_false]
        exact ih h₁ fun x hx ↦ hn x ((hlinks.linked x).mp hx)
      · simp only [ne_eq, hindex, not_false_eq_true, if_true]
        exact .done h₁

theorem Represents.advance (h : Represents v w) {rounds : ℕ} (hn : ∀ x, w.Linked x → x < rounds) :
    Agree (v.advance rounds) w.advance := by
  have hnext : Represents { v with lastMs := v.lastMs + 1 } { w with lastMs := w.lastMs + 1 } :=
    ⟨⟨h.unique.nodup, h.unique.disjoint⟩, congrArg (· + 1) h.lastMs, h.us, h.hangs, h.free⟩
  simp only [PointerWheel.advance, TimeWheel.advance]
  rw [h.lastMs]
  split
  · have hagree := hnext.moveLevels hn [1, 2, 3]
    rwa [h.lastMs] at hagree
  · rw [h.lastMs] at hnext
    exact .done hnext

theorem Represents.next_current (h : Represents v w) :
    v.cells.next v.current = w.current.head?.map .timer := by
  rw [current, h.lastMs, (h.hangs 0 _).next_eq, List.head?_map]
  rfl

end PointerWheel

end Baize.Time
