import Baize.Lib.Decoder

namespace Baize.Lib.Decoder

variable {α μ ε : Type} (D : Decoder α μ ε)

/-- `w` is the item `m` for the decoder, whatever comes behind it and not before all of it is there. -/
structure Frames (w : List α) (m : μ) : Prop where
  whole : ∀ q, D.decode (w ++ q) = .item w.length m
  part : ∀ p, p <+: w → p ≠ w → D.decode p = .more

def wire (ws : List (List α × μ)) : List α := (ws.map Prod.fst).flatten

variable {D} {ws : List (List α × μ)} {x : List α × μ} {w p r : List α} {m : μ}

theorem wire_cons : wire (x :: ws) = x.1 ++ wire ws := rfl

theorem wire_append (ws ws' : List (List α × μ)) : wire (ws ++ ws') = wire ws ++ wire ws' := by
  rw [wire, List.map_append, List.flatten_append]
  rfl

theorem Frames.of_stableAt (hwhole : ∀ q, D.decode (w ++ q) = .item w.length m) (h : D.StableAt w) :
    D.Frames w m := by
  refine ⟨hwhole, ?_⟩
  rintro p ⟨q, rfl⟩ hne
  by_contra hp
  have hverdict := h p q [] (List.append_nil _) hp
  have hitem := hwhole []
  rw [List.append_nil] at hitem
  have hle := (D.item_le (hverdict.symm.trans hitem)).2
  rw [List.length_append] at hle
  have hq : q = [] := List.eq_nil_of_length_eq_zero (by omega)
  exact hne (by rw [hq, List.append_nil])

theorem Frames.cases (h : D.Frames w m) (hp : p <+: w ++ r) :
    (D.decode p = .more ∧ p.length < w.length) ∨ ∃ p', p = w ++ p' ∧ p' <+: r := by
  by_cases hlen : p.length < w.length
  · have hpart : p <+: w := List.prefix_of_prefix_length_le hp (List.prefix_append _ _) hlen.le
    refine .inl ⟨h.part p hpart ?_, hlen⟩
    rintro rfl
    exact lt_irrefl _ hlen
  · obtain ⟨p', rfl⟩ := List.prefix_of_prefix_length_le (List.prefix_append _ _) hp (not_lt.mp hlen)
    exact .inr ⟨p', rfl, (List.prefix_append_right_inj _).mp hp⟩

theorem Frames.stableAt (h : D.Frames w m) (r : List α) : D.StableAt (w ++ r) := by
  intro a b c habc ha
  have hfront : a <+: w ++ r := habc ▸ (List.prefix_append a b).trans (List.prefix_append _ c)
  obtain ⟨hmore, -⟩ | ⟨a', rfl, -⟩ := h.cases hfront
  · exact absurd hmore ha
  · rw [List.append_assoc, h.whole, h.whole]

theorem stable_nil : D.Stable [] := by
  intro r hr
  cases hr with
  | refl =>
    intro a b c habc _
    obtain ⟨hab, -⟩ := List.append_eq_nil_iff.mp habc
    obtain ⟨rfl, rfl⟩ := List.append_eq_nil_iff.mp hab
    rfl
  | item h _ =>
    have hle := D.item_le h
    rw [List.length_nil] at hle
    omega

theorem stable_wire (hws : ∀ x ∈ ws, D.Frames x.1 x.2) (hr : D.Stable r) : D.Stable (wire ws ++ r) := by
  induction ws with
  | nil => exact hr
  | cons x ws ih =>
    obtain ⟨hx, hrest⟩ := List.forall_mem_cons.mp hws
    intro s hs
    rw [wire_cons, List.append_assoc] at hs
    cases hs with
    | refl => exact hx.stableAt _
    | item h hs =>
      cases (hx.whole _).symm.trans h
      rw [List.drop_left] at hs
      exact ih hrest s hs

theorem drain_wire (hws : ∀ x ∈ ws, D.Frames x.1 x.2) (r : List α) :
    D.drain (wire ws ++ r) = (ws.map Prod.snd ++ (D.drain r).1, (D.drain r).2) := by
  induction ws with
  | nil => rfl
  | cons x ws ih =>
    obtain ⟨hx, hrest⟩ := List.forall_mem_cons.mp hws
    rw [wire_cons, List.append_assoc, drain_item (hx.whole _), List.drop_left, ih hrest]
    rfl

/-- A stream of frames is cut anywhere: in front of the cut there are whole frames, and a part of the
next one that waits for more. -/
theorem exists_cut (hnil : D.decode [] = .more) (hws : ∀ x ∈ ws, D.Frames x.1 x.2) (hp : p <+: wire ws) :
    ∃ done rest t, ws = done ++ rest ∧ p = wire done ++ t ∧ D.decode t = .more ∧
      ∀ x ∈ rest.head?, t.length < x.1.length := by
  induction ws generalizing p with
  | nil =>
    obtain rfl := List.prefix_nil.mp hp
    exact ⟨[], [], [], rfl, rfl, hnil, by simp⟩
  | cons x ws ih =>
    obtain ⟨hx, hrest⟩ := List.forall_mem_cons.mp hws
    obtain ⟨hmore, hlen⟩ | ⟨p', rfl, hp'⟩ := hx.cases hp
    · refine ⟨[], x :: ws, p, rfl, rfl, hmore, fun y hy ↦ ?_⟩
      obtain rfl := Option.some.inj hy
      exact hlen
    · obtain ⟨done, rest, t, rfl, rfl, hmore, hlt⟩ := ih hrest hp'
      refine ⟨x :: done, rest, t, rfl, ?_, hmore, hlt⟩
      rw [wire_cons, List.append_assoc]

/-- No front of `r` is an item. -/
def Barren (D : Decoder α μ ε) (r : List α) : Prop := ∀ p n m, p <+: r → D.decode p ≠ .item n m

theorem drain_barren (hws : ∀ x ∈ ws, D.Frames x.1 x.2) (hr : D.Barren r) (hp : p <+: wire ws ++ r) :
    (∃ done rest t, ws = done ++ rest ∧ p = wire done ++ t ∧ D.decode t = .more ∧
      D.drain p = (done.map Prod.snd, .ok t)) ∨
      ∃ e, D.drain p = (ws.map Prod.snd, .error e) := by
  induction ws generalizing p with
  | nil =>
    cases hd : D.decode p with
    | more => exact .inl ⟨[], [], p, rfl, rfl, hd, drain_more hd⟩
    | stop e => exact .inr ⟨e, drain_stop hd⟩
    | item n m => exact absurd hd (hr p n m hp)
  | cons x ws ih =>
    obtain ⟨hx, hrest⟩ := List.forall_mem_cons.mp hws
    rw [wire_cons, List.append_assoc] at hp
    obtain ⟨hmore, -⟩ | ⟨p', rfl, hp'⟩ := hx.cases hp
    · exact .inl ⟨[], x :: ws, p, rfl, rfl, hmore, drain_more hmore⟩
    · obtain ⟨done, rest, t, rfl, rfl, hmore, hdrain⟩ | ⟨e, hdrain⟩ := ih hrest hp'
      · refine .inl ⟨x :: done, rest, t, rfl, ?_, hmore, ?_⟩
        · rw [wire_cons, List.append_assoc]
        · rw [drain_item (hx.whole _), List.drop_left, hdrain]
          rfl
      · refine .inr ⟨e, ?_⟩
        rw [drain_item (hx.whole _), List.drop_left, hdrain]
        rfl

/-- However such a stream is cut, the reader delivers the frames and gives up at the rest, also where the
reason depends on the cuts. -/
theorem foldl_feed_barren (hnil : D.decode [] = .more) (hws : ∀ x ∈ ws, D.Frames x.1 x.2) (hr : D.Barren r)
    {e₀ : ε} (hstop : D.decode r = .stop e₀) {cs : List (List α)} (hcs : cs.flatten = wire ws ++ r) :
    ∃ e, cs.foldl D.feed (D.drain []) = (ws.map Prod.snd, .error e) := by
  have hfront : ∀ cs : List (List α), cs.flatten <+: wire ws ++ r →
      (∃ done rest t, ws = done ++ rest ∧ cs.flatten = wire done ++ t ∧ D.decode t = .more ∧
        cs.foldl D.feed (D.drain []) = (done.map Prod.snd, .ok t)) ∨
      ∃ e, cs.foldl D.feed (D.drain []) = (ws.map Prod.snd, .error e) := by
    intro cs
    induction cs using List.reverseRecOn with
    | nil => exact fun _ ↦ .inl ⟨[], ws, [], rfl, rfl, hnil, drain_more hnil⟩
    | append_singleton cs c ih =>
      intro hp
      rw [List.flatten_append, List.flatten_singleton] at hp ⊢
      rw [List.foldl_append]
      obtain ⟨done, rest, t, rfl, hflat, -, hstate⟩ | ⟨e, hstate⟩ := ih ((List.prefix_append _ _).trans hp)
      · rw [hflat, wire_append, List.append_assoc, List.append_assoc, List.prefix_append_right_inj] at hp
        rw [hstate, hflat, List.append_assoc]
        have hrest : ∀ x ∈ rest, D.Frames x.1 x.2 := fun x hx ↦ hws x (List.mem_append_right _ hx)
        obtain ⟨done', rest', t', rfl, ht', hmore', hdrain⟩ | ⟨e, hdrain⟩ := drain_barren hrest hr hp
        · refine .inl ⟨done ++ done', rest', t', (List.append_assoc _ _ _).symm, ?_, hmore', ?_⟩
          · rw [ht', wire_append, List.append_assoc]
          · rw [List.map_append]
            simp only [List.foldl_cons, List.foldl_nil, feed, hdrain]
        · refine .inr ⟨e, ?_⟩
          rw [List.map_append]
          simp only [List.foldl_cons, List.foldl_nil, feed, hdrain]
      · exact .inr ⟨e, by rw [hstate]; rfl⟩
  obtain ⟨done, rest, t, rfl, hflat, hmore, -⟩ | hend := hfront cs (by rw [hcs])
  · rw [hcs, wire_append, List.append_assoc, List.append_cancel_left_eq] at hflat
    subst hflat
    cases rest with
    | nil => cases hstop.symm.trans hmore
    | cons x rest =>
      have hx := hws x (List.mem_append_right _ List.mem_cons_self)
      rw [wire_cons, List.append_assoc, hx.whole] at hmore
      cases hmore
  · exact hend

end Baize.Lib.Decoder
