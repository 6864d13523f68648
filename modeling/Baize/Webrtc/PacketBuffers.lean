import Baize.Lib.Places
import Baize.Net.BufferPool

namespace Baize.Webrtc

open Lib Net

/-- Where `DispatchDataLoop` is: at the top of its loop, with a buffer in `AsyncRecvFrom`, or behind the
dispatch, where it sends what was put off. -/
inductive DispatchPhase
  | top
  | receiving
  | sending
  deriving DecidableEq

structure Packet where
  pooled : Pooled
  datagram : Bytes

/-- The buffers of `WebRTCServer`: `buffers_`, the local `buf` of `DispatchDataLoop`, and those of each
`PeerConnection`, in `packets_` and in the vector that `HandleMedia` works on. -/
structure PacketBuffers where
  pool : BufferPool
  phase : DispatchPhase
  buf : Option Pooled
  alive : ℕ → Bool
  packets : ℕ → List Packet
  batch : ℕ → List Packet

namespace PacketBuffers

/-- A datagram comes for a `PeerConnection` or for none; `AsyncRecvFrom` fails or times out; a turn of
`DispatchDataLoop` ends. `HandleMedia` reads, ends a turn, or ends. -/
inductive Action
  | publish (pc : ℕ)
  | alloc
  | receive (datagram : Bytes) (dest : Option ℕ)
  | fail
  | next
  | read (pc : ℕ)
  | release (pc : ℕ)
  | terminate (pc : ℕ)

def ofPool (pool : BufferPool) : PacketBuffers := ⟨pool, .top, none, fun _ ↦ false, fun _ ↦ [], fun _ ↦ []⟩

def new (size : ℕ) : Checked PacketBuffers := do
  let pool ← BufferPool.new size
  pure (ofPool pool)

/-- A null pointer is used at once, for `buf->write_index()`. -/
def alloc (s : PacketBuffers) : Checked PacketBuffers :=
  match s.pool.allocBuffer with
  | (some b, pool) => .ok { s with pool := pool, buf := some b, phase := .receiving }
  | (none, _) => .error .outOfBounds

def receive (s : PacketBuffers) (p : Pooled) (datagram : Bytes) (dest : Option ℕ) : Checked PacketBuffers := do
  let b ← p.buffer.exec (.addReadableLength datagram datagram.length)
  match dest with
  | some pc => pure { s with
      phase := .sending
      buf := none
      packets := Function.update s.packets pc (s.packets pc ++ [⟨⟨p.id, b⟩, datagram⟩]) }
  | none => pure { s with phase := .sending, buf := some ⟨p.id, b⟩ }

def deleteBatch (s : PacketBuffers) (pc : ℕ) : PacketBuffers :=
  { s with
    pool := s.pool.deleteAll ((s.batch pc).map Packet.pooled)
    batch := Function.update s.batch pc [] }

def deletePackets (s : PacketBuffers) (pc : ℕ) : PacketBuffers :=
  { s with
    pool := s.pool.deleteAll ((s.packets pc).map Packet.pooled)
    packets := Function.update s.packets pc [] }

def step (s : PacketBuffers) : Action → Option (Checked PacketBuffers)
  | .publish pc => if s.alive pc then none else some (.ok { s with alive := Function.update s.alive pc true })
  | .alloc => if s.phase = .top then some s.alloc else none
  | .receive datagram dest =>
    match s.phase, s.buf with
    | .receiving, some p =>
      if (datagram.length : ℤ) ≤ p.buffer.writableBytes ∧ datagram.length ≤ Buffer.maxDatagram ∧
        dest.all s.alive then
        some (s.receive p datagram dest)
      else none
    | _, _ => none
  | .fail => if s.phase = .receiving then some (.ok { s with phase := .sending }) else none
  | .next =>
    if s.phase = .sending then
      some (.ok { s with phase := .top, buf := none, pool := s.pool.deleteAll s.buf.toList })
    else none
  | .read pc =>
    if s.alive pc ∧ (s.batch pc).isEmpty then
      some (.ok { s with
        batch := Function.update s.batch pc (s.packets pc)
        packets := Function.update s.packets pc [] })
    else none
  | .release pc => if s.alive pc then some (.ok (s.deleteBatch pc)) else none
  | .terminate pc =>
    if s.alive pc then
      some (.ok { (s.deleteBatch pc).deletePackets pc with alive := Function.update s.alive pc false })
    else none

inductive Place
  | pool
  | hand
  | queue (pc : ℕ)
  | batch (pc : ℕ)
  deriving DecidableEq

def idsOf (packets : List Packet) : List ℕ := packets.map fun x ↦ x.pooled.id

def ids (s : PacketBuffers) : Place → List ℕ
  | .pool => s.pool.ids
  | .hand => s.buf.toList.map Pooled.id
  | .queue pc => idsOf (s.packets pc)
  | .batch pc => idsOf (s.batch pc)

/-- Each of the `n` buffers is in one place. Those in the pool are empty, and those of the peers hold
their datagrams, with room behind them. -/
structure Inv (n : ℕ) (s : PacketBuffers) : Prop where
  spread : Spread (· < n) s.ids
  pool : ∀ p ∈ s.pool.buffers, p.buffer.Ready
  top : s.phase = .top → s.buf = none
  receiving : s.phase = .receiving → ∃ p, s.buf = some p ∧ p.buffer.Ready
  hand : ∀ p, s.buf = some p → p.buffer.Sized ∧ ∃ q, p.buffer.Holds q
  queued : ∀ pc, ∀ x ∈ s.packets pc, x.pooled.buffer.Filled x.datagram
  batched : ∀ pc, ∀ x ∈ s.batch pc, x.pooled.buffer.Filled x.datagram
  dead : ∀ pc, s.alive pc = false → s.packets pc = [] ∧ s.batch pc = []

variable {n : ℕ} {s s' : PacketBuffers}

theorem ofPool_inv {pool : BufferPool} (hids : pool.ids = List.range n)
    (hready : ∀ p ∈ pool.buffers, p.buffer.Ready) : (ofPool pool).Inv n where
  spread := by
    have hall : (ofPool pool).ids .pool = List.range n := hids
    refine .of_one (i := .pool) (fun a ↦ ?_) ?_ fun j hj ↦ ?_
    · rw [hall, List.mem_range]
    · rw [hall]
      exact List.nodup_range
    · cases j with
      | pool => exact absurd rfl hj
      | hand | queue pc | batch pc => rfl
  pool := hready
  top _ := rfl
  receiving h := by cases h
  hand p h := by cases h
  queued pc x h := (List.not_mem_nil h).elim
  batched pc x h := (List.not_mem_nil h).elim
  dead pc _ := ⟨rfl, rfl⟩

theorem new_inv (n : ℕ) : ∃ s, new n = .ok s ∧ s.Inv n := by
  obtain ⟨b₀, hmake, hh, hsize, hw⟩ := Buffer.make_default
  have hready : b₀.Ready := by
    refine ⟨⟨by omega, by omega⟩, hh, ?_⟩
    simp only [Buffer.writableBytes] at hw
    omega
  refine ⟨_, by simp only [new, BufferPool.new, hmake]; rfl, ofPool_inv ?_ ?_⟩
  · simp only [BufferPool.ids, List.map_map]
    exact List.map_id _
  · intro p hp
    obtain ⟨i, -, rfl⟩ := List.mem_map.mp hp
    exact hready

theorem deleteAll_ready {pool : BufferPool} (hpool : ∀ p ∈ pool.buffers, p.buffer.Ready) {bs : List Pooled}
    (hbs : ∀ p ∈ bs, p.buffer.Sized ∧ ∃ q, p.buffer.Holds q) :
    ∀ p ∈ (pool.deleteAll bs).buffers, p.buffer.Ready := by
  induction bs generalizing pool with
  | nil => exact hpool
  | cons b bs ih =>
    refine ih (fun p hp ↦ ?_) fun p hp ↦ hbs p (List.mem_cons_of_mem _ hp)
    rcases List.mem_append.mp hp with hp | hp
    · exact hpool p hp
    · obtain rfl := List.mem_singleton.mp hp
      obtain ⟨hsized, q, hq⟩ := hbs b List.mem_cons_self
      exact Buffer.takeAll_ready hsized hq

theorem Inv.publish (h : s.Inv n) (pc : ℕ) : Inv n { s with alive := Function.update s.alive pc true } where
  spread := h.spread
  pool := h.pool
  top := h.top
  receiving := h.receiving
  hand := h.hand
  queued := h.queued
  batched := h.batched
  dead pc' hdead := by
    by_cases hpc : pc' = pc
    · subst hpc
      simp only [Function.update_self] at hdead
      cases hdead
    · exact h.dead pc' (by simpa only [Function.update_of_ne hpc] using hdead)

theorem allocBuffer_cases (pool : BufferPool) :
    pool.buffers = [] ∧ pool.allocBuffer = (none, pool) ∨
    ∃ bs b, pool.buffers = bs ++ [b] ∧
      pool.allocBuffer = (some { b with buffer := b.buffer.takeAll }, ⟨bs⟩) := by
  obtain hnil | ⟨bs, b, hbs⟩ := pool.buffers.eq_nil_or_concat
  · exact .inl ⟨hnil, by rw [BufferPool.allocBuffer, hnil]; rfl⟩
  · refine .inr ⟨bs, b, by rw [hbs, List.concat_eq_append], ?_⟩
    rw [BufferPool.allocBuffer, hbs, List.concat_eq_append, List.getLast?_concat, List.dropLast_concat]

theorem Inv.alloc (h : s.Inv n) (hp : s.phase = .top) {bs : List Pooled} {b : Pooled}
    (hbs : s.pool.buffers = bs ++ [b]) :
    Inv n { s with pool := ⟨bs⟩, buf := some { b with buffer := b.buffer.takeAll }, phase := .receiving } := by
  have hb := h.pool b (hbs ▸ List.mem_append_right _ List.mem_cons_self)
  have hready := Buffer.takeAll_ready hb.toSized hb.holds
  constructor
  case spread =>
    refine h.spread.move (i := .pool) (j := .hand) (by decide) [b.id] ?_ ?_ fun k hk hk' ↦ ?_
    · simp only [ids, BufferPool.ids, hbs, List.map_append, List.map_singleton]
      exact List.Perm.refl _
    · simp only [ids, h.top hp]
      exact List.Perm.refl _
    · cases k with
      | pool => exact absurd rfl hk
      | hand => exact absurd rfl hk'
      | queue pc | batch pc => rfl
  case pool => exact fun p hp ↦ h.pool p (hbs ▸ List.mem_append_left _ hp)
  case top => intro hf; cases hf
  case receiving => exact fun _ ↦ ⟨_, rfl, hready⟩
  case hand =>
    intro p hp
    obtain rfl := Option.some.inj hp
    exact ⟨hready.toSized, [], hready.holds⟩
  case queued => exact h.queued
  case batched => exact h.batched
  case dead => exact h.dead

theorem mem_update {f : ℕ → List Packet} {l : List Packet} {pc pc' : ℕ} {x : Packet}
    (hx : x ∈ Function.update f pc l pc') : x ∈ l ∨ x ∈ f pc' := by
  by_cases hpc : pc' = pc
  · subst hpc
    rw [Function.update_self] at hx
    exact .inl hx
  · rw [Function.update_of_ne hpc] at hx
    exact .inr hx

theorem update_eq_nil {f : ℕ → List Packet} {l : List Packet} {pc pc' : ℕ} (hl : pc' = pc → l = [])
    (h : f pc' = []) : Function.update f pc l pc' = [] := by
  by_cases hpc : pc' = pc
  · rw [hpc, Function.update_self]
    exact hl hpc
  · rwa [Function.update_of_ne hpc]

theorem idsOf_append (xs ys : List Packet) : idsOf (xs ++ ys) = idsOf xs ++ idsOf ys := List.map_append

theorem Inv.receive_some (h : s.Inv n) {p : Pooled} (hbuf : s.buf = some p) {b : Buffer} {datagram : Bytes}
    (hb : b.Filled datagram) {pc : ℕ} (halive : s.alive pc = true) :
    Inv n { s with
      phase := .sending
      buf := none
      packets := Function.update s.packets pc (s.packets pc ++ [⟨⟨p.id, b⟩, datagram⟩]) } := by
  constructor
  case spread =>
    refine h.spread.move (i := .hand) (j := .queue pc) (fun hf ↦ by cases hf) [p.id] ?_ ?_ fun k hk hk' ↦ ?_
    · simp only [ids, hbuf]
      exact List.Perm.refl _
    · simp only [ids, Function.update_self, idsOf_append]
      exact List.Perm.refl _
    · cases k with
      | hand => exact absurd rfl hk
      | pool | batch pc' => rfl
      | queue pc' =>
        have hpc : pc' ≠ pc := fun he ↦ hk' (he ▸ rfl)
        simp only [ids, Function.update_of_ne hpc]
  case pool => exact h.pool
  case top => exact fun _ ↦ rfl
  case receiving => intro hf; cases hf
  case hand => intro p hp; cases hp
  case queued =>
    intro pc' x hx
    rcases mem_update hx with hx | hx
    · rcases List.mem_append.mp hx with hx | hx
      · exact h.queued pc x hx
      · obtain rfl := List.mem_singleton.mp hx
        exact hb
    · exact h.queued pc' x hx
  case batched => exact h.batched
  case dead =>
    intro pc' hdead
    refine ⟨update_eq_nil (fun he ↦ ?_) (h.dead pc' hdead).1, (h.dead pc' hdead).2⟩
    subst he
    cases halive.symm.trans hdead

theorem Inv.receive_none (h : s.Inv n) {p : Pooled} (hbuf : s.buf = some p) {b : Buffer} {datagram : Bytes}
    (hb : b.Filled datagram) : Inv n { s with phase := .sending, buf := some ⟨p.id, b⟩ } where
  spread := by
    have hsame : ids { s with phase := .sending, buf := some ⟨p.id, b⟩ } = s.ids := by
      funext k
      cases k with
      | hand => simp only [ids, hbuf]; rfl
      | pool | queue pc | batch pc => rfl
    rw [hsame]
    exact h.spread
  pool := h.pool
  top hf := by cases hf
  receiving hf := by cases hf
  hand q hq := by
    obtain rfl := Option.some.inj hq
    exact ⟨hb.toSized, datagram, hb.holds⟩
  queued := h.queued
  batched := h.batched
  dead := h.dead

theorem Inv.fail (h : s.Inv n) : Inv n { s with phase := .sending } where
  spread := h.spread
  pool := h.pool
  top hf := by cases hf
  receiving hf := by cases hf
  hand := h.hand
  queued := h.queued
  batched := h.batched
  dead := h.dead

theorem Inv.next (h : s.Inv n) :
    Inv n { s with phase := .top, buf := none, pool := s.pool.deleteAll s.buf.toList } where
  spread := by
    refine h.spread.move (i := .hand) (j := .pool) (by decide) (s.buf.toList.map Pooled.id) ?_ ?_
      fun k hk hk' ↦ ?_
    · exact List.Perm.refl _
    · simp only [ids, BufferPool.ids_deleteAll]
      exact List.Perm.refl _
    · cases k with
      | hand => exact absurd rfl hk
      | pool => exact absurd rfl hk'
      | queue pc | batch pc => rfl
  pool := deleteAll_ready h.pool fun p hp ↦ h.hand p (Option.mem_toList.mp hp)
  top _ := rfl
  receiving hf := by cases hf
  hand p hp := by cases hp
  queued := h.queued
  batched := h.batched
  dead := h.dead

theorem Inv.read (h : s.Inv n) {pc : ℕ} (hempty : s.batch pc = []) :
    Inv n { s with
      batch := Function.update s.batch pc (s.packets pc)
      packets := Function.update s.packets pc [] } := by
  constructor
  case spread =>
    refine h.spread.move (i := .queue pc) (j := .batch pc) (fun hf ↦ by cases hf) (idsOf (s.packets pc)) ?_ ?_
      fun k hk hk' ↦ ?_
    · simp only [ids, Function.update_self]
      exact List.Perm.refl _
    · simp only [ids, Function.update_self, hempty]
      exact List.Perm.refl _
    · cases k with
      | pool | hand => rfl
      | queue pc' =>
        have hpc : pc' ≠ pc := fun he ↦ hk (he ▸ rfl)
        simp only [ids, Function.update_of_ne hpc]
      | batch pc' =>
        have hpc : pc' ≠ pc := fun he ↦ hk' (he ▸ rfl)
        simp only [ids, Function.update_of_ne hpc]
  case pool => exact h.pool
  case top => exact h.top
  case receiving => exact h.receiving
  case hand => exact h.hand
  case queued =>
    intro pc' x hx
    rcases mem_update hx with hx | hx
    · exact (List.not_mem_nil hx).elim
    · exact h.queued pc' x hx
  case batched =>
    intro pc' x hx
    rcases mem_update hx with hx | hx
    · exact h.queued pc x hx
    · exact h.batched pc' x hx
  case dead =>
    intro pc' hdead
    obtain ⟨hpackets, hbatch⟩ := h.dead pc' hdead
    exact ⟨update_eq_nil (fun _ ↦ rfl) hpackets, update_eq_nil (fun he ↦ he ▸ hpackets) hbatch⟩

theorem idsOf_eq (xs : List Packet) : idsOf xs = (xs.map Packet.pooled).map Pooled.id := (List.map_map ..).symm

theorem filled_pooled {xs : List Packet} (h : ∀ x ∈ xs, x.pooled.buffer.Filled x.datagram) :
    ∀ p ∈ xs.map Packet.pooled, p.buffer.Sized ∧ ∃ q, p.buffer.Holds q := by
  intro p hp
  obtain ⟨x, hx, rfl⟩ := List.mem_map.mp hp
  exact ⟨(h x hx).toSized, _, (h x hx).holds⟩

theorem Inv.deleteBatch (h : s.Inv n) (pc : ℕ) : (s.deleteBatch pc).Inv n where
  spread := by
    refine h.spread.move (i := .batch pc) (j := .pool) (fun hf ↦ by cases hf) (idsOf (s.batch pc)) ?_ ?_
      fun k hk hk' ↦ ?_
    · simp only [ids, PacketBuffers.deleteBatch, Function.update_self]
      exact List.Perm.refl _
    · simp only [ids, PacketBuffers.deleteBatch, BufferPool.ids_deleteAll, idsOf_eq]
      exact List.Perm.refl _
    · cases k with
      | pool => exact absurd rfl hk'
      | hand | queue pc' => rfl
      | batch pc' =>
        have hpc : pc' ≠ pc := fun he ↦ hk (he ▸ rfl)
        simp only [ids, PacketBuffers.deleteBatch, Function.update_of_ne hpc]
  pool := deleteAll_ready h.pool (filled_pooled (h.batched pc))
  top := h.top
  receiving := h.receiving
  hand := h.hand
  queued := h.queued
  batched pc' x hx := h.batched pc' x ((mem_update hx).resolve_left List.not_mem_nil)
  dead pc' hdead := ⟨(h.dead pc' hdead).1, update_eq_nil (fun _ ↦ rfl) (h.dead pc' hdead).2⟩

theorem Inv.deletePackets (h : s.Inv n) (pc : ℕ) : (s.deletePackets pc).Inv n where
  spread := by
    refine h.spread.move (i := .queue pc) (j := .pool) (fun hf ↦ by cases hf) (idsOf (s.packets pc)) ?_ ?_
      fun k hk hk' ↦ ?_
    · simp only [ids, PacketBuffers.deletePackets, Function.update_self]
      exact List.Perm.refl _
    · simp only [ids, PacketBuffers.deletePackets, BufferPool.ids_deleteAll, idsOf_eq]
      exact List.Perm.refl _
    · cases k with
      | pool => exact absurd rfl hk'
      | hand | batch pc' => rfl
      | queue pc' =>
        have hpc : pc' ≠ pc := fun he ↦ hk (he ▸ rfl)
        simp only [ids, PacketBuffers.deletePackets, Function.update_of_ne hpc]
  pool := deleteAll_ready h.pool (filled_pooled (h.queued pc))
  top := h.top
  receiving := h.receiving
  hand := h.hand
  queued pc' x hx := h.queued pc' x ((mem_update hx).resolve_left List.not_mem_nil)
  batched := h.batched
  dead pc' hdead := ⟨update_eq_nil (fun _ ↦ rfl) (h.dead pc' hdead).1, (h.dead pc' hdead).2⟩

theorem Inv.terminate (h : s.Inv n) (pc : ℕ) :
    Inv n { (s.deleteBatch pc).deletePackets pc with alive := Function.update s.alive pc false } := by
  have h' := (h.deleteBatch pc).deletePackets pc
  refine ⟨h'.spread, h'.pool, h'.top, h'.receiving, h'.hand, h'.queued, h'.batched, fun pc' hdead ↦ ?_⟩
  by_cases hpc : pc' = pc
  · subst hpc
    exact ⟨Function.update_self .., Function.update_self ..⟩
  · have hdead' : s.alive pc' = false := by simpa only [Function.update_of_ne hpc] using hdead
    exact h'.dead pc' hdead'

theorem Inv.receive (h : s.Inv n) {p : Pooled} (hphase : s.phase = .receiving) (hbuf : s.buf = some p)
    {datagram : Bytes} {dest : Option ℕ} (hroom : (datagram.length : ℤ) ≤ p.buffer.writableBytes)
    (hmax : datagram.length ≤ Buffer.maxDatagram) (hdest : dest.all s.alive = true) :
    ∃ s', s.receive p datagram dest = .ok s' ∧ s'.Inv n := by
  obtain ⟨p', hbuf', hready⟩ := h.receiving hphase
  obtain rfl := Option.some.inj (hbuf.symm.trans hbuf')
  obtain ⟨b, hexec, hb⟩ := hready.receive hroom hmax
  cases dest with
  | some pc =>
      exact ⟨_, by simp only [PacketBuffers.receive, hexec, ok_bind, pure_eq_ok], h.receive_some hbuf hb hdest⟩
  | none => exact ⟨_, by simp only [PacketBuffers.receive, hexec, ok_bind, pure_eq_ok], h.receive_none hbuf hb⟩

/-- A step faults only for want of a buffer. -/
theorem Inv.step (h : s.Inv n) {a : Action} {r : Checked PacketBuffers} (hstep : s.step a = some r) :
    (∃ s', r = .ok s' ∧ s'.Inv n) ∨ a = .alloc ∧ s.phase = .top ∧ s.pool.buffers = [] ∧
    r = .error .outOfBounds := by
  cases a with
  | publish pc =>
    obtain ⟨-, heq⟩ := Option.ite_none_left_eq_some.mp hstep
    exact .inl ⟨_, (Option.some.inj heq).symm, h.publish pc⟩
  | alloc =>
    obtain ⟨hp, heq⟩ := Option.ite_none_right_eq_some.mp hstep
    have heq := Option.some.inj heq
    rw [PacketBuffers.alloc] at heq
    obtain ⟨hnil, halloc⟩ | ⟨bs, b, hbs, halloc⟩ := allocBuffer_cases s.pool
    · rw [halloc] at heq
      exact .inr ⟨rfl, hp, hnil, heq.symm⟩
    · rw [halloc] at heq
      exact .inl ⟨_, heq.symm, h.alloc hp hbs⟩
  | receive datagram dest =>
    simp only [PacketBuffers.step] at hstep
    split at hstep
    next p hphase hbuf =>
      obtain ⟨⟨hroom, hmax, hdest⟩, heq⟩ := Option.ite_none_right_eq_some.mp hstep
      obtain ⟨s', hs', hinv⟩ := h.receive hphase hbuf hroom hmax hdest
      exact .inl ⟨s', (Option.some.inj heq).symm.trans hs', hinv⟩
    next => cases hstep
  | fail =>
    obtain ⟨-, heq⟩ := Option.ite_none_right_eq_some.mp hstep
    exact .inl ⟨_, (Option.some.inj heq).symm, h.fail⟩
  | next =>
    obtain ⟨-, heq⟩ := Option.ite_none_right_eq_some.mp hstep
    exact .inl ⟨_, (Option.some.inj heq).symm, h.next⟩
  | read pc =>
    obtain ⟨⟨-, hempty⟩, heq⟩ := Option.ite_none_right_eq_some.mp hstep
    exact .inl ⟨_, (Option.some.inj heq).symm, h.read (List.isEmpty_iff.mp hempty)⟩
  | release pc =>
    obtain ⟨-, heq⟩ := Option.ite_none_right_eq_some.mp hstep
    exact .inl ⟨_, (Option.some.inj heq).symm, h.deleteBatch pc⟩
  | terminate pc =>
    obtain ⟨-, heq⟩ := Option.ite_none_right_eq_some.mp hstep
    exact .inl ⟨_, (Option.some.inj heq).symm, h.terminate pc⟩

def Steps (s : PacketBuffers) (a : Action) (s' : PacketBuffers) : Prop := s.step a = some (.ok s')

end PacketBuffers

end Baize.Webrtc
