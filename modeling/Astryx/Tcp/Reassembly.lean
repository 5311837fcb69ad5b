import Astryx.Lib.Gaps
import Astryx.Tcp.Sending

/-!
# The stream that is received

The peer's stream `w` begins at sequence number `start`, and the segments that arrive are slices of
it in any order. What lies next goes to `recv_buffer`; what lies further ahead waits in `ooo_queue`,
keyed by its distance from `recv_next`.

The proofs compute with positions in the stream. When `d` bytes were delivered, `recv_next` is
`start + d` and an entry with key `k` is the slice at position `d + k`; this is `Held`. The walk of
`ooo_insert` over the resident ranges is then the walk of `Gaps.gaps` over positions.

## Main results

* `recvRun_faithful` — what is received is the beginning of the stream, and what waits are slices of
  it
-/

namespace Astryx.Tcp

open Transition TcpConnection List Serial TcpConnection

/-! ## The queue -/

section Queue

variable {q : List (ℕ × OooSeg)} {start : ℕ} {w : List UInt8} {d : ℕ}

/-- An entry is the slice of the stream at the position its key says. -/
structure Held (start : ℕ) (w : List UInt8) (d : ℕ) (x : ℕ × OooSeg) : Prop where
  seq : x.2.seq = Serial.add start (d + x.1)
  pos : 0 < x.1
  nonempty : 0 < x.2.data.length
  bound : d + x.1 + x.2.data.length ≤ w.length
  data : x.2.data = (w.drop (d + x.1)).take x.2.data.length

/-- The queue when `d` bytes of the stream were delivered. -/
structure Queue (start : ℕ) (w : List UInt8) (d : ℕ) (q : List (ℕ × OooSeg)) : Prop where
  held : ∀ x ∈ q, Held start w d x
  apart : q.Pairwise fun x y => x.1 + x.2.data.length ≤ y.1

/-- The bytes in the queue. -/
def bytesIn (q : List (ℕ × OooSeg)) : ℕ := (q.map fun x => x.2.data.length).sum

@[simp] lemma bytesIn_nil : bytesIn [] = 0 := rfl

@[simp] lemma bytesIn_cons (x : ℕ × OooSeg) (q : List (ℕ × OooSeg)) :
    bytesIn (x :: q) = x.2.data.length + bytesIn q := rfl

@[simp] lemma bytesIn_append (q q' : List (ℕ × OooSeg)) :
    bytesIn (q ++ q') = bytesIn q + bytesIn q' := by
  rw [bytesIn, map_append, sum_append]
  rfl

lemma Held.endSeq {x : ℕ × OooSeg} (h : Held start w d x) :
    x.2.endSeq = Serial.add start (d + x.1 + x.2.data.length) := by
  rw [OooSeg.endSeq, h.seq, Serial.add_add]

lemma Queue.nil : Queue start w d [] := ⟨by simp, .nil⟩

lemma Queue.sublist {q' : List (ℕ × OooSeg)} (h : Queue start w d q) (hsub : q'.Sublist q) :
    Queue start w d q' :=
  ⟨fun x hx => h.held x (hsub.subset hx), h.apart.sublist hsub⟩

lemma Queue.keys (h : Queue start w d q) : KeyMap.Sorted q := by
  refine h.apart.imp_of_mem fun hx _ hle => ?_
  have hpos := (h.held _ hx).nonempty
  omega

lemma Queue.eq_nil (h : Queue start w w.length q) : q = [] := by
  refine eq_nil_iff_forall_not_mem.mpr fun x hx => ?_
  have hx := h.held x hx
  have hpos := hx.pos
  have hbound := hx.bound
  omega

lemma Queue.insert (h : Queue start w d q) {k : ℕ} {s : OooSeg} (hx : Held start w d (k, s))
    (hfree : ∀ y ∈ q, k + s.data.length ≤ y.1 ∨ y.1 + y.2.data.length ≤ k) :
    Queue start w d (KeyMap.insert k s q) ∧
    bytesIn (KeyMap.insert k s q) = bytesIn q + s.data.length ∧
      ∀ y ∈ KeyMap.insert k s q, y = (k, s) ∨ y ∈ q := by
  have hpos := hx.nonempty
  dsimp only at hpos
  have hnew : ∀ y ∈ q, y.1 ≠ k := by
    intro y hy
    have hy' := (h.held y hy).nonempty
    have hor := hfree y hy
    omega
  obtain ⟨lo, hi, hq, hins, hlo, hhi⟩ := KeyMap.insert_split h.keys hnew
  rw [hins]
  subst hq
  refine ⟨⟨?_, ?_⟩, ?_, ?_⟩
  · intro y hy
    rw [mem_append, mem_cons] at hy
    obtain hy | rfl | hy := hy
    · exact h.held y (mem_append_left hi hy)
    · exact hx
    · exact h.held y (mem_append_right lo hy)
  · obtain ⟨hapart, hapart', hcross⟩ := pairwise_append.mp h.apart
    refine pairwise_append.mpr ⟨hapart, pairwise_cons.mpr ⟨?_, hapart'⟩, ?_⟩
    · intro y hy
      have hlt := hhi y hy
      have hor := hfree y (mem_append_right lo hy)
      have hy' := (h.held y (mem_append_right lo hy)).nonempty
      dsimp only
      omega
    intro y hy z hz
    obtain rfl | hz := mem_cons.mp hz
    · have hlt := hlo y hy
      have hor := hfree y (mem_append_left hi hy)
      omega
    · exact hcross y hy z hz
  · simp only [bytesIn_append, bytesIn_cons]
    omega
  intro y hy
  rw [mem_append, mem_cons] at hy
  rw [mem_append]
  tauto

end Queue

/-! ## Inserting -/

section Insert

variable {start : ℕ} {w : List UInt8} {d : ℕ}

/-- The sequence numbers of two positions. -/
def lift (start : ℕ) (g : ℕ × ℕ) : ℕ × ℕ := (Serial.add start g.1, Serial.add start g.2)

/-- The positions of a segment in the queue. -/
def span (d : ℕ) (x : ℕ × OooSeg) : ℕ × ℕ := (d + x.1, d + x.1 + x.2.data.length)

/-- The walk over sequence numbers is the walk over positions. -/
lemma fragments_lift {stop : ℕ} (hstop : stop < 2 ^ 31) {l : List (ℕ × ℕ)}
    (hl : ∀ x ∈ l, x.1 < 2 ^ 31 ∧ x.2 < 2 ^ 31) {cursor : ℕ} (hcursor : cursor < 2 ^ 31) :
    fragments (Serial.add start stop) (l.map (lift start)) (Serial.add start cursor)
      = (Gaps.gaps stop l cursor).map (lift start) := by
  induction l generalizing cursor with
  | nil =>
    rw [map_nil, fragments, Gaps.gaps]
    simp only [lt_add hcursor hstop]
    split <;> rfl
  | cons x rest ih =>
    have hx := hl x mem_cons_self
    have ih := fun {c} => @ih (fun y hy => hl y (by simp [hy])) c
    rw [map_cons, lift, fragments, Gaps.gaps]
    simp only [ge_add hcursor hstop, le_add hx.2 hcursor, ge_add hx.1 hstop,
      lt_add hcursor hx.1, lt_add hx.1 hstop, gt_add hx.2 hcursor]
    split
    · rfl
    split
    · exact ih hcursor
    split
    · rfl
    next hahead hbefore =>
      rw [if_pos (not_le.mp hahead), if_pos (not_le.mp hbefore), ih hx.2, map_append]
      split <;> rfl

lemma evict_spec (count total newOff : ℕ) (q : List (ℕ × OooSeg)) (finSeq : Option ℕ) :
    (evict count total newOff q (bytesIn q) finSeq).2.queue.Sublist q.reverse ∧
      (evict count total newOff q (bytesIn q) finSeq).2.bytes
        = bytesIn (evict count total newOff q (bytesIn q) finSeq).2.queue := by
  have hreverse : ∀ q : List (ℕ × OooSeg), bytesIn q.reverse = bytesIn q := fun q => by
    rw [bytesIn, map_reverse, sum_reverse]
    rfl
  induction q generalizing finSeq with
  | nil => exact ⟨List.Sublist.refl _, rfl⟩
  | cons x rest ih =>
    rw [evict]
    split
    · split
      · exact ⟨List.Sublist.refl _, (hreverse _).symm⟩
      · rw [bytesIn_cons, Nat.add_sub_cancel_left, reverse_cons]
        exact ⟨(ih _).1.trans (sublist_append_left ..), (ih _).2⟩
    · exact ⟨List.Sublist.refl _, (hreverse _).symm⟩

variable {o : ℕ}

/-- The newcomer of `ooo_insert`: a slice above `recv_next`. -/
structure Newcomer (start : ℕ) (w : List UInt8) (d o : ℕ) (seq : ℕ) (data : List UInt8) : Prop where
  seq : seq = Serial.add start o
  above : d < o
  bound : o + data.length ≤ w.length
  data : data = (w.drop o).take data.length

variable {data : List UInt8} {seq : ℕ}

/-- Disjoint gaps of the newcomer go into the queue one by one. -/
lemma insertFragments_spec (hw : w.length < 2 ^ 31) (hnew : Newcomer start w d o seq data)
    (hasFin : Bool) (gs : List (ℕ × ℕ))
    (hgs : ∀ g ∈ gs, o ≤ g.1 ∧ g.1 < g.2 ∧ g.2 ≤ o + data.length) (hordered : Gaps.Ordered gs)
    (r : Room) (h : Queue start w d r.queue) (hbytes : r.bytes = bytesIn r.queue)
    (hfree : ∀ g ∈ gs, ∀ x ∈ r.queue, g.2 ≤ d + x.1 ∨ d + x.1 + x.2.data.length ≤ g.1) :
    Queue start w d
      ((gs.map (lift start)).foldl (insertFragment (Serial.add start d) seq data hasFin) r).queue ∧
      ((gs.map (lift start)).foldl (insertFragment (Serial.add start d) seq data hasFin) r).bytes
        = bytesIn ((gs.map (lift start)).foldl (insertFragment (Serial.add start d) seq data hasFin)
          r).queue := by
  induction gs generalizing r with
  | nil => exact ⟨h, hbytes⟩
  | cons g gs ih =>
    have hg := hgs g mem_cons_self
    have habove := hnew.above
    have hbound := hnew.bound
    rw [Gaps.Ordered, pairwise_cons] at hordered
    -- the entry that this gap becomes
    have hkey : Serial.sub (lift start g).1 (Serial.add start d) = g.1 - d := by
      rw [lift, sub_add_add, sub_of_le (by omega) (by omega)]
    have hlen : Serial.sub (lift start g).2 (lift start g).1 = g.2 - g.1 := by
      rw [lift, sub_add_add, sub_of_le (by omega) (by omega)]
    have hoff : Serial.sub (lift start g).1 seq = g.1 - o := by
      rw [lift, hnew.seq, sub_add_add, sub_of_le (by omega) (by omega)]
    have hdata : (data.drop (g.1 - o)).take (g.2 - g.1) = (w.drop g.1).take (g.2 - g.1) := by
      -- a slice of a slice
      rw [hnew.data, drop_take, drop_drop, take_take, Nat.add_sub_cancel' hg.1,
        min_eq_left (by omega)]
    have hsize : ((data.drop (g.1 - o)).take (g.2 - g.1)).length = g.2 - g.1 := by
      rw [length_take, length_drop]
      omega
    have hpos : d + (g.1 - d) = g.1 := by omega
    have hheld : Held start w d (g.1 - d, ⟨(lift start g).1, (data.drop (g.1 - o)).take (g.2 - g.1),
        hasFin && (lift start g).2 = Serial.add seq data.length⟩) := by
      refine ⟨?_, ?_, ?_, ?_, ?_⟩ <;> dsimp only
      · rw [hpos]
        rfl
      · omega
      · omega
      · omega
      · rw [hsize, hpos]
        exact hdata
    obtain ⟨hqueue, hsum, hmem⟩ := h.insert hheld fun y hy => by
      have hor := hfree g mem_cons_self y hy
      dsimp only
      omega
    refine ih (fun g' hg' => hgs g' (by simp [hg'])) hordered.2 _ ?_ ?_ ?_
    · rw [insertFragment]
      rw [hkey, hoff, hlen]
      exact hqueue
    · rw [insertFragment]
      rw [hkey, hoff, hlen, hbytes, hsum, hsize]
    intro g' hg' x hx
    rw [insertFragment] at hx
    rw [hkey, hoff, hlen] at hx
    obtain rfl | hx := hmem x hx
    · have hafter := hordered.1 g' hg'
      dsimp only
      omega
    · simp [hfree, hg', hx]

lemma oooInsert_spec (hw : w.length < 2 ^ 31) {c : TcpConnection}
    (hnext : c.recvNext = Serial.add start d) (h : Queue start w d c.oooQueue)
    (hbytes : c.oooBytes = bytesIn c.oooQueue) (hnew : Newcomer start w d o seq data)
    (hasFin : Bool) :
    (c.oooInsert seq data hasFin).recvNext = c.recvNext ∧
    (c.oooInsert seq data hasFin).recvBuffer = c.recvBuffer ∧
      Queue start w d (c.oooInsert seq data hasFin).oooQueue ∧
      (c.oooInsert seq data hasFin).oooBytes = bytesIn (c.oooInsert seq data hasFin).oooQueue := by
  have hbound := hnew.bound
  -- the residents as intervals of positions
  have hspans : (c.oooQueue.map fun x => (x.2.seq, x.2.endSeq)) =
      (c.oooQueue.map (span d)).map (lift start) := by
    rw [map_map]
    refine map_congr_left fun x hx => ?_
    simp [lift, span, (h.held x hx).endSeq, (h.held x hx).seq]
  have hvalid : ∀ g ∈ c.oooQueue.map (span d), g.1 < 2 ^ 31 ∧ g.2 < 2 ^ 31 ∧ g.1 ≤ g.2 := by
    intro g hg
    obtain ⟨x, hx, rfl⟩ := mem_map.mp hg
    have hx := (h.held x hx).bound
    dsimp only [span]
    omega
  have hordered : Gaps.Ordered (c.oooQueue.map (span d)) := by
    refine pairwise_map.mpr (h.apart.imp fun hle => ?_)
    dsimp only [span]
    omega
  have hfrags : fragments (Serial.add seq data.length)
    (c.oooQueue.map fun x => (x.2.seq, x.2.endSeq)) seq
      = (Gaps.gaps (o + data.length) (c.oooQueue.map (span d)) o).map (lift start) := by
    rw [hspans, hnew.seq, Serial.add_add]
    exact fragments_lift (by omega) (fun g hg => ⟨(hvalid g hg).1, (hvalid g hg).2.1⟩) (by omega)
  have hfree : ∀ g ∈ Gaps.gaps (o + data.length) (c.oooQueue.map (span d)) o, ∀ x ∈ c.oooQueue,
      g.2 ≤ d + x.1 ∨ d + x.1 + x.2.data.length ≤ g.1 := fun g hg x hx =>
    Gaps.gaps_disjoint (fun g hg => (hvalid g hg).2.2) hordered hg (span d x) (mem_map_of_mem hx)
  rw [oooInsert]
  dsimp only
  rw [hfrags]
  generalize hgs : Gaps.gaps (o + data.length) (c.oooQueue.map (span d)) o = gs at hfree
  split
  · exact ⟨rfl, rfl, h, hbytes⟩
  next first tail hcons =>
    have hroom := evict_spec (gs.map (lift start)).length (totalNew (gs.map (lift start)))
      (Serial.sub first.1 c.recvNext) c.oooQueue.reverse c.oooFinSeq
    have hsum : bytesIn c.oooQueue.reverse = c.oooBytes := by
      rw [hbytes, bytesIn, map_reverse, sum_reverse]
      rfl
    rw [hsum, reverse_reverse] at hroom
    generalize evict (gs.map (lift start)).length (totalNew (gs.map (lift start)))
      (Serial.sub first.1 c.recvNext) c.oooQueue.reverse c.oooBytes c.oooFinSeq = r at hroom
    have hqueue := h.sublist hroom.1
    split
    · exact ⟨rfl, rfl, hqueue, hroom.2⟩
    have hins := insertFragments_spec hw hnew hasFin gs
      (fun g hg => Gaps.gaps_within (hgs.symm ▸ hg))
        (hgs ▸ Gaps.gaps_ordered _ _ _ fun g hg => (hvalid g hg).2.2)
      r.2 hqueue hroom.2 fun g hg x hx => hfree g hg x (hroom.1.subset hx)
    rw [← hnext] at hins
    exact ⟨rfl, rfl, hins.1, hins.2⟩

end Insert

/-! ## Delivering -/

section Drain

variable {start : ℕ} {w : List UInt8} {d : ℕ}

/-- The next `n` bytes of the stream after the first `d`, and what is left of a queue that counts
from `base`. -/
structure Drained (start : ℕ) (w : List UInt8) (base d : ℕ) (c : TcpConnection)
    (q : List (ℕ × OooSeg)) (c' : TcpConnection) (d' : ℕ) : Prop where
  le : d ≤ d'
  bound : d' ≤ w.length
  next : c'.recvNext = Serial.add start d'
  buffer : c'.recvBuffer = c.recvBuffer ++ (w.drop d).take (d' - d)
  sublist : c'.oooQueue.Sublist q
  above : ∀ x ∈ c'.oooQueue, d' < base + x.1
  bytes : c'.oooBytes = bytesIn c'.oooQueue

lemma take_drop_append {d d' d'' : ℕ} (h : d ≤ d') (h' : d' ≤ d'') :
    (w.drop d).take (d' - d) ++ (w.drop d').take (d'' - d') = (w.drop d).take (d'' - d) := by
  have hsplit : d'' - d = (d' - d) + (d'' - d') := by omega
  rw [hsplit, take_add, drop_drop, Nat.add_sub_cancel' h]

variable {c : TcpConnection} {base : ℕ}

lemma drainLoop_spec (hw : w.length < 2 ^ 31) {q : List (ℕ × OooSeg)} (hq : Queue start w base q)
    {c : TcpConnection} (hd : d ≤ w.length) (hnext : c.recvNext = Serial.add start d)
    (hbytes : c.oooBytes = bytesIn q) (finReached : Bool) :
    ∃ d', Drained start w base d c q (drainLoop q c finReached).1 d' := by
  induction q generalizing c d finReached with
  | nil =>
    refine ⟨d, Nat.le_refl d, hd, hnext, ?_, List.Sublist.refl _, ?_, hbytes⟩
    · rw [Nat.sub_self, take_zero, append_nil]
      rfl
    · exact nofun
  | cons x rest ih =>
    have hx := hq.held x mem_cons_self
    have hbound := hx.bound
    have ih := fun {c d} => @ih d (hq.sublist (sublist_cons_self x rest)) c
    have hleft : c.oooBytes - x.2.data.length = bytesIn rest := by
      simp [hbytes]
    have hahead : Serial.gt x.2.seq c.recvNext ↔ d < base + x.1 := by
      rw [hnext, hx.seq, gt_add (by omega) (by omega)]
    have hpassed : Serial.le x.2.endSeq c.recvNext ↔ base + x.1 + x.2.data.length ≤ d := by
      rw [hnext, hx.endSeq, le_add (by omega) (by omega)]
    rw [drainLoop]
    split
    · -- a hole remains below the entry
      rename_i hgap
      rw [hahead] at hgap
      refine ⟨d, Nat.le_refl d, hd, hnext, ?_, List.Sublist.refl _, ?_, hbytes⟩
      · simp
      intro y hy
      obtain rfl | hy := mem_cons.mp hy
      · exact hgap
      · have hle := (pairwise_cons.mp hq.apart).1 y hy
        omega
    split
    · obtain ⟨d', h⟩ := @ih (c.dropStale x.2) d hd hnext hleft finReached
      exact ⟨d', h.le, h.bound, h.next, h.buffer, h.sublist.trans (sublist_cons_self ..),
        h.above, h.bytes⟩
    next hgap hstale =>
      rw [hahead] at hgap
      rw [hpassed] at hstale
      have hskip : Serial.sub c.recvNext x.2.seq = d - (base + x.1) := by
        rw [hnext, hx.seq, sub_add_add, sub_of_le (by omega) (by omega)]
      obtain ⟨d', h⟩ := @ih (c.splice x.2) (base + x.1 + x.2.data.length) hbound hx.endSeq hleft
        (finReached || c.reachesFin x.2)
      have hle := h.le
      refine ⟨d', by omega, h.bound, h.next, ?_, h.sublist.trans (sublist_cons_self ..), h.above,
        h.bytes⟩
      rw [h.buffer, splice]
      rw [hskip, append_assoc,
        ← take_drop_append (by omega : d ≤ base + x.1 + x.2.data.length) h.le]
      congr 2
      rw [hx.data, drop_take, drop_drop, length_take, length_drop]
      congr 1
      · omega
      · congr 1
        omega

/-- The keys are counted anew, and the queue is one for the new position. -/
lemma Queue.rebase (hw : w.length < 2 ^ 31) (hq : Queue start w base c.oooQueue)
    (hnext : c.recvNext = Serial.add start d) (habove : ∀ x ∈ c.oooQueue, d < base + x.1) :
    Queue start w d c.rebase.oooQueue ∧ bytesIn c.rebase.oooQueue = bytesIn c.oooQueue := by
  have hkey : ∀ x ∈ c.oooQueue, Serial.sub x.2.seq c.recvNext = base + x.1 - d := by
    intro x hx
    have hlt := habove x hx
    have hbound := (hq.held x hx).bound
    rw [hnext, (hq.held x hx).seq, sub_add_add, sub_of_le (by omega) (by omega)]
  have hqueue : c.rebase.oooQueue = c.oooQueue.map fun x => (base + x.1 - d, x.2) := by
    rw [TcpConnection.rebase]
    rw [KeyMap.foldl_insert (fun x : ℕ × OooSeg => Serial.sub x.2.seq c.recvNext)
      (fun x => x.2), nil_append]
    · exact map_congr_left fun x hx => by rw [hkey x hx]
    · refine hq.apart.imp_of_mem fun {x y} hx hy hle => ?_
      rw [hkey x hx, hkey y hy]
      have hlt := habove x hx
      have hpos := (hq.held x hx).nonempty
      omega
    · exact nofun
  rw [hqueue]
  refine ⟨⟨?_, ?_⟩, ?_⟩
  · intro y hy
    obtain ⟨x, hx, rfl⟩ := mem_map.mp hy
    have hlt := habove x hx
    have hheld := hq.held x hx
    have hpos : d + (base + x.1 - d) = base + x.1 := by omega
    refine ⟨?_, ?_, hheld.nonempty, ?_, ?_⟩ <;> dsimp only
    · rw [hpos]
      exact hheld.seq
    · omega
    · rw [hpos]
      exact hheld.bound
    · rw [hpos]
      exact hheld.data
  · refine pairwise_map.mpr (hq.apart.imp_of_mem fun {x y} hx _ hle => ?_)
    have hlt := habove x hx
    dsimp only
    omega
  · rw [bytesIn, map_map]
    rfl

/-- The receiving side when `d` bytes of the stream were delivered. -/
structure Received (start : ℕ) (w : List UInt8) (d : ℕ) (c : TcpConnection) : Prop where
  bound : d ≤ w.length
  next : c.recvNext = Serial.add start d
  queue : Queue start w d c.oooQueue
  bytes : c.oooBytes = bytesIn c.oooQueue

lemma oooDrain_spec (hw : w.length < 2 ^ 31) (hq : Queue start w base c.oooQueue)
    (hd : d ≤ w.length) (hnext : c.recvNext = Serial.add start d)
    (hbytes : c.oooBytes = bytesIn c.oooQueue) :
    ∃ d', d ≤ d' ∧ Received start w d' c.oooDrain.1 ∧
      c.oooDrain.1.recvBuffer = c.recvBuffer ++ (w.drop d).take (d' - d) := by
  obtain ⟨d', h⟩ := drainLoop_spec hw hq hd hnext hbytes false
  obtain ⟨hqueue, hsum⟩ := (hq.sublist h.sublist).rebase hw h.next h.above
  exact ⟨d', h.le, ⟨h.bound, h.next, hqueue, h.bytes.trans hsum.symm⟩, h.buffer⟩

/-- New bytes from position `d` to `stop` arrive, the last ones of a segment that ends there. -/
lemma deliver_spec (hw : w.length < 2 ^ 31) (h : Received start w d c) {stop : ℕ} (hle : d ≤ stop)
    (hstop : stop ≤ w.length) {hasFin : Bool} (hfin : hasFin → stop = w.length) {bytes : List UInt8}
    (hdata : bytes = (w.drop d).take (stop - d)) :
    ∃ d', d ≤ d' ∧ d' ≤ w.length ∧
      (c.deliver bytes (Serial.add start stop) hasFin).2.recvBuffer = c.recvBuffer ++
        (w.drop d).take (d' - d) ∧
      (Received start w d' (c.deliver bytes (Serial.add start stop) hasFin).2 ∨
        (c.deliver bytes (Serial.add start stop) hasFin).1 ∧
        (c.deliver bytes (Serial.add start stop) hasFin).2.oooQueue = [] ∧
        (c.deliver bytes (Serial.add start stop) hasFin).2.oooBytes = 0) := by
  obtain ⟨d', hle', hrecv, hbuffer⟩ :=
    oooDrain_spec (c := c.append bytes (Serial.add start stop)) hw h.queue hstop rfl h.bytes
  have hall : (c.append bytes (Serial.add start stop)).oooDrain.1.recvBuffer = c.recvBuffer ++
      (w.drop d).take (d' - d) := by
    rw [hbuffer, append, append_assoc, hdata, take_drop_append hle hle']
  refine ⟨d', by omega, hrecv.bound, ?_⟩
  rw [deliver]
  split
  · -- the FIN lies at the end of the stream, so nothing is left in the queue
    rename_i hend
    have heq : d' = stop := by
      have hadd := hrecv.next.symm.trans hend.2
      have hbound := hrecv.bound
      exact (add_inj (by omega) (by omega)).mp hadd
    have hend' : d' = w.length := heq.trans (hfin hend.1)
    have hempty := (hend' ▸ hrecv.queue).eq_nil
    refine ⟨hall, .inr ⟨rfl, hempty, ?_⟩⟩
    show (c.append bytes (Serial.add start stop)).oooDrain.1.oooBytes = 0
    simp [hrecv.bytes, hempty]
  · exact ⟨hall, .inl hrecv⟩

end Drain

/-! ## SACK blocks -/

section Sack

variable {q : List (ℕ × OooSeg)} {start : ℕ} {w : List UInt8} {d : ℕ}

/-- Every number of the block is the number of a byte in the queue. -/
def Reports (q : List (ℕ × OooSeg)) (b : ℕ × ℕ) : Prop :=
  ∀ i < Serial.sub b.2 b.1, ∃ x ∈ q, ∃ j < x.2.data.length, Serial.add b.1 i = Serial.add x.2.seq j

/-- A run is an interval of positions that entries of the queue cover. -/
def Covered (start : ℕ) (w : List UInt8) (d : ℕ) (q : List (ℕ × OooSeg)) (b : ℕ × ℕ) : Prop :=
  ∃ l r, b = lift start (l, r) ∧ l ≤ r ∧ r ≤ w.length ∧
    ∀ i, l ≤ i → i < r → ∃ x ∈ q, d + x.1 ≤ i ∧ i < d + x.1 + x.2.data.length

variable {x : ℕ × OooSeg} {c : TcpConnection}

lemma Covered.single (h : Held start w d x) (hx : x ∈ q) :
    Covered start w d q (x.2.seq, x.2.endSeq) := by
  refine ⟨d + x.1, d + x.1 + x.2.data.length, ?_, Nat.le_add_right .., h.bound, fun i hl hr =>
    ⟨x, hx, hl, hr⟩⟩
  rw [lift, h.endSeq, h.seq]

variable {b : ℕ × ℕ}

/-- A run grows by the entry that begins where it ends. -/
lemma Covered.join (hw : w.length < 2 ^ 31) (hb : Covered start w d q b) (h : Held start w d x)
    (hx : x ∈ q) (hadjacent : b.2 = x.2.seq) : Covered start w d q (b.1, x.2.endSeq) := by
  obtain ⟨l, r, rfl, hle, hr, hcover⟩ := hb
  have hbound := h.bound
  have hmeet : r = d + x.1 := by
    have hadd : Serial.add start r = Serial.add start (d + x.1) := hadjacent.trans h.seq
    exact (add_inj (by omega) (by omega)).mp hadd
  refine ⟨l, d + x.1 + x.2.data.length, ?_, by omega, hbound, ?_⟩
  · rw [lift, h.endSeq, lift]
  intro i hl hi
  by_cases hlt : i < r
  · exact hcover i hl hlt
  · exact ⟨x, hx, by omega, hi⟩

lemma sackRuns_covered (hw : w.length < 2 ^ 31) (h : ∀ x ∈ q, Held start w d x) :
    ∀ b ∈ sackRuns q, Covered start w d q b := by
  -- every round keeps the runs built so far covered
  refine foldlRecOn (motive := fun runs => ∀ b ∈ runs, Covered start w d q b) q _ (by simp) fun runs
    hruns x hx => ?_
  have hsingle := Covered.single (h x hx) hx
  intro b hb
  split at hb
  next last hlast =>
    have hlast := hruns last (mem_of_getLast? hlast)
    split at hb
    next hadjacent =>
      obtain hb | hb := mem_append.mp hb
      · exact hruns b (dropLast_subset runs hb)
      · rw [mem_singleton.mp hb]
        exact hlast.join hw (h x hx) hx hadjacent
    · obtain hb | hb := mem_append.mp hb
      · exact hruns b hb
      · rw [mem_singleton.mp hb]
        exact hsingle
  · rw [mem_singleton.mp hb]
    exact hsingle

lemma Covered.reports (hw : w.length < 2 ^ 31) (hq : ∀ x ∈ q, Held start w d x)
    (hb : Covered start w d q b) : Reports q b := by
  obtain ⟨l, r, rfl, hle, hr, hcover⟩ := hb
  intro i hi
  rw [lift, sub_add_add, sub_of_le hle (by omega)] at hi
  obtain ⟨x, hx, hlo, hhi⟩ := hcover (l + i) (by omega) (by omega)
  refine ⟨x, hx, l + i - (d + x.1), by omega, ?_⟩
  simp [lift, Serial.add_add, (hq x hx).seq, hlo]

lemma mem_sackBlocks {seq : ℕ} (h : b ∈ c.sackBlocks seq) : b ∈ sackRuns c.oooQueue := by
  have h := mem_of_mem_take h
  split at h
  next run hrun =>
    obtain rfl | h := mem_cons.mp h
    · exact mem_of_find?_eq_some hrun
    · exact mem_of_mem_erase h
  · exact h

end Sack

/-! ## Segments -/

section Segments

variable {start : ℕ} {w : List UInt8} {d : ℕ}

/-- The segment is a slice of the stream; a FIN comes at its end. -/
def SliceOf (start : ℕ) (w : List UInt8) (hdr : TcpHeader) (payload : List UInt8) : Prop :=
  ∃ o, hdr.seqNum = Serial.add start o ∧ o + payload.length ≤ w.length ∧
    payload = (w.drop o).take payload.length ∧
    (hdr.has fin = true → o + payload.length = w.length)

/-- After a segment: the queue counts from `recv_next`, or the FIN was consumed and nothing is left
in it. -/
def Settled (start : ℕ) (w : List UInt8) (d : ℕ) (finConsumed : Bool) (c : TcpConnection) : Prop :=
  Received start w d c ∨ finConsumed = true ∧ c.oooQueue = [] ∧ c.oooBytes = 0

/-- `c'` has delivered the stream from `d` to `d'`. -/
structure Advanced (start : ℕ) (w : List UInt8) (d : ℕ) (c : TcpConnection) (d' : ℕ)
    (finConsumed : Bool) (c' : TcpConnection) : Prop where
  le : d ≤ d'
  bound : d' ≤ w.length
  buffer : c'.recvBuffer = c.recvBuffer ++ (w.drop d).take (d' - d)
  settled : Settled start w d' finConsumed c'

variable {c : TcpConnection}

lemma Advanced.still {c' : TcpConnection} (h : Received start w d c')
    (hbuffer : c'.recvBuffer = c.recvBuffer) : Advanced start w d c d false c' := by
  refine ⟨Nat.le_refl d, h.bound, ?_, .inl h⟩
  rw [Nat.sub_self, take_zero, append_nil]
  exact hbuffer

variable {payload : List UInt8}

lemma buffer_spec (hw : w.length < 2 ^ 31) (h : Received start w d c) {o seq : ℕ}
    (hnew : Newcomer start w d o seq payload) (hasFin : Bool) :
    Received start w d (c.buffer seq payload hasFin) ∧
    (c.buffer seq payload hasFin).recvBuffer = c.recvBuffer := by
  rw [buffer]
  split
  · have hcut : ∀ n, Newcomer start w d o seq (payload.take n) := fun n => by
      have hbound := hnew.bound
      refine ⟨hnew.seq, hnew.above, ?_, ?_⟩
      · rw [length_take]
        omega
      · conv_lhs => rw [hnew.data]
        rw [take_take, length_take]
    have hdata : Newcomer start w d o seq
        (if Serial.gt (Serial.add seq payload.length) (Serial.add c.recvNext recvWindow) then
          payload.take (Serial.sub (Serial.add c.recvNext recvWindow) seq) else payload) := by
      split
      · exact hcut _
      · exact hnew
    obtain ⟨hnext, hbuffer, hqueue, hbytes⟩ := oooInsert_spec hw h.next h.queue h.bytes hdata
      (hasFin && !Serial.gt (Serial.add seq payload.length) (Serial.add c.recvNext recvWindow))
    exact ⟨⟨h.bound, hnext.trans h.next, hqueue, hbytes⟩, hbuffer⟩
  · exact ⟨h, rfl⟩

lemma receiveSegmentData_spec (hw : w.length < 2 ^ 31) (h : Received start w d c)
    {hdr : TcpHeader} (hslice : SliceOf start w hdr payload) :
    (∃ d', Advanced start w d c d' (c.receiveSegmentData hdr payload).1
      (c.receiveSegmentData hdr payload).2.1) ∧
      ∀ o ∈ (c.receiveSegmentData hdr payload).2.2,
        o = (c.receiveSegmentData hdr payload).2.1.buildAckReply hdr.seqNum := by
  obtain ⟨o, hseq, hbound, hdata, hfin⟩ := hslice
  have hd := h.bound
  have hlt : Serial.lt hdr.seqNum c.recvNext ↔ o < d := by
    rw [hseq, h.next, lt_add (by omega) (by omega)]
  have heq : hdr.seqNum = c.recvNext ↔ o = d := by
    rw [hseq, h.next, add_inj (by omega) (by omega)]
  have hend : Serial.add hdr.seqNum payload.length = Serial.add start (o + payload.length) := by
    rw [hseq, Serial.add_add]
  have hgt : Serial.gt (Serial.add hdr.seqNum payload.length) c.recvNext ↔
      d < o + payload.length := by
    rw [hend, h.next, gt_add (by omega) (by omega)]
  rw [receiveSegmentData]
  split
  next hempty =>
    split
    · -- the FIN is next, so the whole stream was delivered
      rename_i hnext
      have hall : d = w.length := by
        have hlen := hfin hnext.1
        have hod := heq.mp hnext.2
        rw [hempty, length_nil] at hlen
        omega
      have hqueue := (hall ▸ h.queue).eq_nil
      refine ⟨⟨d, Nat.le_refl d, h.bound, ?_, .inr ⟨rfl, hqueue, ?_⟩⟩, by simp⟩
      · rw [Nat.sub_self, take_zero, append_nil]
        rfl
      · show c.oooBytes = 0
        simp [h.bytes, hqueue]
    split
    · exact ⟨⟨d, .still ⟨h.bound, h.next, h.queue, h.bytes⟩ rfl⟩, by simp⟩
    · exact ⟨⟨d, .still h rfl⟩, by simp⟩
  split
  next hnext =>
    rw [heq] at hnext
    subst hnext
    rw [hend]
    have hbytes : payload = (w.drop o).take (o + payload.length - o) := by
      rw [Nat.add_sub_cancel_left]
      exact hdata
    obtain ⟨d', hle, hbound', hbuffer, hsettled⟩ :=
      deliver_spec hw h (Nat.le_add_right o payload.length) hbound hfin hbytes
    exact ⟨⟨d', hle, hbound', hbuffer, hsettled⟩, by simp⟩
  rename_i hne
  split
  next hbefore =>
    rw [hlt] at hbefore
    split
    next hpast =>
      rw [hgt] at hpast
      have hskip : Serial.sub c.recvNext hdr.seqNum = d - o := by
        rw [h.next, hseq, sub_add_add, sub_of_le (by omega) (by omega)]
      have htail : payload.drop (d - o) = (w.drop d).take (o + payload.length - d) := by
        conv_lhs => rw [hdata]
        rw [drop_take, drop_drop, Nat.add_sub_cancel' hbefore.le]
        congr 1
        omega
      rw [hend, hskip]
      obtain ⟨d', hle, hbound', hbuffer, hsettled⟩ := deliver_spec hw h hpast.le hbound hfin htail
      exact ⟨⟨d', hle, hbound', hbuffer, hsettled⟩, by simp⟩
    · exact ⟨⟨d, .still h rfl⟩, by simp⟩
  next hbefore =>
    rw [hlt] at hbefore
    have hnew : Newcomer start w d o hdr.seqNum payload := ⟨hseq, by omega, hbound, hdata⟩
    obtain ⟨hrecv, hbuffer⟩ := buffer_spec hw h hnew (hdr.has fin)
    dsimp only
    exact ⟨⟨d, .still hrecv hbuffer⟩, by simp⟩

end Segments

/-! ## Runs -/

/-- A connection with the bytes that were ever appended to `recv_buffer` and the replies of the last
call. -/
structure RecvSystem where
  conn : TcpConnection
  appended : List UInt8
  replies : List OutSeg

/-- A segment or a read. -/
inductive RecvOp where
  | segment (hdr : TcpHeader) (payload : List UInt8) (segOffersSack : Bool) (now : ℕ)
  | read (maxLen : ℕ)

/-- One segment or read. -/
def recvStep (s : RecvSystem) : RecvOp → Option RecvSystem
  | .segment hdr payload segOffersSack now =>
    let r := s.conn.processSegment hdr payload segOffersSack now
    some {
      conn := r.1, appended := s.appended ++ r.1.recvBuffer.drop s.conn.recvBuffer.length,
      replies := r.2 }
  | .read maxLen => some { s with conn := (s.conn.readFrom maxLen).2, replies := [] }

/-- A segment is a slice of what the peer sent. -/
def RecvOp.Slice (start : ℕ) (w : List UInt8) : RecvOp → Prop
  | .segment hdr payload _ _ => SliceOf start w hdr payload
  | .read _ => True

section Run

variable {start : ℕ} {w : List UInt8}

/-- The invariant of a run. -/
structure RecvInv (start : ℕ) (w : List UInt8) (s : RecvSystem) : Prop where
  stream : ∃ d ≤ w.length, s.appended = w.take d ∧
    (s.conn.state = .established ∧ Received start w d s.conn ∨
      s.conn.state = .closeWait ∧ Settled start w d true s.conn)
  replies : ∀ o ∈ s.replies, ∀ b ∈ o.sack, Reports s.conn.oooQueue b

lemma handleAck_recv (c : TcpConnection) (ackNum : ℕ) :
    (c.handleAck ackNum).recvNext = c.recvNext ∧ (c.handleAck ackNum).recvBuffer = c.recvBuffer ∧
      (c.handleAck ackNum).oooQueue = c.oooQueue ∧ (c.handleAck ackNum).oooBytes = c.oooBytes := by
  rw [handleAck]
  split
  · split <;> exact ⟨rfl, rfl, rfl, rfl⟩
  split <;> exact ⟨rfl, rfl, rfl, rfl⟩

variable {c : TcpConnection} {d : ℕ}

lemma Received.acknowledge (h : Received start w d c) (hdr : TcpHeader) :
    Received start w d (c.acknowledge hdr) ∧ (c.acknowledge hdr).recvBuffer = c.recvBuffer := by
  rw [TcpConnection.acknowledge]
  split
  · obtain ⟨hnext, hbuffer, hqueue, hbytes⟩ := handleAck_recv (c.withWindow hdr) hdr.ackNum
    refine ⟨⟨h.bound, hnext.trans h.next, ?_, ?_⟩, hbuffer⟩
    · rw [hqueue]
      exact h.queue
    · rw [hqueue, hbytes]
      exact h.bytes
  · exact ⟨⟨h.bound, h.next, h.queue, h.bytes⟩, rfl⟩

lemma Settled.queue {finConsumed : Bool} (h : Settled start w d finConsumed c) :
    Queue start w d c.oooQueue ∧ c.oooBytes = bytesIn c.oooQueue := by
  obtain h | ⟨-, hqueue, hbytes⟩ := h
  · exact ⟨h.queue, h.bytes⟩
  · rw [hqueue, hbytes]
    exact ⟨.nil, rfl⟩

/-- A segment in ESTABLISHED delivers some more of the stream. -/
lemma segment_established (hw : w.length < 2 ^ 31) (hstate : c.state = .established)
    (h : Received start w d c) {hdr : TcpHeader} {payload : List UInt8}
    (hslice : SliceOf start w hdr payload) (segOffersSack : Bool) (now : ℕ) :
    ∃ d', d ≤ d' ∧ d' ≤ w.length ∧
      (c.processSegment hdr payload segOffersSack now).1.recvBuffer = c.recvBuffer ++
        (w.drop d).take (d' - d) ∧
      ((c.processSegment hdr payload segOffersSack now).1.state = .established ∧
          Received start w d' (c.processSegment hdr payload segOffersSack now).1 ∨
        (c.processSegment hdr payload segOffersSack now).1.state = .closeWait ∧
          Settled start w d' true (c.processSegment hdr payload segOffersSack now).1) ∧
      ∀ o ∈ (c.processSegment hdr payload segOffersSack now).2, ∀ b ∈ o.sack,
        Reports (c.processSegment hdr payload segOffersSack now).1.oooQueue b := by
  obtain ⟨hrecv, hbuffer⟩ := h.acknowledge hdr
  have hsame := (receiveSegmentData_send (c.acknowledge hdr) hdr payload).1.sameSend.state
  rw [(acknowledge_send c hdr).2.2.2, hstate] at hsame
  obtain ⟨⟨d', hadv⟩, hreplies⟩ := receiveSegmentData_spec hw hrecv hslice
  rw [processSegment, hstate, receive]
  dsimp only
  generalize (c.acknowledge hdr).receiveSegmentData hdr payload = r at *
  have hreports : ∀ o ∈ r.2.2, ∀ b ∈ o.sack, Reports r.2.1.oooQueue b := by
    -- a reply reports bytes of the queue
    intro o ho b hb
    rw [hreplies o ho, buildAckReply] at hb
    have hheld := hadv.settled.queue.1.held
    split at hb
    · exact (sackRuns_covered hw hheld b (mem_sackBlocks hb)).reports hw hheld
    · cases hb
  refine ⟨d', hadv.le, hadv.bound, ?_⟩
  split
  next hfin =>
    have hsettled := hadv.settled
    rw [hfin] at hsettled
    refine ⟨hadv.buffer.trans (by rw [hbuffer]), .inr ⟨rfl, ?_⟩, hreports⟩
    obtain hr | hr := hsettled
    · exact .inl ⟨hr.bound, hr.next, hr.queue, hr.bytes⟩
    · exact .inr hr
  next hfin =>
    exact ⟨hadv.buffer.trans (by rw [hbuffer]),
      .inl ⟨hsame, hadv.settled.resolve_right fun hr => hfin hr.1⟩, hreports⟩

lemma recvStep_inv (hw : w.length < 2 ^ 31) {s s' : RecvSystem} {op : RecvOp}
    (h : RecvInv start w s) (hslice : op.Slice start w) (hstep : recvStep s op = some s') :
    RecvInv start w s' := by
  obtain ⟨d, hd, happended, hconn⟩ := h.stream
  cases op with
  | segment hdr payload segOffersSack now =>
    cases hstep
    obtain ⟨hstate, hrecv⟩ | ⟨hstate, hsettled⟩ := hconn
    · obtain ⟨d', hle, hbound, hbuffer, hnext, hreports⟩ :=
        segment_established hw hstate hrecv hslice segOffersSack now
      refine ⟨⟨d', hbound, ?_, hnext⟩, hreports⟩
      rw [hbuffer, drop_left, happended]
      simpa using take_drop_append (Nat.zero_le d) hle
    have hignored : s.conn.processSegment hdr payload segOffersSack now =
        (s.conn.withWindow hdr, []) := by
      rw [processSegment, hstate]
    rw [hignored]
    refine ⟨⟨d, hd, ?_, .inr ⟨hstate, ?_⟩⟩, by simp⟩
    · show s.appended ++ s.conn.recvBuffer.drop s.conn.recvBuffer.length = w.take d
      rw [drop_length, append_nil]
      exact happended
    · exact hsettled.imp (fun hr => ⟨hr.bound, hr.next, hr.queue, hr.bytes⟩) id
  | read maxLen =>
    cases hstep
    have hconn' : (s.conn.readFrom maxLen).2
        = { s.conn with recvBuffer := s.conn.recvBuffer.drop maxLen } := by
      rw [readFrom, if_pos]
      exact hconn.imp (fun hc => hc.1) fun hc => hc.1
    refine ⟨⟨d, hd, happended, ?_⟩, by simp⟩
    rw [hconn']
    exact hconn.imp (fun hc => ⟨hc.1, hc.2.bound, hc.2.next, hc.2.queue, hc.2.bytes⟩) fun hc =>
      ⟨hc.1, hc.2.imp (fun hr => ⟨hr.bound, hr.next, hr.queue, hr.bytes⟩) id⟩

end Run

/-- Slices of the peer's stream `w`, which begins at `recv_next`, arrive in any order, between
reads. After every step the bytes that were appended are the beginning of the stream; until a FIN
was consumed `recv_next` is `start` plus their number; the queue holds disjoint slices above
`recv_next` under their distances from it, `ooo_bytes` counts them, and the blocks of a SACK cover
only bytes of the queue. -/
theorem recvRun_faithful (c : TcpConnection) (w : List UInt8) (hw : w.length < 2 ^ 31)
    (hstate : c.state = .established) (hnext : c.recvNext < 2 ^ 32) (hqueue : c.oooQueue = [])
    (hbytes : c.oooBytes = 0) (ops : List RecvOp) (hops : ∀ op ∈ ops, op.Slice c.recvNext w)
    (s : RecvSystem) (hrun : run recvStep ⟨c, [], []⟩ ops = some s) :
    s.appended <+: w ∧
      (s.conn.state = .established → s.conn.recvNext = Serial.add c.recvNext s.appended.length) ∧
      (∀ x ∈ s.conn.oooQueue, x.1 = Serial.sub x.2.seq s.conn.recvNext ∧
        Serial.gt x.2.seq s.conn.recvNext = true ∧
        Carries c.recvNext w (x.2.seq, x.2.data)) ∧
      (s.conn.oooQueue.Pairwise fun x y => x.1 + x.2.data.length ≤ y.1) ∧
      s.conn.oooBytes = (s.conn.oooQueue.map fun x => x.2.data.length).sum ∧
      ∀ o ∈ s.replies, ∀ b ∈ o.sack, Reports s.conn.oooQueue b := by
  have hinit : RecvInv c.recvNext w ⟨c, [], []⟩ := by
    refine ⟨⟨0, Nat.zero_le _, rfl,
      .inl ⟨hstate, Nat.zero_le _, (add_zero hnext).symm, ?_, ?_⟩⟩, by simp⟩
    · rw [hqueue]
      exact .nil
    · rw [hqueue]
      exact hbytes
  have hguard : Guarded recvStep (fun _ op => op.Slice c.recvNext w) ⟨c, [], []⟩ ops :=
    guarded_of_forall fun op hop _ => hops op hop
  have hinv : RecvInv c.recvNext w s := run_guarded (fun _ _ _ => recvStep_inv hw) hinit hguard hrun
  obtain ⟨d, hd, happended, hconn⟩ := hinv.stream
  have hq : Queue c.recvNext w d s.conn.oooQueue ∧ s.conn.oooBytes = bytesIn s.conn.oooQueue := by
    obtain ⟨-, h⟩ | ⟨-, h⟩ := hconn
    · exact ⟨h.queue, h.bytes⟩
    · exact h.queue
  refine ⟨happended ▸ take_prefix d w, ?_, ?_, hq.1.apart, hq.2, hinv.replies⟩
  · intro hestablished
    obtain ⟨-, h⟩ | ⟨hclose, -⟩ := hconn
    · rw [happended, length_take, min_eq_left hd]
      exact h.next
    · exact TcpState.noConfusion (hclose.symm.trans hestablished)
  intro x hx
  have hheld := hq.1.held x hx
  have hrecv : s.conn.recvNext = Serial.add c.recvNext d := by
    obtain ⟨-, h⟩ | ⟨-, h | ⟨-, hempty, -⟩⟩ := hconn
    · exact h.next
    · exact h.next
    · rw [hempty] at hx
      cases hx
  have hbound := hheld.bound
  have hpos := hheld.pos
  rw [hrecv, hheld.seq, gt_add (by omega) (by omega), sub_add_add,
    sub_of_le (by omega) (by omega)]
  exact ⟨by omega, by omega, d + x.1, rfl, hbound, hheld.data⟩

/-- A connection that expects the sequence number `start`. -/
def TcpConnection.expecting (start : ℕ) : TcpConnection :=
  { opened 0 with state := .established, recvNext := start }

/-- A segment with text. -/
def textAt (seqNum : ℕ) (h : seqNum < 2 ^ 32) (payload : List UInt8) : RecvOp :=
  .segment ⟨seqNum, 0, ack, 65535, h, zero_lt_seq, window_max⟩ payload false 0

/-- The stream `1, 2, 3, 4, 5` across the wrap: its end comes first, then its beginning. -/
def outOfOrder : List RecvOp :=
  [textAt 1 one_lt_seq [4, 5], .read 8, textAt (2 ^ 32 - 2) (by decide) [1, 2]]

theorem recvRun_faithful_of_outOfOrder :
    ∃ s, run recvStep ⟨.expecting (2 ^ 32 - 2), [], []⟩ outOfOrder = some s ∧ s.appended = [1, 2] ∧
      s.replies.map (·.sack) = [[(1, 3)]] ∧ s.appended <+: [1, 2, 3, 4, 5] ∧
      ∀ o ∈ s.replies, ∀ b ∈ o.sack, Reports s.conn.oooQueue b := by
  obtain ⟨s, hrun, hs⟩ : ∃ s, run recvStep ⟨.expecting (2 ^ 32 - 2), [], []⟩ outOfOrder = some s ∧
    s.appended = [1, 2] ∧
      s.replies.map (·.sack) = [[(1, 3)]] := exists_of_decide (by decide +kernel)
  have hops : ∀ op ∈ outOfOrder, op.Slice (2 ^ 32 - 2) [1, 2, 3, 4, 5] := by
    intro op hop
    simp only [outOfOrder, mem_cons, not_mem_nil, or_false] at hop
    obtain rfl | rfl | rfl := hop
    · exact ⟨3, by decide, by decide, by decide, by decide⟩
    · trivial
    · exact ⟨0, by decide, by decide, by decide, by decide⟩
  obtain ⟨hdelivered, -, -, -, -, hsack⟩ :=
    recvRun_faithful (.expecting (2 ^ 32 - 2)) [1, 2, 3, 4, 5] (by decide) rfl
    (by decide) rfl rfl outOfOrder hops s hrun
  exact ⟨s, hrun, hs.1, hs.2, hdelivered, hsack⟩

end Astryx.Tcp
