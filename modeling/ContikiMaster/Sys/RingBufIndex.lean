import Mathlib.Data.List.Nodup
import Mathlib.Data.List.Range
import Mathlib.Data.Nat.Bitwise
import Mathlib.Data.Nat.ModEq

/-!
# The index ring buffer

`ringbufindex.c` keeps two positions of a table whose size is a power of two. The
buffer is a queue of positions: it hands them out in cyclic order, takes them back
in the order in which it handed them out, and leaves one of them free.
-/

namespace ContikiMaster.Sys

open List

structure RingBufIndex where
  mask : UInt8
  putPtr : UInt8
  getPtr : UInt8
  deriving DecidableEq

namespace RingBufIndex

def ringbufindexInit (size : UInt8) : RingBufIndex := ⟨size - 1, 0, 0⟩

variable (r : RingBufIndex)

/-- `(r->put_ptr - r->get_ptr) & r->mask`; the mask leaves only bits of the low byte. -/
def masked : UInt8 := (r.putPtr - r.getPtr) &&& r.mask

def ringbufindexPut : ℤ × RingBufIndex :=
  if r.masked = r.mask then (0, r) else (1, { r with putPtr := (r.putPtr + 1) &&& r.mask })

def ringbufindexPeekPut : ℤ := if r.masked = r.mask then -1 else r.putPtr.toNat

def ringbufindexGet : ℤ × RingBufIndex :=
  if 0 < r.masked then (r.getPtr.toNat, { r with getPtr := (r.getPtr + 1) &&& r.mask }) else (-1, r)

def ringbufindexPeekGet : ℤ := if 0 < r.masked then r.getPtr.toNat else -1

def ringbufindexElements : ℕ := r.masked.toNat

def ringbufindexFull : Bool := r.masked == r.mask

def ringbufindexEmpty : Bool := r.ringbufindexElements == 0

end RingBufIndex

inductive RingOp
  | put
  | peekPut
  | get
  | peekGet

def RingBufIndex.step (r : RingBufIndex) : RingOp → ℤ × RingBufIndex
  | .put => r.ringbufindexPut
  | .peekPut => (r.ringbufindexPeekPut, r)
  | .get => r.ringbufindexGet
  | .peekGet => (r.ringbufindexPeekGet, r)

/-- A queue of positions: those handed out and not yet taken back, the oldest first, and the one that
is handed out next. -/
structure IndexQueue where
  items : List ℕ
  next : ℕ

/-- One call on a queue with room for `size - 1` positions. -/
def IndexQueue.step (size : ℕ) (q : IndexQueue) : RingOp → ℤ × IndexQueue
  | .put =>
    if q.items.length < size - 1 then (1, ⟨q.items ++ [q.next], (q.next + 1) % size⟩) else (0, q)
  | .peekPut => (if q.items.length < size - 1 then q.next else -1, q)
  | .get =>
    match q.items with
    | [] => (-1, q)
    | i :: items => (i, ⟨items, q.next⟩)
  | .peekGet => ((q.items.head?.map Nat.cast).getD (-1), q)

/-- The results of a sequence of calls, and the state behind it. -/
def runOps {σ : Type} (step : σ → RingOp → ℤ × σ) : List RingOp → σ → List ℤ × σ
  | [], s => ([], s)
  | op :: ops, s =>
    let (result, t) := step s op
    let (results, u) := runOps step ops t
    (result :: results, u)

/-- The positions that follow `start` in cyclic order. -/
def cyclic (size start count : ℕ) : List ℕ := (range count).map fun i ↦ (start + i) % size

section Cyclic

variable {size start count : ℕ}

theorem cyclic_cons : cyclic size start (count + 1) =
    start % size :: cyclic size ((start + 1) % size) count := by
  unfold cyclic
  rw [range_succ_eq_map, map_cons, map_map, Nat.add_zero]
  congr 1
  apply map_congr_left
  intro i _
  change (start + (i + 1)) % size = ((start + 1) % size + i) % size
  rw [Nat.mod_add_mod, Nat.add_right_comm, Nat.add_assoc]

theorem cyclic_snoc : cyclic size start count ++ [(start + count) % size] =
    cyclic size start (count + 1) := by
  unfold cyclic
  rw [range_succ, map_append]
  rfl

theorem add_mod_inj {i j : ℕ} (hi : i < size) (hj : j < size)
    (hsame : (start + i) % size = (start + j) % size) : i = j := by
  have hmod : i % size = j % size := Nat.ModEq.add_left_cancel' start hsame
  rwa [Nat.mod_eq_of_lt hi, Nat.mod_eq_of_lt hj] at hmod

theorem nodup_cyclic (hcount : count ≤ size) : (cyclic size start count).Nodup := by
  apply List.Nodup.map_on _ nodup_range
  intro i hi j hj hsame
  exact add_mod_inj ((mem_range.mp hi).trans_le hcount) ((mem_range.mp hj).trans_le hcount)
    hsame

end Cyclic

/-- A buffer of `2 ^ k` positions stands for the queue of the positions between its two pointers. -/
structure RingBufIndex.Represents (k : Fin 8) (r : RingBufIndex) (q : IndexQueue) : Prop where
  mask : r.mask.toNat = 2 ^ k.val - 1
  getPtr : r.getPtr.toNat < 2 ^ k.val
  fits : q.items.length < 2 ^ k.val
  putPtr : r.putPtr.toNat = (r.getPtr.toNat + q.items.length) % 2 ^ k.val
  items : q.items = cyclic (2 ^ k.val) r.getPtr.toNat q.items.length
  next : q.next = r.putPtr.toNat

namespace RingBufIndex.Represents

variable {k : Fin 8} {r : RingBufIndex} {q : IndexQueue}

theorem pow_dvd (k : Fin 8) : 2 ^ k.val ∣ 256 := by
  have hpow : (256 : ℕ) = 2 ^ 8 := rfl
  rw [hpow]
  exact Nat.pow_dvd_pow 2 (by omega)

theorem masked_toNat (hr : r.Represents k q) : r.masked.toNat = q.items.length := by
  have hdvd := pow_dvd k
  have hput := hr.putPtr
  have hfits := hr.fits
  have hget := hr.getPtr
  have hsub : (r.putPtr - r.getPtr).toNat % 2 ^ k.val = q.items.length := by
    rw [UInt8.toNat_sub, Nat.mod_mod_of_dvd _ hdvd]
    have hgetLt : r.getPtr.toNat < 256 := r.getPtr.toNat_lt
    have hsum : 256 - r.getPtr.toNat + r.putPtr.toNat ≡ q.items.length [MOD 2 ^ k.val] := by
      apply Nat.ModEq.add_left_cancel' r.getPtr.toNat
      calc
        r.getPtr.toNat + (256 - r.getPtr.toNat + r.putPtr.toNat) = 256 + r.putPtr.toNat := by omega
        _ ≡ 0 + (r.getPtr.toNat + q.items.length) [MOD 2 ^ k.val] := by
          apply Nat.ModEq.add ((Nat.modEq_zero_iff_dvd).mpr hdvd)
          rw [hput]
          exact Nat.mod_modEq _ _
        _ = r.getPtr.toNat + q.items.length := Nat.zero_add _
    exact Nat.mod_eq_of_modEq hsum hfits
  unfold masked
  rw [UInt8.toNat_and, hr.mask, Nat.and_two_pow_sub_one_eq_mod, hsub]

theorem full_iff (hr : r.Represents k q) : r.masked = r.mask ↔ ¬ q.items.length < 2 ^ k.val - 1 := by
  have hfits := hr.fits
  rw [← UInt8.toNat_inj, hr.masked_toNat, hr.mask]
  omega

theorem masked_pos_iff (hr : r.Represents k q) : 0 < r.masked ↔ q.items ≠ [] := by
  rw [UInt8.lt_iff_toNat_lt, hr.masked_toNat]
  exact length_pos_iff

/-- A pointer moves on around the table. -/
theorem advance_toNat (hr : r.Represents k q) (p : UInt8) :
    ((p + 1) &&& r.mask).toNat = (p.toNat + 1) % 2 ^ k.val := by
  rw [UInt8.toNat_and, hr.mask, Nat.and_two_pow_sub_one_eq_mod, UInt8.toNat_add,
    Nat.mod_mod_of_dvd _ (pow_dvd k)]
  rfl

theorem init (k : Fin 8) : (ringbufindexInit (UInt8.ofNat (2 ^ k.val))).Represents k ⟨[], 0⟩ where
  mask := by revert k; decide
  getPtr := Nat.two_pow_pos _
  fits := Nat.two_pow_pos _
  putPtr := (Nat.zero_mod _).symm
  items := rfl
  next := rfl

theorem put (hr : r.Represents k q) (hroom : q.items.length < 2 ^ k.val - 1) :
    Represents k { r with putPtr := (r.putPtr + 1) &&& r.mask }
      ⟨q.items ++ [q.next], (q.next + 1) % 2 ^ k.val⟩ := by
  have hnext := hr.advance_toNat r.putPtr
  refine ⟨hr.mask, hr.getPtr, ?_, ?_, ?_, ?_⟩
  · rw [length_append]
    change q.items.length + 1 < _
    omega
  · change ((r.putPtr + 1) &&& r.mask).toNat = _
    rw [hnext, hr.putPtr, Nat.mod_add_mod, length_append, ← Nat.add_assoc]
    rfl
  · rw [length_append, hr.next, hr.putPtr]
    calc
      q.items ++ [(r.getPtr.toNat + q.items.length) % 2 ^ k.val] =
          cyclic (2 ^ k.val) r.getPtr.toNat q.items.length ++
            [(r.getPtr.toNat + q.items.length) % 2 ^ k.val] := by rw [← hr.items]
      _ = cyclic (2 ^ k.val) r.getPtr.toNat (q.items.length + 1) := cyclic_snoc
  · rw [hr.next]
    exact hnext.symm

theorem get (hr : r.Represents k q) {i : ℕ} {items : List ℕ} (hitems : q.items = i :: items) :
    i = r.getPtr.toNat ∧
      Represents k { r with getPtr := (r.getPtr + 1) &&& r.mask } ⟨items, q.next⟩ := by
  have hnext := hr.advance_toNat r.getPtr
  have hfits := hr.fits
  have hlist := hr.items
  have hput := hr.putPtr
  rw [hitems, length_cons] at hfits hput
  rw [hitems, length_cons, cyclic_cons] at hlist
  obtain ⟨hfirst, hrest⟩ := cons.inj hlist
  refine ⟨hfirst.trans (Nat.mod_eq_of_lt hr.getPtr), hr.mask, ?_, ?_, ?_, ?_, hr.next⟩
  · change ((r.getPtr + 1) &&& r.mask).toNat < _
    rw [hnext]
    exact Nat.mod_lt _ (Nat.two_pow_pos _)
  · exact Nat.lt_of_succ_lt hfits
  · change _ = (((r.getPtr + 1) &&& r.mask).toNat + _) % _
    rw [hnext, hput, Nat.mod_add_mod, Nat.add_right_comm, Nat.add_assoc]
  · change items = cyclic _ ((r.getPtr + 1) &&& r.mask).toNat _
    rw [hnext]
    exact hrest

/-- A call returns what the queue returns, and leaves the buffer standing for the queue. -/
theorem step (hr : r.Represents k q) (op : RingOp) : (r.step op).1 = (q.step (2 ^ k.val) op).1 ∧
      (r.step op).2.Represents k (q.step (2 ^ k.val) op).2 := by
  have hfull := hr.full_iff
  cases op with
  | put =>
    change r.ringbufindexPut.1 = _ ∧ r.ringbufindexPut.2.Represents k _
    unfold ringbufindexPut IndexQueue.step
    by_cases hroom : q.items.length < 2 ^ k.val - 1
    · rw [if_neg fun heq ↦ hfull.mp heq hroom, if_pos hroom]
      exact ⟨rfl, hr.put hroom⟩
    · rw [if_pos (hfull.mpr hroom), if_neg hroom]
      exact ⟨rfl, hr⟩
  | peekPut =>
    refine ⟨?_, hr⟩
    change r.ringbufindexPeekPut = if q.items.length < 2 ^ k.val - 1 then (q.next : ℤ) else -1
    unfold ringbufindexPeekPut
    by_cases hroom : q.items.length < 2 ^ k.val - 1
    · rw [if_neg fun heq ↦ hfull.mp heq hroom, if_pos hroom, hr.next]
    · rw [if_pos (hfull.mpr hroom), if_neg hroom]
  | get =>
    change r.ringbufindexGet.1 = _ ∧ r.ringbufindexGet.2.Represents k _
    unfold ringbufindexGet IndexQueue.step
    cases hitems : q.items with
    | nil =>
      rw [if_neg fun hpos ↦ hr.masked_pos_iff.mp hpos hitems]
      exact ⟨rfl, hr⟩
    | cons i items =>
      rw [if_pos (hr.masked_pos_iff.mpr (by rw [hitems]; exact cons_ne_nil _ _))]
      obtain ⟨hfirst, hrest⟩ := hr.get hitems
      exact ⟨congrArg Nat.cast hfirst.symm, hrest⟩
  | peekGet =>
    refine ⟨?_, hr⟩
    change r.ringbufindexPeekGet = (q.items.head?.map Nat.cast).getD (-1)
    unfold ringbufindexPeekGet
    cases hitems : q.items with
    | nil => exact if_neg fun hpos ↦ hr.masked_pos_iff.mp hpos hitems
    | cons i items =>
      rw [if_pos (hr.masked_pos_iff.mpr (by rw [hitems]; exact cons_ne_nil _ _))]
      exact congrArg Nat.cast (hr.get hitems).1.symm

theorem run (ops : List RingOp) : ∀ {r : RingBufIndex} {q : IndexQueue}, r.Represents k q →
    (runOps RingBufIndex.step ops r).1 = (runOps (IndexQueue.step (2 ^ k.val)) ops q).1 ∧
      (runOps RingBufIndex.step ops r).2.Represents k
        (runOps (IndexQueue.step (2 ^ k.val)) ops q).2 := by
  induction ops with
  | nil => exact fun hr ↦ ⟨rfl, hr⟩
  | cons op ops ih =>
    intro r q hr
    obtain ⟨hresult, hnext⟩ := hr.step op
    obtain ⟨hresults, hlast⟩ := ih hnext
    exact ⟨congrArg₂ cons hresult hresults, hlast⟩

theorem nodup (hr : r.Represents k q) : q.items.Nodup := by
  rw [hr.items]
  exact nodup_cyclic hr.fits.le

/-- The position that is handed out next is not in the queue. -/
theorem next_notMem (hr : r.Represents k q) : q.next ∉ q.items := by
  rw [hr.next, hr.putPtr]
  intro hmem
  obtain ⟨i, hi, hsame⟩ := mem_map.mp ((List.Perm.of_eq hr.items).mem_iff.mp hmem)
  have hlt := mem_range.mp hi
  exact hlt.ne (add_mod_inj (hlt.trans hr.fits) hr.fits hsame)

end RingBufIndex.Represents

/-- A ring buffer of any size behaves as the queue of positions, which holds no position twice and
never the one that is handed out next, and the three counts are those of the queue. -/
theorem ringbufindex_isQueue (k : Fin 8) (ops : List RingOp) :
    let size := 2 ^ k.val
    let (results, r) := runOps RingBufIndex.step ops
      (RingBufIndex.ringbufindexInit (UInt8.ofNat size))
    let (queueResults, q) := runOps (IndexQueue.step size) ops ⟨[], 0⟩
    results = queueResults ∧ q.items.Nodup ∧ q.next ∉ q.items ∧ q.items.length ≤ size - 1 ∧
      r.ringbufindexElements = q.items.length ∧
      (r.ringbufindexFull = true ↔ q.items.length = size - 1) ∧
      (r.ringbufindexEmpty = true ↔ q.items = []) := by
  obtain ⟨hresults, hr⟩ := (RingBufIndex.Represents.init k).run ops
  have hfits := hr.fits
  refine ⟨hresults, hr.nodup, hr.next_notMem, Nat.le_sub_one_of_lt hfits, hr.masked_toNat, ?_, ?_⟩
  · change (_ == _) = true ↔ _
    rw [beq_iff_eq, hr.full_iff]
    omega
  · change (RingBufIndex.ringbufindexElements _ == 0) = true ↔ _
    rw [beq_iff_eq]
    change (RingBufIndex.masked _).toNat = 0 ↔ _
    rw [hr.masked_toNat, length_eq_zero_iff]

end ContikiMaster.Sys
