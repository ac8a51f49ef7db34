import Mathlib.Data.List.Basic

/-!
# The fixed hash map

The table of `os/sys/hash-map.c`: a fixed number of nodes, each with a key, a
value and a pointer to the next node of its chain. Key zero marks a free node.
A chain is followed for at most as many steps as there are nodes.
-/

namespace ContikiMaster.Sys

open Function

/-- `hash_table_t`, with `HASH_MAP_SIZE` as a field. -/
structure HashTable where
  size : ℕ
  numberEntries : ℕ
  key : ℕ → ℕ
  val : ℕ → ℕ
  next : ℕ → Option ℕ

namespace HashTable

/-- `hash_map_clear_table`. -/
def clear (size : ℕ) : HashTable where
  size := size
  numberEntries := 0
  key := fun _ ↦ 0
  val := fun _ ↦ 0
  next := fun _ ↦ none

/-- `hash_code`: the key is cast to a byte. -/
def hashCode (t : HashTable) (key : ℕ) : ℕ := key % 256 % t.size

def chain (t : HashTable) : ℕ → ℕ → List ℕ
  | 0, _ => []
  | fuel + 1, pos => pos :: (t.next pos).elim [] (chain t fuel)

def chainOf (t : HashTable) (key : ℕ) : List ℕ := t.chain t.size (t.hashCode key)

/-- `hash_map_lookup`: zero when the key is not in its chain. -/
def lookup (t : HashTable) (key : ℕ) : ℕ :=
  ((t.chainOf key).find? fun pos ↦ t.key pos == key).elim 0 t.val

/-- The first free node from a position on, wrapping around. -/
def freeFrom (t : HashTable) (pos : ℕ) : Option ℕ :=
  ((List.range t.size).map fun i ↦ (pos + i) % t.size).find? fun i ↦ t.key i == 0

/-- `hash_map_insert`: whether the pair was stored, and the next table. -/
def insert (t : HashTable) (key val : ℕ) : Bool × HashTable :=
  let pos := t.hashCode key
  let write (t : HashTable) (i : ℕ) : HashTable :=
    { t with key := update t.key i key, val := update t.val i val }
  if t.key pos = 0 then (true, { write t pos with numberEntries := (t.numberEntries + 1) % 256 })
  else match (t.chainOf key).find? fun i ↦ t.key i == key with
    | some i => (true, { t with val := update t.val i val })
    | none =>
      if t.size ≤ t.numberEntries then (false, t)
      else match t.freeFrom pos, (t.chainOf key).getLast? with
        | some i, some prev => (true, { write t i with
            next := update t.next prev (some i)
            numberEntries := (t.numberEntries + 1) % 256 })
        | _, _ => (false, t)

end HashTable

example : (((HashTable.clear 3).insert 1 7).2.insert 4 9).2.lookup 4 = 9 := by decide

end ContikiMaster.Sys
