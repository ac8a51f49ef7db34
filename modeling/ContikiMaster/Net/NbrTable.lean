import ContikiMaster.Lib.Run
import ContikiMaster.Tsch.Types
import Mathlib.Data.BitVec

/-!
# Neighbour tables

`nbr-table.c`: one pool of link-layer addresses is the key of all tables. For each block a
bit of a table says whether it uses the item and another whether it locks it. When the pool
is exhausted the neighbour that a removal policy names is evicted, or without one the
unlocked one that the fewest tables use.
-/

namespace ContikiMaster.Net

open Lib Sys Tsch Function

universe u

/-- `nbr_table_t`, a static structure; its items are the elements of `data`. -/
structure NbrTable (α : Type u) where
  index : ℕ
  callback : Bool
  data : ℕ → α

/-- The static variables of the module and the tables. -/
structure NbrTables (α : Type u) where
  neighborAddrMem : Memb Linkaddr
  nbrTableKeys : List ℕ
  usedMap : ℕ → BitVec 8
  lockedMap : ℕ → BitVec 8
  allTables : List ℕ
  table : ℕ → NbrTable α

def maxNumTables : ℕ := 8

/-- The calls with which the callback of a table reacts to the removal of an item: the callbacks
that are registered only remove items from tables and release locks. -/
inductive Release
  | remove (table item : ℕ)
  | unlock (table item : ℕ)

/-- What the callback of each table does with an item. -/
abbrev Reaction := ℕ → ℕ → List Release

def nbrGetBit (bitmap : ℕ → BitVec 8) (index : ℕ) : Option ℕ → Bool
  | none => false
  | some item => bitmap item &&& 1#8 <<< index != 0#8

/-- `nbr_set_bit`: whether there is an item, and the bitmap. -/
def nbrSetBit (bitmap : ℕ → BitVec 8) (index : ℕ) (item : Option ℕ) (value : Bool) :
    Bool × (ℕ → BitVec 8) :=
  match item with
  | none => (false, bitmap)
  | some item =>
    (true, update bitmap item
      (if value then bitmap item ||| 1#8 <<< index else bitmap item &&& ~~~(1#8 <<< index)))

def usedCount (used : BitVec 8) : ℕ := (List.range 8).countP fun bit ↦ used.getLsbD bit

namespace NbrTables

variable {α : Type u}

/-- The static initial values, for a pool of `num` neighbours. -/
def init [Zero α] (num : ℕ) : NbrTables α where
  neighborAddrMem := Memb.init num linkaddrNull
  nbrTableKeys := []
  usedMap := fun _ ↦ 0
  lockedMap := fun _ ↦ 0
  allTables := []
  table := fun _ ↦ ⟨0, false, fun _ ↦ 0⟩

section

variable (s : NbrTables α)

def lladdr (key : ℕ) : Linkaddr := s.neighborAddrMem.mem key

/-- `index_from_lladdr`; no address stands for the null address. -/
def indexFromLladdr (lladdr : Option Linkaddr) : Option ℕ :=
  s.nbrTableKeys.find? fun key ↦ lladdr.getD linkaddrNull = s.lladdr key

def nbrTableRemove (table : ℕ) (item : Option ℕ) : Bool × NbrTables α :=
  let used := nbrSetBit s.usedMap (s.table table).index item false
  let locked := nbrSetBit s.lockedMap (s.table table).index item false
  (used.1, { s with usedMap := used.2, lockedMap := locked.2 })

def nbrTableLock (table : ℕ) (item : Option ℕ) : Bool × NbrTables α :=
  let locked := nbrSetBit s.lockedMap (s.table table).index item true
  (locked.1, { s with lockedMap := locked.2 })

def nbrTableUnlock (table : ℕ) (item : Option ℕ) : Bool × NbrTables α :=
  let locked := nbrSetBit s.lockedMap (s.table table).index item false
  (locked.1, { s with lockedMap := locked.2 })

/-- A call made by a callback. -/
def release : Release → NbrTables α
  | .remove table item => (s.nbrTableRemove table (some item)).2
  | .unlock table item => (s.nbrTableUnlock table (some item)).2

/-- The callback of one table, called when the table uses the item of the key. -/
def callCallback (react : Reaction) (key : ℕ) (table : ℕ) : NbrTables α :=
  if (s.table table).callback && nbrGetBit s.usedMap (s.table table).index (some key) then
    (react table key).foldl release s
  else s

/-- `remove_key`: tell the tables that use the neighbour, and take it off the list. The locks of
the neighbour and its block of the pool are left as they are. -/
def removeKey (react : Reaction) (key : ℕ) : NbrTables α :=
  let s := s.allTables.foldl (fun s table ↦ s.callCallback react key table) s
  { s with
    usedMap := update s.usedMap key 0
    nbrTableKeys := listRemove s.nbrTableKeys key }

/-- The search for the unlocked key that the fewest tables use, the oldest of those; it stops at
a key that no table uses. -/
def leastUsedKey : List ℕ → Option (ℕ × ℕ) → Option ℕ
  | [], leastUsed => leastUsed.map Prod.fst
  | key :: keys, leastUsed =>
    if s.lockedMap key ≠ 0 then leastUsedKey keys leastUsed
    else
      let count := usedCount (s.usedMap key)
      if leastUsed.all fun least ↦ count < least.2 then
        if count = 0 then some key else leastUsedKey keys (some (key, count))
      else leastUsedKey keys leastUsed

/-- The last part of `nbr_table_allocate`: reuse the key found, if there is one. -/
def reuseLeastUsed (react : Reaction) : Option (ℕ × NbrTables α) :=
  (s.leastUsedKey s.nbrTableKeys none).map fun key ↦ (key, s.removeKey react key)

/-- `nbr_table_allocate`. The answer of the removal policy is `removable`: `none` in a build
without one, `some none` when it names no neighbour. -/
def nbrTableAllocate (removable : Option (Option Linkaddr)) (react : Reaction) :
    Option (ℕ × NbrTables α) :=
  match s.neighborAddrMem.alloc with
  | some (key, mem) => some (key, { s with neighborAddrMem := mem })
  | none =>
    match removable with
    | some none => none
    | some (some lladdr) =>
      match s.indexFromLladdr (some lladdr) with
      | some index =>
        -- the policy may have a locked neighbour deleted
        let s := { s with lockedMap := update s.lockedMap index 0 }
        some (index, s.removeKey react index)
      | none => s.reuseLeastUsed react
    | none => s.reuseLeastUsed react

def nbrTableRegister (table : ℕ) (callback : Bool) : Bool × NbrTables α :=
  if s.allTables.length < maxNumTables then
    (true, { s with
      table := update s.table table
        { s.table table with index := s.allTables.length, callback := callback }
      allTables := s.allTables ++ [table] })
  else (false, s)

/-- The last part of `nbr_table_add_lladdr`: clear the item and mark it used. -/
def useItem [Zero α] (table index : ℕ) : NbrTables α :=
  let cleared := update (s.table table).data index 0
  { s with
    table := update s.table table { s.table table with data := cleared }
    usedMap := (nbrSetBit s.usedMap (s.table table).index (some index) true).2 }

/-- The part of `nbr_table_add_lladdr` that puts a new key on the list. -/
def addKey (key : ℕ) (lladdr : Linkaddr) : NbrTables α :=
  { s with
    nbrTableKeys := listAdd s.nbrTableKeys key
    neighborAddrMem := s.neighborAddrMem.store key lladdr }

def nbrTableAddLladdr [Zero α] (table : ℕ) (lladdr : Option Linkaddr)
    (removable : Option (Option Linkaddr)) (react : Reaction) : Option ℕ × NbrTables α :=
  match s.indexFromLladdr lladdr with
  | some index => (some index, s.useItem table index)
  | none =>
    match s.nbrTableAllocate removable react with
    | none => (none, s)
    | some (key, s) => (some key, (s.addKey key (lladdr.getD linkaddrNull)).useItem table key)

def nbrTableUpdateLladdr (oldAddr : Option Linkaddr) (newAddr : Linkaddr)
    (removeIfDuplicate : Bool) (react : Reaction) : Bool × NbrTables α :=
  match s.indexFromLladdr oldAddr with
  | none => (false, s)
  | some index =>
    match s.indexFromLladdr (some newAddr) with
    | some newIndex =>
      if newIndex = index then (true, s)
      else if removeIfDuplicate then (false, s.removeKey react index)
      else (false, s)
    | none => (true, { s with neighborAddrMem := s.neighborAddrMem.store index newAddr })

def uses (table item : ℕ) : Bool := nbrGetBit s.usedMap (s.table table).index (some item)

/-- `nbr_table_next`: go down the rest of the list to an item that the table uses. -/
def nbrTableNext (table : ℕ) : Option ℕ → Option ℕ
  | none => none
  | some item => (listFollowing s.nbrTableKeys item).find? (s.uses table)

def nbrTableHead (table : ℕ) : Option ℕ :=
  let item := s.nbrTableKeys.head?
  if nbrGetBit s.usedMap (s.table table).index item then item else s.nbrTableNext table item

def nbrTableGetFromLladdr (table : ℕ) (lladdr : Option Linkaddr) : Option ℕ :=
  (s.indexFromLladdr lladdr).filter (s.uses table)

end

/-- The visits of a loop from an item on, down to the end of the table. -/
inductive Iterates (s : NbrTables α) (table : ℕ) : Option ℕ → List ℕ → Prop
  | done : Iterates s table none []
  | visit {item : ℕ} {items : List ℕ} (hrest : Iterates s table (s.nbrTableNext table item) items) :
      Iterates s table (some item) (item :: items)

def Allocated (s : NbrTables α) (key : ℕ) : Prop :=
  key < s.neighborAddrMem.num ∧ s.neighborAddrMem.count key ≠ 0

instance (s : NbrTables α) (key : ℕ) : Decidable (s.Allocated key) := instDecidableAnd

inductive Op
  | register (table : ℕ) (callback : Bool)
  | addLladdr (table : ℕ) (lladdr removable : Option Linkaddr) (react : Reaction)
  | remove (table : ℕ) (item : Option ℕ)
  | lock (table : ℕ) (item : Option ℕ)
  | unlock (table : ℕ) (item : Option ℕ)
  | updateLladdr (oldAddr : Option Linkaddr) (newAddr : Linkaddr) (removeIfDuplicate : Bool)
      (react : Reaction)

/-- The answer of the removal policy, in a build with one. -/
def answer (policy : Bool) (removable : Option Linkaddr) : Option (Option Linkaddr) :=
  if policy then some removable else none

/-- One call; the items that callers have are items of taken blocks. -/
def next [Zero α] (policy : Bool) (s : NbrTables α) : Op → Option (NbrTables α)
  | .register table callback => some (s.nbrTableRegister table callback).2
  | .addLladdr table lladdr removable react =>
    some (s.nbrTableAddLladdr table lladdr (answer policy removable) react).2
  | .remove table item =>
    if ∀ i ∈ item, s.Allocated i then some (s.nbrTableRemove table item).2 else none
  | .lock table item =>
    if ∀ i ∈ item, s.Allocated i then some (s.nbrTableLock table item).2 else none
  | .unlock table item =>
    if ∀ i ∈ item, s.Allocated i then some (s.nbrTableUnlock table item).2 else none
  | .updateLladdr oldAddr newAddr removeIfDuplicate react =>
    some (s.nbrTableUpdateLladdr oldAddr newAddr removeIfDuplicate react).2

end NbrTables

end ContikiMaster.Net
