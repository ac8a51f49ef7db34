import ContikiMaster.Lib.Memory
import ContikiMaster.Routing.Send

/-!
# Collected data along a route

A node encodes its strength vector and itself, every forwarding node counts itself in and
appends its number, and the coordinator reads both back. A hop writes past the end of the
buffer exactly when the report does not fit.
-/

namespace ContikiMaster.Routing

open Tsch Lib
open List hiding Vector

/-- What the coordinator prints: the route up to itself, the reporting node, and the strengths. -/
structure CollectedReport where
  route : List ℕ
  rcvdFrom : ℕ
  strengths : List (ℕ × ℕ)
  deriving DecidableEq

def readByte {size : ℕ} (buffer : Vector ℕ size) (index : ℕ) : Except Fault ℕ :=
  if hindex : index < size then .ok buffer[index] else .error .invalidAccess

/-- The `memcpy` of the received data to the local array of the coordinator. -/
def copyReceived (actualData : Vector ℕ masterMsgLength) (rcvdAcdt : ActualData) :
    Except Fault (Vector ℕ masterMsgLength) :=
  if rcvdAcdt.dataLen ≤ maxExpectedSizeOfActualData then
    .ok (overwrite actualData 0 (rcvdAcdt.data.toList.take rcvdAcdt.dataLen))
  else .error .invalidAccess

/-- The branch of the coordinator in `on_received_actual_data`; `actualData` is what its local array
holds before. -/
def readActualData (actualData : Vector ℕ masterMsgLength) (rcvdAcdt : ActualData) :
    Except Fault CollectedReport := do
  let actualData ← copyReceived actualData rcvdAcdt
  let count ← readByte rcvdAcdt.data 0
  let pos := count * 3 + 1
  let numberOfNodes ← readByte actualData pos
  let route ← (range numberOfNodes).mapM fun i ↦ readByte actualData (pos + 1 + i)
  let rcvdFrom ← readByte rcvdAcdt.data (pos + 1)
  let strengths ← (range count).mapM fun k ↦ do
    let nodeId ← readByte rcvdAcdt.data (3 * k + 1)
    let low ← readByte rcvdAcdt.data (3 * k + 2)
    let high ← readByte rcvdAcdt.data (3 * k + 3)
    return (nodeId, low + 256 * high)
  return ⟨route, rcvdFrom, strengths⟩

/-- The packet that `master_routing_send_actual_data` builds in a local variable. -/
def encodeActualData (n : Node) (actualData : Vector ℕ maxExpectedSizeOfActualData) :
    Except Fault ActualData := do
  let (index, data) ← prepareStrengthVectorToSend n actualData
  let data ← copyBytes data index [1, n.nodeId % 256]
  return ⟨n.nodeId % 256, (index + 2) % 256, data⟩

/-- Collected data on its way: encoded at the origin, then forwarded. -/
def collect (origin : Node) (actualData : Vector ℕ maxExpectedSizeOfActualData)
    (forwarders : List Node) : Except Fault ActualData := do
  let rcvdAcdt ← encodeActualData origin actualData
  forwarders.foldlM (fun rcvdAcdt n ↦ forwardActualData n rcvdAcdt) rcvdAcdt

def strengthBytes (value : ℕ → ℕ) (count : ℕ) : List ℕ :=
  (range count).flatMap fun k ↦ [(k + 1) % 256, value k % 256, value k / 256]

/-- The bytes of a report: the number of strengths, the strengths, the number of nodes, the nodes. -/
def reportBytes (value : ℕ → ℕ) (count : ℕ) (route : List ℕ) : List ℕ :=
  (count % 256 :: strengthBytes value count) ++ (route.length % 256 :: route)

section Bytes

variable {value : ℕ → ℕ} {count : ℕ} {route : List ℕ}

theorem strengthBytes_succ : strengthBytes value (count + 1) =
    strengthBytes value count ++ [(count + 1) % 256, value count % 256, value count / 256] := by
  unfold strengthBytes
  rw [range_succ, flatMap_append]
  rfl

theorem length_strengthBytes : (strengthBytes value count).length = 3 * count := by
  induction count with
  | zero => rfl
  | succ count ih =>
    rw [strengthBytes_succ, length_append, ih]
    change 3 * count + 3 = _
    omega

theorem length_reportBytes : (reportBytes value count route).length = 3 * count + 2 + route.length := by
  unfold reportBytes
  rw [length_append, length_cons, length_cons, length_strengthBytes]
  omega

theorem reportBytes_zero (hpos : 0 < (reportBytes value count route).length) :
    (reportBytes value count route)[0] = count % 256 := rfl

theorem reportBytes_getElem_route {i : ℕ} (hi : i < route.length + 1)
    (hlt : 3 * count + 1 + i < (reportBytes value count route).length) :
    (reportBytes value count route)[3 * count + 1 + i] = (route.length % 256 :: route)[i] := by
  simp only [reportBytes]
  rw [getElem_append_right (by rw [length_cons, length_strengthBytes]; omega)]
  congr 1
  rw [length_cons, length_strengthBytes]
  omega

theorem strengthBytes_getElem {k : ℕ} (hk : k < count) {j : ℕ} (hj : j < 3)
    (hlt : 3 * k + j < (strengthBytes value count).length) :
    (strengthBytes value count)[3 * k + j] = [(k + 1) % 256, value k % 256, value k / 256][j] := by
  induction count with
  | zero => omega
  | succ count ih =>
    simp only [strengthBytes_succ]
    by_cases heq : k = count
    · subst heq
      rw [getElem_append_right (by rw [length_strengthBytes]; omega)]
      congr 1
      rw [length_strengthBytes]
      omega
    · rw [getElem_append_left (by rw [length_strengthBytes]; omega)]
      exact ih (by omega) _

theorem reportBytes_getElem_strength {k : ℕ} (hk : k < count) {j : ℕ} (hj : j < 3)
    (hlt : 3 * k + j + 1 < (reportBytes value count route).length) :
    (reportBytes value count route)[3 * k + j + 1] =
      [(k + 1) % 256, value k % 256, value k / 256][j] := by
  simp only [reportBytes]
  rw [getElem_append_left (by rw [length_cons, length_strengthBytes]; omega), getElem_cons_succ]
  exact strengthBytes_getElem hk hj _

theorem reportBytes_extend {node : ℕ} (hroute : route.length + 1 < 256) :
    (reportBytes value count route).set (3 * count + 1) (route.length + 1) ++ [node] =
      reportBytes value count (route ++ [node]) := by
  have hlength : (count % 256 :: strengthBytes value count).length = 3 * count + 1 := by
    rw [length_cons, length_strengthBytes]
  unfold reportBytes
  rw [← hlength, set_append_right _ _ le_rfl, Nat.sub_self, set_cons_zero,
    append_assoc, length_append, length_singleton, Nat.mod_eq_of_lt hroute]
  rfl

end Bytes

/-! ## Encoding and forwarding -/

section Hops

variable {n : Node} {data data' : Vector ℕ maxExpectedSizeOfActualData} {index : ℕ}
  {bytes : List ℕ} {value : ℕ → ℕ} {count : ℕ} {route : List ℕ} {rcvdAcdt actualData : ActualData}

theorem copyBytes_eq_ok_iff : copyBytes data index bytes = .ok data' ↔
    index + bytes.length ≤ maxExpectedSizeOfActualData ∧ data' = overwrite data index bytes := by
  unfold copyBytes
  split
  · rename_i hlong
    exact iff_of_false (fun heq ↦ by cases heq) fun hboth ↦ absurd hboth.1 (not_le.mpr hlong)
  · rename_i hfits
    exact ⟨fun heq ↦ ⟨not_lt.mp hfits, (Except.ok.inj heq).symm⟩,
      fun hboth ↦ congrArg Except.ok hboth.2.symm⟩

def fixedPoint (n : Node) (k : ℕ) : ℕ := strengthValue (n.strengthVector (k + 1))

theorem prepareLoop_startsWith (value : ℕ → ℕ) (hdata : StartsWith data [count % 256]) {k : ℕ}
    (hfits : 3 * k + 1 ≤ maxExpectedSizeOfActualData) :
    ∃ data', (range k).foldlM (fun data k ↦ copyBytes data (3 * k + 1)
        [(k + 1) % 256, value k % 256, value k / 256]) data = .ok data' ∧
      StartsWith data' (count % 256 :: strengthBytes value k) := by
  induction k with
  | zero => exact ⟨data, rfl, hdata⟩
  | succ k ih =>
    obtain ⟨data', hloop, hstarts⟩ := ih (by omega)
    have hlength : (count % 256 :: strengthBytes value k).length = 3 * k + 1 := by
      rw [length_cons, length_strengthBytes]
    have hmore : (count % 256 :: strengthBytes value k).length +
        [(k + 1) % 256, value k % 256, value k / 256].length ≤ maxExpectedSizeOfActualData := by
      rw [hlength]
      exact hfits
    have hnext := hstarts.append hmore
    rw [hlength] at hnext hmore
    refine ⟨overwrite data' (3 * k + 1) [(k + 1) % 256, value k % 256, value k / 256], ?_, ?_⟩
    · rw [range_succ, foldlM_append, hloop]
      change (copyBytes data' (3 * k + 1) _ >>= fun s ↦ pure s) = _
      rw [copyBytes_eq_ok_iff.mpr ⟨hmore, rfl⟩]
      rfl
    · rw [strengthBytes_succ]
      exact hnext

theorem le_of_prepareLoop (value : ℕ → ℕ) {k : ℕ}
    (hloop : (range k).foldlM (fun data k ↦ copyBytes data (3 * k + 1)
      [(k + 1) % 256, value k % 256, value k / 256]) data = .ok data') :
    3 * k + 1 ≤ maxExpectedSizeOfActualData := by
  cases k with
  | zero => decide
  | succ k =>
    rw [range_succ, foldlM_append] at hloop
    obtain ⟨u, -, hlast⟩ := bind_eq_ok hloop
    obtain ⟨w, hcopy, -⟩ := bind_eq_ok hlast
    exact (copyBytes_eq_ok_iff.mp hcopy).1

theorem encodeActualData_startsWith (n : Node) (data : Vector ℕ maxExpectedSizeOfActualData)
    (hfits : 3 * n.highestNodeID + 3 ≤ maxExpectedSizeOfActualData) :
    ∃ data', encodeActualData n data = .ok ⟨n.nodeId % 256, 3 * n.highestNodeID + 3, data'⟩ ∧
      StartsWith data' (reportBytes (fixedPoint n) n.highestNodeID [n.nodeId % 256]) := by
  have hfirst : copyBytes data 0 [n.highestNodeID % 256] =
      .ok (overwrite data 0 [n.highestNodeID % 256]) :=
    copyBytes_eq_ok_iff.mpr ⟨show 0 + 1 ≤ 57 by decide, rfl⟩
  have hstart : StartsWith (overwrite data 0 [n.highestNodeID % 256]) [n.highestNodeID % 256] :=
    (StartsWith.nil data).append (show 0 + 1 ≤ 57 by decide)
  obtain ⟨data', hloop, hstarts⟩ := prepareLoop_startsWith (fixedPoint n) hstart
    (by omega : 3 * n.highestNodeID + 1 ≤ maxExpectedSizeOfActualData)
  have hprepare : prepareStrengthVectorToSend n data = .ok (3 * n.highestNodeID + 1, data') := by
    unfold prepareStrengthVectorToSend
    rw [hfirst]
    change ((range n.highestNodeID).foldlM (fun data k ↦ copyBytes data (3 * k + 1)
      [(k + 1) % 256, fixedPoint n k % 256, fixedPoint n k / 256])
      (overwrite data 0 [n.highestNodeID % 256]) >>= fun data ↦ _) = _
    rw [hloop]
    change Except.ok ((3 * n.highestNodeID + 1) % 256, data') = _
    rw [Nat.mod_eq_of_lt (by unfold maxExpectedSizeOfActualData at hfits; omega)]
  have hlength : (n.highestNodeID % 256 :: strengthBytes (fixedPoint n) n.highestNodeID).length =
      3 * n.highestNodeID + 1 := by
    rw [length_cons, length_strengthBytes]
  have hmore : 3 * n.highestNodeID + 1 + [1, n.nodeId % 256].length ≤
      maxExpectedSizeOfActualData := hfits
  have hnext := hstarts.append (hlength.symm ▸ hmore)
  rw [hlength] at hnext
  refine ⟨_, ?_, hnext⟩
  unfold encodeActualData
  rw [hprepare]
  change (copyBytes data' (3 * n.highestNodeID + 1) [1, n.nodeId % 256] >>= fun data ↦ _) = _
  rw [copyBytes_eq_ok_iff.mpr ⟨hmore, rfl⟩]
  change Except.ok (⟨n.nodeId % 256, (3 * n.highestNodeID + 1 + 2) % 256, _⟩ : ActualData) = _
  have hlen : (3 * n.highestNodeID + 1 + 2) % 256 = 3 * n.highestNodeID + 3 :=
    Nat.mod_eq_of_lt (by unfold maxExpectedSizeOfActualData at hfits; omega)
  rw [hlen]

/-- The origin hands what it encodes to its best node. -/
theorem masterRoutingSendActualData_eq {env : OutputEnv} (hbest : n.bestNode ≠ 0) :
    masterRoutingSendActualData n env =
      encodeActualData n (Vector.replicate _ 0) >>= fun actualData ↦
        (unicastSend { n with mrp := { n.mrp with data := .actualData actualData } } env).map
          (Prod.map some id) := by
  unfold masterRoutingSendActualData encodeActualData
  rw [if_neg hbest]
  cases prepareStrengthVectorToSend n (Vector.replicate _ 0) with
  | error fault => rfl
  | ok prepared =>
    obtain ⟨index, data⟩ := prepared
    change (copyBytes data index _ >>= _) = (copyBytes data index _ >>= _) >>= _
    cases copyBytes data index [1, n.nodeId % 256] with
    | error fault => rfl
    | ok data =>
      change (unicastSend _ env >>= _) = (unicastSend _ env).map _
      cases unicastSend _ env <;> rfl

theorem le_of_encodeActualData (hcall : encodeActualData n data = .ok actualData) :
    3 * n.highestNodeID + 3 ≤ maxExpectedSizeOfActualData := by
  obtain ⟨⟨index, data'⟩, hprepare, hrest⟩ := bind_eq_ok hcall
  obtain ⟨first, -, hprepare⟩ := bind_eq_ok hprepare
  obtain ⟨last, hloop, hdone⟩ := bind_eq_ok hprepare
  have hle := le_of_prepareLoop (fixedPoint n) hloop
  cases hdone
  obtain ⟨data'', hcopy, -⟩ := bind_eq_ok hrest
  have hfits := (copyBytes_eq_ok_iff.mp hcopy).1
  rw [Nat.mod_eq_of_lt (by unfold maxExpectedSizeOfActualData at hle; omega)] at hfits
  exact hfits

theorem forwardActualData_eq (n : Node)
    (hstarts : StartsWith rcvdAcdt.data (reportBytes value count route)) :
    StartsWith (overwrite rcvdAcdt.data (3 * count + 1) [route.length + 1])
        ((reportBytes value count route).set (3 * count + 1) (route.length + 1)) ∧
      forwardActualData n rcvdAcdt =
        (copyBytes (overwrite rcvdAcdt.data (3 * count + 1) [route.length + 1])
          (3 * count + 2 + route.length) [n.nodeId % 256] >>= fun data ↦
            .ok { rcvdAcdt with dataLen := (rcvdAcdt.dataLen + 1) % 256, data := data }) := by
  have hle := hstarts.length_le
  rw [length_reportBytes] at hle
  have hsize : maxExpectedSizeOfActualData = 57 := rfl
  have hcount : rcvdAcdt.data.getD 0 0 = count := by
    rw [hstarts.getD (by rw [length_reportBytes]; omega), reportBytes_zero]
    exact Nat.mod_eq_of_lt (by omega)
  have hpos : rcvdAcdt.data.getD 0 0 * 3 + 1 = 3 * count + 1 := by omega
  have hroute : rcvdAcdt.data.getD (3 * count + 1) 0 = route.length := by
    rw [hstarts.getD (by rw [length_reportBytes]; omega),
      reportBytes_getElem_route (i := 0) (by omega), getElem_cons_zero]
    exact Nat.mod_eq_of_lt (by omega)
  refine ⟨hstarts.set _ _, ?_⟩
  unfold forwardActualData
  rw [hpos]
  dsimp only
  rw [hroute, Nat.mod_eq_of_lt (by omega : route.length + 1 < 256)]
  have hfits : 3 * count + 1 + [route.length + 1].length ≤ maxExpectedSizeOfActualData := by
    rw [length_singleton]
    omega
  have hindex : 3 * count + 1 + (route.length + 1) = 3 * count + 2 + route.length := by omega
  rw [copyBytes_eq_ok_iff.mpr ⟨hfits, rfl⟩, hindex]
  rfl

theorem forwardActualData_startsWith (n : Node)
    (hstarts : StartsWith rcvdAcdt.data (reportBytes value count route))
    (hfits : 3 * count + 3 + route.length ≤ maxExpectedSizeOfActualData) :
    ∃ data', forwardActualData n rcvdAcdt =
        .ok { rcvdAcdt with dataLen := (rcvdAcdt.dataLen + 1) % 256, data := data' } ∧
      StartsWith data' (reportBytes value count (route ++ [n.nodeId % 256])) := by
  obtain ⟨hset, heq⟩ := forwardActualData_eq n hstarts
  have hlength : ((reportBytes value count route).set (3 * count + 1) (route.length + 1)).length =
      3 * count + 2 + route.length := by
    rw [length_set, length_reportBytes]
  have hmore : 3 * count + 2 + route.length + [n.nodeId % 256].length ≤
      maxExpectedSizeOfActualData := by
    rw [length_singleton]
    omega
  have hnext := hset.append (hlength.symm ▸ hmore)
  rw [hlength, reportBytes_extend (by unfold maxExpectedSizeOfActualData at hfits; omega)] at hnext
  refine ⟨_, ?_, hnext⟩
  rw [heq, copyBytes_eq_ok_iff.mpr ⟨hmore, rfl⟩]
  rfl

theorem le_of_forwardActualData (hstarts : StartsWith rcvdAcdt.data (reportBytes value count route))
    (hcall : forwardActualData n rcvdAcdt = .ok actualData) :
    3 * count + 3 + route.length ≤ maxExpectedSizeOfActualData := by
  rw [(forwardActualData_eq n hstarts).2] at hcall
  obtain ⟨data', hcopy, -⟩ := bind_eq_ok hcall
  have hle := (copyBytes_eq_ok_iff.mp hcopy).1
  rw [length_singleton] at hle
  omega

end Hops

section Reading

variable {value : ℕ → ℕ} {count : ℕ} {route : List ℕ} {rcvdAcdt : ActualData}
  {actualData : Vector ℕ masterMsgLength}

theorem readByte_startsWith {size : ℕ} {buffer : Vector ℕ size} {items : List ℕ}
    (hstarts : StartsWith buffer items) {index : ℕ} (hindex : index < items.length) :
    readByte buffer index = .ok items[index] := by
  unfold readByte
  rw [dif_pos (hindex.trans_le hstarts.length_le), hstarts.getElem index hindex]

theorem copyReceived_startsWith (actualData : Vector ℕ masterMsgLength)
    (hstarts : StartsWith rcvdAcdt.data (reportBytes value count route))
    (hlen : rcvdAcdt.dataLen = (reportBytes value count route).length) :
    ∃ copied, copyReceived actualData rcvdAcdt = .ok copied ∧
      StartsWith copied (reportBytes value count route) := by
  have hfits : rcvdAcdt.dataLen ≤ maxExpectedSizeOfActualData := by
    rw [hlen]
    exact hstarts.length_le
  refine ⟨overwrite actualData 0 (reportBytes value count route), ?_, ?_⟩
  · unfold copyReceived
    rw [if_pos hfits, hlen, hstarts.toList_take]
  · refine (StartsWith.nil actualData).append (le_trans ?_ (show 57 ≤ masterMsgLength by decide))
    rw [length_nil, Nat.zero_add]
    exact hstarts.length_le

theorem readActualData_eq (hstarts : StartsWith rcvdAcdt.data (reportBytes value count route))
    (hlen : rcvdAcdt.dataLen = (reportBytes value count route).length) {first : ℕ} {rest : List ℕ}
    (hroute : route = first :: rest) : readActualData actualData rcvdAcdt =
      .ok ⟨route, first, (range count).map fun k ↦ (k + 1, value k)⟩ := by
  obtain ⟨copied, hcopy, hcopied⟩ := copyReceived_startsWith actualData hstarts hlen
  have hsize := hstarts.length_le
  have hlength : (reportBytes value count route).length = 3 * count + 2 + route.length :=
    length_reportBytes
  have hbound : maxExpectedSizeOfActualData = 57 := rfl
  have hcount : readByte rcvdAcdt.data 0 = .ok count := by
    rw [readByte_startsWith hstarts (by omega), reportBytes_zero, Nat.mod_eq_of_lt (by omega)]
  have hpos : count * 3 + 1 = 3 * count + 1 := by omega
  have hnumber : readByte copied (3 * count + 1) = .ok route.length := by
    rw [readByte_startsWith hcopied (by omega), reportBytes_getElem_route (i := 0) (by omega),
      getElem_cons_zero, Nat.mod_eq_of_lt (by omega)]
  have hnodes : (range route.length).mapM (fun i ↦ readByte copied (3 * count + 1 + 1 + i)) =
      .ok route := by
    have hmap : (range route.length).map (fun i ↦ route.getD i 0) = route :=
      ext_getElem (by simp) fun i _ hi ↦ by
        rw [getElem_map, getElem_range, getD_eq_getElem _ _ hi]
    rw [mapM_eq_ok fun i hi ↦ ?_, hmap]
    have hlt := mem_range.mp hi
    rw [show 3 * count + 1 + 1 + i = 3 * count + 1 + (i + 1) by omega,
      readByte_startsWith hcopied (by omega), reportBytes_getElem_route (by omega),
      getElem_cons_succ, getD_eq_getElem _ _ hlt]
  have hfrom : readByte rcvdAcdt.data (3 * count + 1 + 1) = .ok first := by
    subst hroute
    rw [readByte_startsWith hstarts (by rw [hlength, length_cons]; omega),
      reportBytes_getElem_route (by rw [length_cons]; omega)]
    rfl
  have hbyte : ∀ k < count, ∀ (j : ℕ) (hj : j < 3), readByte rcvdAcdt.data (3 * k + j + 1) =
      .ok ([(k + 1) % 256, value k % 256, value k / 256][j]) := fun k hk j hj ↦ by
    rw [readByte_startsWith hstarts (by omega), reportBytes_getElem_strength hk hj]
  have hstrengths : (range count).mapM (fun k ↦ do
      let nodeId ← readByte rcvdAcdt.data (3 * k + 1)
      let low ← readByte rcvdAcdt.data (3 * k + 2)
      let high ← readByte rcvdAcdt.data (3 * k + 3)
      return (nodeId, low + 256 * high)) = .ok ((range count).map fun k ↦ (k + 1, value k)) := by
    refine mapM_eq_ok fun k hk ↦ ?_
    have hlt := mem_range.mp hk
    have hnode : readByte rcvdAcdt.data (3 * k + 1) = .ok ((k + 1) % 256) := hbyte k hlt 0 (by omega)
    have hlow : readByte rcvdAcdt.data (3 * k + 2) = .ok (value k % 256) := hbyte k hlt 1 (by omega)
    have hhigh : readByte rcvdAcdt.data (3 * k + 3) = .ok (value k / 256) := hbyte k hlt 2 (by omega)
    rw [hnode, hlow, hhigh]
    change Except.ok ((k + 1) % 256, value k % 256 + 256 * (value k / 256)) = _
    rw [Nat.mod_add_div, Nat.mod_eq_of_lt (by omega)]
  unfold readActualData
  simp only [hcopy, hcount, hpos, hnumber, hnodes, hfrom, hstrengths, ok_bind]
  rfl

end Reading

section RoundTrip

variable {origin : Node} {forwarders : List Node}

theorem forwardLoop_startsWith (forwarders : List Node) {value : ℕ → ℕ} {count : ℕ}
    {route : List ℕ} (rcvdAcdt : ActualData)
    (hstarts : StartsWith rcvdAcdt.data (reportBytes value count route))
    (hlen : rcvdAcdt.dataLen = (reportBytes value count route).length)
    (hfits : 3 * count + 2 + route.length + forwarders.length ≤ maxExpectedSizeOfActualData) :
    ∃ result, forwarders.foldlM (fun rcvdAcdt n ↦ forwardActualData n rcvdAcdt) rcvdAcdt =
        .ok result ∧ StartsWith result.data
        (reportBytes value count (route ++ forwarders.map fun n ↦ n.nodeId % 256)) ∧
      result.dataLen =
        (reportBytes value count (route ++ forwarders.map fun n ↦ n.nodeId % 256)).length := by
  induction forwarders generalizing rcvdAcdt route with
  | nil =>
    rw [map_nil, append_nil]
    exact ⟨rcvdAcdt, rfl, hstarts, hlen⟩
  | cons n forwarders ih =>
    rw [length_cons] at hfits
    obtain ⟨data', hforward, hnext⟩ := forwardActualData_startsWith n hstarts (by omega)
    have hsmall : 3 * count + 2 + route.length + 1 < 256 := by
      unfold maxExpectedSizeOfActualData at hfits
      omega
    have hlen' : (rcvdAcdt.dataLen + 1) % 256 =
        (reportBytes value count (route ++ [n.nodeId % 256])).length := by
      rw [length_reportBytes] at hlen
      rw [hlen, Nat.mod_eq_of_lt hsmall, length_reportBytes, length_append, length_singleton]
      omega
    have hfits' : 3 * count + 2 + (route ++ [n.nodeId % 256]).length + forwarders.length ≤
        maxExpectedSizeOfActualData := by
      rw [length_append, length_singleton]
      omega
    obtain ⟨result, hloop, hresult⟩ := ih
      { rcvdAcdt with dataLen := (rcvdAcdt.dataLen + 1) % 256, data := data' } hnext hlen' hfits'
    rw [append_assoc] at hresult
    refine ⟨result, ?_, hresult⟩
    rw [foldlM_cons, hforward]
    exact hloop

/-- As long as the report fits, the coordinator reads back what the origin encoded, the route in the
order of the hops, and the origin, whatever local memory holds. -/
theorem collect_readActualData
    (hfits : 3 * origin.highestNodeID + 3 + forwarders.length ≤ maxExpectedSizeOfActualData)
    (hids : ∀ n ∈ origin :: forwarders, n.nodeId < 256)
    (sent : Vector ℕ maxExpectedSizeOfActualData) (received : Vector ℕ masterMsgLength) :
    ∃ rcvdAcdt, collect origin sent forwarders = .ok rcvdAcdt ∧
      readActualData received rcvdAcdt = .ok
        { route := (origin :: forwarders).map Node.nodeId
          rcvdFrom := origin.nodeId
          strengths := (range origin.highestNodeID).map fun k ↦
            (k + 1, strengthValue (origin.strengthVector (k + 1))) } := by
  obtain ⟨data, hencode, hstarts⟩ := encodeActualData_startsWith origin sent (by omega)
  have hmap : (origin :: forwarders).map (fun n ↦ n.nodeId % 256) =
      (origin :: forwarders).map Node.nodeId :=
    map_congr_left fun n hn ↦ Nat.mod_eq_of_lt (hids n hn)
  have hlen : 3 * origin.highestNodeID + 3 =
      (reportBytes (fixedPoint origin) origin.highestNodeID [origin.nodeId % 256]).length := by
    rw [length_reportBytes, length_singleton]
  obtain ⟨result, hloop, hresult, hlen⟩ := forwardLoop_startsWith forwarders
    ⟨origin.nodeId % 256, _, data⟩ hstarts hlen
    (by rw [length_singleton]; omega)
  refine ⟨result, ?_, ?_⟩
  · unfold collect
    rw [hencode]
    exact hloop
  · rw [map_cons] at hmap
    rw [singleton_append, hmap] at hresult hlen
    exact readActualData_eq hresult hlen rfl

theorem collect_readActualData_three :
    ∃ rcvdAcdt, collect { Node.zero 2 5 8 (Mac.zero smallConfig) with highestNodeID := 3 }
        (Vector.replicate _ 0) [Node.zero 3 5 8 (Mac.zero smallConfig)] = .ok rcvdAcdt ∧
      readActualData (Vector.replicate _ 0) rcvdAcdt = .ok
        { route := [2, 3], rcvdFrom := 2,
          strengths := (range 3).map fun k ↦ (k + 1, strengthValue 0) } :=
  collect_readActualData (by decide) (by decide) _ _

theorem highestNodeID_foldl (quotient : ℕ → ℕ → ℚ) (n : Node) (beacons : List Beacon) :
    (beacons.foldl (onReceivedNewBeacon quotient) n).highestNodeID =
      (beacons.map Beacon.nodeID).foldl max n.highestNodeID := by
  induction beacons generalizing n with
  | nil => rfl
  | cons beacon beacons ih => exact ih _

/-- The bytes of a report stay inside the array exactly when they are at most 57: three for each
node up to the highest one heard, three more, and one for each hop. -/
theorem collect_isOk_iff (quotient : ℕ → ℕ → ℚ) (beacons : List Beacon)
    (sent : Vector ℕ maxExpectedSizeOfActualData) :
    (∃ rcvdAcdt, collect (beacons.foldl (onReceivedNewBeacon quotient) origin) sent forwarders =
      .ok rcvdAcdt) ↔
    3 * (beacons.map Beacon.nodeID).foldl max origin.highestNodeID + 3 + forwarders.length ≤
      maxExpectedSizeOfActualData := by
  rw [← highestNodeID_foldl quotient origin beacons]
  set n := beacons.foldl (onReceivedNewBeacon quotient) origin
  constructor
  · rintro ⟨rcvdAcdt, hcollect⟩
    obtain ⟨first, hencode, hloop⟩ := bind_eq_ok hcollect
    have hle := le_of_encodeActualData hencode
    obtain ⟨data, hencode', hstarts⟩ := encodeActualData_startsWith n sent hle
    obtain rfl := Except.ok.inj (hencode.symm.trans hencode')
    -- the hops so far fit and have left the report of their route
    have hdone := foldlM_invariant_done
      (P := fun (done : List Node) (rcvdAcdt : ActualData) ↦
        StartsWith rcvdAcdt.data (reportBytes (fixedPoint n) n.highestNodeID
          (n.nodeId % 256 :: done.map fun n ↦ n.nodeId % 256)) ∧
        3 * n.highestNodeID + 3 + done.length ≤ maxExpectedSizeOfActualData)
      (fun done hop todo _ r r' hr hcall ↦ ?_) hloop ⟨hstarts, hle⟩
    · exact hdone.2
    · have hfits := le_of_forwardActualData hr.1 hcall
      obtain ⟨data', hforward, hnext⟩ := forwardActualData_startsWith hop hr.1 hfits
      obtain rfl := Except.ok.inj (hcall.symm.trans hforward)
      rw [map_append]
      refine ⟨hnext, ?_⟩
      rw [length_cons, length_map] at hfits
      rw [length_append, length_singleton]
      omega
  · intro hfits
    obtain ⟨data, hencode, hstarts⟩ := encodeActualData_startsWith n sent (by omega)
    have hlen : 3 * n.highestNodeID + 3 =
        (reportBytes (fixedPoint n) n.highestNodeID [n.nodeId % 256]).length := by
      rw [length_reportBytes, length_singleton]
    obtain ⟨result, hloop, -⟩ := forwardLoop_startsWith forwarders ⟨n.nodeId % 256, _, data⟩
      hstarts hlen (by rw [length_singleton]; omega)
    refine ⟨result, ?_⟩
    unfold collect
    rw [hencode]
    exact hloop

/-- Node 2 has heard node 19: its report of 60 bytes leaves the array at the origin. -/
theorem not_collect_nineteen :
    ¬ ∃ rcvdAcdt, collect ([⟨19, 1⟩].foldl (onReceivedNewBeacon fun _ _ ↦ 1)
      (Node.zero 2 20 8 (Mac.zero smallConfig))) (Vector.replicate _ 0) [] = .ok rcvdAcdt := by
  rintro ⟨rcvdAcdt, hcollect⟩
  obtain ⟨first, hencode, -⟩ := bind_eq_ok hcollect
  exact absurd (le_of_encodeActualData hencode) (by decide)

end RoundTrip

end ContikiMaster.Routing
