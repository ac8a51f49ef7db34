import ContikiMaster.Coap.BlockTurns

/-!
# Delivery of a representation

A transfer delivers the representation exactly if the first block holds all of it and
fits a chunk of the client, or the client asks for blocks that are no larger than the
first one was, as it counts them by its own size.
-/

namespace ContikiMaster.Coap

open Lib Sys List

variable {n : Nodes} {base : Message} {k : UInt32} {p : Progress}

/-- The size of the first block, whatever the representation: all of it where the resource is not
aware of blocks and none was asked for. -/
def Nodes.firstBlock (n : Nodes) (request : Message) : ℕ :=
  match askOf request with
  | none =>
    if n.resource.aware then n.serverConf.maxBlockSize.toNat else n.resource.representation.length
  | some (_, size) => min size.toNat n.serverConf.maxBlockSize.toNat

/-- The request asks for a block of an empty representation, and the resource is not aware of blocks:
the response says that the block is out of scope. -/
def Nodes.OutOfScope (n : Nodes) (request : Message) : Prop :=
  n.resource.representation = [] ∧ n.resource.aware = false ∧ (askOf request).isSome

/-- The representation is the first block and fits a chunk of the client, or it is longer than the first
block, the blocks of the client are not, and their numbers suffice. -/
def Nodes.Fitting (n : Nodes) (request : Message) : Prop :=
  if n.firstBlock request < n.resource.representation.length then
    n.clientConf.sizes.maxChunkSize ≤ n.firstBlock request ∧
      n.resource.representation.length ≤ 2 ^ 20 * n.clientConf.sizes.maxChunkSize
  else
    n.resource.representation.length ≤ n.clientConf.sizes.maxChunkSize ∧ ¬ n.OutOfScope request

theorem Nodes.next_first (hbase : n.Requests base) (hscope : ¬ n.OutOfScope base) :
    Progress.start.next (n.replyTo base 0) =
      ⟨1, 0, if n.firstBlock base < n.resource.representation.length then 1 else 0, 0,
        [(n.resource.representation.take (n.firstBlock base)).take
          n.clientConf.sizes.maxChunkSize]⟩ := by
  have hask : n.ask base 0 = askOf base := if_neg (by decide)
  unfold Nodes.replyTo Nodes.firstBlock
  rw [hask]
  cases haskOf : askOf base with
  | none =>
    rw [Resource.reply]
    dsimp only
    by_cases haware : n.resource.aware
    · rw [if_pos haware, if_pos haware]
      rfl
    · rw [if_neg haware, if_neg haware, if_neg (Nat.lt_irrefl _), take_length]
      rfl
  | some asked =>
    obtain ⟨num, size⟩ := asked
    have hset : base.IsOption BlockOption.block2.number := by
      by_contra hnot
      rw [askOf, if_neg hnot] at haskOf
      cases haskOf
    have hnum : num = 0 := by
      rw [askOf, if_pos hset] at haskOf
      rw [← (Prod.mk.inj (Option.some.inj haskOf)).1]
      exact (hbase.first hset).1
    have hzero : (0 : UInt32).toNat * size.toNat = 0 := Nat.zero_mul _
    have hinside : ¬ (n.resource.aware = false ∧ n.resource.representation.length ≤ 0) := by
      rintro ⟨haware, hlen⟩
      refine hscope ⟨length_eq_zero_iff.mp (Nat.le_zero.mp hlen), haware, ?_⟩
      rw [haskOf]
      rfl
    rw [Resource.reply_some, hnum]
    dsimp only
    rw [hzero, if_neg hinside, Nat.zero_add, drop_zero]
    rfl

theorem Nodes.next_outOfScope (hscope : n.OutOfScope base) :
    (Progress.start.next (n.replyTo base 0)).more = 0 ∧
      (Progress.start.next (n.replyTo base 0)).received =
        [(textBytes "BlockOutOfScope").take n.clientConf.sizes.maxChunkSize] := by
  obtain ⟨hempty, haware, hask⟩ := hscope
  obtain ⟨⟨num, size⟩, hasked⟩ := Option.isSome_iff_exists.mp hask
  have hfirst : n.ask base 0 = some (num, size) := (if_neg (by decide)).trans hasked
  have hlen : n.resource.representation.length ≤ num.toNat * size.toNat := by
    rw [hempty]
    exact Nat.zero_le _
  unfold Nodes.replyTo
  rw [hfirst, Resource.reply_some]
  dsimp only
  rw [if_pos ⟨haware, hlen⟩]
  exact ⟨rfl, rfl⟩

def Nodes.laterBlock (n : Nodes) : ℕ :=
  min n.clientConf.sizes.maxChunkSize n.serverConf.maxBlockSize.toNat

/-- The variables behind a later response, if the block is the one that was asked for. -/
def Nodes.advanced (n : Nodes) (p : Progress) : Progress :=
  let offset := p.blockNum.toNat * n.clientConf.sizes.maxChunkSize
  ⟨p.blockNum + 1, p.blockNum,
    if offset + n.laterBlock < n.resource.representation.length then 1 else 0, p.blockError,
    p.received ++ [(n.resource.representation.drop offset).take n.laterBlock]⟩

variable (base) in
/-- What the client reads of a later response. -/
theorem Nodes.Sized.replyTo_later (hn : n.Sized) (hpos : k ≠ 0) :
    let num := if k ≤ 0x0FFFFF then k else 0x0FFFFF
    let offset := num.toNat * n.clientConf.sizes.maxChunkSize
    (n.resource.representation.length ≤ offset ∧ (n.replyTo base k).block = none) ∨
      n.replyTo base k =
        ⟨some (num, if offset + n.laterBlock < n.resource.representation.length then 1 else 0),
          (n.resource.representation.drop offset).take n.laterBlock⟩ := by
  obtain ⟨hsize, -⟩ := hn.clientBlock_spec
  have hlt : 0 < k := UInt32.lt_iff_toNat_lt.mpr
    (Nat.pos_of_ne_zero fun hzero ↦ hpos (UInt32.toNat_inj.mp hzero))
  dsimp only
  generalize hnum : (if k ≤ 0x0FFFFF then k else 0x0FFFFF : UInt32) = num
  have hask : n.ask base k = some (num, n.clientBlock) := by
    rw [Nodes.ask, if_pos hlt, hnum]
  unfold Nodes.replyTo Nodes.laterBlock
  rw [hask, Resource.reply_some]
  dsimp only
  rw [hsize]
  by_cases hbehind : n.resource.aware = false ∧
      n.resource.representation.length ≤ num.toNat * n.clientConf.sizes.maxChunkSize
  · rw [if_pos hbehind]
    exact .inl ⟨hbehind.2, rfl⟩
  · rw [if_neg hbehind]
    refine .inr ?_
    dsimp only
    rw [take_take, min_eq_right (min_le_left _ _)]

variable (base) in
/-- A later response advances the transfer, or it counts as an error. -/
theorem Nodes.Sized.next_later (hn : n.Sized) (hp : p.Steady) (hpos : p.blockNum ≠ 0) :
    p.next (n.replyTo base p.blockNum) = n.advanced p ∧ p.blockNum.toNat < 2 ^ 20 ∨
      (p.next (n.replyTo base p.blockNum)).blockNum = p.blockNum ∧
      (p.next (n.replyTo base p.blockNum)).blockError = p.blockError + 1 ∧
      (p.next (n.replyTo base p.blockNum)).received = p.received ∧
      (p.blockNum.toNat < 2 ^ 20 → n.resource.representation.length ≤
        p.blockNum.toNat * n.clientConf.sizes.maxChunkSize) := by
  have hlast : (0x0FFFFF : UInt32).toNat = 2 ^ 20 - 1 := rfl
  have hstale : p.resBlock ≠ p.blockNum := by
    intro hsame
    have hsteady := hp.resBlock hpos
    rw [hsame] at hsteady
    omega
  rcases hn.replyTo_later base hpos with ⟨hbehind, hnone⟩ | hreply
  · refine .inr ?_
    unfold Progress.next
    rw [hnone]
    dsimp only [Option.map_none, Option.getD_none]
    rw [if_neg hstale]
    refine ⟨rfl, rfl, rfl, fun hlt ↦ ?_⟩
    rwa [if_pos (UInt32.le_iff_toNat_le.mpr (by omega))] at hbehind
  · unfold Progress.next
    rw [hreply]
    dsimp only [Option.map_some, Option.getD_some]
    by_cases hle : p.blockNum ≤ 0x0FFFFF
    · have hle' := UInt32.le_iff_toNat_le.mp hle
      rw [if_pos hle, if_pos rfl]
      exact .inl ⟨rfl, by omega⟩
    · have hgt := UInt32.lt_iff_toNat_lt.mp (UInt32.not_le.mp hle)
      have hwrong : (0x0FFFFF : UInt32) ≠ p.blockNum := by
        rintro hsame
        rw [← hsame] at hgt
        exact absurd hgt (Nat.lt_irrefl _)
      rw [if_neg hle, if_neg hwrong]
      exact .inr ⟨rfl, rfl, rfl, fun hlt ↦ by omega⟩

/-- The blocks so far are a part of the representation, and it goes on. -/
structure Nodes.Prefixed (n : Nodes) (p : Progress) : Prop where
  steady : p.Steady
  later : p.blockNum ≠ 0
  blockError : p.blockError = 0
  received : p.received.flatten =
    n.resource.representation.take (p.blockNum.toNat * n.clientConf.sizes.maxChunkSize)
  rest : p.blockNum.toNat * n.clientConf.sizes.maxChunkSize < n.resource.representation.length

theorem Nodes.Sized.exists_delivered (hn : n.Sized) (hbase : n.Requests base)
    (hblock : n.clientConf.sizes.maxChunkSize ≤ n.serverConf.maxBlockSize.toNat)
    (hlen : n.resource.representation.length ≤ 2 ^ 20 * n.clientConf.sizes.maxChunkSize)
    (hp : n.Prefixed p) :
    ∃ fuel q, loop (n.replyTurn base) fuel p = some q ∧ q.more = 0 ∧ q.blockError = 0 ∧
      q.received.flatten = n.resource.representation := by
  have hchunk : 0 < n.clientConf.sizes.maxChunkSize := by
    obtain ⟨e, -, hsize⟩ := hn.clientBlock
    rw [hsize]
    exact Nat.two_pow_pos _
  generalize hd : n.resource.representation.length -
    p.blockNum.toNat * n.clientConf.sizes.maxChunkSize = d
  induction d using Nat.strong_induction_on generalizing p with
  | _ d ih =>
    have hrest := hp.rest
    have hlt : p.blockNum.toNat < 2 ^ 20 := Nat.lt_of_mul_lt_mul_right (hrest.trans_le hlen)
    have hnext : p.next (n.replyTo base p.blockNum) = n.advanced p := by
      rcases hn.next_later base hp.steady hp.later with ⟨hnext, -⟩ | ⟨-, -, -, hbehind⟩
      · exact hnext
      · exact absurd (hbehind hlt) (not_le.mpr hrest)
    have hsize : n.laterBlock = n.clientConf.sizes.maxChunkSize := min_eq_left hblock
    have hnum := p.toNat_blockNum_succ hlt.le
    have hreceived : (n.advanced p).received.flatten = n.resource.representation.take
        ((p.blockNum.toNat + 1) * n.clientConf.sizes.maxChunkSize) := by
      change (p.received ++ [_]).flatten = _
      rw [flatten_append, hp.received, hsize, flatten_singleton, Nat.succ_mul, take_add]
    have hnoError : (n.advanced p).blockError = 0 := hp.blockError
    have hturn : n.replyTurn base p = if (n.advanced p).more ≠ 0 ∧
        (n.advanced p).blockError < coapMaxAttempts then .goesOn (n.advanced p)
        else .returns (n.advanced p) := by
      rw [Nodes.replyTurn, Progress.resume_eq, hnext]
    have hmore : (n.advanced p).more = if p.blockNum.toNat * n.clientConf.sizes.maxChunkSize +
        n.clientConf.sizes.maxChunkSize < n.resource.representation.length then 1 else 0 := by
      unfold Nodes.advanced
      dsimp only
      rw [hsize]
    by_cases hend : p.blockNum.toNat * n.clientConf.sizes.maxChunkSize +
        n.clientConf.sizes.maxChunkSize < n.resource.representation.length
    · rw [if_pos hend] at hmore
      rw [if_pos ⟨by rw [hmore]; decide, by rw [hnoError]; decide⟩] at hturn
      have hadvanced : n.Prefixed (n.advanced p) := by
        refine ⟨hnext ▸ hp.steady.next hbase, ?_, hnoError, ?_, ?_⟩
        · intro hzero
          have hzero' := congrArg UInt32.toNat hzero
          change (p.blockNum + 1).toNat = 0 at hzero'
          omega
        · rw [hreceived]
          change _ = take ((p.blockNum + 1).toNat * _) _
          rw [hnum]
        · change (p.blockNum + 1).toNat * _ < _
          rw [hnum, Nat.succ_mul]
          exact hend
      have hless : n.resource.representation.length -
          (n.advanced p).blockNum.toNat * n.clientConf.sizes.maxChunkSize < d := by
        change _ - (p.blockNum + 1).toNat * _ < d
        rw [hnum, Nat.succ_mul]
        omega
      obtain ⟨fuel, q, hloop, hdone⟩ := ih _ hless hadvanced rfl
      exact ⟨fuel + 1, q, (loop_goesOn hturn).trans hloop, hdone⟩
    · rw [if_neg hend] at hmore
      rw [if_neg fun h ↦ h.1 hmore] at hturn
      refine ⟨1, n.advanced p, loop_returns hturn, hmore, hnoError, ?_⟩
      rw [hreceived, Nat.succ_mul]
      exact take_of_length_le (not_lt.mp hend)

/-- What is so behind the first block where the transfer cannot deliver: an error stays, or the number
of bytes lags behind. -/
structure Nodes.Lagging (n : Nodes) (base : Message) (p : Progress) : Prop where
  steady : p.Steady
  later : p.blockNum ≠ 0
  attempts : p.blockError < coapMaxAttempts
  lags : n.firstBlock base < n.clientConf.sizes.maxChunkSize →
    p.received.flatten.length + n.clientConf.sizes.maxChunkSize ≤ n.firstBlock base +
      min (p.blockNum.toNat * n.clientConf.sizes.maxChunkSize)
        (max n.resource.representation.length n.clientConf.sizes.maxChunkSize)

theorem Nodes.Lagging.next (hn : n.Sized) (hbase : n.Requests base) (hp : n.Lagging base p)
    (hattempts : (p.next (n.replyTo base p.blockNum)).blockError < coapMaxAttempts) :
    n.Lagging base (p.next (n.replyTo base p.blockNum)) := by
  have hbound := hp.steady.blockNum
  have hle := (hp.steady.next_blockNum (n.replyTo base p.blockNum)).1
  refine ⟨hp.steady.next hbase, fun hzero ↦ hp.later ?_, hattempts, fun hlt ↦ ?_⟩
  · rw [hzero] at hle
    exact UInt32.toNat_inj.mp (Nat.le_zero.mp hle)
  have hlags := hp.lags hlt
  rcases hn.next_later base hp.steady hp.later with ⟨hnext, -⟩ | ⟨hsame, -, hreceived, -⟩
  · rw [hnext]
    have hnum := p.toNat_blockNum_succ hbound
    have hblock : n.laterBlock ≤ n.clientConf.sizes.maxChunkSize := min_le_left _ _
    change (p.received ++ [_]).flatten.length + _ ≤ n.firstBlock base +
      min ((p.blockNum + 1).toNat * _) _
    rw [flatten_append, flatten_singleton, length_append, length_take,
      length_drop, hnum, Nat.succ_mul]
    omega
  · rw [hsame, hreceived]
    exact hlags

theorem toNat_coapMaxAttempts_next {e : UInt8} (he : e < coapMaxAttempts) :
    (e + 1).toNat = e.toNat + 1 := by
  have hlt : e.toNat < 4 := UInt8.lt_iff_toNat_lt.mp he
  rw [UInt8.toNat_add]
  exact Nat.mod_eq_of_lt (by change e.toNat + 1 < 2 ^ 8; omega)

variable {q : Progress}

theorem Nodes.Lagging.not_delivered (hn : n.Sized) (hbase : n.Requests base)
    (hlonger : n.firstBlock base < n.resource.representation.length) (hnot : ¬ n.Fitting base)
    {fuel : ℕ} (hp : n.Lagging base p) (hloop : loop (n.replyTurn base) fuel p = some q) :
    ¬ (q.more = 0 ∧ q.blockError = 0 ∧ q.received.flatten = n.resource.representation) := by
  refine loop_invariant (P := n.Lagging base) (Q := fun q ↦ ¬ (q.more = 0 ∧ q.blockError = 0 ∧
    q.received.flatten = n.resource.representation)) ?_ ?_ hp hloop
  · intro p p' hp hturn
    rw [Nodes.replyTurn, Progress.resume_eq] at hturn
    split_ifs at hturn with hmore
    · obtain rfl := Turn.goesOn.inj hturn
      exact hp.next hn hbase hmore.2
  · rintro p q hp hturn ⟨hmore, hnoError, hall⟩
    rw [Nodes.replyTurn, Progress.resume_eq] at hturn
    split_ifs at hturn
    obtain rfl := Turn.returns.inj hturn
    have hlagging := hp.next hn hbase (by rw [hnoError]; decide)
    rcases hn.next_later base hp.steady hp.later with ⟨hnext, hlt⟩ | ⟨-, herror, -⟩
    · rw [Nodes.Fitting, if_pos hlonger] at hnot
      have hend : n.resource.representation.length ≤
          p.blockNum.toNat * n.clientConf.sizes.maxChunkSize + n.laterBlock := by
        by_contra hgoes
        rw [hnext] at hmore
        change (if _ then 1 else 0 : UInt8) = 0 at hmore
        rw [if_pos (not_le.mp hgoes)] at hmore
        exact absurd hmore (by decide)
      have hblock : n.laterBlock ≤ n.clientConf.sizes.maxChunkSize := min_le_left _ _
      have hnumbers : p.blockNum.toNat * n.clientConf.sizes.maxChunkSize +
          n.clientConf.sizes.maxChunkSize ≤ 2 ^ 20 * n.clientConf.sizes.maxChunkSize := by
        rw [← Nat.succ_mul]
        exact Nat.mul_le_mul_right _ hlt
      have hfirst : n.firstBlock base < n.clientConf.sizes.maxChunkSize := by
        by_contra hge
        exact hnot ⟨not_lt.mp hge, by omega⟩
      have hlags := hlagging.lags hfirst
      rw [hall] at hlags
      omega
    · have hzero := congrArg UInt8.toNat (herror.symm.trans hnoError)
      rw [toNat_coapMaxAttempts_next hp.attempts] at hzero
      exact Nat.succ_ne_zero _ hzero

/-! ### When a transfer delivers -/

theorem Nodes.firstBlock_le (hlonger : n.firstBlock base < n.resource.representation.length) :
    n.firstBlock base ≤ n.serverConf.maxBlockSize.toNat := by
  unfold Nodes.firstBlock at hlonger ⊢
  cases haskOf : askOf base with
  | none =>
    rw [haskOf] at hlonger
    dsimp only at hlonger ⊢
    split_ifs at hlonger ⊢
    · exact le_rfl
    · exact absurd hlonger (Nat.lt_irrefl _)
  | some asked => exact min_le_right _ _

/-- The loop over the replies delivers the representation. -/
def Nodes.RepliesDeliver (n : Nodes) (request : Message) (p : Progress) : Prop :=
  ∃ fuel q, loop (n.replyTurn request) fuel p = some q ∧ q.more = 0 ∧ q.blockError = 0 ∧
    q.received.flatten = n.resource.representation

theorem Nodes.repliesDeliver_of_goesOn (hturn : n.replyTurn base p = .goesOn q) :
    n.RepliesDeliver base p ↔ n.RepliesDeliver base q := by
  constructor
  · rintro ⟨fuel, r, hloop, hdone⟩
    cases fuel with
    | zero => cases hloop
    | succ fuel =>
      rw [loop_goesOn hturn] at hloop
      exact ⟨fuel, r, hloop, hdone⟩
  · rintro ⟨fuel, r, hloop, hdone⟩
    exact ⟨fuel + 1, r, (loop_goesOn hturn).trans hloop, hdone⟩

theorem Nodes.repliesDeliver_of_returns (hturn : n.replyTurn base p = .returns q) :
    n.RepliesDeliver base p ↔
      q.more = 0 ∧ q.blockError = 0 ∧ q.received.flatten = n.resource.representation := by
  constructor
  · rintro ⟨fuel, r, hloop, hdone⟩
    cases fuel with
    | zero => cases hloop
    | succ fuel =>
      rw [loop_returns hturn] at hloop
      obtain rfl := Option.some.inj hloop
      exact hdone
  · exact fun hdone ↦ ⟨1, q, loop_returns hturn, hdone⟩

theorem Nodes.Sized.repliesDeliver_longer (hn : n.Sized) (hbase : n.Requests base)
    (hlonger : n.firstBlock base < n.resource.representation.length) :
    n.RepliesDeliver base Progress.start ↔ n.Fitting base := by
  have hscope : ¬ n.OutOfScope base := by
    rintro ⟨hempty, -⟩
    rw [hempty] at hlonger
    exact absurd hlonger (Nat.not_lt_zero _)
  have hfirst := n.next_first hbase hscope
  rw [if_pos hlonger] at hfirst
  have hstart : Progress.start.Steady := ⟨Nat.zero_le _, fun hne ↦ absurd rfl hne⟩
  have hsteady := hstart.next hbase
  change (Progress.start.next (n.replyTo base 0)).Steady at hsteady
  have hone : (1 : UInt32).toNat = 1 := rfl
  have hlater : (1 : UInt32) ≠ 0 := by decide
  have hmore : (1 : UInt8) ≠ 0 := by decide
  have hattempts : (0 : UInt8) < coapMaxAttempts := by decide
  have hturn : n.replyTurn base Progress.start =
      .goesOn (Progress.start.next (n.replyTo base 0)) := by
    change Progress.start.resume (n.replyTo base 0) = _
    rw [Progress.resume_eq, hfirst, if_pos ⟨hmore, hattempts⟩]
  rw [n.repliesDeliver_of_goesOn hturn]
  rw [hfirst] at hsteady ⊢
  constructor
  · rintro ⟨fuel, q, hloop, hdone⟩
    by_contra hnot
    refine Nodes.Lagging.not_delivered hn hbase hlonger hnot
      (p := ⟨1, 0, 1, 0, [_]⟩) ⟨hsteady, hlater, hattempts, fun _ ↦ ?_⟩ hloop hdone
    dsimp only
    rw [flatten_singleton, length_take, length_take, hone, Nat.one_mul]
    omega
  · intro hfitting
    rw [Nodes.Fitting, if_pos hlonger] at hfitting
    obtain ⟨hblock, hlen⟩ := hfitting
    apply hn.exists_delivered hbase (hblock.trans (n.firstBlock_le hlonger)) hlen
    refine ⟨hsteady, hlater, rfl, ?_, ?_⟩
    · dsimp only
      rw [flatten_singleton, take_take, min_eq_left hblock, hone, Nat.one_mul]
    · dsimp only
      rw [hone, Nat.one_mul]
      exact hblock.trans_lt hlonger

theorem Nodes.Sized.repliesDeliver_whole (hn : n.Sized) (hbase : n.Requests base)
    (hwhole : n.resource.representation.length ≤ n.firstBlock base) :
    n.RepliesDeliver base Progress.start ↔ n.Fitting base := by
  rw [Nodes.Fitting, if_neg (not_lt.mpr hwhole)]
  have hturn : (Progress.start.next (n.replyTo base 0)).more = 0 → n.replyTurn base Progress.start =
      .returns (Progress.start.next (n.replyTo base 0)) := by
    intro hmore
    change Progress.start.resume (n.replyTo base 0) = _
    rw [Progress.resume_eq, if_neg fun h ↦ h.1 hmore]
  by_cases hscope : n.OutOfScope base
  · obtain ⟨hmore, hreceived⟩ := n.next_outOfScope hscope
    rw [n.repliesDeliver_of_returns (hturn hmore), hreceived, flatten_singleton, hscope.1]
    refine iff_of_false (fun hdone ↦ ?_) fun hfitting ↦ hfitting.2 hscope
    obtain ⟨e, -, hsize⟩ := hn.clientBlock
    have hpositive : n.clientConf.sizes.maxChunkSize ≠ 0 := by
      rw [hsize]
      exact (Nat.two_pow_pos _).ne'
    rcases take_eq_nil_iff.mp hdone.2.2 with hzero | hempty
    · exact hpositive hzero
    · exact absurd hempty (by decide)
  · have hfirst := n.next_first hbase hscope
    rw [if_neg (not_lt.mpr hwhole), take_of_length_le hwhole] at hfirst
    rw [n.repliesDeliver_of_returns (hturn (by rw [hfirst])), hfirst, flatten_singleton,
      and_iff_right rfl, and_iff_right rfl, and_iff_left hscope]
    exact take_eq_self_iff _

/-- A transfer between two nodes that were just started delivers the representation, if no message is
lost, exactly if it fits. -/
theorem delivers_iff_fitting (hn : n.Sized) (hbase : n.Requests base) (clientMid serverMid : UInt16) :
    Delivers n (n.start clientMid serverMid base) ↔ n.Fitting base := by
  rw [hn.delivers_iff_replies hbase]
  rcases Nat.lt_or_ge (n.firstBlock base) n.resource.representation.length with hlonger | hwhole
  · exact hn.repliesDeliver_longer hbase hlonger
  · exact hn.repliesDeliver_whole hbase hwhole

/-- Two nodes with chunks of 64 bytes, a largest block of the server, and a resource that is aware of
blocks. -/
def pairOfNodes (maxBlockSize : UInt16) (representation : List UInt8) : Nodes where
  clientConf := ⟨CoapConf.default, 64, 4, 32⟩
  serverConf := ⟨CoapConf.default, maxBlockSize, 4, 32⟩
  clientAddr := ⟨1, 5683⟩
  serverAddr := ⟨2, 5683⟩
  resource := ⟨representation, true⟩
  uipBuf _ := 0

theorem sized_pairOfNodes (maxBlockSize : UInt16) (hlow : 16 ≤ maxBlockSize)
    (hhigh : maxBlockSize ≤ 64) (representation : List UInt8) :
    (pairOfNodes maxBlockSize representation).Sized where
  clientTransactions := show 0 < 4 by decide
  serverTransactions := show 0 < 4 by decide
  clientBits := show 16 ≤ 32 by decide
  serverBits := show 16 ≤ 32 by decide
  clientBlock := ⟨2, by decide, rfl⟩
  serverBlock := ⟨hlow, UInt16.le_trans hhigh (by decide), hhigh, fun haware ↦ by cases haware⟩
  serverHeader := show 18 < 62 by decide

def plainGet : Message := coapInitMessage .con 1 0

theorem requests_plainGet {maxBlockSize : UInt16} {representation : List UInt8} :
    (pairOfNodes maxBlockSize representation).Requests plainGet where
  built := built_init _ _ _
  supported := supported_of_options (show Built CoapConf.default plainGet from built_init _ _ _)
    (Finset.empty_subset _)
  type := rfl
  code := by decide
  block1 := Finset.notMem_empty _
  first hset := absurd hset (Finset.notMem_empty _)
  fits blockNum := by
    refine (wireSize_le ?_).trans (show 18 ≤ 62 by decide)
    unfold Nodes.asked Message.coapSetHeaderBlock2 Message.setHeaderBlock
    split_ifs
    all_goals first
      | exact Finset.empty_subset _
      | exact Finset.insert_subset (Finset.mem_singleton_self _) (Finset.empty_subset _)

theorem delivers_hundredBytes :
    Delivers (pairOfNodes 64 (replicate 100 0x61))
      ((pairOfNodes 64 (replicate 100 0x61)).start 1 1 plainGet) :=
  (delivers_iff_fitting (sized_pairOfNodes 64 (by decide) (by decide) _) requests_plainGet 1 1).mpr (by
    rw [Nodes.Fitting, if_pos (by decide +kernel)]
    decide +kernel)

/-- A server with blocks of 32 bytes answers a client with blocks of 64 bytes: its second block is
asked for behind 64 bytes. -/
theorem not_delivers : ¬ ∀ (n : Nodes) (request : Message) (clientMid serverMid : UInt16),
    n.Sized → (∃ k, n.serverConf.maxBlockSize.toNat = 2 ^ k) → n.Requests request →
      Delivers n (n.start clientMid serverMid request) := by
  intro hall
  have hn := sized_pairOfNodes 32 (by decide) (by decide) (replicate 40 0x61)
  have hdelivers := hall _ plainGet 1 1 hn ⟨5, rfl⟩ requests_plainGet
  have hlonger : (pairOfNodes 32 (replicate 40 0x61)).firstBlock plainGet <
      (pairOfNodes 32 (replicate 40 0x61)).resource.representation.length := by decide +kernel
  have hfitting := (hn.repliesDeliver_longer requests_plainGet hlonger).mp
    ((hn.delivers_iff_replies requests_plainGet 1 1).mp hdelivers)
  rw [Nodes.Fitting, if_pos hlonger] at hfitting
  exact absurd hfitting.1 (by decide +kernel)

/-- The loop has a payload for every number it passed, and its errors are counted. -/
structure Progress.Counted (p : Progress) : Prop where
  steady : p.Steady
  received : p.received.length = p.blockNum.toNat
  attempts : p.blockError ≤ coapMaxAttempts

theorem Progress.Counted.next (hbase : n.Requests base) (hp : p.Counted)
    (hlt : p.blockError < coapMaxAttempts) :
    (p.next (n.replyTo base p.blockNum)).Counted ∧
      (p.next (n.replyTo base p.blockNum)).blockNum.toNat +
        (p.next (n.replyTo base p.blockNum)).blockError.toNat =
          p.blockNum.toNat + p.blockError.toNat + 1 := by
  have hsteady := hp.steady.next hbase
  have hlt' : p.blockError.toNat < 4 := UInt8.lt_iff_toNat_lt.mp hlt
  have hnum := p.toNat_blockNum_succ hp.steady.blockNum
  have herror := toNat_coapMaxAttempts_next hlt
  unfold Progress.next at hsteady ⊢
  dsimp only at hsteady ⊢
  split_ifs at hsteady ⊢
  · rw [hnum]
    exact ⟨⟨hsteady, by rw [hnum, length_append, hp.received]; rfl, hp.attempts⟩,
      Nat.add_right_comm _ _ _⟩
  · rw [herror]
    exact ⟨⟨hsteady, hp.received, UInt8.le_iff_toNat_le.mpr (herror.trans_le hlt')⟩, rfl⟩

theorem Progress.Counted.loop_returns (hbase : n.Requests base) (hp : p.Counted) {fuel : ℕ}
    (hlt : p.blockError < coapMaxAttempts)
    (hfuel : 2 ^ 20 + 4 ≤ fuel + p.blockNum.toNat + p.blockError.toNat) :
    ∃ q, loop (n.replyTurn base) fuel p = some q ∧ q.Counted ∧
      (q.more = 0 ∨ q.blockError = coapMaxAttempts) := by
  induction fuel generalizing p with
  | zero =>
    have hbound := hp.steady.blockNum
    have hlt' : p.blockError.toNat < 4 := UInt8.lt_iff_toNat_lt.mp hlt
    omega
  | succ fuel ih =>
    obtain ⟨hnext, hsum⟩ := hp.next hbase hlt
    rw [loop, Nodes.replyTurn, Progress.resume_eq]
    generalize p.next (n.replyTo base p.blockNum) = q at hnext hsum ⊢
    by_cases hmore : q.more ≠ 0 ∧ q.blockError < coapMaxAttempts
    · rw [if_pos hmore]
      exact ih hnext hmore.2 (by omega)
    · rw [if_neg hmore]
      refine ⟨q, rfl, hnext, (not_and_or.mp hmore).imp not_not.mp fun hge ↦ ?_⟩
      exact UInt8.le_antisymm hnext.attempts (UInt8.not_lt.mp hge)

/-- If no message is lost, every transfer ends: after at most one turn for each number that an option
can hold and four that fail, behind a block without the more flag or after four errors. -/
theorem turns_return (hn : n.Sized) (hbase : n.Requests base) (clientMid serverMid : UInt16) :
    ∃ final, loop n.turn (2 ^ 20 + 4) (n.start clientMid serverMid base) = some final ∧
      final.progress.Counted ∧
      (final.progress.more = 0 ∨ final.progress.blockError = coapMaxAttempts) := by
  have hstart : Progress.start.Counted := ⟨⟨Nat.zero_le _, fun h ↦ absurd rfl h⟩, rfl, by decide⟩
  obtain ⟨q, hloop, hdone⟩ := hstart.loop_returns hbase (by decide) le_rfl
  obtain ⟨final, hfinal, rfl⟩ := Option.map_eq_some_iff.mp
    ((hn.loop_turn hbase (hn.pending_start clientMid serverMid base) _).trans hloop)
  exact ⟨final, hfinal, hdone⟩

theorem turns_return_fortyBytes : ∃ final, loop (pairOfNodes 32 (replicate 40 0x61)).turn (2 ^ 20 + 4)
      ((pairOfNodes 32 (replicate 40 0x61)).start 1 1 plainGet) = some final ∧
    final.progress.Counted ∧
      (final.progress.more = 0 ∨ final.progress.blockError = coapMaxAttempts) :=
  turns_return (sized_pairOfNodes 32 (by decide) (by decide) _) requests_plainGet 1 1

end ContikiMaster.Coap
