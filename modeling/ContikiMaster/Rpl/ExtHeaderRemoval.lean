import ContikiMaster.Rpl.ExtHeaderBounds

/-!
# Removal of the RPL extension headers

The removal moves everything behind a removed header, and the loop goes on with the
memory it leaves. It is safe exactly if every header it meets is clean in the datagram
that is left at that time.
-/

namespace ContikiMaster.Rpl

open Lib List Datagram

variable {ctx : RplContext} {mem : ℕ → UInt8} {d : Datagram} {n next extLen fuel : ℕ}

variable (mem) in
/-- A header that `rpl_ext_header_remove` removes. -/
def isRemoved (next extLen : ℕ) : Prop :=
  mem next = uipProtoRouting ∨ mem next = uipProtoHbho ∧ mem (42 + extLen) = uipExtHdrOptRpl

variable (mem) in
/-- A header that `rpl_ext_header_remove` passes over. -/
def isSkipped (next extLen : ℕ) : Prop :=
  mem next = uipProtoDesto ∨ mem next = uipProtoHbho ∧ mem (42 + extLen) ≠ uipExtHdrOptRpl

/-- The memory without the header behind `extLen` bytes, in a datagram of `n` bytes. -/
def withoutHeader (mem : ℕ → UInt8) (n next extLen : ℕ) : ℕ → UInt8 :=
  let len := rplExtHdrLen mem extLen
  let shrunk := lowerLength (writeAt mem next [mem (40 + extLen)]) len
  writeAt shrunk (40 + extLen) (slice shrunk (40 + extLen + len) (n - len - 40))

/-- From a header on: the headers end, what is looked at of them is inside, and a header that is
removed is the first one or the rest of the datagram, and neither longer than what follows the IPv6
header nor than the IPv6 length field says. The rest of the condition is one on the datagram
without it. -/
inductive CleanRemove : (ℕ → UInt8) → ℕ → ℕ → ℕ → Prop
  | ends {mem : ℕ → UInt8} {n next extLen : ℕ} (hnext : next < n)
      (htype : isOptionsHeader (mem next) = false) (hrouting : mem next ≠ uipProtoRouting) :
      CleanRemove mem n next extLen
  | skipped {mem : ℕ → UInt8} {n next extLen : ℕ} (hnext : next < n)
      (hskipped : isSkipped mem next extLen) (hlen : extLen + 42 ≤ n)
      (hoption : mem next = uipProtoHbho → extLen + 43 ≤ n)
      (hrest : CleanRemove mem n (40 + extLen) (nextExtLen mem extLen)) :
      CleanRemove mem n next extLen
  | removed {mem : ℕ → UInt8} {n next extLen : ℕ} (hnext : next < n)
      (hremoved : isRemoved mem next extLen) (hlen : extLen + 42 ≤ n)
      (hoption : mem next = uipProtoHbho → extLen + 43 ≤ n)
      (hfits : rplExtHdrLen mem extLen + 40 ≤ n)
      (hfield : rplExtHdrLen mem extLen ≤ lengthField mem)
      (hfront : extLen = 0 ∨ n = rplExtHdrLen mem extLen + 40)
      (hrest : CleanRemove (withoutHeader mem n next extLen) (n - rplExtHdrLen mem extLen) next
        extLen) :
      CleanRemove mem n next extLen

theorem isSkipped.isOptionsHeader (hskipped : isSkipped mem next extLen) :
    isOptionsHeader (mem next) = true := by
  unfold Rpl.isOptionsHeader
  rcases hskipped with hdesto | ⟨hhbho, -⟩
  · simp [hdesto]
  · simp [hhbho]

theorem isRemoved.notEnd (hremoved : isRemoved mem next extLen) :
    ¬ (isOptionsHeader (mem next) = false ∧ mem next ≠ uipProtoRouting) := by
  rintro ⟨hoptions, hrouting⟩
  rcases hremoved with hrouting' | ⟨hhbho, -⟩
  · exact hrouting hrouting'
  · rw [hhbho] at hoptions
    exact absurd hoptions (by decide)

theorem isSkipped.not_isRemoved (hskipped : isSkipped mem next extLen) :
    ¬ isRemoved mem next extLen := by
  rintro (hrouting | ⟨hhbho, hrpl⟩)
  · have hoptions := hskipped.isOptionsHeader
    rw [hrouting] at hoptions
    exact absurd hoptions (by decide)
  · rcases hskipped with hdesto | ⟨-, hother⟩
    · rw [hhbho] at hdesto
      exact absurd hdesto (by decide)
    · exact hother hrpl

/-- The extension headers start at multiples of 8 bytes behind the IPv6 header. -/
def Aligned (next extLen : ℕ) : Prop := 8 ∣ extLen ∧ (next = 6 ∨ ∃ a, next = 40 + 8 * a)

theorem aligned_start : Aligned 6 0 := ⟨⟨0, rfl⟩, Or.inl rfl⟩

theorem Aligned.skip (haligned : Aligned next extLen) :
    Aligned (40 + extLen) (nextExtLen mem extLen) := by
  obtain ⟨⟨a, rfl⟩, -⟩ := haligned
  refine ⟨?_, Or.inr ⟨a, rfl⟩⟩
  unfold nextExtLen extHeaderLen
  omega

theorem Aligned.ne (haligned : Aligned next extLen) : next ≠ 41 + extLen ∧ next ≠ 4 ∧ next ≠ 5 := by
  obtain ⟨⟨a, rfl⟩, hnext⟩ := haligned
  rcases hnext with rfl | ⟨b, rfl⟩ <;> omega

theorem write_mem_of_ne {b : UInt8} {offset i : ℕ} (hi : i ≠ offset) :
    (d.write offset [b]).mem i = d.mem i := by
  rcases Nat.lt_or_gt_of_ne hi with hlt | hgt
  · exact writeAt_of_lt hlt
  · exact writeAt_of_le (Nat.succ_le_of_lt hgt)

theorem rplExtHdrLen_write (haligned : Aligned next extLen) (b : UInt8) :
    rplExtHdrLen (d.write next [b]).mem extLen = rplExtHdrLen d.mem extLen := by
  unfold rplExtHdrLen extHeaderLen
  rw [write_mem_of_ne haligned.ne.1.symm]

theorem lengthField_write (haligned : Aligned next extLen) (b : UInt8) :
    lengthField (d.write next [b]).mem = lengthField d.mem := by
  unfold lengthField
  rw [write_mem_of_ne haligned.ne.2.1.symm, write_mem_of_ne haligned.ne.2.2.symm]

theorem rplExtHdrLen_lt (mem : ℕ → UInt8) (extLen : ℕ) : rplExtHdrLen mem extLen < 256 :=
  Nat.mod_lt _ (by decide)

variable {len : ℕ} {r : Datagram}

theorem shrink_safe : (shrink len d).Safe ↔ d.Safe ∧ len ≤ d.uipLen ∧ len ≤ lengthField d.mem := by
  have hwrapped : (shrink len d).wrapped =
      (d.wrapped || decide (d.uipLen < len) || decide (lengthField d.mem < len)) := rfl
  have hinside : (shrink len d).inside = d.inside := rfl
  rw [Datagram.Safe, Datagram.Safe, hinside, hwrapped]
  simp only [Bool.or_eq_false_iff, decide_eq_false_iff_not, not_lt, and_assoc]

theorem skipHeader_eq (d : Datagram) :
    ∃ d', skipHeader d = .goesOn (40 + d.uipExtLen, d') ∧ d'.mem = d.mem ∧ d'.uipLen = d.uipLen ∧
      d'.uipExtLen = nextExtLen d.mem d.uipExtLen ∧
      (d'.Safe ↔ d.Safe ∧ d.uipExtLen + 42 ≤ d.uipLen) := by
  refine ⟨_, rfl, rfl, rfl, rfl, ?_⟩
  rw [safe_withExtLen, safe_touch, forall_mem_singleton]
  refine and_congr_right fun _ ↦ ?_
  omega

variable (d) in
theorem removeHeader_eq (haligned : Aligned next d.uipExtLen) : removeHeader next d =
      moveOver next (rplExtHdrLen d.mem d.uipExtLen) (unlinkHeader next d) := by
  have hlen := rplExtHdrLen_write (d := d.touch [40 + d.uipExtLen, next]) haligned
    (d.mem (40 + d.uipExtLen))
  change moveOver next (rplExtHdrLen ((d.touch [40 + d.uipExtLen, next]).write next
    [d.mem (40 + d.uipExtLen)]).mem d.uipExtLen) (unlinkHeader next d) = _
  rw [hlen]
  rfl

theorem unlinkHeader_safe (hbase : 40 ≤ d.uipLen) :
    (unlinkHeader next d).Safe ↔ d.Safe ∧ next < d.uipLen ∧ d.uipExtLen + 42 ≤ d.uipLen := by
  unfold unlinkHeader
  dsimp only
  rw [safe_touch, safe_write, safe_touch, and_assoc]
  simp only [forall_mem_cons, not_mem_nil, false_imp_iff, implies_true, and_true]
  refine and_congr_right fun _ ↦ ?_
  change (40 + d.uipExtLen < d.uipLen ∧ next < d.uipLen) ∧
    40 + d.uipExtLen + 1 < d.uipLen ∧ 4 < d.uipLen ∧ 5 < d.uipLen ↔ _
  omega

/-- The datagram that a turn leaves. -/
def turnDatagram : Turn (ℕ × Datagram) Datagram → Datagram
  | .goesOn s => s.2
  | .returns r => r

theorem safe_of_moveOver (hsafe : (turnDatagram (moveOver next len d)).Safe) : d.Safe := by
  unfold moveOver at hsafe
  dsimp only at hsafe
  split at hsafe
  · exact (safe_touch.mp (shrink_safe.mp hsafe).1).1
  · exact (safe_touch.mp (shrink_safe.mp (safe_write.mp hsafe)).1).1

theorem moveOver_overrun (hshort : len < 256) (hlen : d.uipLen < 65536)
    (hover : d.uipLen < len + 40) : ¬ (turnDatagram (moveOver next len d)).Safe := by
  unfold moveOver
  dsimp only
  split
  · intro hsafe
    have htouch := (safe_touch.mp (shrink_safe.mp hsafe).1).2
    have hfar := htouch (40 + d.uipExtLen + 65536) (mem_singleton_self _)
    omega
  · intro hsafe
    have hle : len ≤ d.uipLen := (shrink_safe.mp (safe_write.mp hsafe)).2.1
    omega

theorem moveOver_fits (hlen : d.uipLen < 65536) (hfits : len + 40 ≤ d.uipLen) :
    ∃ d', moveOver next len d = .goesOn (next, d') ∧
      d'.mem = writeAt (lowerLength d.mem len) (40 + d.uipExtLen)
        (slice (lowerLength d.mem len) (40 + d.uipExtLen + len) (d.uipLen - len - 40)) ∧
      d'.uipLen = d.uipLen - len ∧ d'.uipExtLen = d.uipExtLen ∧
      (d'.Safe ↔ d.Safe ∧ len ≤ lengthField d.mem ∧ (d.uipExtLen = 0 ∨ d.uipLen = len + 40)) := by
  have huipLen : (d.uipLen + 65536 - len) % 65536 = d.uipLen - len := by omega
  have hmove : (∀ o ∈ range' (40 + d.uipExtLen + len) (d.uipLen - len - 40) ++
      range' (40 + d.uipExtLen) (d.uipLen - len - 40), o < d.uipLen) ↔
        d.uipExtLen = 0 ∨ d.uipLen = len + 40 := by
    rw [forall_mem_append, forall_mem_range'_lt, forall_mem_range'_lt]
    omega
  unfold moveOver
  dsimp only
  rw [huipLen, if_neg (by omega)]
  refine ⟨_, rfl, rfl, huipLen, rfl, ?_⟩
  rw [safe_write, shrink_safe, safe_touch, hmove]
  change (d.Safe ∧ _) ∧ len ≤ d.uipLen ∧ len ≤ lengthField d.mem ↔ _
  constructor
  · rintro ⟨⟨hsafe, hfront⟩, -, hfield⟩
    exact ⟨hsafe, hfield, hfront⟩
  · rintro ⟨hsafe, hfield, hfront⟩
    exact ⟨⟨hsafe, hfront⟩, by omega, hfield⟩

theorem lengthField_unlinkHeader (haligned : Aligned next d.uipExtLen) :
    lengthField (unlinkHeader next d).mem = lengthField d.mem :=
  lengthField_write haligned _

theorem removeHeader_fits (haligned : Aligned next d.uipExtLen) (hbase : 40 ≤ d.uipLen)
    (hlen : d.uipLen < 65536) (hfits : rplExtHdrLen d.mem d.uipExtLen + 40 ≤ d.uipLen) :
    ∃ d', removeHeader next d = .goesOn (next, d') ∧
      d'.mem = withoutHeader d.mem d.uipLen next d.uipExtLen ∧
      d'.uipLen = d.uipLen - rplExtHdrLen d.mem d.uipExtLen ∧ d'.uipExtLen = d.uipExtLen ∧
      (d'.Safe ↔ d.Safe ∧ next < d.uipLen ∧ d.uipExtLen + 42 ≤ d.uipLen ∧
        rplExtHdrLen d.mem d.uipExtLen ≤ lengthField d.mem ∧
        (d.uipExtLen = 0 ∨ d.uipLen = rplExtHdrLen d.mem d.uipExtLen + 40)) := by
  rw [removeHeader_eq d haligned]
  obtain ⟨d', hmoved, hmem, huipLen, hext, hsafe⟩ :=
    moveOver_fits (by exact hlen) (by exact hfits : _ + 40 ≤ (unlinkHeader next d).uipLen)
  refine ⟨d', hmoved, hmem, huipLen, hext, hsafe.trans ?_⟩
  rw [unlinkHeader_safe hbase, lengthField_unlinkHeader haligned, and_assoc, and_assoc]
  rfl

theorem removeHeader_overrun (haligned : Aligned next d.uipExtLen) (hlen : d.uipLen < 65536)
    (hover : d.uipLen < rplExtHdrLen d.mem d.uipExtLen + 40) :
    ¬ (turnDatagram (removeHeader next d)).Safe := by
  rw [removeHeader_eq d haligned]
  exact moveOver_overrun (rplExtHdrLen_lt _ _) hlen hover

theorem safe_of_removeHeader (hsafe : (turnDatagram (removeHeader next d)).Safe) : d.Safe := by
  have hunlinked : (unlinkHeader next d).Safe := safe_of_moveOver hsafe
  have htouched := (safe_touch.mp hunlinked).1
  exact (safe_touch.mp (safe_write.mp htouched)).1

/-! ### The loop -/

theorem removeTurn_cases (next : ℕ) (d : Datagram) :
    (isOptionsHeader (d.mem next) = false ∧ d.mem next ≠ uipProtoRouting ∧
        removeTurn (next, d) = .returns (d.touch [next])) ∨
      ∃ d', d'.mem = d.mem ∧ d'.uipLen = d.uipLen ∧ d'.uipExtLen = d.uipExtLen ∧
        (d'.Safe ↔ d.Safe ∧ next < d.uipLen ∧
          (d.mem next = uipProtoHbho → d.uipExtLen + 43 ≤ d.uipLen)) ∧
        (isSkipped d.mem next d.uipExtLen ∧ removeTurn (next, d) = skipHeader d' ∨
          isRemoved d.mem next d.uipExtLen ∧ removeTurn (next, d) = removeHeader next d') := by
  have hsafe : (d.touch [next]).Safe ↔ d.Safe ∧ next < d.uipLen := by
    rw [safe_touch, forall_mem_singleton]
  unfold removeTurn isSkipped isRemoved
  dsimp only
  by_cases hhbho : d.mem next = uipProtoHbho
  · right
    refine ⟨(d.touch [next]).touch [42 + d.uipExtLen], rfl, rfl, rfl, ?_, ?_⟩
    · rw [safe_touch, hsafe, forall_mem_singleton, and_assoc]
      refine and_congr_right fun _ ↦ and_congr_right fun _ ↦ ?_
      change 42 + d.uipExtLen < d.uipLen ↔ _
      rw [imp_iff_right hhbho]
      omega
    · rw [if_pos hhbho]
      by_cases hrpl : d.mem (42 + d.uipExtLen) = uipExtHdrOptRpl
      · exact Or.inr ⟨Or.inr ⟨hhbho, hrpl⟩, if_pos hrpl⟩
      · exact Or.inl ⟨Or.inr ⟨hhbho, hrpl⟩, if_neg hrpl⟩
  · rw [if_neg hhbho]
    by_cases hrouting : d.mem next = uipProtoRouting
    · right
      refine ⟨d.touch [next], rfl, rfl, rfl, ?_, Or.inr ⟨Or.inl hrouting, if_pos hrouting⟩⟩
      rw [hsafe]
      simp [hhbho]
    · rw [if_neg hrouting]
      by_cases hdesto : d.mem next = uipProtoDesto
      · right
        refine ⟨d.touch [next], rfl, rfl, rfl, ?_, Or.inl ⟨Or.inl hdesto, if_pos hdesto⟩⟩
        rw [hsafe]
        simp [hhbho]
      · left
        refine ⟨?_, hrouting, if_neg hdesto⟩
        unfold isOptionsHeader
        simp [hhbho, hdesto]

theorem safe_of_removeTurn (hsafe : (turnDatagram (removeTurn (next, d))).Safe) : d.Safe := by
  rcases removeTurn_cases next d with ⟨-, -, hturn⟩ | ⟨d', -, -, -, hsame, hskipped | hremoved⟩
  · rw [hturn] at hsafe
    exact (safe_touch.mp hsafe).1
  · obtain ⟨d'', hskip, -, -, -, hsame'⟩ := skipHeader_eq d'
    rw [hskipped.2, hskip] at hsafe
    exact (hsame.mp (hsame'.mp hsafe).1).1
  · rw [hremoved.2] at hsafe
    exact (hsame.mp (safe_of_removeHeader hsafe)).1

theorem safe_of_loop (hloop : loop removeTurn (fuel + 1) (next, d) = some r) (hsafe : r.Safe) :
    (turnDatagram (removeTurn (next, d))).Safe := by
  induction fuel generalizing next d with
  | zero =>
    cases hturn : removeTurn (next, d) with
    | goesOn s =>
      rw [loop_goesOn hturn] at hloop
      cases hloop
    | returns r' =>
      rw [loop_returns hturn] at hloop
      cases hloop
      exact hsafe
  | succ fuel ih =>
    cases hturn : removeTurn (next, d) with
    | goesOn s =>
      rw [loop_goesOn hturn] at hloop
      exact safe_of_removeTurn (ih hloop)
    | returns r' =>
      rw [loop_returns hturn] at hloop
      cases hloop
      exact hsafe

theorem cleanRemove_of_loop (hloop : loop removeTurn fuel (next, d) = some r) (hsafe : r.Safe)
    (hbase : 40 ≤ d.uipLen) (hlen : d.uipLen < 65536) (haligned : Aligned next d.uipExtLen) :
    CleanRemove d.mem d.uipLen next d.uipExtLen := by
  induction fuel generalizing next d with
  | zero => cases hloop
  | succ fuel ih =>
    have hfirst := safe_of_loop hloop hsafe
    rcases removeTurn_cases next d with ⟨htype, hrouting, hturn⟩ |
      ⟨d', hmem, huipLen, hext, hsame, ⟨hskipped, hturn⟩ | ⟨hremoved, hturn⟩⟩
    · rw [hturn] at hfirst
      have hnext := (safe_touch.mp hfirst).2 next (mem_singleton_self _)
      exact .ends hnext htype hrouting
    · obtain ⟨d'', hskip, hmem', huipLen', hext', hsame'⟩ := skipHeader_eq d'
      rw [hturn, hskip] at hfirst
      obtain ⟨hsafe', hhead⟩ := hsame'.mp hfirst
      obtain ⟨-, hnext, hoption⟩ := hsame.mp hsafe'
      rw [loop_goesOn (hturn.trans hskip)] at hloop
      have hrest := ih hloop (by omega) (by omega) (by rw [hext']; exact (hext ▸ haligned).skip)
      rw [hmem', hmem, huipLen', huipLen, hext', hmem, hext] at hrest
      exact .skipped hnext hskipped (by omega) hoption hrest
    · rw [hturn] at hfirst
      have hlenEq : rplExtHdrLen d'.mem d'.uipExtLen = rplExtHdrLen d.mem d.uipExtLen := by
        rw [hmem, hext]
      by_cases hover : d.uipLen < rplExtHdrLen d.mem d.uipExtLen + 40
      · exact absurd hfirst (removeHeader_overrun (by rw [hext]; exact haligned) (by omega)
          (by omega))
      · obtain ⟨d'', hremove, hmem', huipLen', hext', hsame'⟩ :=
          removeHeader_fits (by rw [hext]; exact haligned : Aligned next d'.uipExtLen)
            (by omega) (by omega) (by omega)
        rw [hremove] at hfirst
        obtain ⟨hsafe', -, hhead, hfield, hfront⟩ := hsame'.mp hfirst
        obtain ⟨-, hnext, hoption⟩ := hsame.mp hsafe'
        rw [loop_goesOn (hturn.trans hremove)] at hloop
        have hrest := ih hloop (by omega) (by omega) (by rw [hext', hext]; exact haligned)
        rw [hmem', hext', huipLen', hmem, huipLen, hext] at hrest
        rw [hmem, hext] at hfield hfront
        exact .removed hnext hremoved (by omega) hoption (by omega) hfield (by omega) hrest

theorem goes_of_cleanRemove (hclean : CleanRemove mem n next extLen) (hmem : d.mem = mem)
    (huipLen : d.uipLen = n) (hext : d.uipExtLen = extLen) (hsafe : d.Safe) (hbase : 40 ≤ n)
    (hlen : n < 65536) (haligned : Aligned next extLen) (hbyte : extLen < 256) :
    ∃ s r, Goes removeTurn (next, d) s ∧ removeTurn s = .returns r ∧ r.Safe ∧ 40 ≤ r.uipLen ∧
      r.uipLen ≤ n ∧ r.uipExtLen < 256 := by
  induction hclean generalizing d with
  | @ends mem n next extLen hnext htype hrouting =>
    subst hmem huipLen hext
    rcases removeTurn_cases next d with ⟨-, -, hturn⟩ | ⟨d', -, -, -, -, hskipped | hremoved⟩
    · refine ⟨_, _, .refl _, hturn, safe_touch.mpr ⟨hsafe, ?_⟩, hbase, le_rfl, hbyte⟩
      simpa using hnext
    · exact absurd hskipped.1.isOptionsHeader (by rw [htype]; decide)
    · exact absurd ⟨htype, hrouting⟩ hremoved.1.notEnd
  | @skipped mem n next extLen hnext hskipped hhead hoption hrest ih =>
    subst hmem huipLen hext
    rcases removeTurn_cases next d with ⟨htype, -, -⟩ |
      ⟨d', hmem', huipLen', hext', hsame, ⟨-, hturn⟩ | ⟨hremoved, -⟩⟩
    · exact absurd hskipped.isOptionsHeader (by rw [htype]; decide)
    · obtain ⟨d'', hskip, hmem'', huipLen'', hext'', hsame'⟩ := skipHeader_eq d'
      have hsafe'' : d''.Safe := hsame'.mpr ⟨hsame.mpr ⟨hsafe, hnext, hoption⟩, by omega⟩
      obtain ⟨s, r, hgoes, hr⟩ := ih (hmem''.trans hmem') (huipLen''.trans huipLen')
        (by rw [hext'', hmem', hext']) hsafe'' hbase hlen haligned.skip (Nat.mod_lt _ (by decide))
      rw [hext'] at hskip
      exact ⟨s, r, (goes_single (hturn.trans hskip)).trans hgoes, hr⟩
    · exact absurd hremoved hskipped.not_isRemoved
  | @removed mem n next extLen hnext hremoved hhead hoption hfits hfield hfront hrest ih =>
    subst hmem huipLen hext
    rcases removeTurn_cases next d with ⟨htype, hrouting, -⟩ |
      ⟨d', hmem', huipLen', hext', hsame, ⟨hskipped, -⟩ | ⟨-, hturn⟩⟩
    · exact absurd ⟨htype, hrouting⟩ hremoved.notEnd
    · exact absurd hremoved hskipped.not_isRemoved
    · have haligned' : Aligned next d'.uipExtLen := by
        rw [hext']
        exact haligned
      have hremoves := removeHeader_fits haligned' (by omega) (by omega)
        (by rw [hmem', hext', huipLen']; exact hfits)
      rw [hmem', huipLen', hext'] at hremoves
      obtain ⟨d'', hremove, hmem'', huipLen'', hext'', hsame'⟩ := hremoves
      have hsafe'' : d''.Safe := hsame'.mpr
        ⟨hsame.mpr ⟨hsafe, hnext, hoption⟩, hnext, hhead, hfield, hfront⟩
      obtain ⟨s, r, hgoes, hreturns, hr, hrbase, hrlen, hrbyte⟩ :=
        ih hmem'' huipLen'' hext'' hsafe'' (by omega) (by omega) haligned hbyte
      exact ⟨s, r, (goes_single (hturn.trans hremove)).trans hgoes, hreturns, hr, hrbase,
        by omega, hrbyte⟩

/-- The removal of clean headers ends, and leaves an IPv6 header and no more than there was. -/
theorem CleanRemove.returns (hclean : CleanRemove d.mem d.uipLen 6 0) (hsafe : d.Safe)
    (hbase : 40 ≤ d.uipLen) (hlen : d.uipLen < 65536) :
    ∃ r, Returns (fun fuel ↦ rplExtHeaderRemove fuel d) r ∧ r.Safe ∧ 40 ≤ r.uipLen ∧
      r.uipLen ≤ d.uipLen ∧ r.uipExtLen < 256 := by
  obtain ⟨s, r, hgoes, hturn, hr⟩ := goes_of_cleanRemove (d := d.withExtLen 0) hclean rfl rfl rfl
    hsafe hbase hlen aligned_start (by decide)
  exact ⟨r, returns_loop hgoes hturn, hr⟩

variable (mem) in
/-- The removal is safe exactly if every header it meets is clean. -/
theorem remove_safe_iff (hbase : 40 ≤ n) (hlen : n < 65536) :
    (∃ fuel r, rplExtHeaderRemove fuel (.received mem n) = some r ∧ r.Safe) ↔
      CleanRemove mem n 6 0 := by
  constructor
  · rintro ⟨fuel, r, hloop, hsafe⟩
    exact cleanRemove_of_loop hloop hsafe hbase hlen aligned_start
  · intro hclean
    obtain ⟨r, ⟨bound, hbound⟩, hr, -⟩ :=
      hclean.returns (d := .received mem n) (received_safe mem n) hbase hlen
    exact ⟨bound, r, hbound bound le_rfl, hr⟩

variable (ctx mem n) in
/-- The four functions end for a datagram of `n` bytes, touch only bytes of it and let no length
wrap around, and a source routing header with too few addresses is not accepted. The option to be
updated stands at an offset in the extension header behind `extLen` bytes. -/
def HandledSafely (extLen optOffset : ℕ) : Prop :=
  (∃ fuel r, rplExtHeaderRemove fuel (.received mem n) = some r ∧ r.Safe) ∧
    (∃ fuel r, rplExtHeaderSrhUpdate fuel (.received mem n) = some r ∧ r.2.Safe ∧
      AcceptsFit mem r.1) ∧
    (∃ fuel r, rplExtHeaderSrhGetNextHop ctx fuel (.received mem n) = some r ∧ r.2.Safe) ∧
    (rplExtHeaderHbhUpdate ctx optOffset ((received mem n).withExtLen extLen)).2.Safe

variable (ctx mem) in
/-- A packet of others is handled safely exactly if its headers are clean for each of the
functions. -/
theorem foreignPacket_handledSafely_iff (hbase : 40 ≤ n) (hlen : n < 65536)
    (extLen optOffset : ℕ) :
    HandledSafely ctx mem n extLen optOffset ↔
      CleanRemove mem n 6 0 ∧ CleanSrh mem n ∧ CleanNextHop ctx mem n ∧
        CleanHbh ctx mem n extLen optOffset := by
  have hhbh : (rplExtHeaderHbhUpdate ctx optOffset
      ((received mem n).withExtLen extLen)).2.Safe ↔
        CleanHbh ctx mem n extLen optOffset := by
    refine (hbhUpdate_safe_iff ctx ((received mem n).withExtLen extLen) optOffset).trans ?_
    exact and_iff_right (received_safe mem n)
  unfold HandledSafely
  rw [remove_safe_iff mem hbase hlen, srhUpdate_safe_iff mem hbase,
    getNextHop_safe_iff ctx mem hbase, hhbh]

/-- The packet of another node with an RPL option that is its only extension header. -/
def optionPacket (i : ℕ) : UInt8 :=
  if i < 40 then [0x60, 0, 0, 0, 0, 8, 0, 64].getD i 0xfd
  else [59, 0, 0x63, 4, 0, 30, 1, 0].getD (i - 40) 0

def rootContext : RplContext :=
  { used := true, instanceId := 30, defaultLifetime := 30, dagId := fun _ ↦ 0xfd, rank := 128,
    prefixLength := 64, loopErrorDrop := false, ns := .init 4 }

theorem endsAt_optionPacket : EndsAt optionPacket 1 := by
  unfold EndsAt
  decide

theorem headersInside_optionPacket : HeadersInside optionPacket 48 1 := by
  unfold HeadersInside
  decide

theorem handledSafely_optionPacket : HandledSafely rootContext optionPacket 48 0 2 :=
  (foreignPacket_handledSafely_iff rootContext optionPacket (by decide) (by decide) 0 2).mpr
    ⟨.removed (by decide) (Or.inr (by decide)) (by decide) (by decide) (by decide) (by decide)
        (Or.inl rfl) (.ends (by decide) (by decide +kernel) (by decide +kernel)),
      ⟨1, endsAt_optionPacket, headersInside_optionPacket,
        fun hrouting ↦ absurd hrouting (by decide)⟩,
      ⟨1, endsAt_optionPacket, headersInside_optionPacket, by decide⟩,
      by unfold CleanHbh; decide⟩

/-- A routing header that says it has 48 bytes in a datagram that ends behind its first 8. -/
def longRoutingHeader (i : ℕ) : UInt8 :=
  if i < 40 then [0x60, 0, 0, 0, 0, 8, 43, 64].getD i 0xfd
  else [59, 5, 3, 0, 0, 0, 0, 0].getD (i - 40) 0

/-- The removal lowers both lengths below 0. -/
theorem not_handledSafely_longRoutingHeader :
    ¬ HandledSafely rootContext longRoutingHeader 48 0 2 := by
  intro hsafe
  have hclean := (remove_safe_iff longRoutingHeader (by decide) (by decide)).mp hsafe.1
  cases hclean with
  | ends _ _ hrouting => exact hrouting rfl
  | skipped _ hskipped => exact absurd hskipped (by unfold isSkipped; decide)
  | removed _ _ _ _ hfits => exact absurd hfits (by decide)

end ContikiMaster.Rpl
