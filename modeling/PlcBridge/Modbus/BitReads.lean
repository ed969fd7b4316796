/-
  PlcBridge.Modbus.BitReads

  Coils and discrete inputs.  A group of contiguous bits is packed sixteen to
  a word, but a mapping's part is cut out as if every bit had a word of its
  own, so only the first bit of a request reaches its tag.
-/
import PlcBridge.Modbus.GroupedReads

namespace PlcBridge.Modbus

open PlcBridge.Lib
open PlcBridge.DriverState (AllNew)

-- ============================================================================
-- Packing
-- ============================================================================

/-- Setting a higher bit does not change bit 0. -/
theorem or_shift_and_one (w : UInt16) {i : Nat} (h0 : 0 < i) (h16 : i < 16) :
    (w ||| (1 <<< UInt16.ofNat i)) &&& 1 = w &&& 1 := by
  have key : ∀ i < 16, 0 < i → ((1 : UInt16) <<< UInt16.ofNat i) &&& 1 = 0 := by decide
  have hdistrib (a b c : UInt16) : (a ||| b) &&& c = (a &&& c) ||| (b &&& c) :=
    UInt16.toBitVec_inj.mp BitVec.and_or_distrib_right
  rw [hdistrib, key i h16 h0, UInt16.or_zero]

theorem foldl_pack_and_one (bits : List Bool) (l : List Nat) (hl : ∀ i ∈ l, 0 < i ∧ i < 16)
    (w : UInt16) :
    l.foldl (fun w i => if bits.getD i false then w ||| (1 <<< UInt16.ofNat i) else w) w &&& 1
      = w &&& 1 := by
  induction l generalizing w with
  | nil => rfl
  | cons i l ih =>
      rw [List.foldl_cons, ih (fun j hj => hl j (List.mem_cons_of_mem i hj))]
      have hi := hl i (List.mem_cons_self ..)
      split
      · exact or_shift_and_one w hi.1 hi.2
      · rfl

/-- Bit 0 of a packed word is the first of its bits. -/
theorem packWord_and_one (bits : List Bool) :
    ((packWord bits &&& 1) != 0) = bits.getD 0 false := by
  have hrange : List.range 16 = 0 :: (List.range 15).map (· + 1) := by decide
  have hfold := foldl_pack_and_one bits ((List.range 15).map (· + 1))
    (by intro i hi; obtain ⟨j, hj, rfl⟩ := List.mem_map.mp hi; rw [List.mem_range] at hj; omega)
  rw [packWord, hrange, List.foldl_cons, hfold]
  cases bits.getD 0 false <;> decide

theorem length_packBits (bits : List Bool) : (packBits bits).length = (bits.length + 15) / 16 := by
  simp [packBits]

theorem getElem_packBits (bits : List Bool) (k : Nat) (hk : k < (packBits bits).length) :
    (packBits bits)[k] = packWord ((bits.drop (16 * k)).take 16) := by
  simp [packBits]

-- ============================================================================
-- One bit tag
-- ============================================================================

/-- The functions that read bits. -/
def ModbusFunction.isBit (func : ModbusFunction) : Prop := func = .coils ∨ func = .discreteInputs

theorem isRegister_or_isBit (func : ModbusFunction) : func.isRegister ∨ func.isBit := by
  cases func <;> simp [ModbusFunction.isRegister, ModbusFunction.isBit]

theorem not_isBit_of_isRegister {func : ModbusFunction} (h : func.isRegister) : ¬ func.isBit := by
  rcases h with rfl | rfl <;> simp [ModbusFunction.isBit]

/-- A plain bit mapping: one coil or discrete input as a Bool. -/
structure ModbusMapping.IsBit (m : ModbusMapping) : Prop where
  dataType : m.dataType = .bool
  quantity : m.quantity = 1
  bitOffset : m.bitOffset = 0
  byteOrder : m.byteOrder = .ABCD
  function : m.function.isBit

theorem ModbusMapping.IsBit.len {m : ModbusMapping} (h : m.IsBit) : m.len = 1 := by
  rw [ModbusMapping.len, h.quantity]
  rfl

theorem payload_bits {r : ReadRequest} (hfunc : r.func.isBit) (t : Tables) :
    r.payload t.answer = beBytes (packBits (window (t.bits r.func) r.start.toNat r.qty.toNat)) := by
  unfold ReadRequest.payload Tables.answer
  rcases hfunc with h | h <;> rw [h] <;> rfl

/-- A bit tag gets bit 0 of the packed word at its own offset in the request,
    if there is such a word: the bit sixteen times as far into the request. -/
theorem result_bits {r : ReadRequest} {m : ModbusMapping} {t : Tables} {chrono : Chrono}
    (hm : m.IsBit) (hfunc : r.func = m.function) (h1 : r.start.toNat ≤ m.lo)
    (h2 : m.lo < r.start.toNat + r.qty.toNat) :
    r.result chrono (r.payload t.answer) m =
      if m.lo - r.start.toNat < (r.qty.toNat + 15) / 16 then
        some (.bool ((window (t.bits m.function) r.start.toNat r.qty.toNat).getD
          (16 * (m.lo - r.start.toNat)) false))
      else none := by
  have hbits : r.func.isBit := by
    rw [hfunc]
    exact hm.function
  have hbounds : sliceBounds r m = ((m.lo - r.start.toNat) * 2, 1 * 2) := by
    simp only [sliceBounds, overlap, ReadRequest.span, hm.len, Prod.mk.injEq]
    omega
  have hcount : (packBits (window (t.bits r.func) r.start.toNat r.qty.toNat)).length
      = (r.qty.toNat + 15) / 16 := by
    rw [length_packBits, length_window]
  rw [ReadRequest.result, payload_bits hbits, length_beBytes, hcount, hbounds]
  simp only
  by_cases hword : m.lo - r.start.toNat < (r.qty.toNat + 15) / 16
  · rw [if_neg (by omega), if_pos hword, sliceValue, hbounds]
    simp only
    rw [drop_beBytes, take_beBytes, List.drop_eq_getElem_cons (by rw [hcount]; exact hword),
      List.take_succ_cons, List.take_zero, getElem_packBits, hm.dataType, hm.byteOrder,
      hm.bitOffset, hfunc]
    show some (TagValue.bool (bitAt (beBytes [_]) 0)) = _
    rw [bitAt, wordAt_beBytes, List.getD_cons_zero, show (0 : UInt8).toUInt16 = 0 from rfl,
      UInt16.shiftRight_zero, packWord_and_one]
    simp [List.getD_eq_getElem?_getD, List.getElem?_drop]
  · rw [if_pos (by omega), if_neg hword]

-- ============================================================================
-- Whose bit a tag gets
-- ============================================================================

/-- Every tag is Good with the bit at its own address. -/
def BitsAttributed (mappings : List ModbusMapping) (t : Tables) (d : State) : Prop :=
  ∀ m ∈ mappings, d.view m.tagId = some (.bool (t.bits m.function m.lo), .good)

theorem maxAllowed_bit {func : ModbusFunction} (h : func.isBit) : (maxAllowed func).toNat = 2000 := by
  rcases h with rfl | rfl <;> rfl

section

variable {mappings : List ModbusMapping} {m : ModbusMapping}

/-- The addresses mapped to bits are those of the mappings themselves. -/
theorem mapped_bit_iff (hbit : ∀ m ∈ mappings, m.IsBit) {func : ModbusFunction} {x : Nat} :
    Mapped mappings func x ↔ ∃ m ∈ mappings, m.function = func ∧ m.lo = x := by
  constructor
  · rintro ⟨m, hm, hx1, hx2⟩
    obtain ⟨hmem, hfunc⟩ := mem_byFunc.mp hm
    rw [(hbit m hmem).len] at hx2
    exact ⟨m, hmem, hfunc, by omega⟩
  · rintro ⟨m, hm, hfunc, rfl⟩
    have hlen := (hbit m hm).len
    exact ⟨m, mem_byFunc.mpr ⟨hm, hfunc⟩, le_rfl, by omega⟩

theorem exists_runStart (hspace : ∀ m ∈ mappings, m.InSpace) (hm : m ∈ mappings) :
    ∃ s, IsRunStart (Mapped mappings m.function) s m.lo := by
  obtain ⟨g, hg, hmg⟩ := exists_group hm
  exact ⟨_, (funcGroups_spec hspace hg).2.2 m hmg⟩

/-- Near the start of its group a bit is read by the group's first request. -/
theorem exists_first_request (hspace : ∀ m ∈ mappings, m.InSpace) (hm : m ∈ mappings) (hbit : m.IsBit)
    {s : Nat} (hs : IsRunStart (Mapped mappings m.function) s m.lo) (hnear : m.lo < s + 2000) :
    ∃ g ∈ funcGroups mappings m.function, m ∈ g.members ∧ ∃ rs₁ r rs₂,
      groupRequests m.function g = rs₁ ++ r :: rs₂ ∧ r.func = m.function ∧ r.start.toNat = s ∧
      0 < r.qty.toNat ∧ m.lo < r.start.toNat + r.qty.toNat ∧
      ∀ r' ∈ rs₂, m.lo + m.len ≤ r'.start.toNat := by
  obtain ⟨g, hg, hmg⟩ := exists_group hm
  obtain ⟨hgspace, -, hrun⟩ := funcGroups_spec hspace hg
  obtain ⟨rs₁, r, rs₂, hreqs, h1, h2, -, hlater, -⟩ := exists_last_request hspace hg hmg
  have hr : r ∈ groupRequests m.function g := by
    rw [hreqs]
    simp
  obtain ⟨hle, hmod⟩ := groupRequests_start hgspace hr
  rw [(hrun m hmg).unique hs, maxAllowed_bit hbit.function] at hmod
  rw [(hrun m hmg).unique hs] at hle
  rw [hbit.len] at h1 h2
  exact ⟨g, hg, hmg, rs₁, r, rs₂, hreqs, (mem_groupRequests hr).1, by omega,
    groupRequests_pos hgspace hr, by omega, hlater⟩

/-- What an answered cycle leaves in a bit tag near the start `s` of its run:
    the bit sixteen times as far behind `s`, if the request reaches there. -/
theorem shows_near_start (hspace : ∀ m ∈ mappings, m.InSpace)
    (hnodup : (mappings.map ModbusMapping.tagId).Nodup) (hm : m ∈ mappings) (hbit : m.IsBit) {s : Nat}
    (hs : IsRunStart (Mapped mappings m.function) s m.lo) (hnear : m.lo < s + 2000) {d : State}
    (hreg : d.Registered m.tagId m.dataType) {env : Env} {t : Tables} (hw : WritesGoThrough env mappings d)
    (hans : AllNew (Answered t.answer) d (runReadCycleImpl env mappings d).2) :
    ∃ n, 0 < n ∧ Shows (runReadCycleImpl env mappings d).2 m.tagId
      (if m.lo - s < (n + 15) / 16 then
        some (.bool ((window (t.bits m.function) s n).getD (16 * (m.lo - s)) false)) else none) := by
  obtain ⟨g, hg, hmg, rs₁, r, rs₂, hreqs, hrfunc, rfl, hpos, hend, hlater⟩ :=
    exists_first_request hspace hm hbit hs hnear
  have hlen := hbit.len
  have hle := hs.le
  have hmeets : Meets r.span m.lo m.len := ⟨hend, by simp only [ReadRequest.span]; omega⟩
  refine ⟨r.qty.toNat, hpos, ?_⟩
  rw [← result_bits hbit hrfunc hle hend]
  exact shows_after_cycle hspace hnodup hg hmg hreqs hmeets hlater hreg hw hans

end

/-- Tables with a single bit set. -/
def Tables.oneBit (a : Nat) : Tables where
  registers := fun _ _ => 0
  bits := fun _ x => x = a

/-- For an accepted list of plain bit mappings, every answered cycle gives
    every tag its own bit exactly when no two of them are neighbours. -/
theorem bits_attributed_iff {vorder : FuncOrder} {mappings : List ModbusMapping}
    (hval : validate vorder mappings = .ok ()) (hbit : ∀ m ∈ mappings, m.IsBit)
    (hnodup : (mappings.map ModbusMapping.tagId).Nodup)
    (hle : ∀ m ∈ mappings, m.address.toNat + m.quantity.toNat ≤ 65535)
    {d : State} (hreg : ∀ m ∈ mappings, d.Registered m.tagId m.dataType) :
    (∀ (env : Env) (t : Tables), WritesGoThrough env mappings d →
      AllNew (Answered t.answer) d (runReadCycleImpl env mappings d).2 →
      BitsAttributed mappings t (runReadCycleImpl env mappings d).2) ↔
    ∀ m ∈ mappings, ∀ m' ∈ mappings, m'.function = m.function →
      m'.address.toNat ≠ m.address.toNat + 1 := by
  have hok := (of_validate hval).1
  have hspace : ∀ m ∈ mappings, m.InSpace := fun m hm => ⟨(hok m hm).quantity_pos, hle m hm⟩
  constructor
  · intro hall m hm m' hm' hfunc hnext
    obtain ⟨s, hs⟩ := exists_runStart hspace hm'
    have hnext' : m'.lo = m.lo + 1 := hnext
    -- The run starts before `m'`, so its second address is a tag of its own.
    have hlt : s < m'.lo := by
      refine lt_of_le_of_ne hs.le fun heq => hs.first m.lo (by omega) ?_
      rw [hfunc]
      exact (mapped_bit_iff hbit).mpr ⟨m, hm, rfl, rfl⟩
    obtain ⟨m₁, hm₁, hfunc₁, hlo₁⟩ := (mapped_bit_iff hbit).mp (hs.run (s + 1) (by omega) hlt)
    have hs₁ : IsRunStart (Mapped mappings m₁.function) s m₁.lo := by
      rw [hfunc₁, hlo₁]
      exact ⟨by omega, fun y h1 h2 => hs.run y h1 (by omega), hs.first⟩
    have hans := answered_ofTables (Tables.oneBit (s + 1)) mappings d
    have hw := writesGoThrough_ofTables (Tables.oneBit (s + 1)) mappings d
    obtain ⟨n, -, hshows⟩ := shows_near_start hspace hnodup hm₁ (hbit m₁ hm₁) hs₁ (by omega)
      (hreg m₁ hm₁) hw hans
    rw [show 16 * (m₁.lo - s) = 16 by omega] at hshows
    have hown : Shows (runReadCycleImpl (Env.ofTables (Tables.oneBit (s + 1))) mappings d).2
        m₁.tagId (some (.bool true)) := by
      have h := hall _ (Tables.oneBit (s + 1)) hw hans m₁ hm₁
      simpa [Shows, Tables.oneBit, hlo₁] using h
    have hbit16 : (window ((Tables.oneBit (s + 1)).bits m₁.function) s n).getD 16 false = false := by
      rw [List.getD_eq_getElem?_getD]
      by_cases h16 : 16 < n
      · rw [List.getElem?_eq_getElem (by rw [length_window]; exact h16), getElem_window]
        simp [Tables.oneBit]
      · rw [List.getElem?_eq_none (by rw [length_window]; omega)]
        rfl
    rw [hbit16] at hshows
    have heq := hshows.unique hown
    split at heq <;> simp at heq
  · intro hcond env t hw hans m hm
    obtain ⟨s, hs⟩ := exists_runStart hspace hm
    have heq : s = m.lo := by
      rcases Nat.lt_or_ge s m.lo with hlt | hge
      · obtain ⟨m', hm', hfunc', hlo'⟩ :=
          (mapped_bit_iff hbit).mp (hs.run (m.lo - 1) (by omega) (by omega))
        have hne : m.lo ≠ m'.lo + 1 := hcond m' hm' m hm hfunc'.symm
        omega
      · have := hs.le
        omega
    subst heq
    obtain ⟨n, hpos, hshows⟩ := shows_near_start hspace hnodup hm (hbit m hm) hs (by omega)
      (hreg m hm) hw hans
    rw [Nat.sub_self, if_pos (by omega), Nat.mul_zero, List.getD_eq_getElem?_getD,
      List.getElem?_eq_getElem (by rw [length_window]; exact hpos), getElem_window] at hshows
    exact hshows

/-- Two neighbouring coils. -/
def coilPair : List ModbusMapping :=
  [{ tagId := "run", dataType := .bool, address := 0, function := .coils },
   { tagId := "alarm", dataType := .bool, address := 1, function := .coils }]

def coilState : State :=
  .new (.ofDefinitions [.new "run" "run" "0" .bool "plc", .new "alarm" "alarm" "1" .bool "plc"]) () []

theorem isBit_coilPair : ∀ m ∈ coilPair, m.IsBit := by
  intro m hm
  simp only [coilPair, List.mem_cons, List.not_mem_nil, or_false] at hm
  rcases hm with rfl | rfl
  · exact ⟨rfl, rfl, rfl, rfl, .inl rfl⟩
  · exact ⟨rfl, rfl, rfl, rfl, .inl rfl⟩

theorem registered_coilState : ∀ m ∈ coilPair, coilState.Registered m.tagId m.dataType := by
  intro m hm
  simp only [coilPair, List.mem_cons, List.not_mem_nil, or_false] at hm
  rcases hm with rfl | rfl
  · exact ⟨by decide +kernel, by decide +kernel⟩
  · exact ⟨by decide +kernel, by decide +kernel⟩

theorem bits_attributed_iff_coilPair :
    (∀ (env : Env) (t : Tables), WritesGoThrough env coilPair coilState →
      AllNew (Answered t.answer) coilState (runReadCycleImpl env coilPair coilState).2 →
      BitsAttributed coilPair t (runReadCycleImpl env coilPair coilState).2) ↔
    ∀ m ∈ coilPair, ∀ m' ∈ coilPair, m'.function = m.function →
      m'.address.toNat ≠ m.address.toNat + 1 :=
  @bits_attributed_iff .declared coilPair (by decide) isBit_coilPair (by decide) (by decide)
    coilState registered_coilState

/-- With the second coil set, its tag ends with quality ConfigError. -/
theorem bits_misattributed :
    validate .declared coilPair = .ok () ∧ (∀ m ∈ coilPair, m.IsBit) ∧
    (coilPair.map ModbusMapping.tagId).Nodup ∧
    (∀ m ∈ coilPair, m.address.toNat + m.quantity.toNat ≤ 65535) ∧
    (∀ m ∈ coilPair, coilState.Registered m.tagId m.dataType) ∧
    AllNew (Answered (Tables.oneBit 1).answer) coilState
      (runReadCycleImpl (Env.ofTables (Tables.oneBit 1)) coilPair coilState).2 ∧
    (runReadCycleImpl (Env.ofTables (Tables.oneBit 1)) coilPair coilState).2.view "alarm" =
      some (.bool false, .configError) ∧
    ¬ BitsAttributed coilPair (Tables.oneBit 1)
      (runReadCycleImpl (Env.ofTables (Tables.oneBit 1)) coilPair coilState).2 := by
  have hview : (runReadCycleImpl (Env.ofTables (Tables.oneBit 1)) coilPair coilState).2.view "alarm"
      = some (.bool false, .configError) := by decide +kernel
  refine ⟨by decide, isBit_coilPair, by decide, by decide, registered_coilState,
    answered_ofTables _ _ _, hview, ?_⟩
  intro hown
  have halarm := hown _ (List.mem_cons_of_mem _ (List.mem_cons_self ..))
  exact absurd (hview.symm.trans halarm) (by decide)

end PlcBridge.Modbus
