/-
  PlcBridge.Modbus.Overlap

  What the overlap check of `ModbusDriver::validate` decides.

  The check compares neighbours after sorting and computes the ends of ranges
  with saturating `u16` arithmetic, so a range that holds address 65535 is
  taken to end at 65534.  It is exact about every address but that last one.
-/
import PlcBridge.Modbus.Mapping
import Mathlib

namespace PlcBridge.Modbus

open PlcBridge.Lib

/-- The addresses of a mapping. -/
def ModbusMapping.range (m : ModbusMapping) : Set Nat :=
  Set.Ico m.address.toNat (m.address.toNat + m.quantity.toNat)

/-- The mapping lies in the Modbus address space. -/
def ModbusMapping.Addressable (m : ModbusMapping) : Prop :=
  1 ≤ m.quantity.toNat ∧ m.address.toNat + m.quantity.toNat ≤ 65536

/-- Two different mappings of one function have no address in common. -/
def RangesDisjoint (mappings : List ModbusMapping) : Prop :=
  mappings.Pairwise fun a b => a.function = b.function → Disjoint a.range b.range

/-- Two different mappings of one function have no address below 65535 in
    common. -/
def DisjointBelowLast (mappings : List ModbusMapping) : Prop :=
  mappings.Pairwise fun a b => a.function = b.function →
    Disjoint (a.range ∩ Set.Iio 65535) (b.range ∩ Set.Iio 65535)

/-- No two mappings of one function hold address 65535. -/
def LastUnshared (mappings : List ModbusMapping) : Prop :=
  mappings.Pairwise fun a b => a.function = b.function → ¬ (65535 ∈ a.range ∧ 65535 ∈ b.range)

variable {order : FuncOrder} {mappings : List ModbusMapping} {a b : ModbusMapping}

-- ============================================================================
-- One pair
-- ============================================================================

theorem before_iff (ha : a.Addressable) :
    a.Before b ↔ min (a.address.toNat + a.quantity.toNat) 65535 ≤ b.address.toNat := by
  have hend := @toNat_rangeEnd a ha.1
  rw [ModbusMapping.Before, UInt16.lt_iff_toNat_lt]
  omega

/-- For mappings in address order the check decides whether they meet below
    the last address. -/
theorem before_iff_disjoint (ha : a.Addressable) (hb : b.Addressable)
    (hle : a.address.toNat ≤ b.address.toNat) :
    a.Before b ↔ Disjoint (a.range ∩ Set.Iio 65535) (b.range ∩ Set.Iio 65535) := by
  obtain ⟨hapos, haspace⟩ := ha
  obtain ⟨hbpos, hbspace⟩ := hb
  rw [before_iff ⟨hapos, haspace⟩, Set.disjoint_left]
  simp only [ModbusMapping.range, Set.mem_inter_iff, Set.mem_Ico, Set.mem_Iio]
  constructor
  · intro hend x hx hx'
    omega
  · intro hdisj
    by_contra hlt
    -- Then the second range starts inside the first one.
    exact hdisj (a := b.address.toNat) (by omega) (by omega)

theorem before_of_before_of_le (a b c : ModbusMapping) (hab : a.Before b)
    (hbc : b.address.toNat ≤ c.address.toNat) : a.Before c :=
  UInt16.lt_iff_toNat_lt.mpr (lt_of_lt_of_le (UInt16.lt_iff_toNat_lt.mp hab) hbc)

-- ============================================================================
-- The whole list
-- ============================================================================

theorem checkOverlaps_eq_ok {func : ModbusFunction} :
    ∀ {l : List ModbusMapping}, checkOverlaps func l = .ok () ↔ l.IsChain ModbusMapping.Before
  | [] => by simp [checkOverlaps]
  | [_] => by simp [checkOverlaps]
  | cur :: next :: rest => by
      rw [checkOverlaps, List.isChain_cons_cons, ← @checkOverlaps_eq_ok func]
      by_cases hov : next.address ≤ cur.rangeEnd
      · rw [if_pos hov]
        simp [ModbusMapping.Before, hov]
      · rw [if_neg hov]
        simp [ModbusMapping.Before, UInt16.not_le.mp hov]

/-- The check of one function's mappings, in any order. -/
theorem checkOverlaps_sorted_eq_ok {func : ModbusFunction} {maps : List ModbusMapping}
    (hspace : ∀ m ∈ maps, m.Addressable) :
    checkOverlaps func (sortByAddress maps) = .ok () ↔
      maps.Pairwise fun a b => Disjoint (a.range ∩ Set.Iio 65535) (b.range ∩ Set.Iio 65535) := by
  have hsorted := pairwise_sortByAddress maps
  have hpairs := List.Pairwise.and_mem.mp hsorted
  rw [checkOverlaps_eq_ok, isChain_iff_pairwise_of_sorted before_of_before_of_le hsorted,
    ← (perm_sortByAddress maps).pairwise_iff fun h => h.symm]
  constructor
  · intro hbefore
    refine hbefore.imp₂ ?_ hpairs
    rintro a b hab ⟨ha, hb, hle⟩
    exact (before_iff_disjoint (hspace a (mem_sortByAddress.mp ha)) (hspace b (mem_sortByAddress.mp hb))
      hle).mp hab
  · intro hdisj
    refine hdisj.imp₂ ?_ hpairs
    rintro a b hab ⟨ha, hb, hle⟩
    exact (before_iff_disjoint (hspace a (mem_sortByAddress.mp ha)) (hspace b (mem_sortByAddress.mp hb))
      hle).mpr hab

/-- Mappings that pass their own checks are accepted exactly when no two of
    one function meet below the last address. -/
theorem validate_eq_ok_iff (hspace : ∀ m ∈ mappings, m.Addressable)
    (hok : ∀ m ∈ mappings, m.validate = .ok ()) :
    validate order mappings = .ok () ↔ DisjointBelowLast mappings := by
  have hgroup : ∀ func, (∀ m ∈ byFunc mappings func, m.Addressable) := by
    intro func m hm
    exact hspace m (mem_byFunc.mp hm).1
  have hchecks : validate order mappings = .ok () ↔
      ∀ func, (byFunc mappings func).Pairwise fun a b =>
        Disjoint (a.range ∩ Set.Iio 65535) (b.range ∩ Set.Iio 65535) := by
    rw [validate, forM_eq_ok.mpr hok]
    show order.list.forM _ = Except.ok () ↔ _
    rw [forM_eq_ok]
    refine ⟨fun h func => ?_, fun h func _ => ?_⟩
    · exact (checkOverlaps_sorted_eq_ok (hgroup func)).mp (h func (order.complete func))
    · exact (checkOverlaps_sorted_eq_ok (hgroup func)).mpr (h func)
  rw [hchecks, DisjointBelowLast]
  simp only [byFunc, List.pairwise_filter, decide_eq_true_iff]
  constructor
  · -- Each pair is seen in the group of its function.
    intro h
    have hall : mappings.Pairwise fun a b => ∀ func, a.function = func → b.function = func →
        Disjoint (a.range ∩ Set.Iio 65535) (b.range ∩ Set.Iio 65535) := by
      rw [List.pairwise_iff_getElem]
      intro i j hi hj hij func
      exact List.pairwise_iff_getElem.mp (h func) i j hi hj hij
    refine hall.imp ?_
    intro a b hab hfunc
    exact hab a.function rfl hfunc.symm
  · intro h func
    refine h.imp ?_
    intro a b hab ha hb
    exact hab (ha.trans hb.symm)

/-- Ranges are disjoint when they are so below the last address and at it. -/
theorem rangesDisjoint_iff (hspace : ∀ m ∈ mappings, m.Addressable) :
    RangesDisjoint mappings ↔ DisjointBelowLast mappings ∧ LastUnshared mappings := by
  rw [RangesDisjoint, DisjointBelowLast, LastUnshared, ← List.pairwise_and_iff]
  apply List.Pairwise.iff_of_mem
  intro a b ha hb
  obtain ⟨-, haspace⟩ := hspace a ha
  simp only [← imp_and, Set.disjoint_left, ModbusMapping.range, Set.mem_inter_iff, Set.mem_Ico,
    Set.mem_Iio]
  constructor
  · intro hdisj hfunc
    refine ⟨?_, ?_⟩
    · rintro x ⟨hx, -⟩ ⟨hx', -⟩
      exact hdisj hfunc hx hx'
    · rintro ⟨hx, hx'⟩
      exact hdisj hfunc hx hx'
  · intro hparts hfunc x hx hx'
    obtain ⟨hbelow, hlast⟩ := hparts hfunc
    by_cases hxlast : x < 65535
    · exact hbelow ⟨hx, hxlast⟩ ⟨hx', hxlast⟩
    · obtain rfl : x = 65535 := by omega
      exact hlast ⟨hx, hx'⟩

/-- Acceptance means disjoint ranges exactly for the lists in which two
    mappings of one function meet below address 65535, or none share it. -/
theorem validate_exact_iff (order : FuncOrder) {mappings : List ModbusMapping}
    (hspace : ∀ m ∈ mappings, m.Addressable) (hok : ∀ m ∈ mappings, m.validate = .ok ()) :
    (validate order mappings = .ok () ↔ RangesDisjoint mappings) ↔
      ¬ DisjointBelowLast mappings ∨ LastUnshared mappings := by
  rw [validate_eq_ok_iff hspace hok, rangesDisjoint_iff hspace]
  by_cases hbelow : DisjointBelowLast mappings
  · simp [hbelow]
  · simp [hbelow]

/-- A 32-bit mapping of the last two registers and a 16-bit one of the last. -/
def lastRegisters : List ModbusMapping :=
  [{ tagId := "total", dataType := .uint32, address := 65534, quantity := 2, function := .holdingRegisters },
   { tagId := "limit", dataType := .uint16, address := 65535, function := .holdingRegisters }]

/-- Two adjacent mappings. -/
def adjacentRegisters : List ModbusMapping :=
  [{ tagId := "total", dataType := .uint32, address := 65533, quantity := 2, function := .holdingRegisters },
   { tagId := "limit", dataType := .uint16, address := 65535, function := .holdingRegisters }]

theorem validate_exact_iff_adjacent :
    validate .declared adjacentRegisters = .ok () ↔ RangesDisjoint adjacentRegisters := by
  refine (validate_exact_iff .declared ?_ ?_).mpr (.inr ?_)
  · simp [adjacentRegisters, ModbusMapping.Addressable]
  · simp [adjacentRegisters]
    decide
  · simp [adjacentRegisters, LastUnshared, ModbusMapping.range]

/-- The two mappings share the last register and are accepted. -/
theorem overlap_at_last_accepted :
    ¬ ∀ (order : FuncOrder) (mappings : List ModbusMapping), (∀ m ∈ mappings, m.Addressable) →
      (∀ m ∈ mappings, m.validate = .ok ()) →
      (validate order mappings = .ok () ↔ RangesDisjoint mappings) := by
  intro h
  have hspace : ∀ m ∈ lastRegisters, m.Addressable := by simp [lastRegisters, ModbusMapping.Addressable]
  have hok : ∀ m ∈ lastRegisters, m.validate = .ok () := by
    simp [lastRegisters]
    decide
  have hdisj := (h .declared lastRegisters hspace hok).mp (by decide)
  simp [lastRegisters, RangesDisjoint, ModbusMapping.range, Set.disjoint_left] at hdisj
  exact absurd (@hdisj 65535) (by decide)

end PlcBridge.Modbus
