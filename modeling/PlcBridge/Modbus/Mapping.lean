/-
  PlcBridge.Modbus.Mapping

  Modbus mappings, the driver's errors and the validation of a mapping list
  (driver/modbus/src/{mapping,errors}.rs and `ModbusDriver::validate`).

  The per-function groups of the source live in a `HashMap`, whose iteration
  order is not fixed: it is a parameter (`FuncOrder`) here.
-/
import PlcBridge.CoreModel.TagValue
import PlcBridge.Lib.Runs
import Mathlib.Data.List.Sort

namespace PlcBridge.Modbus

open PlcBridge.Lib

/-- Modbus function / data type selector. -/
inductive ModbusFunction where
  /-- Read/write coils (bit-level discrete outputs). -/
  | coils
  /-- Read discrete inputs (read-only bits). -/
  | discreteInputs
  /-- Holding registers (read/write 16-bit words). -/
  | holdingRegisters
  /-- Input registers (read-only 16-bit words). -/
  | inputRegisters
deriving DecidableEq, Repr

/-- The text `{:?}` and `{}` print for a function. -/
def ModbusFunction.display : ModbusFunction → String
  | .coils => "Coils"
  | .discreteInputs => "DiscreteInputs"
  | .holdingRegisters => "HoldingRegisters"
  | .inputRegisters => "InputRegisters"

/-- An iteration order of a hash map keyed by function. -/
structure FuncOrder where
  list : List ModbusFunction
  nodup : list.Nodup
  complete : ∀ f, f ∈ list

/-- The declaration order, one of the possible ones. -/
def FuncOrder.declared : FuncOrder where
  list := [.coils, .discreteInputs, .holdingRegisters, .inputRegisters]
  nodup := by decide
  complete := by intro f; cases f <;> decide

/-- Per-tag mapping from a tag id to Modbus addressing details. -/
structure ModbusMapping where
  tagId : String
  dataType : TagDataType
  /-- 0-based register or coil address. -/
  address : UInt16
  /-- Number of registers or coils to read. -/
  quantity : UInt16 := 1
  function : ModbusFunction
  /-- Bit inside a word for boolean tags. -/
  bitOffset : UInt8 := 0
  writable : Bool := false
  byteOrder : WordOrder := .ABCD
deriving DecidableEq

/-- Errors produced by the Modbus driver. -/
inductive DriverError where
  | io (msg : String)
  | modbus (msg : String)
  | timeout
  | mapping (msg : String)
  | other (msg : String)
deriving DecidableEq, Repr

/-- The `Display` text of an error. -/
def DriverError.display : DriverError → String
  | .io msg => "IO/network error: " ++ msg
  | .modbus msg => "Modbus protocol error: " ++ msg
  | .timeout => "Timeout"
  | .mapping msg => "Mapping error: " ++ msg
  | .other msg => "Other: " ++ msg

-- ============================================================================
-- Validation
-- ============================================================================

/-- `u16::saturating_add`. -/
def satAdd (a b : UInt16) : UInt16 := if a.toNat + b.toNat < 65536 then a + b else 65535

/-- `u16::saturating_sub`. -/
def satSub (a b : UInt16) : UInt16 := if b ≤ a then a - b else 0

namespace ModbusMapping

/-- Last address of the range as the overlap check computes it. -/
def rangeEnd (m : ModbusMapping) : UInt16 := satSub (satAdd m.address m.quantity) 1

def isReadOnlyFunction (m : ModbusMapping) : Bool :=
  m.function = .inputRegisters ∨ m.function = .discreteInputs

def needsWordPair (m : ModbusMapping) : Bool := m.byteOrder = .CDAB ∨ m.byteOrder = .DCBA

/-- Error for a mapping, with the text both validation loops prefix. -/
def complain (m : ModbusMapping) (what : String) : Except DriverError Unit :=
  .error (.mapping ("Mapping '" ++ m.tagId ++ "' " ++ what))

/-- Quantity check of the multi-register data types. -/
def validateDataType (m : ModbusMapping) : Except DriverError Unit :=
  match m.dataType with
  | .float | .int32 | .uint32 =>
      if m.quantity < 2 then m.complain "data_type requires quantity >= 2" else .ok ()
  | .double =>
      if m.quantity < 4 then m.complain "data_type 'Double' requires quantity >= 4" else .ok ()
  | _ => .ok ()

/-- The checks `validate` makes on each mapping by itself, in order. -/
def validate (m : ModbusMapping) : Except DriverError Unit :=
  if m.quantity = 0 then m.complain "has zero quantity"
  else if 16 ≤ m.bitOffset then
    m.complain ("has invalid bit_offset " ++ toString m.bitOffset ++ " (must be 0..15)")
  else
    match m.validateDataType with
    | .error e => .error e
    | .ok () =>
        if m.isReadOnlyFunction ∧ m.writable then
          m.complain ("marked writable but uses read-only function " ++ m.function.display)
        else if m.needsWordPair ∧ m.quantity < 2 then
          m.complain ("uses byte_order " ++ (if m.byteOrder = .CDAB then "CDAB" else "DCBA") ++
            " which requires quantity >= 2")
        else .ok ()

end ModbusMapping

/-- The mappings of one function, in list order. -/
def byFunc (mappings : List ModbusMapping) (func : ModbusFunction) : List ModbusMapping :=
  mappings.filter fun m => m.function = func

/-- `sort_by_key(|m| m.address)`, a stable sort. -/
def sortByAddress (maps : List ModbusMapping) : List ModbusMapping :=
  maps.insertionSort fun a b => a.address ≤ b.address

/-- Reject ranges that reach into the next one, for a sorted list. -/
def checkOverlaps (func : ModbusFunction) : List ModbusMapping → Except DriverError Unit
  | cur :: next :: rest =>
      if next.address ≤ cur.rangeEnd then
        .error (.mapping ("Overlapping Modbus ranges for function " ++ func.display ++ ": '" ++
          cur.tagId ++ "'[" ++ toString cur.address ++ ".." ++ toString cur.rangeEnd ++
          "] overlaps '" ++ next.tagId ++ "'[" ++ toString next.address ++ ".." ++
          toString next.rangeEnd ++ "]"))
      else checkOverlaps func (next :: rest)
  | _ => .ok ()

/-- `ModbusDriver::validate`. -/
def validate (order : FuncOrder) (mappings : List ModbusMapping) : Except DriverError Unit := do
  mappings.forM ModbusMapping.validate
  order.list.forM fun func => checkOverlaps func (sortByAddress (byFunc mappings func))

-- ============================================================================
-- What an accepted list looks like
-- ============================================================================

/-- The range of a mapping does not reach into another of its function. -/
def ModbusMapping.Before (a b : ModbusMapping) : Prop := a.rangeEnd < b.address

/-- What the per-mapping checks establish. -/
structure ModbusMapping.Ok (m : ModbusMapping) : Prop where
  quantity_pos : 0 < m.quantity.toNat
  bit_lt : m.bitOffset.toNat < 16
  two_words : m.dataType = .float ∨ m.dataType = .int32 ∨ m.dataType = .uint32 →
    2 ≤ m.quantity.toNat
  four_words : m.dataType = .double → 4 ≤ m.quantity.toNat
  read_only : m.function = .inputRegisters ∨ m.function = .discreteInputs → m.writable = false
  word_pair : m.byteOrder = .CDAB ∨ m.byteOrder = .DCBA → 2 ≤ m.quantity.toNat

theorem validateDataType_eq_ok {m : ModbusMapping} (h : m.validateDataType = .ok ()) :
    (m.dataType = .float ∨ m.dataType = .int32 ∨ m.dataType = .uint32 → 2 ≤ m.quantity.toNat) ∧
    (m.dataType = .double → 4 ≤ m.quantity.toNat) := by
  unfold ModbusMapping.validateDataType ModbusMapping.complain at h
  split at h
  all_goals first
    | split at h
      · exact absurd h (by simp)
      · rename_i hq
        have hle := UInt16.le_iff_toNat_le.mp (UInt16.not_lt.mp hq)
        simp_all
    | simp_all

theorem ModbusMapping.ok_of_validate {m : ModbusMapping} (h : m.validate = .ok ()) : m.Ok := by
  unfold ModbusMapping.validate at h
  by_cases hq : m.quantity = 0
  · rw [if_pos hq] at h
    exact absurd h (by simp [complain])
  rw [if_neg hq] at h
  by_cases hb : 16 ≤ m.bitOffset
  · rw [if_pos hb] at h
    exact absurd h (by simp [complain])
  rw [if_neg hb] at h
  cases hd : m.validateDataType with
  | error e => rw [hd] at h; exact absurd h (by simp)
  | ok u =>
      rw [hd] at h
      obtain ⟨h2, h4⟩ := validateDataType_eq_ok hd
      by_cases hro : m.isReadOnlyFunction ∧ m.writable
      · simp only [hro, and_self, if_true] at h
        exact absurd h (by simp [complain])
      simp only [if_neg hro] at h
      by_cases hwp : m.needsWordPair ∧ m.quantity < 2
      · simp only [if_pos hwp] at h
        exact absurd h (by simp [complain])
      refine ⟨?_, ?_, h2, h4, ?_, ?_⟩
      · exact Nat.pos_of_ne_zero fun h0 => hq (UInt16.toNat_inj.mp h0)
      · exact UInt8.lt_iff_toNat_lt.mp (UInt8.not_le.mp hb)
      · intro hf
        by_contra hw
        exact hro ⟨by simpa [isReadOnlyFunction] using hf, by simpa using hw⟩
      · intro ho
        by_contra hlt
        have hlt2 : m.quantity < 2 := UInt16.lt_iff_toNat_lt.mpr (by simpa using hlt)
        exact hwp ⟨by simpa [needsWordPair] using ho, hlt2⟩

theorem mem_byFunc {mappings : List ModbusMapping} {func : ModbusFunction} {m : ModbusMapping} :
    m ∈ byFunc mappings func ↔ m ∈ mappings ∧ m.function = func := by
  simp [byFunc]

theorem mem_sortByAddress {maps : List ModbusMapping} {m : ModbusMapping} :
    m ∈ sortByAddress maps ↔ m ∈ maps := List.mem_insertionSort _

theorem perm_sortByAddress (maps : List ModbusMapping) : (sortByAddress maps).Perm maps :=
  List.perm_insertionSort _ maps

theorem pairwise_sortByAddress (maps : List ModbusMapping) :
    (sortByAddress maps).Pairwise fun a b => a.address.toNat ≤ b.address.toNat := by
  have hsorted : (sortByAddress maps).Pairwise fun a b => a.address ≤ b.address := by
    have : Std.Total fun a b : ModbusMapping => a.address ≤ b.address :=
      ⟨fun a b => UInt16.le_total a.address b.address⟩
    have : IsTrans ModbusMapping fun a b => a.address ≤ b.address :=
      ⟨fun _ _ _ => UInt16.le_trans⟩
    exact List.pairwise_insertionSort _ maps
  exact hsorted.imp UInt16.le_iff_toNat_le.mp

/-- In an accepted sorted list each range ends before the next one starts. -/
theorem isChain_of_checkOverlaps {func : ModbusFunction} :
    ∀ {l : List ModbusMapping}, checkOverlaps func l = .ok () → l.IsChain ModbusMapping.Before
  | [], _ => List.IsChain.nil
  | [_], _ => List.IsChain.singleton _
  | cur :: next :: rest, h => by
      rw [checkOverlaps] at h
      by_cases hov : next.address ≤ cur.rangeEnd
      · rw [if_pos hov] at h
        exact absurd h (by simp)
      · rw [if_neg hov] at h
        exact List.isChain_cons_cons.mpr ⟨UInt16.not_le.mp hov, isChain_of_checkOverlaps h⟩

/-- What `validate` establishes about the whole list. -/
theorem of_validate {order : FuncOrder} {mappings : List ModbusMapping}
    (h : validate order mappings = .ok ()) :
    (∀ m ∈ mappings, m.Ok) ∧
    ∀ func, (sortByAddress (byFunc mappings func)).IsChain ModbusMapping.Before := by
  unfold validate at h
  cases h1 : mappings.forM ModbusMapping.validate with
  | error e => rw [h1] at h; exact absurd h (by simp [bind, Except.bind])
  | ok u =>
      rw [h1] at h
      refine ⟨fun m hm => ModbusMapping.ok_of_validate (forM_eq_ok.mp h1 m hm), ?_⟩
      intro func
      exact isChain_of_checkOverlaps (forM_eq_ok.mp h func (order.complete func))

/-- Different mappings of one function: the check saw one end before the other
    starts. -/
theorem before_of_validate {order : FuncOrder} {mappings : List ModbusMapping}
    (h : validate order mappings = .ok ()) {m m' : ModbusMapping} (hm : m ∈ mappings)
    (hm' : m' ∈ mappings) (hfunc : m'.function = m.function) (hne : m ≠ m') :
    m.Before m' ∨ m'.Before m := by
  refine related_of_isChain ?_ ((of_validate h).2 m.function) (pairwise_sortByAddress _)
    (mem_sortByAddress.mpr (mem_byFunc.mpr ⟨hm, rfl⟩))
    (mem_sortByAddress.mpr (mem_byFunc.mpr ⟨hm', hfunc⟩)) hne
  intro a b c hab hbc
  exact UInt16.lt_iff_toNat_lt.mpr (lt_of_lt_of_le (UInt16.lt_iff_toNat_lt.mp hab) hbc)

/-- The end of a range as the check computes it: a range that holds the last
    address is taken to end one before it. -/
theorem toNat_rangeEnd {m : ModbusMapping} (hpos : 0 < m.quantity.toNat) :
    m.rangeEnd.toNat + 1 = min (m.address.toNat + m.quantity.toNat) 65535 := by
  have hone : (1 : UInt16).toNat = 1 := rfl
  rw [ModbusMapping.rangeEnd, satAdd]
  by_cases hadd : m.address.toNat + m.quantity.toNat < 65536
  · have hsum : (m.address + m.quantity).toNat = m.address.toNat + m.quantity.toNat := by
      rw [UInt16.toNat_add]
      exact Nat.mod_eq_of_lt hadd
    have hle : 1 ≤ m.address + m.quantity := by
      rw [UInt16.le_iff_toNat_le, hsum, hone]
      omega
    rw [if_pos hadd, satSub, if_pos hle, UInt16.toNat_sub_of_le _ _ hle, hsum, hone]
    omega
  · rw [if_neg hadd, min_eq_right (by omega)]
    rfl

end PlcBridge.Modbus
