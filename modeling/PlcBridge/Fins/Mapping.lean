/-
  PlcBridge.Fins.Mapping

  FINS mappings, the driver's errors and the validation of a mapping list
  (driver/fins/src/{mapping,config,errors}.rs and `FinsDriver::validate`).

  `validate` groups the mappings by area in a `HashMap`, whose iteration order
  is a parameter (`AreaOrder`) here.
-/
import PlcBridge.CoreModel.TagValue
import PlcBridge.Driver.Codec
import PlcBridge.Lib.Runs
import Mathlib.Data.List.Sort

namespace PlcBridge.Fins

open PlcBridge.Lib

/-- How a tag maps to a FINS memory area and address. -/
structure TagMapping where
  tagId : String
  /-- FINS memory area code, e.g. 0x82 for the D area. -/
  area : UInt8
  /-- Word address within the memory area. -/
  address : UInt32
  /-- Bit offset inside a word. -/
  bitOffset : UInt8 := 0
  /-- Number of 16-bit words to read/write. -/
  wordCount : UInt16 := 1
  writable : Bool := false
  byteOrder : WordOrder := .ABCD
  dataType : TagDataType
deriving DecidableEq

/-- The part of the driver's configuration the cycle depends on. -/
structure FinsConfig where
  mappings : List TagMapping
  maxWordsPerRequest : UInt32 := 960

/-- Errors produced by the FINS driver. -/
inductive DriverError where
  | io (msg : String)
  | timeout
  | protocol (msg : String)
  | mapping (msg : String)
  | other (msg : String)
deriving DecidableEq, Repr

/-- The `Display` text of an error. -/
def DriverError.display : DriverError → String
  | .io msg => "IO error: " ++ msg
  | .timeout => "Timeout"
  | .protocol msg => "Protocol error: " ++ msg
  | .mapping msg => "Mapping error: " ++ msg
  | .other msg => "Other: " ++ msg

/-- An iteration order of a hash map keyed by area. -/
structure AreaOrder where
  list : List UInt8
  complete : ∀ a, a ∈ list

/-- All areas, lowest first. -/
def allAreas : List UInt8 := (List.range 256).map UInt8.ofNat

theorem mem_allAreas (a : UInt8) : a ∈ allAreas :=
  List.mem_map.mpr ⟨a.toNat, List.mem_range.mpr a.toNat_lt, UInt8.ofNat_toNat⟩

/-- Ascending order, one of the possible ones. -/
def AreaOrder.ascending : AreaOrder := ⟨allAreas, mem_allAreas⟩

-- ============================================================================
-- Validation
-- ============================================================================

/-- `u32::saturating_add`. -/
def satAdd32 (a b : UInt32) : UInt32 := if a.toNat + b.toNat < 2 ^ 32 then a + b else 0xFFFFFFFF

/-- `u32::saturating_sub`. -/
def satSub32 (a b : UInt32) : UInt32 := if b ≤ a then a - b else 0

namespace TagMapping

/-- Last address of the range as the overlap check computes it. -/
def rangeEnd (m : TagMapping) : UInt32 := satSub32 (satAdd32 m.address m.wordCount.toUInt32) 1

def needsWordPair (m : TagMapping) : Bool := m.byteOrder = .CDAB ∨ m.byteOrder = .DCBA

/-- Error for a mapping, with the text all checks prefix. -/
def complain (m : TagMapping) (what : String) : Except DriverError Unit :=
  .error (.mapping ("Mapping '" ++ m.tagId ++ "' " ++ what))

/-- Word count check of the multi-word data types. -/
def validateDataType (m : TagMapping) : Except DriverError Unit :=
  match m.dataType with
  | .float | .int32 | .uint32 =>
      if m.wordCount < 2 then m.complain "data_type requires word_count >= 2" else .ok ()
  | .double =>
      if m.wordCount < 4 then m.complain "data_type 'Double' requires word_count >= 4" else .ok ()
  | _ => .ok ()

/-- The checks `validate` makes on each mapping by itself, in order. -/
def validate (m : TagMapping) : Except DriverError Unit :=
  if m.wordCount = 0 then m.complain "has zero word_count"
  else if 16 ≤ m.bitOffset then
    m.complain ("has invalid bit_offset " ++ toString m.bitOffset ++ " (must be 0..15)")
  else
    match m.validateDataType with
    | .error e => .error e
    | .ok () =>
        if m.needsWordPair ∧ m.wordCount < 2 then
          m.complain ("uses byte_order " ++ (if m.byteOrder = .CDAB then "CDAB" else "DCBA") ++
            " which requires word_count >= 2")
        else .ok ()

end TagMapping

/-- The mappings of one area, in list order. -/
def byArea (mappings : List TagMapping) (area : UInt8) : List TagMapping :=
  mappings.filter fun m => m.area = area

/-- `sort_by_key(|m| m.address)`, a stable sort. -/
def sortByAddress (maps : List TagMapping) : List TagMapping :=
  maps.insertionSort fun a b => a.address ≤ b.address

/-- Reject ranges that reach into the next one, for a sorted list. -/
def checkOverlaps (area : UInt8) : List TagMapping → Except DriverError Unit
  | cur :: next :: rest =>
      if next.address ≤ cur.rangeEnd then
        .error (.mapping ("Overlapping FINS ranges for area 0x" ++ hexString [area] ++ ": '" ++
          cur.tagId ++ "'[" ++ toString cur.address ++ ".." ++ toString cur.rangeEnd ++
          "] overlaps '" ++ next.tagId ++ "'[" ++ toString next.address ++ ".." ++
          toString next.rangeEnd ++ "]"))
      else checkOverlaps area (next :: rest)
  | _ => .ok ()

/-- `FinsDriver::validate`. -/
def validate (order : AreaOrder) (mappings : List TagMapping) : Except DriverError Unit := do
  mappings.forM TagMapping.validate
  order.list.forM fun area => checkOverlaps area (sortByAddress (byArea mappings area))

-- ============================================================================
-- What an accepted list looks like
-- ============================================================================

/-- The range of a mapping does not reach into another of its area. -/
def TagMapping.Before (a b : TagMapping) : Prop := a.rangeEnd < b.address

/-- What the per-mapping checks establish. -/
structure TagMapping.Ok (m : TagMapping) : Prop where
  count_pos : 0 < m.wordCount.toNat
  bit_lt : m.bitOffset.toNat < 16
  two_words : m.dataType = .float ∨ m.dataType = .int32 ∨ m.dataType = .uint32 →
    2 ≤ m.wordCount.toNat
  four_words : m.dataType = .double → 4 ≤ m.wordCount.toNat
  word_pair : m.byteOrder = .CDAB ∨ m.byteOrder = .DCBA → 2 ≤ m.wordCount.toNat

theorem validateDataType_eq_ok {m : TagMapping} (h : m.validateDataType = .ok ()) :
    (m.dataType = .float ∨ m.dataType = .int32 ∨ m.dataType = .uint32 → 2 ≤ m.wordCount.toNat) ∧
    (m.dataType = .double → 4 ≤ m.wordCount.toNat) := by
  unfold TagMapping.validateDataType TagMapping.complain at h
  split at h
  all_goals first
    | split at h
      · exact absurd h (by simp)
      · rename_i hq
        have hle := UInt16.le_iff_toNat_le.mp (UInt16.not_lt.mp hq)
        simp_all
    | simp_all

theorem TagMapping.ok_of_validate {m : TagMapping} (h : m.validate = .ok ()) : m.Ok := by
  unfold TagMapping.validate at h
  by_cases hq : m.wordCount = 0
  · rw [if_pos hq] at h
    exact absurd h (by simp [complain])
  rw [if_neg hq] at h
  by_cases hb : 16 ≤ m.bitOffset
  · rw [if_pos hb] at h
    exact absurd h (by simp [complain])
  rw [if_neg hb] at h
  cases hd : m.validateDataType with
  | error e => rw [hd] at h; exact absurd h (by simp)
  | ok u =>
      rw [hd] at h
      obtain ⟨h2, h4⟩ := validateDataType_eq_ok hd
      by_cases hwp : m.needsWordPair ∧ m.wordCount < 2
      · simp only [if_pos hwp] at h
        exact absurd h (by simp [complain])
      refine ⟨?_, ?_, h2, h4, ?_⟩
      · exact Nat.pos_of_ne_zero fun h0 => hq (UInt16.toNat_inj.mp h0)
      · exact UInt8.lt_iff_toNat_lt.mp (UInt8.not_le.mp hb)
      · intro ho
        by_contra hlt
        have hlt2 : m.wordCount < 2 := UInt16.lt_iff_toNat_lt.mpr (by simpa using hlt)
        exact hwp ⟨by simpa [needsWordPair] using ho, hlt2⟩

theorem mem_byArea {mappings : List TagMapping} {area : UInt8} {m : TagMapping} :
    m ∈ byArea mappings area ↔ m ∈ mappings ∧ m.area = area := by
  simp [byArea]

theorem mem_sortByAddress {maps : List TagMapping} {m : TagMapping} :
    m ∈ sortByAddress maps ↔ m ∈ maps := List.mem_insertionSort _

theorem perm_sortByAddress (maps : List TagMapping) : (sortByAddress maps).Perm maps :=
  List.perm_insertionSort _ maps

theorem pairwise_sortByAddress (maps : List TagMapping) :
    (sortByAddress maps).Pairwise fun a b => a.address.toNat ≤ b.address.toNat := by
  have hsorted : (sortByAddress maps).Pairwise fun a b => a.address ≤ b.address := by
    have : Std.Total fun a b : TagMapping => a.address ≤ b.address :=
      ⟨fun a b => UInt32.le_total a.address b.address⟩
    have : IsTrans TagMapping fun a b => a.address ≤ b.address :=
      ⟨fun _ _ _ => UInt32.le_trans⟩
    exact List.pairwise_insertionSort _ maps
  exact hsorted.imp UInt32.le_iff_toNat_le.mp

/-- In an accepted sorted list each range ends before the next one starts. -/
theorem isChain_of_checkOverlaps {area : UInt8} :
    ∀ {l : List TagMapping}, checkOverlaps area l = .ok () → l.IsChain TagMapping.Before
  | [], _ => List.IsChain.nil
  | [_], _ => List.IsChain.singleton _
  | cur :: next :: rest, h => by
      rw [checkOverlaps] at h
      by_cases hov : next.address ≤ cur.rangeEnd
      · rw [if_pos hov] at h
        exact absurd h (by simp)
      · rw [if_neg hov] at h
        exact List.isChain_cons_cons.mpr ⟨UInt32.not_le.mp hov, isChain_of_checkOverlaps h⟩

/-- What `validate` establishes about the whole list. -/
theorem of_validate {order : AreaOrder} {mappings : List TagMapping}
    (h : validate order mappings = .ok ()) :
    (∀ m ∈ mappings, m.Ok) ∧
    ∀ area, (sortByAddress (byArea mappings area)).IsChain TagMapping.Before := by
  unfold validate at h
  cases h1 : mappings.forM TagMapping.validate with
  | error e => rw [h1] at h; exact absurd h (by simp [bind, Except.bind])
  | ok u =>
      rw [h1] at h
      refine ⟨fun m hm => TagMapping.ok_of_validate (forM_eq_ok.mp h1 m hm), ?_⟩
      intro area
      exact isChain_of_checkOverlaps (forM_eq_ok.mp h area (order.complete area))

/-- Different mappings of one area: the check saw one end before the other
    starts. -/
theorem before_of_validate {order : AreaOrder} {mappings : List TagMapping}
    (h : validate order mappings = .ok ()) {m m' : TagMapping} (hm : m ∈ mappings)
    (hm' : m' ∈ mappings) (harea : m'.area = m.area) (hne : m ≠ m') : m.Before m' ∨ m'.Before m := by
  refine related_of_isChain ?_ ((of_validate h).2 m.area) (pairwise_sortByAddress _)
    (mem_sortByAddress.mpr (mem_byArea.mpr ⟨hm, rfl⟩))
    (mem_sortByAddress.mpr (mem_byArea.mpr ⟨hm', harea⟩)) hne
  intro a b c hab hbc
  exact UInt32.lt_iff_toNat_lt.mpr (lt_of_lt_of_le (UInt32.lt_iff_toNat_lt.mp hab) hbc)

/-- The end of a range as the check computes it: a range that holds the last
    address is taken to end one before it. -/
theorem toNat_rangeEnd {m : TagMapping} (hpos : 0 < m.wordCount.toNat) :
    m.rangeEnd.toNat + 1 = min (m.address.toNat + m.wordCount.toNat) (2 ^ 32 - 1) := by
  have hcount : m.wordCount.toUInt32.toNat = m.wordCount.toNat := UInt16.toNat_toUInt32 _
  have hone : (1 : UInt32).toNat = 1 := rfl
  rw [TagMapping.rangeEnd, satAdd32, hcount]
  by_cases hadd : m.address.toNat + m.wordCount.toNat < 2 ^ 32
  · have hsum : (m.address + m.wordCount.toUInt32).toNat = m.address.toNat + m.wordCount.toNat := by
      rw [UInt32.toNat_add, hcount]
      exact Nat.mod_eq_of_lt hadd
    have hle : 1 ≤ m.address + m.wordCount.toUInt32 := by
      rw [UInt32.le_iff_toNat_le, hsum, hone]
      omega
    rw [if_pos hadd, satSub32, if_pos hle, UInt32.toNat_sub_of_le _ _ hle, hsum, hone]
    omega
  · rw [if_neg hadd, min_eq_right (by omega)]
    rfl

end PlcBridge.Fins
