/-
  PlcBridge.Runtime.FinsRequests

  Which memory a FINS request names (`build_memory_read` and
  `build_memory_write` of driver/fins/src/driver.rs) against the memory it was
  built for.  Addresses are 32-bit numbers from the configuration, and the
  number of words of a write comes from the value; the frame has three bytes
  for the one and two for the other.
-/
import PlcBridge.Fins.StrayFrame
import PlcBridge.Runtime.Tags

namespace PlcBridge.Fins

open PlcBridge.Lib

-- ============================================================================
-- Requests and their parameters
-- ============================================================================

/-- A memory request of the driver. -/
inductive MemoryCommand where
  | read (group : ReadGroup)
  | write (m : TagMapping) (words : List UInt16)

/-- The parameters of a memory request. -/
structure MemoryParams where
  area : UInt8
  address : ℕ
  bitOffset : UInt8
  count : ℕ
  words : List UInt16
deriving DecidableEq

namespace MemoryCommand

/-- The parameter bytes that are sent. -/
def params : MemoryCommand → List UInt8
  | .read g => buildMemoryRead g.area g.startAddress 0 g.wordCount
  | .write m words => buildMemoryWrite m.area m.address m.bitOffset words

/-- The memory the request is built for. -/
def intended : MemoryCommand → MemoryParams
  | .read g => ⟨g.area, g.startAddress.toNat, 0, g.wordCount.toNat, []⟩
  | .write m words => ⟨m.area, m.address.toNat, m.bitOffset, words.length, words⟩

/-- The address fits into three bytes and the number of words into two. -/
def Fits (c : MemoryCommand) : Prop :=
  c.intended.address < 2 ^ 24 ∧ c.intended.words.length < 2 ^ 16

/-- The two bytes of the command code. -/
def code : MemoryCommand → UInt8 × UInt8
  | .read _ => (0x01, 0x01)
  | .write _ _ => (0x01, 0x02)

end MemoryCommand

/-- Read parameter bytes: area, three address bytes, bit offset, two bytes for
    the count, and for a write that many words. -/
def decodeParams : List UInt8 → Option MemoryParams
  | area :: a2 :: a1 :: a0 :: bit :: n1 :: n0 :: rest =>
      some ⟨area, a2.toNat * 65536 + a1.toNat * 256 + a0.toNat, bit, (beWord n1 n0).toNat,
        (beWords rest).take (beWord n1 n0).toNat⟩
  | _ => none

/-- The request of an exchange. -/
def Exchange.command : Exchange → MemoryCommand
  | .read _ _ g _ => .read g
  | .write _ _ _ m words _ => .write m words

/-- What goes over the wire is the request's command code and parameters. -/
theorem Exchange.sent_eq (x : Exchange) :
    x.sent = wrapFinsTcp (buildFinsFrame x.sid x.command.code x.command.params) := by
  cases x <;> rfl

/-- The bytes carry the address modulo 2^24 and the word count modulo 2^16. -/
theorem decodeParams_write (m : TagMapping) (words : List UInt16) :
    decodeParams (MemoryCommand.write m words).params
      = some ⟨m.area, m.address.toNat % 2 ^ 24, m.bitOffset, words.length % 2 ^ 16,
          words.take (words.length % 2 ^ 16)⟩ := by
  rw [← address_bytes]
  simp only [MemoryCommand.params, buildMemoryWrite, memoryAddress, beBytes, List.cons_append,
    List.nil_append, decodeParams, beWord_bytes, beWords_beBytes, UInt16.toNat_ofNat']

theorem decodeParams_read (g : ReadGroup) :
    decodeParams (MemoryCommand.read g).params
      = some ⟨g.area, g.startAddress.toNat % 2 ^ 24, 0, g.wordCount.toNat, []⟩ := by
  rw [← address_bytes]
  simp only [MemoryCommand.params, buildMemoryRead, memoryAddress, beBytes, List.cons_append,
    List.nil_append, decodeParams, beWord_bytes, beWords, List.take_nil]

/-- A request names its memory exactly when its numbers fit. -/
theorem decodeParams_eq_intended_iff (c : MemoryCommand) :
    decodeParams c.params = some c.intended ↔ c.Fits := by
  cases c with
  | read g =>
      rw [decodeParams_read]
      simp only [MemoryCommand.intended, MemoryCommand.Fits, Option.some.injEq,
        MemoryParams.mk.injEq, true_and, and_true, List.length_nil]
      constructor
      · intro h
        exact ⟨by omega, by decide⟩
      · intro h
        exact Nat.mod_eq_of_lt h.1
  | write m words =>
      rw [decodeParams_write]
      simp only [MemoryCommand.intended, MemoryCommand.Fits, Option.some.injEq,
        MemoryParams.mk.injEq, true_and]
      constructor
      · rintro ⟨haddr, hcount, -⟩
        exact ⟨by omega, by omega⟩
      · rintro ⟨haddr, hcount⟩
        rw [Nat.mod_eq_of_lt haddr, Nat.mod_eq_of_lt hcount, List.take_length]
        exact ⟨rfl, rfl, rfl⟩

-- ============================================================================
-- All requests of a driver
-- ============================================================================

/-- The requests on the wire name the memory they were built for, and requests
    for different places differ. -/
structure NamesMemory (cs : List MemoryCommand) : Prop where
  decodes : ∀ c : MemoryCommand, c ∈ cs → decodeParams c.params = some c.intended
  differ : ∀ c c' : MemoryCommand, c ∈ cs → c' ∈ cs →
    c.intended.area ≠ c'.intended.area ∨ c.intended.address ≠ c'.intended.address →
      c.params ≠ c'.params

theorem namesMemory_iff (cs : List MemoryCommand) :
    NamesMemory cs ↔ ∀ c : MemoryCommand, c ∈ cs → c.Fits := by
  constructor
  · intro h c hc
    exact (decodeParams_eq_intended_iff c).mp (h.decodes c hc)
  · intro h
    have hdec : ∀ c : MemoryCommand, c ∈ cs → decodeParams c.params = some c.intended :=
      fun c hc => (decodeParams_eq_intended_iff c).mpr (h c hc)
    refine ⟨hdec, ?_⟩
    intro c c' hc hc' hplace heq
    have hsame : c.intended = c'.intended := by
      have hdec' := hdec c hc
      rw [heq, hdec c' hc', Option.some.injEq] at hdec'
      exact hdec'.symm
    rw [hsame] at hplace
    exact hplace.elim (fun hne => hne rfl) (fun hne => hne rfl)

/-- The read requests of a driver, and writes of values to mappings. -/
def FinsDriver.requests (drv : FinsDriver) (writes : List (TagMapping × TagValue)) :
    List MemoryCommand :=
  drv.readGroups.map .read ++ writes.map fun p => .write p.1 (p.1.writeWords p.2)

/-- The requests of a driver name their memory exactly when every read group
    starts, and every write goes, below address 2^24, and no value written
    takes 2^16 words or more. -/
theorem requests_name_their_memory_iff (drv : FinsDriver) (writes : List (TagMapping × TagValue)) :
    NamesMemory (drv.requests writes) ↔
      (∀ g : ReadGroup, g ∈ drv.readGroups → g.startAddress.toNat < 2 ^ 24) ∧
      ∀ p : TagMapping × TagValue, p ∈ writes →
        p.1.address.toNat < 2 ^ 24 ∧ (standardWords p.2).length < 2 ^ 16 := by
  have hlen : ∀ p : TagMapping × TagValue,
      (p.1.writeWords p.2).length = (standardWords p.2).length := fun p => by
    rw [writeWords_eq, WordOrder.length_onWords]
  rw [namesMemory_iff]
  constructor
  · intro h
    constructor
    · intro g hg
      exact (h (.read g) (List.mem_append_left _ (List.mem_map_of_mem hg))).1
    · intro p hp
      have hfits := h (.write p.1 (p.1.writeWords p.2))
        (List.mem_append_right _ (List.mem_map.mpr ⟨p, hp, rfl⟩))
      rw [← hlen p]
      exact hfits
  · rintro ⟨hreads, hwrites⟩ c hc
    rcases List.mem_append.mp hc with hc | hc
    · obtain ⟨g, hg, rfl⟩ := List.mem_map.mp hc
      exact ⟨hreads g hg, Nat.two_pow_pos 16⟩
    · obtain ⟨p, hp, rfl⟩ := List.mem_map.mp hc
      obtain ⟨haddr, hwords⟩ := hwrites p hp
      rw [← hlen p] at hwords
      exact ⟨haddr, hwords⟩

end PlcBridge.Fins

-- ============================================================================
-- An address of 25 bits
-- ============================================================================

namespace PlcBridge.Runtime

open PlcBridge.Fins

/-- Two words of the D area. -/
def farEntries : List TagConfig :=
  [{ id := "near", name := "near", address := "D0", dataType := "UInt16" },
   { id := "far", name := "far", address := "D16777216", dataType := "UInt16" }]

def farMappings : List TagMapping :=
  [{ tagId := "near", area := 0x82, address := 0, dataType := .uint16 },
   { tagId := "far", area := 0x82, address := 16777216, dataType := .uint16 }]

def farDriver : FinsDriver where
  mappings := farMappings
  readGroups := farMappings.map fun m => ⟨m.area, m.address, m.wordCount, [m]⟩

/-- Conversion, construction and `validate` accept both entries, and the driver
    then asks for `D0` twice. -/
theorem requests_collide :
    farEntries.mapM (tagconfigToFinsMapping .basic) = .ok farMappings ∧
    validate .ascending farMappings = .ok () ∧
    FinsDriver.new ⟨farMappings, 960⟩ = some farDriver ∧
    ¬ NamesMemory (farDriver.requests []) := by
  refine ⟨by decide +kernel, by decide +kernel, ?_, ?_⟩
  · have hgroups : Lib.gather (splitRun 960) (allRuns farMappings) = some farDriver.readGroups := by
      decide +kernel
    rw [FinsDriver.new, hgroups]
    rfl
  · intro h
    refine h.differ (.read ⟨0x82, 0, 1, farMappings.take 1⟩)
      (.read ⟨0x82, 16777216, 1, farMappings.drop 1⟩) List.mem_cons_self
      (List.mem_cons_of_mem _ List.mem_cons_self) (.inr ?_) ?_
    · decide
    · decide

end PlcBridge.Runtime
