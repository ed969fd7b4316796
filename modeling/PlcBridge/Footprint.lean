/-
  PlcBridge.Footprint

  Which device words a write reaches.  The length of a write comes from the
  encoding of the value, the range of the tag from its mapping, and `validate`
  compares the two for some data types only: `Int64`, `UInt64` and `DateTime`
  need four words whatever the range, texts and byte strings as many as they
  are long.  A FINS request in addition carries the address modulo 2^24 and the
  word count modulo 2^16.
-/
import PlcBridge.Fins.GroupedReads
import PlcBridge.Modbus.GroupedReads
import PlcBridge.Modbus.WriteReadBack

namespace PlcBridge

open PlcBridge.Lib

-- ============================================================================
-- Values against ranges
-- ============================================================================

/-- Words a value is encoded into, from its type and the length of its
    bytes. -/
def TagValue.wordsNeeded (v : TagValue) : Nat :=
  (fixedWords v.dataType).getD ((payloadBytes v + 1) / 2)

/-- A value of an accepted mapping with `n` words is written to at least one
    and at most `n` words.  `carried` is the word count a request carries for a
    given number of words. -/
def TagValue.Fits (carried : Nat → Nat) (n : Nat) : TagValue → Prop
  | .int64 _ | .uint64 _ | .dateTime _ => 4 ≤ n
  | .string s => 1 ≤ carried ((s.utf8ByteSize + 1) / 2) ∧ carried ((s.utf8ByteSize + 1) / 2) ≤ n
  | .byteString b => 1 ≤ carried ((b.length + 1) / 2) ∧ carried ((b.length + 1) / 2) ≤ n
  | _ => True

/-- Together with what `validate` checks, this bounds the encoding. -/
theorem TagValue.fits_iff {carried : Nat → Nat} (hcarried : ∀ k ≤ 4, carried k = k) {n : Nat}
    (hpos : 0 < n) {v : TagValue}
    (htwo : v.dataType = .float ∨ v.dataType = .int32 ∨ v.dataType = .uint32 → 2 ≤ n)
    (hfour : v.dataType = .double → 4 ≤ n) :
    v.Fits carried n ↔ 1 ≤ carried v.wordsNeeded ∧ carried v.wordsNeeded ≤ n := by
  have h1 := hcarried 1 (by omega)
  have h2 := hcarried 2 (by omega)
  have h4 := hcarried 4 le_rfl
  cases v with
  | string s => exact Iff.rfl
  | byteString b => exact Iff.rfl
  | int64 | uint64 | dateTime =>
      show 4 ≤ n ↔ 1 ≤ carried 4 ∧ carried 4 ≤ n
      omega
  | double =>
      have := hfour rfl
      show True ↔ 1 ≤ carried 4 ∧ carried 4 ≤ n
      simp only [true_iff]
      omega
  | float =>
      have := htwo (.inl rfl)
      show True ↔ 1 ≤ carried 2 ∧ carried 2 ≤ n
      simp only [true_iff]
      omega
  | int32 =>
      have := htwo (.inr (.inl rfl))
      show True ↔ 1 ≤ carried 2 ∧ carried 2 ≤ n
      simp only [true_iff]
      omega
  | uint32 =>
      have := htwo (.inr (.inr rfl))
      show True ↔ 1 ≤ carried 2 ∧ carried 2 ≤ n
      simp only [true_iff]
      omega
  | bool | int16 | uint16 =>
      show True ↔ 1 ≤ carried 1 ∧ carried 1 ≤ n
      simp only [true_iff]
      omega

-- ============================================================================
-- Modbus
-- ============================================================================

namespace Modbus

/-- The exchange is a request that writes register `a`. -/
def Exchange.Writes (a : Nat) : Exchange → Prop
  | .write _ _ address words _ => address.toNat ≤ a ∧ a < address.toNat + words.length
  | .read .. => False

/-- The holding registers after the device performed the request. -/
def Exchange.perform (regs : Nat → UInt16) : Exchange → Nat → UInt16
  | .write _ _ address words _ => overwrite regs address.toNat words
  | .read .. => regs

/-- A write request keeps to its mapping: it writes at least one register, only
    registers of the mapping, and, if the device has these registers, leaves
    the other mappings of the function as they were. -/
structure KeepsTo (mappings : List ModbusMapping) (m : ModbusMapping) (x : Exchange) : Prop where
  nonempty : ∃ a, x.Writes a
  inside : ∀ a, x.Writes a → m.lo ≤ a ∧ a < m.lo + m.len
  spares : (∀ a, x.Writes a → a < 65536) → ∀ m' ∈ mappings, m' ≠ m → m'.function = m.function →
    ∀ regs, window (x.perform regs) m'.lo m'.len = window regs m'.lo m'.len

/-- Register 65535 belongs to another mapping, too: the overlap check takes a
    range that holds it to end at 65534. -/
def SharesLast (mappings : List ModbusMapping) (m : ModbusMapping) (n : Nat) : Prop :=
  m.lo + n = 65536 ∧ ∃ m' ∈ mappings, m' ≠ m ∧ m'.function = m.function ∧ 65536 ≤ m'.lo + m'.len

variable {env : Env} {d : State} {m : ModbusMapping} {req : WriteRequest} {order : FuncOrder}
  {mappings : List ModbusMapping}

/-- Where an accepted list has ranges overlap: at register 65535 only. -/
theorem apart_of_validate (hval : validate order mappings = .ok ()) {m m' : ModbusMapping}
    (hm : m ∈ mappings) (hm' : m' ∈ mappings) (hfunc : m'.function = m.function) (hne : m ≠ m') :
    min (m.lo + m.len) 65535 ≤ m'.lo ∨ min (m'.lo + m'.len) 65535 ≤ m.lo := by
  have hbefore : ∀ a b : ModbusMapping, a ∈ mappings → a.Before b →
      min (a.lo + a.len) 65535 ≤ b.lo := by
    intro a b ha hab
    have hlt : a.rangeEnd.toNat < b.address.toNat := UInt16.lt_iff_toNat_lt.mp hab
    have hend := toNat_rangeEnd ((of_validate hval).1 a ha).quantity_pos
    show min (a.address.toNat + a.quantity.toNat) 65535 ≤ b.address.toNat
    omega
  rcases before_of_validate hval hm hm' hfunc hne with h | h
  · exact .inl (hbefore m m' hm h)
  · exact .inr (hbefore m' m hm' h)

theorem keepsTo_iff (hval : validate order mappings = .ok ()) (hm : m ∈ mappings)
    (hdt : req.value.dataType = m.dataType) :
    KeepsTo mappings m (writeExchange env m req d) ↔
      req.value.Fits id m.quantity.toNat ∧
        ¬ SharesLast mappings m req.value.wordsNeeded := by
  have hok := (of_validate hval).1 m hm
  have hlen : (m.writeWords req.value).length = req.value.wordsNeeded := by
    rw [length_writeWords, length_standardWords]
    rfl
  have hfits := @TagValue.fits_iff id (fun _ _ => rfl) m.quantity.toNat hok.quantity_pos req.value
    (by rw [hdt]; exact hok.two_words) (by rw [hdt]; exact hok.four_words)
  have hwrites : ∀ a, (writeExchange env m req d).Writes a ↔
      m.lo ≤ a ∧ a < m.lo + req.value.wordsNeeded := by
    intro a
    rw [← hlen]
    exact Iff.rfl
  have hperform : ∀ regs, (writeExchange env m req d).perform regs =
      overwrite regs m.lo (m.writeWords req.value) := fun _ => rfl
  have hqty : m.quantity.toNat = m.len := rfl
  rw [hfits, hqty, id_eq]
  generalize req.value.wordsNeeded = n at hlen hwrites ⊢
  constructor
  · rintro ⟨⟨a, ha⟩, hinside, hspares⟩
    rw [hwrites] at ha
    have hlast := hinside (m.lo + n - 1) ((hwrites _).mpr ⟨by omega, by omega⟩)
    refine ⟨⟨by omega, by omega⟩, ?_⟩
    rintro ⟨hend, m', hm', hne, hfunc, hreach⟩
    have hlo : m'.lo < 65536 := m'.address.toNat_lt
    have : Nontrivial UInt16 := ⟨0, 1, by decide⟩
    obtain ⟨regs, hregs⟩ := @exists_window_overwrite_ne UInt16 _ m.lo m'.lo m'.len 65535
      (m.writeWords req.value) (by omega) (by omega) (by omega) (by omega)
    apply hregs
    rw [← hperform]
    refine hspares ?_ m' hm' hne hfunc regs
    intro b hb
    rw [hwrites] at hb
    omega
  · rintro ⟨⟨hpos, hle⟩, hshares⟩
    refine ⟨⟨m.lo, (hwrites _).mpr ⟨le_rfl, by omega⟩⟩, ?_, ?_⟩
    · intro a ha
      rw [hwrites] at ha
      omega
    · intro hexist m' hm' hne hfunc regs
      have hend := hexist (m.lo + n - 1) ((hwrites _).mpr ⟨by omega, by omega⟩)
      have hpos' : 0 < m'.len := ((of_validate hval).1 m' hm').quantity_pos
      rw [hperform]
      apply window_overwrite_apart
      rw [hlen]
      by_contra hmeet
      -- The ranges meet, so both hold the last register.
      apply hshares
      rcases apart_of_validate hval hm hm' hfunc hne.symm with h | h
      · exact ⟨by omega, m', hm', hne, hfunc, by omega⟩
      · exact ⟨by omega, m', hm', hne, hfunc, by omega⟩

/-- The write issued for a value keeps to its mapping exactly when the value
    fits and does not reach a shared last register. -/
theorem writes_keep_iff (hval : validate order mappings = .ok ())
    (hfind : mappings.find? (fun m => m.tagId = req.tagId) = some m) (hw : m.writable)
    (hdt : req.value.dataType = m.dataType) :
    (∀ x ∈ d.exchanges (processWrite env mappings req d).2, KeepsTo mappings m x) ↔
      (m.function = .holdingRegisters → req.value.Fits id m.quantity.toNat ∧
        ¬ SharesLast mappings m req.value.wordsNeeded) := by
  by_cases hfunc : m.function = .holdingRegisters
  · have hxs : d.exchanges (processWrite env mappings req d).2 = [writeExchange env m req d] :=
      DriverState.exchanges_eq (by rw [processWrite_of_holding hfind hw hfunc, trace_sendWrite])
    rw [hxs, List.forall_mem_singleton, keepsTo_iff hval (List.mem_of_find?_eq_some hfind) hdt]
    exact ⟨fun h _ => h, fun h => h hfunc⟩
  · -- Nothing is sent.
    have hxs : d.exchanges (processWrite env mappings req d).2 = [] :=
      DriverState.exchanges_eq (by rw [processWrite_of_not_holding hfind hw hfunc]; simp; rfl)
    rw [hxs]
    exact ⟨fun _ h => absurd h hfunc, fun _ x hx => absurd hx (List.not_mem_nil)⟩

end Modbus

-- ============================================================================
-- FINS
-- ============================================================================

namespace Fins

/-- The PLC's memory after it performed a write request. -/
def MemoryRequest.perform (req : MemoryRequest) (mem : Memory) : Memory :=
  fun area => if area = req.area then overwrite (mem area) req.address (req.words.take req.count)
    else mem area

/-- A received request keeps to a mapping: it writes at least one word, only
    words of the mapping, and leaves the other mappings of the area as they
    were. -/
structure KeepsTo (mappings : List TagMapping) (m : TagMapping) (req : MemoryRequest) : Prop where
  area : req.area = m.area
  nonempty : 0 < req.count
  inside : ∀ a, req.address ≤ a → a < req.address + req.count → m.lo ≤ a ∧ a < m.lo + m.len
  spares : ∀ m' ∈ mappings, m' ≠ m → m'.area = m.area → ∀ mem,
    window (req.perform mem m'.area) m'.lo m'.len = window (mem m'.area) m'.lo m'.len

variable {env : Env} {d : State} {m : TagMapping} {req : WriteRequest} {order : AreaOrder}
  {mappings : List TagMapping}

theorem length_writeWords (m : TagMapping) (v : TagValue) :
    (m.writeWords v).length = v.wordsNeeded := by
  rw [writeWords_eq, WordOrder.length_onWords, length_standardWords]
  rfl

/-- What the PLC receives for a write. -/
def received (m : TagMapping) (sid : UInt8) (v : TagValue) : MemoryRequest :=
  ⟨sid, true, m.area, m.lo % 2 ^ 24, m.bitOffset, v.wordsNeeded % 2 ^ 16, m.writeWords v⟩

theorem receive_writeExchange (env : Env) (m : TagMapping) (req : WriteRequest) (d : State) :
    receive (writeExchange env m req d).sent = some (received m d.session req.value) := by
  show receive (writeFrame _ _ _ _ _) = _
  rw [receive_writeFrame, length_writeWords]
  rfl

theorem keepsTo_iff (hval : validate order mappings = .ok ()) (hm : m ∈ mappings)
    (hdt : req.value.dataType = m.dataType) {sid : UInt8} :
    KeepsTo mappings m (received m sid req.value) ↔
      m.address.toNat < 2 ^ 24 ∧ req.value.Fits (· % 2 ^ 16) m.wordCount.toNat := by
  have hok := (of_validate hval).1 m hm
  have hlen := length_writeWords m req.value
  have hcarried : ∀ k ≤ 4, k % 2 ^ 16 = k := fun k hk => Nat.mod_eq_of_lt (by omega)
  have hfits := @TagValue.fits_iff (· % 2 ^ 16) hcarried m.wordCount.toNat hok.count_pos req.value
    (by rw [hdt]; exact hok.two_words) (by rw [hdt]; exact hok.four_words)
  have hcount : m.wordCount.toNat = m.len := rfl
  have haddr : m.address.toNat = m.lo := rfl
  have hmod := Nat.mod_le m.lo (2 ^ 24)
  rw [hfits, hcount, haddr]
  constructor
  · rintro ⟨-, hpos, hinside, -⟩
    have hpos' : 0 < req.value.wordsNeeded % 2 ^ 16 := hpos
    have hinside' : ∀ a, m.lo % 2 ^ 24 ≤ a →
        a < m.lo % 2 ^ 24 + req.value.wordsNeeded % 2 ^ 16 → m.lo ≤ a ∧ a < m.lo + m.len := hinside
    have hfirst := hinside' (m.lo % 2 ^ 24) le_rfl (by omega)
    have hlast := hinside' (m.lo % 2 ^ 24 + (req.value.wordsNeeded % 2 ^ 16 - 1)) (by omega) (by omega)
    have hlt := Nat.mod_lt m.lo (by decide : 2 ^ 24 > 0)
    show m.lo < 2 ^ 24 ∧ 1 ≤ req.value.wordsNeeded % 2 ^ 16 ∧ req.value.wordsNeeded % 2 ^ 16 ≤ m.len
    omega
  · rintro ⟨hlo, hpos, hle⟩
    have hstart : m.lo % 2 ^ 24 = m.lo := Nat.mod_eq_of_lt hlo
    have hle' : req.value.wordsNeeded % 2 ^ 16 ≤ m.len := hle
    refine ⟨rfl, hpos, ?_, ?_⟩
    · show ∀ a, m.lo % 2 ^ 24 ≤ a → a < m.lo % 2 ^ 24 + req.value.wordsNeeded % 2 ^ 16 → _
      intro a h1 h2
      omega
    · intro m' hm' hne harea mem
      have hperform : (received m sid req.value).perform mem m'.area =
          overwrite (mem m'.area) m.lo ((m.writeWords req.value).take
            (req.value.wordsNeeded % 2 ^ 16)) := by
        have hin : m'.area = (received m sid req.value).area := harea
        rw [MemoryRequest.perform, if_pos hin]
        simp only [received, hstart]
      have hwords : ((m.writeWords req.value).take (req.value.wordsNeeded % 2 ^ 16)).length ≤ m.len :=
        le_trans (List.length_take_le _ _) hle'
      rw [hperform]
      apply window_overwrite_apart
      have hcount : m.len < 2 ^ 16 := m.wordCount.toNat_lt
      rcases before_of_validate hval hm hm' harea hne.symm with h | h
      · have hend := toNat_rangeEnd hok.count_pos
        have hlt : m.rangeEnd.toNat < m'.lo := UInt32.lt_iff_toNat_lt.mp h
        have hsum : m.address.toNat + m.wordCount.toNat = m.lo + m.len := rfl
        omega
      · have hend := toNat_rangeEnd ((of_validate hval).1 m' hm').count_pos
        have hlt : m'.rangeEnd.toNat < m.lo := UInt32.lt_iff_toNat_lt.mp h
        have hsum : m'.address.toNat + m'.wordCount.toNat = m'.lo + m'.len := rfl
        omega

/-- The write issued for a value keeps to its mapping exactly when the address
    and the word count survive in the frame and the value fits. -/
theorem writes_keep_iff (hval : validate order mappings = .ok ())
    (hfind : mappings.find? (fun m => m.tagId = req.tagId) = some m) (hw : m.writable)
    (hdt : req.value.dataType = m.dataType) :
    (∀ x ∈ d.exchanges (processWrite env mappings req d), ∀ r, receive x.sent = some r →
      KeepsTo mappings m r) ↔
      m.address.toNat < 2 ^ 24 ∧ req.value.Fits (· % 2 ^ 16) m.wordCount.toNat := by
  have hxs : d.exchanges (processWrite env mappings req d) = [writeExchange env m req d] :=
    DriverState.exchanges_eq (by rw [processWrite_of_find hfind hw, trace_sendWrite])
  rw [hxs, List.forall_mem_singleton, receive_writeExchange,
    ← @keepsTo_iff m req order mappings hval (List.mem_of_find?_eq_some hfind) hdt d.session]
  constructor
  · intro h
    exact h _ rfl
  · intro h r hr
    obtain rfl := Option.some.inj hr
    exact h

end Fins

-- ============================================================================
-- Both drivers
-- ============================================================================

/-- For every accepted mapping list, the write a driver issues for a writable
    mapping and a value of its type keeps to the mapping exactly under the
    stated condition. -/
theorem write_footprint_iff (req : WriteRequest) :
    (∀ (order : Modbus.FuncOrder) (mappings : List Modbus.ModbusMapping) (env : Modbus.Env)
      (d : Modbus.State) (m : Modbus.ModbusMapping),
      Modbus.validate order mappings = .ok () →
      mappings.find? (fun m => m.tagId = req.tagId) = some m → m.writable →
      req.value.dataType = m.dataType →
      ((∀ x ∈ d.exchanges (Modbus.processWrite env mappings req d).2,
          Modbus.KeepsTo mappings m x) ↔
        (m.function = .holdingRegisters → req.value.Fits id m.quantity.toNat ∧
          ¬ Modbus.SharesLast mappings m req.value.wordsNeeded))) ∧
    (∀ (order : Fins.AreaOrder) (mappings : List Fins.TagMapping) (env : Fins.Env)
      (d : Fins.State) (m : Fins.TagMapping),
      Fins.validate order mappings = .ok () →
      mappings.find? (fun m => m.tagId = req.tagId) = some m → m.writable →
      req.value.dataType = m.dataType →
      ((∀ x ∈ d.exchanges (Fins.processWrite env mappings req d), ∀ r, Fins.receive x.sent = some r →
          Fins.KeepsTo mappings m r) ↔
        m.address.toNat < 2 ^ 24 ∧ req.value.Fits (· % 2 ^ 16) m.wordCount.toNat)) :=
  ⟨fun _ _ _ _ _ hval hfind hw hdt => Modbus.writes_keep_iff hval hfind hw hdt,
    fun _ _ _ _ _ hval hfind hw hdt => Fins.writes_keep_iff hval hfind hw hdt⟩

/-- A 64-bit counter mapped to one register. -/
def countMapping : Modbus.ModbusMapping :=
  { tagId := "count", dataType := .uint64, address := 0, quantity := 1,
    function := .holdingRegisters, writable := true }

/-- The register behind it. -/
def alarmMapping : Modbus.ModbusMapping :=
  { tagId := "alarm", dataType := .uint16, address := 1, quantity := 1,
    function := .holdingRegisters, writable := true }

def alarmWord : Fins.TagMapping :=
  { tagId := "alarm", area := 0x82, address := 1, dataType := .uint16, writable := true }

def registersDriver : Modbus.State := .new (.ofDefinitions []) () []

def wordsDriver : Fins.State := .new (.ofDefinitions []) 0 []

/-- The alarm's own value keeps to it, in either driver. -/
theorem write_footprint_iff_alarm :
    (∀ x ∈ registersDriver.exchanges (Modbus.processWrite (.ofTables (.holding 0 []))
        [countMapping, alarmMapping] ⟨"alarm", .uint16 7, none⟩ registersDriver).2,
      Modbus.KeepsTo [countMapping, alarmMapping] alarmMapping x) ∧
    (∀ x ∈ wordsDriver.exchanges (Fins.processWrite (.ofMemory (.holding 0 0 [])) [alarmWord]
        ⟨"alarm", .uint16 7, none⟩ wordsDriver),
      ∀ r, Fins.receive x.sent = some r → Fins.KeepsTo [alarmWord] alarmWord r) := by
  have h := write_footprint_iff ⟨"alarm", .uint16 7, none⟩
  refine ⟨(h.1 .declared _ _ _ alarmMapping (by decide) (by decide) rfl rfl).mpr ?_,
    (h.2 .ascending _ _ _ alarmWord (by decide +kernel) (by decide) rfl rfl).mpr ⟨by decide, trivial⟩⟩
  refine fun _ => ⟨trivial, ?_⟩
  rintro ⟨hlast, -⟩
  exact absurd hlast (by decide)

/-- Writing the counter writes the alarm's register as well. -/
theorem counter_overruns_alarm :
    Modbus.validate .declared [countMapping, alarmMapping] = .ok () ∧
    [countMapping, alarmMapping].find? (fun m => m.tagId = "count") = some countMapping ∧
    countMapping.writable ∧ TagValue.dataType (.uint64 0) = countMapping.dataType ∧
    ∃ x ∈ registersDriver.exchanges (Modbus.processWrite (.ofTables (.holding 0 []))
        [countMapping, alarmMapping] ⟨"count", .uint64 0, none⟩ registersDriver).2,
      window (x.perform fun _ => 1) alarmMapping.lo alarmMapping.len = [0] ∧
      ¬ Modbus.KeepsTo [countMapping, alarmMapping] countMapping x := by
  have hxs : registersDriver.exchanges (Modbus.processWrite (.ofTables (.holding 0 []))
      [countMapping, alarmMapping] ⟨"count", .uint64 0, none⟩ registersDriver).2 =
        [.write 0 ⟨"count", .uint64 0, none⟩ 0 [0, 0, 0, 0] (.ok ())] := by decide +kernel
  refine ⟨by decide, by decide, rfl, rfl, .write 0 ⟨"count", .uint64 0, none⟩ 0 [0, 0, 0, 0] (.ok ()),
    ?_, by decide +kernel, ?_⟩
  · rw [hxs]
    exact List.mem_singleton_self _
  · intro hkeeps
    have hinside := hkeeps.inside 1 ⟨by decide, by decide⟩
    exact absurd hinside.2 (by decide)

end PlcBridge
