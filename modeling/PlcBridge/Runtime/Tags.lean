/-
  PlcBridge.Runtime.Tags

  From configuration entries to definitions and driver mappings
  (runtime/src/tags.rs).

  The three conversions read the same entry and parse its texts separately.
  `str::to_lowercase` is a parameter: beyond ASCII it follows the Unicode
  tables.  An error is the chain of its texts, outermost context first.
-/
import PlcBridge.CoreModel.TagDefinition
import PlcBridge.Fins.Construction
import PlcBridge.Modbus.Mapping
import Mathlib.Data.List.DropRight

namespace PlcBridge.Runtime

open PlcBridge.Lib

/-- Per-tag configuration as expressed in the runtime config file. -/
structure TagConfig where
  id : String
  name : String
  address : String
  dataType : String
  writable : Bool := false
  byteOrder : Option String := none
  wordCount : Option UInt16 := none
  /-- Optional FINS memory area code. -/
  area : Option UInt8 := none

/-- `str::to_lowercase`. -/
structure Unicode where
  toLowercase : String → String
  ascii : ∀ s, (∀ c ∈ s.toList, c.toNat < 128) → toLowercase s = String.ofList (s.toList.map Char.toLower)

/-- Lower case for ASCII letters only. -/
def Unicode.basic : Unicode := ⟨fun s => String.ofList (s.toList.map Char.toLower), fun _ _ => rfl⟩

/-- An error with the contexts added to it. -/
abbrev Anyhow := List String

/-- `with_context`. -/
def withContext {α : Type} (r : Except Anyhow α) (msg : String) : Except Anyhow α :=
  match r with
  | .ok a => .ok a
  | .error chain => .error (msg :: chain)

theorem withContext_eq_ok {α : Type} {r : Except Anyhow α} {msg : String} {a : α} :
    withContext r msg = .ok a ↔ r = .ok a := by
  cases r <;> simp [withContext]

-- ============================================================================
-- Texts
-- ============================================================================

/-- `str::trim`. -/
def trim (s : String) : String :=
  String.ofList ((s.toList.dropWhile isRustWhitespace).rdropWhile isRustWhitespace)

/-- The digits of `parse::<u32>`, after `n`. -/
def parseDigits (n : Nat) : List Char → Except Anyhow UInt32
  | [] => .ok (UInt32.ofNat n)
  | c :: cs =>
      if !c.isDigit then .error ["invalid digit found in string"]
      else if 2 ^ 32 ≤ n * 10 + (c.toNat - 48) then .error ["number too large to fit in target type"]
      else parseDigits (n * 10 + (c.toNat - 48)) cs

/-- `parse::<u32>`: digits behind an optional plus sign. -/
def parseU32 (s : String) : Except Anyhow UInt32 :=
  match s.toList with
  | [] => .error ["cannot parse integer from empty string"]
  | '+' :: c :: cs => parseDigits 0 (c :: cs)
  | cs => parseDigits 0 cs

/-- Parse a byte_order string into a `WordOrder`. -/
def parseByteOrder (s : Option String) (context : String) : Except Anyhow WordOrder :=
  match s with
  | none | some "ABCD" | some "abcd" => .ok .ABCD
  | some "BADC" | some "badc" => .ok .BADC
  | some "CDAB" | some "cdab" => .ok .CDAB
  | some "DCBA" | some "dcba" => .ok .DCBA
  | some other => .error ["Unknown byte_order '" ++ other ++ "' for " ++ context ++
      "; expected one of ABCD, BADC, CDAB, DCBA"]

/-- Parse a textual data type. -/
def parseDataType (u : Unicode) (s : String) : Except Anyhow TagDataType :=
  match u.toLowercase s with
  | "bool" => .ok .bool
  | "int16" => .ok .int16
  | "uint16" => .ok .uint16
  | "int32" => .ok .int32
  | "uint32" => .ok .uint32
  | "int64" => .ok .int64
  | "uint64" => .ok .uint64
  | "float" => .ok .float
  | "double" => .ok .double
  | "string" => .ok .string
  | "datetime" => .ok .dateTime
  | "bytestring" | "byte_string" => .ok .byteString
  | other => .error ["Unsupported data type: " ++ other]

-- ============================================================================
-- Conversions
-- ============================================================================

/-- Convert an entry into a `TagDefinition` of the given PLC. -/
def tagconfigToDefinition (u : Unicode) (t : TagConfig) (plcName : String) :
    Except Anyhow TagDefinition := do
  let dt ← parseDataType u t.dataType
  let byteOrder ← parseByteOrder t.byteOrder "tag definition"
  return { TagDefinition.new t.id t.name t.address dt plcName with
    writable := t.writable, byteOrder := byteOrder }

/-- The word_count check both mapping conversions make. -/
def checkWordCount (t : TagConfig) (dt : TagDataType) (wordCount : UInt16) : Except Anyhow Unit :=
  match dt with
  | .float | .int32 | .uint32 =>
      if wordCount < 2 then
        .error ["Incompatible word_count " ++ toString wordCount ++ " for data_type '" ++ t.dataType ++
          "' (needs >=2)"]
      else .ok ()
  | .double =>
      if wordCount < 4 then
        .error ["Incompatible word_count " ++ toString wordCount ++
          " for data_type 'double' (needs >=4)"]
      else .ok ()
  | _ => .ok ()

/-- Area and number of an address without an explicit area: `D<digits>` or
    digits, both in the D area. -/
def splitFinsAddress (addr : String) : Except Anyhow (UInt8 × String) :=
  match addr.toList with
  | 'D' :: rest | 'd' :: rest =>
      if rest = [] ∨ !rest.all Char.isDigit then
        .error ["Invalid FINS D-address '" ++ addr ++ "'; expected 'D<digits>'"]
      else .ok (0x82, String.ofList rest)
  | cs =>
      if cs.all Char.isDigit then .ok (0x82, addr)
      else .error ["Unsupported FINS address pattern '" ++ addr ++
        "'; expected 'D<number>' or '<number>'"]

/-- Memory area and the text of the number: the explicit area if there is one,
    inferred otherwise. -/
def finsLocation (t : TagConfig) (addr : String) : Except Anyhow (UInt8 × String) :=
  match t.area with
  | some explicitArea => .ok (explicitArea, addr)
  | none => splitFinsAddress addr

/-- Build a FINS mapping from an entry. -/
def tagconfigToFinsMapping (u : Unicode) (t : TagConfig) : Except Anyhow Fins.TagMapping := do
  let addr := trim t.address
  if addr = "" then throw ["Empty address for FINS mapping"]
  let (area, number) ← finsLocation t addr
  let address ← withContext (parseU32 number) ("Invalid FINS address '" ++ addr ++ "'")
  let wordCount := t.wordCount.getD 1
  let dt ← parseDataType u t.dataType
  checkWordCount t dt wordCount
  let byteOrder ← parseByteOrder t.byteOrder "FINS mapping"
  return {
    tagId := t.id
    area := area
    address := address
    bitOffset := 0
    wordCount := wordCount
    writable := t.writable
    byteOrder := byteOrder
    dataType := dt }

/-- Register-offset notation, or human notation from 40001 on. -/
def normalizeModbusAddress (raw : UInt32) : UInt32 := if 40001 ≤ raw then raw - 40001 else raw

/-- Coils for `Bool`, holding registers otherwise. -/
def modbusFunctionFor (dt : TagDataType) : Modbus.ModbusFunction :=
  match dt with
  | .bool => .coils
  | _ => .holdingRegisters

/-- Build a Modbus mapping from an entry. -/
def tagconfigToModbusMapping (u : Unicode) (t : TagConfig) : Except Anyhow Modbus.ModbusMapping := do
  let addr := trim t.address
  let raw ← withContext (parseU32 addr) ("Invalid Modbus address '" ++ addr ++ "'")
  let normalized := normalizeModbusAddress raw
  if 65535 < normalized then
    throw ["Modbus address '" ++ addr ++ "' normalized to " ++ toString normalized ++
      " exceeds u16 range"]
  let quantity := t.wordCount.getD 1
  let dataType ← parseDataType u t.dataType
  checkWordCount t dataType quantity
  let byteOrder ← parseByteOrder t.byteOrder "Modbus mapping"
  return {
    tagId := t.id
    dataType := dataType
    address := normalized.toUInt16
    quantity := quantity
    function := modbusFunctionFor dataType
    writable := t.writable
    byteOrder := byteOrder
    bitOffset := 0 }

example : tagconfigToModbusMapping .basic
    ⟨"p", "p", " 40301 ", "UInt16", true, some "cdab", some 2, none⟩ =
      .ok ⟨"p", .uint16, 300, 2, .holdingRegisters, 0, true, .CDAB⟩ := by
  decide +kernel

-- ============================================================================
-- What the conversions agree on
-- ============================================================================

/-- Id, data type, byte order and writable flag as an entry gives them. -/
structure TagConfig.Gives (u : Unicode) (t : TagConfig) (id : String) (dt : TagDataType)
    (order : WordOrder) (writable : Bool) : Prop where
  id : id = t.id
  dataType : parseDataType u t.dataType = .ok dt
  byteOrder : ∃ context, parseByteOrder t.byteOrder context = .ok order
  writable : writable = t.writable

variable {u : Unicode} {t : TagConfig}

/-- The context only shows in errors. -/
theorem parseByteOrder_eq_ok {s : Option String} {c : String} {order : WordOrder}
    (h : parseByteOrder s c = .ok order) (c' : String) : parseByteOrder s c' = .ok order := by
  unfold parseByteOrder at h ⊢
  split at h <;> simp_all

theorem TagConfig.Gives.unique {id id' : String} {dt dt' : TagDataType} {o o' : WordOrder}
    {w w' : Bool} (h : t.Gives u id dt o w) (h' : t.Gives u id' dt' o' w') :
    id = id' ∧ dt = dt' ∧ o = o' ∧ w = w' := by
  obtain ⟨c, hc⟩ := h.byteOrder
  obtain ⟨c', hc'⟩ := h'.byteOrder
  have hdt : Except.ok dt = Except.ok dt' := h.dataType.symm.trans h'.dataType
  have ho : Except.ok o = Except.ok o' := (parseByteOrder_eq_ok hc c').symm.trans hc'
  exact ⟨h.id.trans h'.id.symm, Except.ok.inj hdt, Except.ok.inj ho, h.writable.trans h'.writable.symm⟩

theorem gives_definition {plcName : String} {d : TagDefinition}
    (h : tagconfigToDefinition u t plcName = .ok d) :
    t.Gives u d.id d.dataType d.byteOrder d.writable := by
  obtain ⟨dt, hdt, h⟩ := bind_eq_ok.mp h
  obtain ⟨order, horder, h⟩ := bind_eq_ok.mp h
  rw [← Except.ok.inj h]
  exact ⟨rfl, hdt, ⟨_, horder⟩, rfl⟩

theorem plcName_of_definition {plcName : String} {d : TagDefinition}
    (h : tagconfigToDefinition u t plcName = .ok d) : d.plcName = plcName := by
  obtain ⟨dt, -, h⟩ := bind_eq_ok.mp h
  obtain ⟨order, -, h⟩ := bind_eq_ok.mp h
  rw [← Except.ok.inj h]
  rfl

theorem gives_finsMapping {m : Fins.TagMapping} (h : tagconfigToFinsMapping u t = .ok m) :
    t.Gives u m.tagId m.dataType m.byteOrder m.writable := by
  unfold tagconfigToFinsMapping at h
  simp only at h
  split at h
  · exact absurd h (by simp [throw, throwThe, MonadExceptOf.throw, bind, Except.bind])
  · obtain ⟨⟨area, number⟩, -, h⟩ := bind_eq_ok.mp h
    obtain ⟨address, -, h⟩ := bind_eq_ok.mp h
    obtain ⟨dt, hdt, h⟩ := bind_eq_ok.mp h
    obtain ⟨-, -, h⟩ := bind_eq_ok.mp h
    obtain ⟨order, horder, h⟩ := bind_eq_ok.mp h
    rw [← Except.ok.inj h]
    exact ⟨rfl, hdt, ⟨_, horder⟩, rfl⟩

theorem gives_modbusMapping {m : Modbus.ModbusMapping} (h : tagconfigToModbusMapping u t = .ok m) :
    t.Gives u m.tagId m.dataType m.byteOrder m.writable ∧ m.function = modbusFunctionFor m.dataType := by
  obtain ⟨raw, -, h⟩ := bind_eq_ok.mp h
  simp only at h
  split at h
  · exact absurd h (by simp [throw, throwThe, MonadExceptOf.throw, bind, Except.bind])
  · obtain ⟨dt, hdt, h⟩ := bind_eq_ok.mp h
    obtain ⟨-, -, h⟩ := bind_eq_ok.mp h
    obtain ⟨order, horder, h⟩ := bind_eq_ok.mp h
    rw [← Except.ok.inj h]
    exact ⟨⟨rfl, hdt, ⟨_, horder⟩, rfl⟩, rfl⟩

-- ============================================================================
-- Entries for the FINS driver
-- ============================================================================

/-- The driver is built before anything is validated: its arithmetic holds
    exactly when every entry ends inside the address space and an entry without
    words, not at address zero, touches one of its area with words. -/
theorem construction_fits_iff {tags : List TagConfig} {mappings : List Fins.TagMapping}
    {maxWords : UInt32} (hconv : tags.mapM (tagconfigToFinsMapping u) = .ok mappings)
    (hmin : 1 ≤ maxWords.toNat) (hmax : maxWords.toNat ≤ 65535) :
    (AllFit (Fins.newOps ⟨mappings, maxWords⟩) ∧
      ∃ drv, Fins.FinsDriver.new ⟨mappings, maxWords⟩ = some drv) ↔
    ∀ t ∈ tags, ∀ m, tagconfigToFinsMapping u t = .ok m → m.Placed mappings := by
  have hpairs := forall₂_of_mapM_eq_ok hconv
  have hplaced : (∀ m ∈ mappings, m.Placed mappings) ↔
      ∀ t ∈ tags, ∀ m, tagconfigToFinsMapping u t = .ok m → m.Placed mappings := by
    constructor
    · intro h t ht m hm
      obtain ⟨m', hmem, hm'⟩ := exists_mem_of_forall₂ hpairs ht
      rw [Except.ok.inj (hm.symm.trans hm')]
      exact h m' hmem
    · intro h m hmem
      obtain ⟨t, ht, hm⟩ := exists_mem_of_forall₂ hpairs.flip hmem
      exact h t ht m hm
  rw [Fins.allFit_newOps hmax, ← hplaced]
  exact ⟨fun h => h.1, fun h => ⟨h, Fins.exists_new hmin hmax⟩⟩

/-- A word count of zero at address zero. -/
def emptyEntry : TagConfig :=
  { id := "level", name := "level", address := "0", dataType := "UInt16", wordCount := some 0 }

/-- The mapping of `emptyEntry`. -/
def emptyMapping : Fins.TagMapping :=
  { tagId := "level", area := 0x82, address := 0, wordCount := 0, dataType := .uint16 }

theorem construction_fits_iff_emptyEntry :
    (AllFit (Fins.newOps ⟨[emptyMapping], 960⟩) ∧
      ∃ drv, Fins.FinsDriver.new ⟨[emptyMapping], 960⟩ = some drv) ↔
    ∀ t ∈ [emptyEntry], ∀ m, tagconfigToFinsMapping .basic t = .ok m → m.Placed [emptyMapping] :=
  construction_fits_iff (by decide +kernel) (by decide) (by decide)

/-- `0 + 0 - 1` comes before the check for empty mappings. -/
theorem construction_underflows :
    [emptyEntry].mapM (tagconfigToFinsMapping .basic) = .ok [emptyMapping] ∧
    ¬ AllFit (Fins.newOps ⟨[emptyMapping], 960⟩) := by
  refine ⟨by decide +kernel, fun h => ?_⟩
  have hplaced := (Fins.allFit_newOps (by decide)).mp h emptyMapping (List.mem_singleton_self _)
  exact absurd (hplaced.2 rfl).1 (by decide)

end PlcBridge.Runtime
