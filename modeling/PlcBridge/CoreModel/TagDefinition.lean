/-
  PlcBridge.CoreModel.TagDefinition

  Static tag metadata and its read-only store
  (core-model/src/{error,tag_definition,tag_definition_store}.rs).

  The store is a hash map keyed by the definition's own id; that each key
  is the id of the definition it leads to is a field of the structure.
-/
import PlcBridge.CoreModel.TagValue
import Mathlib.Data.List.AList
import Mathlib.Data.List.Sort
import Mathlib.Data.String.Basic

namespace PlcBridge

/-- Central error type of the core-model crate. -/
inductive CoreError where
  | tagNotFound (id : String)
  | definitionNotFound (id : String)
  | typeMismatch (id : String)
  | invalidConfig (msg : String)
  | internal (msg : String)
deriving DecidableEq, Repr

namespace CoreError

/-- The `Display` text of an error. -/
def display : CoreError → String
  | tagNotFound id => "Tag not found: " ++ id
  | definitionNotFound id => "Definition not found: " ++ id
  | typeMismatch id => "Type mismatch for tag " ++ id
  | invalidConfig msg => "Invalid configuration: " ++ msg
  | internal msg => "Internal error: " ++ msg

end CoreError

/-- Rust's `char::is_whitespace`: the Unicode `White_Space` property. -/
def isRustWhitespace (c : Char) : Bool :=
  (0x09 ≤ c.toNat && c.toNat ≤ 0x0D) || c.toNat = 0x20 || c.toNat = 0x85 || c.toNat = 0xA0 ||
    c.toNat = 0x1680 || (0x2000 ≤ c.toNat && c.toNat ≤ 0x200A) || c.toNat = 0x2028 ||
    c.toNat = 0x2029 || c.toNat = 0x202F || c.toNat = 0x205F || c.toNat = 0x3000

/-- `s.trim().is_empty()`. -/
def trimmedIsEmpty (s : String) : Bool := s.toList.all isRustWhitespace

/-- Static, configuration-time metadata of a tag. -/
structure TagDefinition where
  id : String
  name : String
  address : String
  dataType : TagDataType
  writable : Bool
  byteOrder : WordOrder
  staleAfterMs : Option UInt64
  plcName : String
deriving DecidableEq

namespace TagDefinition

/-- Convenience constructor: read-only, default byte order, no threshold. -/
def new (id name address : String) (dataType : TagDataType) (plcName : String) : TagDefinition where
  id := id
  name := name
  address := address
  dataType := dataType
  writable := false
  byteOrder := default
  staleAfterMs := none
  plcName := plcName

/-- Validate basic invariants of a tag definition. -/
def validate (d : TagDefinition) : Except CoreError Unit :=
  if trimmedIsEmpty d.id then .error (.invalidConfig "TagDefinition.id is empty")
  else if trimmedIsEmpty d.name then
    .error (.invalidConfig ("TagDefinition.name is empty for id '" ++ d.id ++ "'"))
  else if trimmedIsEmpty d.address then
    .error (.invalidConfig ("TagDefinition.address is empty for id '" ++ d.id ++ "'"))
  else .ok ()

end TagDefinition

-- ============================================================================
-- The definition store
-- ============================================================================

/-- Read-only store of definitions, keyed by their ids. -/
structure TagDefinitionStore where
  inner : AList fun _ : String => TagDefinition
  keyed : ∀ {id : String} {d : TagDefinition}, inner.lookup id = some d → d.id = id

namespace TagDefinitionStore

/-- The empty map the constructor starts from. -/
def empty : TagDefinitionStore := ⟨∅, by simp⟩

/-- `map.insert(d.id.clone(), d.clone())`. -/
def insert (s : TagDefinitionStore) (d : TagDefinition) : TagDefinitionStore where
  inner := s.inner.insert d.id d
  keyed := by
    intro id d' h
    by_cases hid : id = d.id
    · subst hid
      rw [AList.lookup_insert] at h
      obtain rfl := Option.some.inj h
      rfl
    · rw [AList.lookup_insert_ne hid] at h
      exact s.keyed h

/-- The loop of `from_definitions`: validate, reject duplicates, insert. -/
def insertAll (s : TagDefinitionStore) : List TagDefinition → Except CoreError TagDefinitionStore
  | [] => .ok s
  | d :: ds =>
      match d.validate with
      | .error e => .error e
      | .ok () =>
          if d.id ∈ s.inner then
            .error (.invalidConfig ("Duplicate TagDefinition id: " ++ d.id))
          else insertAll (s.insert d) ds

/-- Build the store from definitions. -/
def fromDefinitions (defs : List TagDefinition) : Except CoreError TagDefinitionStore :=
  insertAll empty defs

/-- Definition by id. -/
def get (s : TagDefinitionStore) (id : String) : Except CoreError TagDefinition :=
  match s.inner.lookup id with
  | some d => .ok d
  | none => .error (.definitionNotFound id)

/-- All definitions, sorted by id. -/
def allDefinitionsSorted (s : TagDefinitionStore) : List TagDefinition :=
  (s.inner.entries.map Sigma.snd).insertionSort fun a b => a.id ≤ b.id

theorem get_eq_ok {s : TagDefinitionStore} {id : String} {d : TagDefinition} :
    s.get id = .ok d ↔ s.inner.lookup id = some d := by
  unfold get
  cases s.inner.lookup id <;> simp

theorem id_of_get {s : TagDefinitionStore} {id : String} {d : TagDefinition}
    (h : s.get id = .ok d) : d.id = id :=
  s.keyed (get_eq_ok.mp h)

/-- What the loop of `from_definitions` leaves behind: the definitions it
    found and those it was given, all under different ids. -/
theorem insertAll_eq_ok {s s' : TagDefinitionStore} {ds : List TagDefinition}
    (h : s.insertAll ds = .ok s') :
    (∀ id d, s.inner.lookup id = some d → s'.inner.lookup id = some d) ∧
    (∀ d ∈ ds, d.id ∉ s.inner ∧ s'.inner.lookup d.id = some d) ∧ (ds.map TagDefinition.id).Nodup := by
  induction ds generalizing s with
  | nil =>
      obtain rfl := Except.ok.inj h
      exact ⟨fun _ _ hd => hd, by simp, List.nodup_nil⟩
  | cons d ds ih =>
      rw [insertAll] at h
      split at h
      · exact absurd h (by simp)
      · split at h
        · exact absurd h (by simp)
        · rename_i hnew
          obtain ⟨hkept, hadded, hnodup⟩ := ih h
          have hself : s'.inner.lookup d.id = some d := hkept d.id d (AList.lookup_insert _)
          have hrest : ∀ d' ∈ ds, d'.id ≠ d.id ∧ d'.id ∉ s.inner := by
            intro d' hd'
            have hout : d'.id ∉ s.inner.insert d.id d := (hadded d' hd').1
            rwa [AList.mem_insert, not_or] at hout
          refine ⟨?_, ?_, ?_⟩
          · intro id d' hd'
            have hne : id ≠ d.id := by
              rintro rfl
              exact hnew (AList.lookup_isSome.mp (by rw [hd']; rfl))
            exact hkept id d' (by rw [← hd']; exact AList.lookup_insert_ne hne)
          · intro d' hd'
            rcases List.mem_cons.mp hd' with rfl | hd'
            · exact ⟨hnew, hself⟩
            · exact ⟨(hrest d' hd').2, (hadded d' hd').2⟩
          · rw [List.map_cons, List.nodup_cons]
            refine ⟨?_, hnodup⟩
            intro hmem
            obtain ⟨d', hd', heq⟩ := List.mem_map.mp hmem
            exact (hrest d' hd').1 heq

/-- The ids of the stored definitions, in the map's own order, are its keys. -/
theorem ids_entries (s : TagDefinitionStore) :
    (s.inner.entries.map Sigma.snd).map TagDefinition.id = s.inner.keys := by
  rw [List.map_map]
  apply List.map_congr_left
  intro e he
  exact s.keyed (AList.mem_lookup_iff.mpr he)

theorem mem_allDefinitionsSorted {s : TagDefinitionStore} {d : TagDefinition} :
    d ∈ s.allDefinitionsSorted ↔ s.get d.id = .ok d := by
  rw [allDefinitionsSorted, List.mem_insertionSort, get_eq_ok]
  constructor
  · intro h
    obtain ⟨e, he, rfl⟩ := List.mem_map.mp h
    have hentry := AList.mem_lookup_iff.mpr he
    rw [s.keyed hentry]
    exact hentry
  · intro h
    exact List.mem_map.mpr ⟨_, AList.mem_lookup_iff.mp h, rfl⟩

/-- Sorting keeps exactly the keys, and leaves them strictly ascending. -/
theorem ids_allDefinitionsSorted (s : TagDefinitionStore) :
    (s.allDefinitionsSorted.map TagDefinition.id).Pairwise (· < ·) ∧
      ∀ id, id ∈ s.allDefinitionsSorted.map TagDefinition.id ↔ id ∈ s.inner := by
  have hperm : (s.allDefinitionsSorted.map TagDefinition.id).Perm s.inner.keys := by
    rw [← ids_entries]
    exact (List.perm_insertionSort _ _).map _
  constructor
  · have hle : (s.allDefinitionsSorted.map TagDefinition.id).Pairwise (· ≤ ·) := by
      rw [List.pairwise_map]
      have : Std.Total fun a b : TagDefinition => a.id ≤ b.id := ⟨fun a b => le_total a.id b.id⟩
      have : IsTrans TagDefinition fun a b => a.id ≤ b.id := ⟨fun _ _ _ => le_trans⟩
      exact List.pairwise_insertionSort _ _
    have hnodup : (s.allDefinitionsSorted.map TagDefinition.id).Nodup :=
      hperm.nodup_iff.mpr s.inner.nodupKeys
    exact (hle.and hnodup).imp fun h => lt_of_le_of_ne h.1 h.2
  · intro id
    rw [hperm.mem_iff]
    exact AList.mem_keys

end TagDefinitionStore

end PlcBridge
