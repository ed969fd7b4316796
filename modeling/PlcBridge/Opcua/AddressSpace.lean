/-
  PlcBridge.Opcua.AddressSpace

  The address space `start_native_server` builds (opcua-server/src/native.rs):
  a folder `PLCs`, in it a folder for each PLC name, and in these a variable for
  each tag definition.

  open62541 is a parameter (`Backend`): it chooses the id of a node for which
  none is requested, and may refuse a node.  What is used of it is that an id is
  not given twice (`Backend.Documented`).  What is built then mirrors the
  registry's definitions, each once, under its PLC, with its type and access; it
  is built only if the ids of the tags still differ as node ids.
-/
import PlcBridge.Lib.Runs
import PlcBridge.Opcua.Reads
import PlcBridge.Runtime.WriteHandler
import Mathlib.Algebra.Order.BigOperators.Group.List

namespace PlcBridge.Opcua

open PlcBridge.Lib

-- ============================================================================
-- Nodes
-- ============================================================================

/-- The standard nodes that are referred to. -/
inductive Ns0 where
  | objectsFolder
  | boolean
  | int16
  | uint16
  | int32
  | uint32
  | int64
  | uint64
  | float
  | double
  | string
  | dateTime
  | byteString
deriving DecidableEq, Repr

inductive NodeId where
  | ns0 (id : Ns0)
  | numeric (nsIndex : UInt16) (id : Nat)
  | string (nsIndex : UInt16) (id : String)
deriving DecidableEq

structure AccessLevel where
  currentRead : Bool
  currentWrite : Bool
deriving DecidableEq

inductive NodeKind where
  | folder
  /-- A variable with the data source of a tag. -/
  | tagVariable (dataType : Ns0) (access : AccessLevel) (tagId : String)
deriving DecidableEq

/-- A node, organized by its parent. -/
structure Node where
  id : NodeId
  parent : NodeId
  browseName : String
  kind : NodeKind
deriving DecidableEq

def Node.isVariable (n : Node) : Bool :=
  match n.kind with
  | .folder => false
  | .tagVariable .. => true

/-- The node of a data type. -/
def dataTypeNodeid : TagDataType → Ns0
  | .bool => .boolean
  | .int16 => .int16
  | .uint16 => .uint16
  | .int32 => .int32
  | .uint32 => .uint32
  | .int64 => .int64
  | .uint64 => .uint64
  | .float => .float
  | .double => .double
  | .string => .string
  | .dateTime => .dateTime
  | .byteString => .byteString

-- ============================================================================
-- The text of a node id
-- ============================================================================

/-- What follows the first `;s=`. -/
def afterMark : List Char → Option (List Char)
  | ';' :: 's' :: '=' :: rest => some rest
  | _ :: cs => afterMark cs
  | [] => none

/-- What precedes the first `;s=`. -/
def beforeMark : List Char → List Char
  | ';' :: 's' :: '=' :: _ => []
  | c :: cs => c :: beforeMark cs
  | [] => []

/-- `id_str.split(";s=").nth(1).unwrap_or(&id_str)`. -/
def stringNodeId (id : String) : String :=
  match afterMark id.toList with
  | some rest => String.ofList (beforeMark rest)
  | none => id

example : stringNodeId "ns=1;s=ModbusPLC.Setpoint" = "ModbusPLC.Setpoint" := by
  decide +kernel

-- ============================================================================
-- The backend
-- ============================================================================

/-- The parts of open62541 that decide what becomes of a node. -/
structure Backend where
  /-- The index `add_namespace` returns. -/
  nsIndex : UInt16
  /-- The id of a node for which none is requested. -/
  freshId : List Node → NodeId
  /-- The status a node is refused with, if it is. -/
  refusal : List Node → Node → Option String

namespace Backend

/-- A taken id is refused, and the standard nodes are there already. -/
structure Documented (b : Backend) : Prop where
  standard : ∀ nodes id, b.freshId nodes ≠ .ns0 id
  taken : ∀ nodes n, n.id ∈ nodes.map Node.id → (b.refusal nodes n).isSome

/-- Nothing else is refused, and there is always a new numeric id. -/
structure Lenient (b : Backend) : Prop where
  fresh : ∀ nodes, b.freshId nodes ∉ nodes.map Node.id
  numeric : ∀ nodes, ∃ nsIndex id, b.freshId nodes = .numeric nsIndex id
  free : ∀ nodes n, n.id ∉ nodes.map Node.id → b.refusal nodes n = none

/-- Create a node. -/
def add (b : Backend) (nodes : List Node) (n : Node) : Except String (List Node) :=
  match b.refusal nodes n with
  | some e => .error e
  | none => .ok (nodes ++ [n])

theorem add_eq_ok {b : Backend} {nodes nodes' : List Node} {n : Node} :
    b.add nodes n = .ok nodes' ↔ b.refusal nodes n = none ∧ nodes' = nodes ++ [n] := by
  rw [add]
  cases b.refusal nodes n <;> simp [eq_comm]

/-- The ids stay distinct. -/
theorem Documented.nodup_add {b : Backend} (hb : b.Documented) {nodes nodes' : List Node} {n : Node}
    (h : b.add nodes n = .ok nodes') (hnodup : (nodes.map Node.id).Nodup) :
    (nodes'.map Node.id).Nodup := by
  obtain ⟨hnone, rfl⟩ := add_eq_ok.mp h
  have hnew : n.id ∉ nodes.map Node.id := by
    intro hmem
    have hsome := hb.taken nodes n hmem
    rw [hnone] at hsome
    exact absurd hsome (by simp)
  rw [List.map_append, List.nodup_append]
  refine ⟨hnodup, List.nodup_singleton _, ?_⟩
  intro id hid id' hid' heq
  rw [List.mem_singleton.mp hid'] at heq
  exact hnew (heq ▸ hid)

end Backend

-- ============================================================================
-- Building
-- ============================================================================

/-- The nodes so far, and `plc_nodes`. -/
structure Space where
  nodes : List Node
  plcNodes : AList fun _ : String => NodeId

/-- The folder of a PLC, created when it is first needed. -/
def plcFolder (b : Backend) (plcsFolder : NodeId) (plcName : String) (sp : Space) :
    Except ServerError (NodeId × Space) :=
  match sp.plcNodes.lookup plcName with
  | some id => .ok (id, sp)
  | none =>
      match b.add sp.nodes ⟨b.freshId sp.nodes, plcsFolder, plcName, .folder⟩ with
      | .error e => .error (.backend ("Failed creating PLC folder '" ++ plcName ++ "': " ++ e))
      | .ok nodes => .ok (b.freshId sp.nodes, ⟨nodes, sp.plcNodes.insert plcName (b.freshId sp.nodes)⟩)

/-- The variable of a definition: it can be read, and written if the tag can. -/
def variableNode (b : Backend) (plcNodeId : NodeId) (d : TagDefinition) : Node where
  id := .string b.nsIndex (stringNodeId d.id)
  parent := plcNodeId
  browseName := d.name
  kind := .tagVariable (dataTypeNodeid d.dataType) ⟨true, d.writable⟩ d.id

/-- One turn of the loop over the definitions. -/
def addTag (b : Backend) (plcsFolder : NodeId) (sp : Space) (d : TagDefinition) :
    Except ServerError Space := do
  let (plcNodeId, sp) ← plcFolder b plcsFolder d.plcName sp
  match b.add sp.nodes (variableNode b plcNodeId d) with
  | .error e => .error (.backend ("Failed creating variable for tag " ++ d.id ++ ": " ++ e))
  | .ok nodes => .ok { sp with nodes := nodes }

/-- The folder `PLCs`. -/
def plcsRoot (b : Backend) : Node := ⟨b.freshId [], .ns0 .objectsFolder, "PLCs", .folder⟩

/-- Build the address space of a registry. -/
def buildAddressSpace (b : Backend) (registry : TagRegistry) : Except ServerError (List Node) := do
  let nodes ← (b.add [] (plcsRoot b)).mapError fun e => .backend ("Failed creating PLCs folder: " ++ e)
  let sp ← registry.allDefinitionsSorted.foldlM (addTag b (plcsRoot b).id) ⟨nodes, ∅⟩
  return sp.nodes

-- ============================================================================
-- What is built
-- ============================================================================

variable {b : Backend} {defs : List TagDefinition} {sp sp' : Space}

/-- The folder of the PLCs of a name. -/
structure IsPlcFolder (b : Backend) (plcName : String) (n : Node) : Prop where
  parent : n.parent = (plcsRoot b).id
  browseName : n.browseName = plcName
  kind : n.kind = .folder

/-- The variable of a definition, in the folder of its PLC. -/
def IsTagNode (b : Backend) (nodes : List Node) (d : TagDefinition) (n : Node) : Prop :=
  ∃ f ∈ nodes, IsPlcFolder b d.plcName f ∧ n = variableNode b f.id d

/-- The nodes are those of the definitions: the root folder, one folder for
    each PLC name, and the variables, in order, each in the folder of its PLC;
    and no two nodes have the same id. -/
structure Mirrors (b : Backend) (defs : List TagDefinition) (nodes : List Node) : Prop where
  nodup : (nodes.map Node.id).Nodup
  root : plcsRoot b ∈ nodes
  folders : ∀ n ∈ nodes, n.kind = .folder → n = plcsRoot b ∨ ∃ d ∈ defs, IsPlcFolder b d.plcName n
  folder_unique : ∀ plcName, ∀ n ∈ nodes, ∀ n' ∈ nodes, IsPlcFolder b plcName n →
    IsPlcFolder b plcName n' → n = n'
  tags : List.Forall₂ (IsTagNode b nodes) defs (nodes.filter Node.isVariable)

/-- While building: the folders of `names` and the variables of `defs` are
    there, and `plc_nodes` leads to the folders. -/
structure Space.Holds (b : Backend) (names : List String) (defs : List TagDefinition) (sp : Space) :
    Prop where
  nodup : (sp.nodes.map Node.id).Nodup
  root : plcsRoot b ∈ sp.nodes
  folders : ∀ n ∈ sp.nodes, n.kind = .folder → n = plcsRoot b ∨ ∃ name ∈ names, IsPlcFolder b name n
  plcNodes : ∀ plcName id, sp.plcNodes.lookup plcName = some id ↔
    ∃ f ∈ sp.nodes, IsPlcFolder b plcName f ∧ f.id = id
  tags : List.Forall₂ (IsTagNode b sp.nodes) defs (sp.nodes.filter Node.isVariable)

theorem IsTagNode.mono {nodes : List Node} {d : TagDefinition} {n : Node} (h : IsTagNode b nodes d n)
    (n' : Node) : IsTagNode b (nodes ++ [n']) d n := by
  obtain ⟨f, hf, hrest⟩ := h
  exact ⟨f, List.mem_append_left _ hf, hrest⟩

/-- A node is in the list or is the last. -/
theorem forall_mem_concat {α : Type*} {P : α → Prop} {l : List α} {a : α} :
    (∀ x ∈ l ++ [a], P x) ↔ (∀ x ∈ l, P x) ∧ P a := by
  simp [or_imp, forall_and]

namespace Space.Holds

variable {names : List String}

/-- A new folder. -/
theorem newFolder (hb : b.Documented) (h : sp.Holds b names defs) {plcName : String}
    (hlookup : sp.plcNodes.lookup plcName = none) {nodes : List Node}
    (hadd : b.add sp.nodes ⟨b.freshId sp.nodes, (plcsRoot b).id, plcName, .folder⟩ = .ok nodes) :
    Holds b (names ++ [plcName]) defs ⟨nodes, sp.plcNodes.insert plcName (b.freshId sp.nodes)⟩ := by
  have hnodup := hb.nodup_add hadd h.nodup
  obtain ⟨-, rfl⟩ := Backend.add_eq_ok.mp hadd
  have hnew : IsPlcFolder b plcName ⟨b.freshId sp.nodes, (plcsRoot b).id, plcName, .folder⟩ :=
    ⟨rfl, rfl, rfl⟩
  refine ⟨hnodup, List.mem_append_left _ h.root, forall_mem_concat.mpr ⟨?_, ?_⟩, ?_, ?_⟩
  · intro n hn hkind
    rcases h.folders n hn hkind with hroot | ⟨name, hname, hfolder⟩
    · exact .inl hroot
    · exact .inr ⟨name, List.mem_append_left _ hname, hfolder⟩
  · exact fun _ => .inr ⟨plcName, List.mem_append_right _ (List.mem_singleton_self _), hnew⟩
  · intro name id
    simp only [List.mem_append, List.mem_singleton, or_and_right, exists_or, exists_eq_left]
    rw [← h.plcNodes]
    by_cases hname : name = plcName
    · -- An older folder of that name would have been found.
      subst hname
      rw [AList.lookup_insert, hlookup]
      simp [hnew]
    · have hother : ¬ IsPlcFolder b name ⟨b.freshId sp.nodes, (plcsRoot b).id, plcName, .folder⟩ :=
        fun hfolder => hname hfolder.browseName.symm
      rw [AList.lookup_insert_ne hname]
      simp [hother]
  · have hsame : (sp.nodes ++ [Node.mk (b.freshId sp.nodes) (plcsRoot b).id plcName .folder]).filter
        Node.isVariable = sp.nodes.filter Node.isVariable := by
      simp [List.filter_append, Node.isVariable]
    rw [hsame]
    exact h.tags.imp fun d n hn => hn.mono _

/-- The folder of a PLC exists afterwards, and is known. -/
theorem plcFolder (hb : b.Documented) (h : sp.Holds b names defs) {plcName : String} {id : NodeId}
    (hfolder : plcFolder b (plcsRoot b).id plcName sp = .ok (id, sp')) :
    sp'.Holds b (names ++ [plcName]) defs ∧ sp'.plcNodes.lookup plcName = some id := by
  rw [Opcua.plcFolder] at hfolder
  cases hlookup : sp.plcNodes.lookup plcName with
  | some id' =>
      rw [hlookup] at hfolder
      obtain ⟨rfl, rfl⟩ := Prod.mk.inj (Except.ok.inj hfolder)
      refine ⟨⟨h.nodup, h.root, ?_, h.plcNodes, h.tags⟩, hlookup⟩
      intro n hn hkind
      rcases h.folders n hn hkind with hroot | ⟨name, hname, hfolder⟩
      · exact .inl hroot
      · exact .inr ⟨name, List.mem_append_left _ hname, hfolder⟩
  | none =>
      rw [hlookup] at hfolder
      simp only at hfolder
      split at hfolder
      · exact absurd hfolder (by simp)
      · rename_i nodes hadd
        obtain ⟨rfl, rfl⟩ := Prod.mk.inj (Except.ok.inj hfolder)
        exact ⟨h.newFolder hb hlookup hadd, AList.lookup_insert _⟩

/-- A new variable. -/
theorem newTag (hb : b.Documented) (h : sp.Holds b names defs) {d : TagDefinition} {id : NodeId}
    (hlookup : sp.plcNodes.lookup d.plcName = some id) {nodes : List Node}
    (hadd : b.add sp.nodes (variableNode b id d) = .ok nodes) :
    Holds b names (defs ++ [d]) { sp with nodes := nodes } := by
  have hnodup := hb.nodup_add hadd h.nodup
  obtain ⟨-, rfl⟩ := Backend.add_eq_ok.mp hadd
  have hother : ∀ name, ¬ IsPlcFolder b name (variableNode b id d) := by
    intro name hfolder
    exact absurd hfolder.kind (by simp [variableNode])
  refine ⟨hnodup, List.mem_append_left _ h.root, forall_mem_concat.mpr ⟨h.folders, ?_⟩, ?_, ?_⟩
  · intro hkind
    exact absurd hkind (by simp [variableNode])
  · intro name id'
    simp only [List.mem_append, List.mem_singleton, or_and_right, exists_or, exists_eq_left, hother,
      false_and, or_false]
    exact h.plcNodes name id'
  · obtain ⟨f, hf, hfolder, rfl⟩ := (h.plcNodes _ _).mp hlookup
    have hmore : (sp.nodes ++ [variableNode b f.id d]).filter Node.isVariable =
        sp.nodes.filter Node.isVariable ++ [variableNode b f.id d] := by
      simp [List.filter_append, Node.isVariable, variableNode]
    rw [hmore]
    refine List.rel_append (h.tags.imp fun d n hn => hn.mono _) (.cons ?_ .nil)
    exact ⟨f, List.mem_append_left _ hf, hfolder, rfl⟩

theorem addTag (hb : b.Documented) (h : sp.Holds b (defs.map TagDefinition.plcName) defs)
    {d : TagDefinition} (hadd : addTag b (plcsRoot b).id sp d = .ok sp') :
    sp'.Holds b ((defs ++ [d]).map TagDefinition.plcName) (defs ++ [d]) := by
  obtain ⟨⟨id, sp₁⟩, hfolder, hadd⟩ := bind_eq_ok.mp hadd
  obtain ⟨h₁, hlookup⟩ := h.plcFolder hb hfolder
  simp only at hadd
  split at hadd
  · exact absurd hadd (by simp)
  · rename_i nodes hnodes
    rw [← Except.ok.inj hadd, List.map_append]
    exact h₁.newTag hb hlookup hnodes

theorem mirrors (h : sp.Holds b (defs.map TagDefinition.plcName) defs) : Mirrors b defs sp.nodes where
  nodup := h.nodup
  root := h.root
  folders := by
    intro n hn hkind
    rcases h.folders n hn hkind with hroot | ⟨name, hname, hfolder⟩
    · exact .inl hroot
    · obtain ⟨d, hd, rfl⟩ := List.mem_map.mp hname
      exact .inr ⟨d, hd, hfolder⟩
  folder_unique := by
    intro plcName n hn n' hn' hfolder hfolder'
    have hid := (h.plcNodes plcName n.id).mpr ⟨n, hn, hfolder, rfl⟩
    have hid' := (h.plcNodes plcName n'.id).mpr ⟨n', hn', hfolder', rfl⟩
    exact List.inj_on_of_nodup_map h.nodup hn hn' (Option.some.inj (hid.symm.trans hid'))
  tags := h.tags

end Space.Holds

/-- With the root alone. -/
theorem holds_root (hb : b.Documented) : Space.Holds b [] [] ⟨[plcsRoot b], ∅⟩ where
  nodup := List.nodup_singleton _
  root := List.mem_singleton_self _
  folders := fun n hn _ => .inl (List.mem_singleton.mp hn)
  plcNodes := by
    have hroot : ∀ name, ¬ IsPlcFolder b name (plcsRoot b) :=
      fun name hfolder => hb.standard [] .objectsFolder hfolder.parent.symm
    simp [hroot]
  tags := by
    simp [Node.isVariable, plcsRoot]

theorem mirrors_of_build (hb : b.Documented) {registry : TagRegistry} {nodes : List Node}
    (h : buildAddressSpace b registry = .ok nodes) : Mirrors b registry.allDefinitionsSorted nodes := by
  obtain ⟨first, hfirst, hrest⟩ := bind_eq_ok.mp h
  obtain ⟨-, rfl⟩ := Backend.add_eq_ok.mp (mapError_eq_ok.mp hfirst)
  obtain ⟨sp, hloop, hend⟩ := bind_eq_ok.mp hrest
  obtain rfl := Except.ok.inj hend
  have hinit : Space.Holds b (([] : List TagDefinition).map TagDefinition.plcName) []
      ⟨[] ++ [plcsRoot b], ∅⟩ := holds_root hb
  have hholds := foldlM_invariant
    (I := fun defs sp => Space.Holds b (defs.map TagDefinition.plcName) defs sp)
    (fun defs d sp sp' hsp hadd => hsp.addTag hb hadd) hinit hloop
  rw [List.nil_append] at hholds
  exact hholds.mirrors

/-- The texts of the variables' node ids. -/
def nodeTexts (defs : List TagDefinition) : List String := defs.map fun d => stringNodeId d.id

theorem Mirrors.nodup_nodeTexts {nodes : List Node} (h : Mirrors b defs nodes) : (nodeTexts defs).Nodup := by
  have hids : defs.map (fun d => NodeId.string b.nsIndex (stringNodeId d.id)) =
      (nodes.filter Node.isVariable).map Node.id := by
    refine map_eq_of_forall₂ (h.tags.imp ?_)
    rintro d n ⟨f, -, -, rfl⟩
    rfl
  have hnodup : ((nodeTexts defs).map (NodeId.string b.nsIndex)).Nodup := by
    rw [nodeTexts, List.map_map]
    show (defs.map fun d => NodeId.string b.nsIndex (stringNodeId d.id)).Nodup
    rw [hids]
    exact h.nodup.sublist (List.filter_sublist.map _)
  exact hnodup.of_map _

-- ============================================================================
-- When it is built
-- ============================================================================

/-- Only variables have texts as ids, and those of `defs`. -/
def Space.TextsIn (b : Backend) (defs : List TagDefinition) (sp : Space) : Prop :=
  ∀ n ∈ sp.nodes, ∀ text, n.id = .string b.nsIndex text → text ∈ nodeTexts defs

theorem add_of_free (hb : b.Lenient) {nodes : List Node} {n : Node} (hfree : n.id ∉ nodes.map Node.id) :
    b.add nodes n = .ok (nodes ++ [n]) :=
  Backend.add_eq_ok.mpr ⟨hb.free nodes n hfree, rfl⟩

theorem textsIn_concat {nodes : List Node} (h : ∀ n ∈ nodes, ∀ text, n.id = .string b.nsIndex text →
    text ∈ nodeTexts defs) {n : Node} {nsIndex : UInt16} {id : Nat} (hn : n.id = .numeric nsIndex id) :
    ∀ n' ∈ nodes ++ [n], ∀ text, n'.id = .string b.nsIndex text → text ∈ nodeTexts defs := by
  refine forall_mem_concat.mpr ⟨h, ?_⟩
  intro text htext
  rw [hn] at htext
  exact absurd htext (by simp)

theorem exists_plcFolder (hb : b.Lenient) (h : sp.TextsIn b defs) (parent : NodeId) (plcName : String) :
    ∃ id sp', plcFolder b parent plcName sp = .ok (id, sp') ∧ sp'.TextsIn b defs := by
  rw [plcFolder]
  cases sp.plcNodes.lookup plcName with
  | some id => exact ⟨id, sp, rfl, h⟩
  | none =>
      simp only [add_of_free hb (n := ⟨b.freshId sp.nodes, parent, plcName, .folder⟩) (hb.fresh sp.nodes)]
      obtain ⟨nsIndex, id, hid⟩ := hb.numeric sp.nodes
      exact ⟨_, _, rfl, textsIn_concat h hid⟩

/-- A tag whose text is new gets its variable. -/
theorem exists_addTag (hb : b.Lenient) (h : sp.TextsIn b defs) (parent : NodeId) {d : TagDefinition}
    (hd : stringNodeId d.id ∉ nodeTexts defs) :
    ∃ sp', addTag b parent sp d = .ok sp' ∧ sp'.TextsIn b (defs ++ [d]) := by
  obtain ⟨id, sp₁, hfolder, h₁⟩ := exists_plcFolder hb h parent d.plcName
  have hfree : (variableNode b id d).id ∉ sp₁.nodes.map Node.id := by
    intro hmem
    obtain ⟨n, hn, hid⟩ := List.mem_map.mp hmem
    exact hd (h₁ n hn _ hid)
  refine ⟨⟨sp₁.nodes ++ [variableNode b id d], sp₁.plcNodes⟩, ?_, ?_⟩
  · simp only [addTag, hfolder, bind, Except.bind, add_of_free hb hfree]
  · refine forall_mem_concat.mpr ⟨?_, ?_⟩
    · intro n hn text htext
      rw [nodeTexts, List.map_append]
      exact List.mem_append_left _ (h₁ n hn text htext)
    · intro text htext
      rw [← (NodeId.string.inj htext).2, nodeTexts, List.map_append]
      exact List.mem_append_right _ (List.mem_singleton_self _)

theorem exists_loop (hb : b.Lenient) (parent : NodeId) {rest : List TagDefinition}
    (hnodup : (nodeTexts (defs ++ rest)).Nodup) (h : sp.TextsIn b defs) :
    ∃ sp', rest.foldlM (addTag b parent) sp = .ok sp' := by
  induction rest generalizing defs sp with
  | nil => exact ⟨sp, rfl⟩
  | cons d rest ih =>
      have hd : stringNodeId d.id ∉ nodeTexts defs := by
        rw [nodeTexts, List.map_append, List.map_cons, List.nodup_append] at hnodup
        intro hmem
        exact hnodup.2.2 _ hmem _ (List.mem_cons_self ..) rfl
      obtain ⟨sp₁, hadd, h₁⟩ := exists_addTag hb h parent hd
      rw [List.append_cons] at hnodup
      obtain ⟨sp', hrest⟩ := ih hnodup h₁
      exact ⟨sp', by rw [List.foldlM_cons, hadd]; exact hrest⟩

/-- Whenever the address space is built, it mirrors the definitions, and their
    ids differ as node ids; and it is built if they do, unless open62541 has
    another reason to refuse a node. -/
theorem addressSpace_mirrors (hb : b.Documented) (registry : TagRegistry) :
    (∀ nodes, buildAddressSpace b registry = .ok nodes →
      Mirrors b registry.allDefinitionsSorted nodes ∧ (nodeTexts registry.allDefinitionsSorted).Nodup) ∧
    (b.Lenient → (nodeTexts registry.allDefinitionsSorted).Nodup →
      ∃ nodes, buildAddressSpace b registry = .ok nodes) := by
  refine ⟨?_, ?_⟩
  · intro nodes h
    have hmirrors := mirrors_of_build hb h
    exact ⟨hmirrors, hmirrors.nodup_nodeTexts⟩
  · intro hlenient hnodup
    have hroot : b.add [] (plcsRoot b) = .ok ([] ++ [plcsRoot b]) :=
      add_of_free hlenient (List.not_mem_nil)
    have hinit : Space.TextsIn b [] ⟨[] ++ [plcsRoot b], ∅⟩ := by
      obtain ⟨nsIndex, id, hid⟩ := hlenient.numeric []
      exact textsIn_concat (fun n hn => absurd hn (List.not_mem_nil)) hid
    have hall : (nodeTexts ([] ++ registry.allDefinitionsSorted)).Nodup := hnodup
    obtain ⟨sp, hloop⟩ := exists_loop hlenient (plcsRoot b).id hall hinit
    refine ⟨sp.nodes, ?_⟩
    simp only [buildAddressSpace, hroot, Except.mapError, bind, Except.bind, hloop]
    rfl

/-- The number of an id. -/
def NodeId.number : NodeId → Nat
  | .numeric _ id => id
  | .ns0 _ | .string .. => 0

/-- A new id has a number above all in use; only taken ids are refused. -/
def countingBackend : Backend where
  nsIndex := 2
  freshId := fun nodes => .numeric 1 ((nodes.map fun n => n.id.number).sum + 1)
  refusal := fun nodes n => if n.id ∈ nodes.map Node.id then some "BadNodeIdExists" else none

theorem documented_countingBackend : countingBackend.Documented where
  standard := by
    intro nodes id h
    exact absurd h (by simp [countingBackend])
  taken := by
    intro nodes n hn
    simp only [countingBackend, if_pos hn, Option.isSome_some]

theorem lenient_countingBackend : countingBackend.Lenient where
  fresh := by
    intro nodes hmem
    obtain ⟨n, hn, hid⟩ := List.mem_map.mp hmem
    have hle := List.le_sum_of_mem (List.mem_map_of_mem (f := fun n : Node => n.id.number) hn)
    simp only [hid, countingBackend, NodeId.number] at hle
    omega
  numeric := fun nodes => ⟨1, _, rfl⟩
  free := by
    intro nodes n hn
    simp only [countingBackend, if_neg hn]

/-- Two PLCs, the first with two tags. -/
def plantDefinitions : List TagDefinition :=
  [.new "ns=1;s=Omron.Speed" "Speed" "D100" .uint16 "Omron",
   .new "ns=1;s=Omron.Run" "Run" "D101" .bool "Omron",
   { TagDefinition.new "ns=1;s=Modbus.Level" "Level" "40001" .float "Modbus" with writable := true }]

theorem addressSpace_mirrors_plant :
    ∃ nodes, buildAddressSpace countingBackend (.ofDefinitions plantDefinitions) = .ok nodes ∧
      Mirrors countingBackend (TagRegistry.ofDefinitions plantDefinitions).allDefinitionsSorted nodes := by
  have hnodup : (nodeTexts (TagRegistry.ofDefinitions plantDefinitions).allDefinitionsSorted).Nodup := by
    decide +kernel
  obtain ⟨hmirrors, hbuilt⟩ :=
    addressSpace_mirrors documented_countingBackend (.ofDefinitions plantDefinitions)
  obtain ⟨nodes, hnodes⟩ := hbuilt lenient_countingBackend hnodup
  exact ⟨nodes, hnodes, (hmirrors nodes hnodes).1⟩

-- ============================================================================
-- Reads deliver the declared type
-- ============================================================================

/-- The data type of a scalar. -/
def UaScalar.typeId : UaScalar → Option Ns0
  | .boolean _ => some .boolean
  | .int16 _ => some .int16
  | .uint16 _ => some .uint16
  | .int32 _ => some .int32
  | .uint32 _ => some .uint32
  | .int64 _ => some .int64
  | .uint64 _ => some .uint64
  | .float _ => some .float
  | .double _ => some .double
  | .string _ => some .string
  | .dateTime _ => some .dateTime
  | .byteString _ => some .byteString
  | .other => none

theorem typeId_of_tagvalueToVariant {ua : Encoding} {v : TagValue} {x : UaScalar}
    (h : tagvalueToVariant ua v = some x) : x.typeId = some (dataTypeNodeid v.dataType) := by
  cases v with
  | string s =>
      obtain ⟨bytes, -, rfl⟩ := Option.map_eq_some_iff.mp h
      rfl
  | dateTime dt =>
      obtain ⟨ticks, -, rfl⟩ := Option.map_eq_some_iff.mp h
      rfl
  | _ =>
      obtain rfl := Option.some.inj h
      rfl

/-- Texts and times apart, every value can be sent. -/
theorem isSome_tagvalueToVariant (ua : Encoding) {v : TagValue} (hstring : v.dataType ≠ .string)
    (htime : v.dataType ≠ .dateTime) : (tagvalueToVariant ua v).isSome := by
  cases v with
  | string s => exact absurd rfl hstring
  | dateTime dt => exact absurd rfl htime
  | _ => rfl

/-- Reading a defined tag: the tag is found, and what is delivered has the type
    of its definition. -/
theorem read_typed {r : TagRegistry} (hcons : r.Consistent) (ua : Encoding) {d : TagDefinition}
    (hd : r.getDefinition d.id = .ok d) :
    (∀ dv, TagDataSource.read ua ⟨d.id, r⟩ = .ok dv →
      dv.value.typeId = some (dataTypeNodeid d.dataType)) ∧
    (d.dataType ≠ .string → d.dataType ≠ .dateTime → ∃ dv, TagDataSource.read ua ⟨d.id, r⟩ = .ok dv) := by
  obtain ⟨t, ht⟩ := (Runtime.getTag_iff_getDefinition hcons).mpr ⟨d, hd⟩
  have htype : t.value.dataType = d.dataType :=
    hcons.typed (TagRegistry.getTag_eq_ok.mp ht) (TagRegistry.dataType?_eq_some.mpr ⟨d, hd, rfl⟩)
  rw [TagDataSource.read]
  simp only [ht]
  refine ⟨?_, ?_⟩
  · intro dv hread
    split at hread
    · exact absurd hread (by simp)
    · rename_i x hx
      obtain rfl := Except.ok.inj hread
      rw [← htype]
      exact typeId_of_tagvalueToVariant hx
  · intro hstring htime
    rw [← htype] at hstring htime
    obtain ⟨x, hx⟩ := Option.isSome_iff_exists.mp (isSome_tagvalueToVariant ua hstring htime)
    rw [hx]
    exact ⟨_, rfl⟩

end PlcBridge.Opcua
