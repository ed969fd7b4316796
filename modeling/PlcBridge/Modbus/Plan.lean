/-
  PlcBridge.Modbus.Plan

  The read requests of one Modbus cycle: mappings are sorted by address for
  each function, contiguous ranges are merged into groups, and groups are cut
  into protocol-safe chunks (the nested loops of `run_read_cycle_impl`).

  The source computes in `u16`, wrapping as a release build does.  The second
  half shows that for ranges that end below 65536 the computation is the one
  on plain numbers in `PlcBridge.Lib.Spans`.
-/
import PlcBridge.Lib.Spans
import PlcBridge.Modbus.Mapping

namespace PlcBridge.Modbus

open PlcBridge.Lib

-- ============================================================================
-- Groups
-- ============================================================================

/-- A contiguous group: `(start_addr, quantity, mappings)`. -/
structure Group where
  start : UInt16
  quantity : UInt16
  members : List ModbusMapping

def Group.of (m : ModbusMapping) : Group := ⟨m.address, m.quantity, [m]⟩

/-- Last address of a group. -/
def Group.lastAddr (g : Group) : UInt16 := g.start + g.quantity - 1

/-- Extend the last group by a mapping. -/
def Group.push (g : Group) (m : ModbusMapping) : Group :=
  let mapEnd := m.address + m.quantity - 1
  let newEnd := if g.lastAddr ≤ mapEnd then mapEnd else g.lastAddr
  ⟨g.start, newEnd - g.start + 1, g.members ++ [m]⟩

/-- The grouping loop with `g` as `groups.last_mut()`: join the mapping to the
    last group, or open a new one behind it. -/
def buildGroupsFrom (g : Group) : List ModbusMapping → List Group
  | [] => [g]
  | m :: ms =>
      if m.address ≤ g.lastAddr + 1 then buildGroupsFrom (g.push m) ms
      else g :: buildGroupsFrom (Group.of m) ms

/-- Build contiguous groups from a sorted list. -/
def buildGroups : List ModbusMapping → List Group
  | [] => []
  | m :: ms => buildGroupsFrom (Group.of m) ms

-- ============================================================================
-- Chunks
-- ============================================================================

def maxRegisters : UInt16 := 125

def maxCoils : UInt16 := 2000

/-- Largest quantity of one request. -/
def maxAllowed : ModbusFunction → UInt16
  | .holdingRegisters | .inputRegisters => maxRegisters
  | .coils | .discreteInputs => maxCoils

/-- `while remaining > 0`: the chunks `(chunk_start, chunk_qty)`, stopping
    when the next start would leave the address space.  Each turn takes at
    least one address, so `remaining` is enough fuel. -/
def chunkLoop (cap : UInt16) : Nat → UInt16 → Nat → List (UInt16 × UInt16)
  | 0, _, _ => []
  | fuel + 1, chunkStart, remaining =>
      if remaining = 0 then []
      else
        let chunkQty := if cap ≤ UInt16.ofNat remaining then cap else UInt16.ofNat remaining
        let next := chunkStart.toNat + chunkQty.toNat
        (chunkStart, chunkQty) ::
          if 65535 < next then []
          else chunkLoop cap fuel (UInt16.ofNat next) (remaining - chunkQty.toNat)

/-- One read request and the members of the group it was cut from. -/
structure ReadRequest where
  func : ModbusFunction
  start : UInt16
  qty : UInt16
  members : List ModbusMapping
deriving DecidableEq

def groupRequests (func : ModbusFunction) (g : Group) : List ReadRequest :=
  (chunkLoop (maxAllowed func) g.quantity.toNat g.start g.quantity.toNat).map fun c =>
    ⟨func, c.1, c.2, g.members⟩

/-- The groups of one function. -/
def funcGroups (mappings : List ModbusMapping) (func : ModbusFunction) : List Group :=
  buildGroups (sortByAddress (byFunc mappings func))

/-- The read requests of one function. -/
def funcRequests (mappings : List ModbusMapping) (func : ModbusFunction) : List ReadRequest :=
  (funcGroups mappings func).flatMap (groupRequests func)

/-- All read requests of a cycle, in the order they are made. -/
def readPlan (order : FuncOrder) (mappings : List ModbusMapping) : List ReadRequest :=
  order.list.flatMap (funcRequests mappings)

-- ============================================================================
-- Members
-- ============================================================================

theorem buildGroupsFrom_members (g : Group) (ms : List ModbusMapping) :
    (buildGroupsFrom g ms).flatMap Group.members = g.members ++ ms := by
  induction ms generalizing g with
  | nil => simp [buildGroupsFrom]
  | cons m ms ih =>
      simp only [buildGroupsFrom]
      by_cases h : m.address ≤ g.lastAddr + 1
      · rw [if_pos h, ih]
        simp [Group.push]
      · rw [if_neg h, List.flatMap_cons, ih]
        simp [Group.of]

/-- Every mapping goes into one group, none is lost. -/
theorem buildGroups_members (ms : List ModbusMapping) :
    (buildGroups ms).flatMap Group.members = ms := by
  cases ms with
  | nil => rfl
  | cons m ms =>
      rw [buildGroups, buildGroupsFrom_members]
      rfl

theorem mem_funcGroups_members {mappings : List ModbusMapping} {func : ModbusFunction} {g : Group}
    (hg : g ∈ funcGroups mappings func) {m : ModbusMapping} (hm : m ∈ g.members) :
    m ∈ mappings ∧ m.function = func := by
  have hmem : m ∈ (funcGroups mappings func).flatMap Group.members :=
    List.mem_flatMap.mpr ⟨g, hg, hm⟩
  rw [funcGroups, buildGroups_members, mem_sortByAddress] at hmem
  exact mem_byFunc.mp hmem

theorem exists_group {mappings : List ModbusMapping} {m : ModbusMapping} (hm : m ∈ mappings) :
    ∃ g ∈ funcGroups mappings m.function, m ∈ g.members := by
  have hmem : m ∈ (funcGroups mappings m.function).flatMap Group.members := by
    rw [funcGroups, buildGroups_members, mem_sortByAddress]
    exact mem_byFunc.mpr ⟨hm, rfl⟩
  exact List.mem_flatMap.mp hmem

/-- The tag ids whose quality and value a request can touch. -/
def ReadRequest.ids (r : ReadRequest) : List String := r.members.map ModbusMapping.tagId

theorem mem_groupRequests {func : ModbusFunction} {g : Group} {r : ReadRequest}
    (hr : r ∈ groupRequests func g) : r.func = func ∧ r.members = g.members := by
  obtain ⟨c, -, rfl⟩ := List.mem_map.mp hr
  exact ⟨rfl, rfl⟩

theorem mem_readPlan {order : FuncOrder} {mappings : List ModbusMapping} {r : ReadRequest}
    (hr : r ∈ readPlan order mappings) :
    ∃ g ∈ funcGroups mappings r.func, r ∈ groupRequests r.func g := by
  obtain ⟨func, -, hr⟩ := List.mem_flatMap.mp hr
  obtain ⟨g, hg, hr⟩ := List.mem_flatMap.mp hr
  obtain rfl := (mem_groupRequests hr).1
  exact ⟨g, hg, hr⟩

theorem mem_readPlan_of_group {order : FuncOrder} {mappings : List ModbusMapping} {func : ModbusFunction}
    {g : Group} (hg : g ∈ funcGroups mappings func) {r : ReadRequest} (hr : r ∈ groupRequests func g) :
    r ∈ readPlan order mappings :=
  List.mem_flatMap.mpr ⟨func, order.complete func, List.mem_flatMap.mpr ⟨g, hg, hr⟩⟩

theorem id_injective {mappings : List ModbusMapping}
    (hnodup : (mappings.map ModbusMapping.tagId).Nodup) {m m' : ModbusMapping} (hm : m ∈ mappings)
    (hm' : m' ∈ mappings) (h : m.tagId = m'.tagId) : m = m' :=
  List.inj_on_of_nodup_map hnodup hm hm' h

theorem nodup_group_ids {mappings : List ModbusMapping}
    (hnodup : (mappings.map ModbusMapping.tagId).Nodup) {func : ModbusFunction} {g : Group}
    (hg : g ∈ funcGroups mappings func) : (g.members.map ModbusMapping.tagId).Nodup := by
  have hall : (((funcGroups mappings func).flatMap Group.members).map ModbusMapping.tagId).Nodup := by
    rw [funcGroups, buildGroups_members, ((perm_sortByAddress _).map _).nodup_iff]
    exact hnodup.sublist ((List.filter_sublist (l := mappings)).map _)
  rw [List.map_flatMap] at hall
  exact (List.nodup_flatMap.mp hall).1 g hg

/-- The plan around one group: the functions before, the groups before, the
    group, the groups behind, the functions behind. -/
theorem readPlan_split {order : FuncOrder} {mappings : List ModbusMapping} {func : ModbusFunction}
    {o₁ o₂ : List ModbusFunction} {g₁ g₂ : List Group} {g : Group}
    (horder : order.list = o₁ ++ func :: o₂) (hgroups : funcGroups mappings func = g₁ ++ g :: g₂) :
    readPlan order mappings =
      (o₁.flatMap (funcRequests mappings) ++ g₁.flatMap (groupRequests func)) ++
        groupRequests func g ++
      (g₂.flatMap (groupRequests func) ++ o₂.flatMap (funcRequests mappings)) := by
  rw [readPlan, horder, List.flatMap_append, List.flatMap_cons, funcRequests, hgroups,
    List.flatMap_append, List.flatMap_cons]
  simp only [List.append_assoc]

/-- Requests of another function have no member with this tag's id. -/
theorem not_mem_ids_of_func_ne {mappings : List ModbusMapping}
    (hnodup : (mappings.map ModbusMapping.tagId).Nodup) {m : ModbusMapping} (hm : m ∈ mappings)
    {func : ModbusFunction} (hne : func ≠ m.function) {r : ReadRequest}
    (hr : r ∈ funcRequests mappings func) : m.tagId ∉ r.ids := by
  intro hid
  obtain ⟨g, hg, hr⟩ := List.mem_flatMap.mp hr
  obtain ⟨m', hm', hid'⟩ := List.mem_map.mp hid
  rw [(mem_groupRequests hr).2] at hm'
  obtain ⟨hmem, hfunc⟩ := mem_funcGroups_members hg hm'
  rw [id_injective hnodup hmem hm hid'] at hfunc
  exact hne hfunc.symm

/-- Nor have requests of another group of its function. -/
theorem not_mem_ids_of_sibling {mappings : List ModbusMapping}
    (hnodup : (mappings.map ModbusMapping.tagId).Nodup) {m : ModbusMapping} {g₁ g₂ : List Group}
    {g : Group} (hgroups : funcGroups mappings m.function = g₁ ++ g :: g₂) (hmg : m ∈ g.members)
    {g' : Group} (hg' : g' ∈ g₁ ∨ g' ∈ g₂) {r : ReadRequest}
    (hr : r ∈ groupRequests m.function g') : m.tagId ∉ r.ids := by
  intro hid
  have hg : g ∈ funcGroups mappings m.function := by
    rw [hgroups]
    simp
  have hmem' : g' ∈ funcGroups mappings m.function := by
    rw [hgroups]
    rcases hg' with h | h <;> simp [h]
  obtain ⟨m', hm', hid'⟩ := List.mem_map.mp hid
  rw [(mem_groupRequests hr).2] at hm'
  have heq := id_injective hnodup (mem_funcGroups_members hmem' hm').1
    (mem_funcGroups_members hg hmg).1 hid'
  subst heq
  have hlist : ((funcGroups mappings m'.function).flatMap Group.members).Nodup := by
    rw [funcGroups, buildGroups_members, (perm_sortByAddress _).nodup_iff]
    exact (List.Nodup.of_map _ hnodup).filter _
  rw [hgroups, List.flatMap_append, List.flatMap_cons, List.nodup_append] at hlist
  obtain ⟨-, htail, hdisj⟩ := hlist
  rcases hg' with h | h
  · exact hdisj m' (List.mem_flatMap.mpr ⟨g', h, hm'⟩) m' (List.mem_append_left _ hmg) rfl
  · rw [List.nodup_append] at htail
    exact htail.2.2 m' hmg m' (List.mem_flatMap.mpr ⟨g', h, hm'⟩) rfl

/-- The plan around a tag: only the requests of its own group mention it. -/
theorem exists_plan_split (order : FuncOrder) {mappings : List ModbusMapping}
    (hnodup : (mappings.map ModbusMapping.tagId).Nodup) {m : ModbusMapping} {g : Group}
    (hg : g ∈ funcGroups mappings m.function) (hmg : m ∈ g.members) :
    ∃ o₁ o₂ g₁ g₂, order.list = o₁ ++ m.function :: o₂ ∧
      funcGroups mappings m.function = g₁ ++ g :: g₂ ∧
      (∀ r ∈ o₁.flatMap (funcRequests mappings) ++ g₁.flatMap (groupRequests m.function),
        m.tagId ∉ r.ids) ∧
      ∀ r ∈ g₂.flatMap (groupRequests m.function) ++ o₂.flatMap (funcRequests mappings),
        m.tagId ∉ r.ids := by
  have hm := (mem_funcGroups_members hg hmg).1
  obtain ⟨o₁, o₂, horder⟩ := List.append_of_mem (order.complete m.function)
  obtain ⟨g₁, g₂, hgroups⟩ := List.append_of_mem hg
  have hnot : m.function ∉ o₁ ∧ m.function ∉ o₂ := by
    have hnd := order.nodup
    rw [horder, List.nodup_append] at hnd
    exact ⟨fun h => hnd.2.2 _ h _ (List.mem_cons_self ..) rfl, (List.nodup_cons.mp hnd.2.1).1⟩
  refine ⟨o₁, o₂, g₁, g₂, horder, hgroups, ?_, ?_⟩
  · intro r hr
    rcases List.mem_append.mp hr with hr | hr
    · obtain ⟨func, hfunc, hr⟩ := List.mem_flatMap.mp hr
      exact not_mem_ids_of_func_ne hnodup hm (fun h => hnot.1 (h ▸ hfunc)) hr
    · obtain ⟨g', hg', hr⟩ := List.mem_flatMap.mp hr
      exact not_mem_ids_of_sibling hnodup hgroups hmg (.inl hg') hr
  · intro r hr
    rcases List.mem_append.mp hr with hr | hr
    · obtain ⟨g', hg', hr⟩ := List.mem_flatMap.mp hr
      exact not_mem_ids_of_sibling hnodup hgroups hmg (.inr hg') hr
    · obtain ⟨func, hfunc, hr⟩ := List.mem_flatMap.mp hr
      exact not_mem_ids_of_func_ne hnodup hm (fun h => hnot.2 (h ▸ hfunc)) hr

-- ============================================================================
-- The plan on plain numbers
-- ============================================================================

namespace ModbusMapping

/-- First address of the range. -/
def lo (m : ModbusMapping) : Nat := m.address.toNat

/-- Number of addresses in the range. -/
def len (m : ModbusMapping) : Nat := m.quantity.toNat

/-- The range is not empty and ends below the last address. -/
structure InSpace (m : ModbusMapping) : Prop where
  pos : 0 < m.len
  le : m.lo + m.len ≤ 65535

end ModbusMapping

/-- A group as a block of plain numbers. -/
def Group.toBlock (g : Group) : Block ModbusMapping := ⟨g.start.toNat, g.quantity.toNat, g.members⟩

/-- No `u16` operation on the group wraps around. -/
def Group.InSpace (g : Group) : Prop :=
  0 < g.quantity.toNat ∧ g.start.toNat + g.quantity.toNat ≤ 65535

/-- `address + quantity - 1` without wrap-around. -/
theorem toNat_lastAddr {a q : UInt16} (hq : 0 < q.toNat) (h : a.toNat + q.toNat ≤ 65535) :
    (a + q - 1).toNat = a.toNat + q.toNat - 1 := by
  have hadd : (a + q).toNat = a.toNat + q.toNat := by
    rw [UInt16.toNat_add]
    exact Nat.mod_eq_of_lt (by omega)
  rw [UInt16.toNat_sub_of_le _ _ (UInt16.le_iff_toNat_le.mpr (by rw [hadd]; simp; omega)), hadd]
  rfl

theorem le_lastAddr_succ_iff {g : Group} (hg : g.InSpace) (a : UInt16) :
    a ≤ g.lastAddr + 1 ↔ a.toNat ≤ g.start.toNat + g.quantity.toNat := by
  have hlast : g.lastAddr.toNat = _ := toNat_lastAddr hg.1 hg.2
  obtain ⟨hpos, hle⟩ := hg
  have hsucc : (g.lastAddr + 1).toNat = g.start.toNat + g.quantity.toNat := by
    rw [UInt16.toNat_add, hlast]
    show (g.start.toNat + g.quantity.toNat - 1 + 1) % 2 ^ 16 = _
    rw [Nat.mod_eq_of_lt (by omega)]
    omega
  rw [UInt16.le_iff_toNat_le, hsucc]

theorem Group.inSpace_of {m : ModbusMapping} (hm : m.InSpace) : (Group.of m).InSpace :=
  ⟨hm.pos, hm.le⟩

theorem Group.toBlock_of (m : ModbusMapping) :
    (Group.of m).toBlock = Block.of ModbusMapping.lo ModbusMapping.len m := rfl

/-- `new_end`, the larger of the two ends. -/
theorem toNat_newEnd {g : Group} {m : ModbusMapping} (hg : g.InSpace) (hm : m.InSpace) :
    (if g.lastAddr ≤ m.address + m.quantity - 1 then m.address + m.quantity - 1
      else g.lastAddr).toNat
      = max (g.start.toNat + g.quantity.toNat) (m.address.toNat + m.quantity.toNat) - 1 := by
  have hlast : g.lastAddr.toNat = g.start.toNat + g.quantity.toNat - 1 := toNat_lastAddr hg.1 hg.2
  have hmap : (m.address + m.quantity - 1).toNat = m.address.toNat + m.quantity.toNat - 1 :=
    toNat_lastAddr hm.pos hm.le
  by_cases h : g.lastAddr ≤ m.address + m.quantity - 1
  · rw [if_pos h, hmap]
    rw [UInt16.le_iff_toNat_le, hlast, hmap] at h
    omega
  · rw [if_neg h, hlast]
    rw [UInt16.le_iff_toNat_le, hlast, hmap] at h
    omega

/-- Extending a group in `u16` arithmetic is extending its block. -/
theorem Group.push_spec {g : Group} {m : ModbusMapping} (hg : g.InSpace) (hm : m.InSpace)
    (hstart : g.start.toNat ≤ m.address.toNat) :
    (g.push m).InSpace ∧
    (g.push m).toBlock = g.toBlock.absorb ModbusMapping.lo ModbusMapping.len m := by
  have hend := toNat_newEnd hg hm
  obtain ⟨hgpos, hgle⟩ := hg
  have hmpos : 0 < m.quantity.toNat := hm.pos
  have hmle : m.address.toNat + m.quantity.toNat ≤ 65535 := hm.le
  have hqty : (g.push m).quantity.toNat
      = max (g.start.toNat + g.quantity.toNat) (m.address.toNat + m.quantity.toNat)
        - g.start.toNat := by
    simp only [Group.push]
    rw [UInt16.toNat_add, UInt16.toNat_sub_of_le _ _
      (UInt16.le_iff_toNat_le.mpr (by rw [hend]; omega)), hend]
    show (_ - _ + 1) % 2 ^ 16 = _
    rw [Nat.mod_eq_of_lt (by omega)]
    omega
  refine ⟨⟨by omega, ?_⟩, ?_⟩
  · show g.start.toNat + (g.push m).quantity.toNat ≤ 65535
    omega
  · simp only [Group.toBlock, hqty, Block.absorb, ModbusMapping.lo, ModbusMapping.len]
    rfl

theorem buildGroupsFrom_toBlock {g : Group} {ms : List ModbusMapping} (hg : g.InSpace)
    (hms : ∀ m ∈ ms, m.InSpace)
    (hsorted : ms.Pairwise fun a b => a.address.toNat ≤ b.address.toNat)
    (hstart : ∀ m ∈ ms, g.start.toNat ≤ m.address.toNat) :
    (∀ g' ∈ buildGroupsFrom g ms, g'.InSpace) ∧
    (buildGroupsFrom g ms).map Group.toBlock =
      coalesceFrom ModbusMapping.lo ModbusMapping.len g.toBlock ms := by
  induction ms generalizing g with
  | nil =>
      refine ⟨?_, rfl⟩
      intro g' hg'
      obtain rfl := List.mem_singleton.mp hg'
      exact hg
  | cons m ms ih =>
      rw [List.pairwise_cons] at hsorted
      have hm := hms m (List.mem_cons_self ..)
      have htail : ∀ m' ∈ ms, m'.InSpace := fun m' h => hms m' (List.mem_cons_of_mem m h)
      have hiff : m.address ≤ g.lastAddr + 1 ↔ m.lo ≤ g.toBlock.start + g.toBlock.len :=
        le_lastAddr_succ_iff hg m.address
      simp only [buildGroupsFrom, coalesceFrom]
      by_cases h : m.address ≤ g.lastAddr + 1
      · have hspec := Group.push_spec hg hm (hstart m (List.mem_cons_self ..))
        rw [if_pos h, if_pos (hiff.mp h), ← hspec.2]
        apply ih hspec.1 htail hsorted.2
        intro m' hm'
        exact hstart m' (List.mem_cons_of_mem m hm')
      · rw [if_neg h, if_neg (fun h' => h (hiff.mpr h'))]
        have hrec := ih (g := Group.of m) (Group.inSpace_of hm) htail hsorted.2 hsorted.1
        refine ⟨?_, ?_⟩
        · intro g' hg'
          rcases List.mem_cons.mp hg' with rfl | hg'
          · exact hg
          · exact hrec.1 g' hg'
        · rw [List.map_cons, hrec.2, Group.toBlock_of]

/-- The groups are the maximal contiguous blocks. -/
theorem buildGroups_toBlock {ms : List ModbusMapping} (hms : ∀ m ∈ ms, m.InSpace)
    (hsorted : ms.Pairwise fun a b => a.address.toNat ≤ b.address.toNat) :
    (∀ g ∈ buildGroups ms, g.InSpace) ∧
    (buildGroups ms).map Group.toBlock = coalesce ModbusMapping.lo ModbusMapping.len ms := by
  cases ms with
  | nil => exact ⟨fun g hg => absurd hg (List.not_mem_nil), rfl⟩
  | cons m ms =>
      rw [List.pairwise_cons] at hsorted
      exact buildGroupsFrom_toBlock (Group.inSpace_of (hms m (List.mem_cons_self ..)))
        (fun m' h => hms m' (List.mem_cons_of_mem m h)) hsorted.2 hsorted.1

theorem mem_buildGroups {ms : List ModbusMapping} (hms : ∀ m ∈ ms, m.InSpace)
    (hsorted : ms.Pairwise fun a b => a.lo ≤ b.lo) {g : Group} (hg : g ∈ buildGroups ms) :
    g.InSpace ∧ g.toBlock ∈ coalesce ModbusMapping.lo ModbusMapping.len ms := by
  obtain ⟨hspaces, hblocks⟩ := buildGroups_toBlock hms hsorted
  refine ⟨hspaces g hg, ?_⟩
  rw [← hblocks]
  exact List.mem_map_of_mem hg

/-- `min(remaining as u16, max_allowed)`. -/
theorem toNat_chunkQty {cap : UInt16} {remaining : Nat} (h : remaining ≤ 65535) :
    (if cap ≤ UInt16.ofNat remaining then cap else UInt16.ofNat remaining).toNat
      = min cap.toNat remaining := by
  have hrem : (UInt16.ofNat remaining).toNat = remaining :=
    UInt16.toNat_ofNat_of_lt (by simp [UInt16.size]; omega)
  by_cases hle : cap ≤ UInt16.ofNat remaining
  · rw [if_pos hle]
    rw [UInt16.le_iff_toNat_le, hrem] at hle
    omega
  · rw [if_neg hle, hrem]
    rw [UInt16.le_iff_toNat_le, hrem] at hle
    omega

/-- The chunk loop cuts as `chunks` does, and stops for lack of addresses
    only. -/
theorem chunkLoop_eq {cap : UInt16} (hcap : 0 < cap.toNat) {fuel remaining : Nat} {start : UInt16}
    (hfuel : remaining ≤ fuel) (h : start.toNat + remaining ≤ 65535) :
    (chunkLoop cap fuel start remaining).map (fun c => (c.1.toNat, c.2.toNat)) =
      chunks cap.toNat start.toNat remaining := by
  induction fuel generalizing start remaining with
  | zero =>
      obtain rfl : remaining = 0 := by omega
      simp [chunkLoop]
  | succ fuel ih =>
      by_cases hz : remaining = 0
      · subst hz
        simp [chunkLoop]
      · have hqty := @toNat_chunkQty cap remaining (by omega)
        have hnext : (UInt16.ofNat (start.toNat + min cap.toNat remaining)).toNat
            = start.toNat + min cap.toNat remaining :=
          UInt16.toNat_ofNat_of_lt (by simp [UInt16.size]; omega)
        rw [chunkLoop, if_neg hz, chunks_of_pos hcap (by omega)]
        simp only [List.map_cons, hqty]
        rw [if_neg (by omega), ih (by omega) (by rw [hnext]; omega), hnext]

/-- A request's addresses as `(first, count)`. -/
def ReadRequest.span (r : ReadRequest) : Nat × Nat := (r.start.toNat, r.qty.toNat)

theorem maxAllowed_pos (func : ModbusFunction) : 0 < (maxAllowed func).toNat := by
  cases func <;> decide

theorem groupRequests_spans {func : ModbusFunction} {g : Group} (hg : g.InSpace) :
    (groupRequests func g).map ReadRequest.span =
      chunks (maxAllowed func).toNat g.toBlock.start g.toBlock.len := by
  rw [groupRequests, List.map_map]
  exact chunkLoop_eq (maxAllowed_pos func) le_rfl hg.2

/-- The ranges of one function's mappings, as the set of their addresses. -/
def Mapped (mappings : List ModbusMapping) (func : ModbusFunction) : Nat → Prop :=
  Covers ModbusMapping.lo ModbusMapping.len (byFunc mappings func)

theorem sorted_byFunc (mappings : List ModbusMapping) (func : ModbusFunction) :
    (sortByAddress (byFunc mappings func)).Pairwise fun a b => a.lo ≤ b.lo :=
  pairwise_sortByAddress (byFunc mappings func)

theorem funcGroups_toBlock {mappings : List ModbusMapping} (hspace : ∀ m ∈ mappings, m.InSpace)
    (func : ModbusFunction) :
    (∀ g ∈ funcGroups mappings func, g.InSpace) ∧
    (funcGroups mappings func).map Group.toBlock =
      coalesce ModbusMapping.lo ModbusMapping.len (sortByAddress (byFunc mappings func)) := by
  refine buildGroups_toBlock ?_ (sorted_byFunc mappings func)
  intro m hm
  exact hspace m (mem_byFunc.mp (mem_sortByAddress.mp hm)).1

/-- A group of in-space mappings: no arithmetic wraps, the members' ranges lie
    inside and fill it, and it starts where the contiguous run does. -/
theorem funcGroups_spec {mappings : List ModbusMapping} (hspace : ∀ m ∈ mappings, m.InSpace)
    {func : ModbusFunction} {g : Group} (hg : g ∈ funcGroups mappings func) :
    g.InSpace ∧ g.toBlock.Sound ModbusMapping.lo ModbusMapping.len ∧
    ∀ m ∈ g.members, IsRunStart (Mapped mappings func) g.start.toNat m.lo := by
  have hsorted := sorted_byFunc mappings func
  obtain ⟨hgspace, hb⟩ := mem_buildGroups (fun m hm =>
    hspace m (mem_byFunc.mp (mem_sortByAddress.mp hm)).1) hsorted hg
  refine ⟨hgspace, coalesce_sound _ hsorted _ hb, ?_⟩
  intro m hm
  have hrun := isRunStart_of_mem_coalesce hsorted hb hm
    (hspace m (mem_funcGroups_members hg hm).1).pos
  have hcov : Covers ModbusMapping.lo ModbusMapping.len (sortByAddress (byFunc mappings func)) =
      Mapped mappings func := by
    funext x
    simp only [Mapped, Covers, mem_sortByAddress]
  rw [← hcov]
  exact hrun

/-- Groups are ordered by address, with an unmapped address in between. -/
theorem funcGroups_gap {mappings : List ModbusMapping} (hspace : ∀ m ∈ mappings, m.InSpace)
    (func : ModbusFunction) :
    (funcGroups mappings func).Pairwise fun g g' =>
      g.start.toNat + g.quantity.toNat < g'.start.toNat := by
  have hgap := @coalesce_gap _ ModbusMapping.lo ModbusMapping.len _ (sorted_byFunc mappings func)
  rw [← (funcGroups_toBlock hspace func).2, List.pairwise_map] at hgap
  exact hgap

/-- Two groups of one function are apart. -/
theorem funcGroups_apart {mappings : List ModbusMapping} (hspace : ∀ m ∈ mappings, m.InSpace)
    {func : ModbusFunction} {g g' : Group} (hg : g ∈ funcGroups mappings func)
    (hg' : g' ∈ funcGroups mappings func) (hne : g ≠ g') :
    g.start.toNat + g.quantity.toNat < g'.start.toNat ∨
      g'.start.toNat + g'.quantity.toNat < g.start.toNat := by
  have hapart : (funcGroups mappings func).Pairwise fun a b : Group =>
      a.start.toNat + a.quantity.toNat < b.start.toNat ∨
        b.start.toNat + b.quantity.toNat < a.start.toNat :=
    (funcGroups_gap hspace func).imp fun h => .inl h
  have : Std.Symm fun a b : Group =>
      a.start.toNat + a.quantity.toNat < b.start.toNat ∨
        b.start.toNat + b.quantity.toNat < a.start.toNat := ⟨fun _ _ h => h.symm⟩
  exact hapart.forall hg hg' hne

-- ============================================================================
-- Where a tag sits in its group
-- ============================================================================

/-- No request boundary cuts the mapping's range: counted from the start of
    the contiguous run of mapped addresses it belongs to, it does not reach
    over a multiple of the largest request. -/
def ModbusMapping.ReadWhole (mappings : List ModbusMapping) (m : ModbusMapping) : Prop :=
  ∃ s, IsRunStart (Mapped mappings m.function) s m.lo ∧
    (m.lo - s) % (maxAllowed m.function).toNat + m.len ≤ (maxAllowed m.function).toNat

theorem groupRequests_pos {func : ModbusFunction} {g : Group} (hg : g.InSpace) {r : ReadRequest}
    (hr : r ∈ groupRequests func g) : 0 < r.qty.toNat := by
  have hspan : r.span ∈ chunks (maxAllowed func).toNat g.toBlock.start g.toBlock.len := by
    rw [← groupRequests_spans hg]
    exact List.mem_map_of_mem hr
  exact (chunk_bounds (maxAllowed_pos func) hspan).1

/-- Requests end inside their group. -/
theorem groupRequests_end {func : ModbusFunction} {g : Group} (hg : g.InSpace) {r : ReadRequest}
    (hr : r ∈ groupRequests func g) :
    r.start.toNat + r.qty.toNat ≤ g.start.toNat + g.quantity.toNat := by
  have hspan : r.span ∈ chunks (maxAllowed func).toNat g.toBlock.start g.toBlock.len := by
    rw [← groupRequests_spans hg]
    exact List.mem_map_of_mem hr
  exact (chunk_bounds (maxAllowed_pos func) hspan).2.2.2

/-- Requests start at the group's start or whole requests behind it. -/
theorem groupRequests_start {func : ModbusFunction} {g : Group} (hg : g.InSpace) {r : ReadRequest}
    (hr : r ∈ groupRequests func g) :
    g.start.toNat ≤ r.start.toNat ∧
    (r.start.toNat - g.start.toNat) % (maxAllowed func).toNat = 0 := by
  have hspan : r.span ∈ chunks (maxAllowed func).toNat g.toBlock.start g.toBlock.len := by
    rw [← groupRequests_spans hg]
    exact List.mem_map_of_mem hr
  exact ⟨(chunk_bounds (maxAllowed_pos func) hspan).2.2.1,
    chunk_start_mod (maxAllowed_pos func) hspan⟩

/-- Every address of a group is read. -/
theorem exists_request {func : ModbusFunction} {g : Group} (hg : g.InSpace) {a : Nat}
    (h1 : g.start.toNat ≤ a) (h2 : a < g.start.toNat + g.quantity.toNat) :
    ∃ rs₁ r rs₂, groupRequests func g = rs₁ ++ r :: rs₂ ∧ r.start.toNat ≤ a ∧
      a < r.start.toNat + r.qty.toNat ∧
      ∀ r' ∈ rs₂, r.start.toNat + r.qty.toNat ≤ r'.start.toNat := by
  obtain ⟨l₁, c, l₂, hsplit, hc1, hc2, -, hl₂⟩ :=
    @exists_chunk_split _ g.toBlock.start g.toBlock.len a (maxAllowed_pos func) h1 h2
  rw [← groupRequests_spans hg, List.map_eq_append_iff] at hsplit
  obtain ⟨rs₁, rest, hreqs, -, hrest⟩ := hsplit
  obtain ⟨r, rs₂, rfl, rfl, rfl⟩ := List.map_eq_cons_iff.mp hrest
  refine ⟨rs₁, r, rs₂, hreqs, hc1, hc2, ?_⟩
  intro r' hr'
  exact hl₂ r'.span (List.mem_map_of_mem hr')

/-- The request that reads the last address of a mapping.  No later request of
    the group meets the mapping, and no earlier one does if it is read
    whole. -/
theorem exists_last_request {mappings : List ModbusMapping} (hspace : ∀ m ∈ mappings, m.InSpace)
    {m : ModbusMapping} {g : Group} (hg : g ∈ funcGroups mappings m.function)
    (hmg : m ∈ g.members) :
    ∃ rs₁ r rs₂, groupRequests m.function g = rs₁ ++ r :: rs₂ ∧
      r.start.toNat < m.lo + m.len ∧ m.lo + m.len ≤ r.start.toNat + r.qty.toNat ∧
      (∀ r' ∈ rs₁, r'.start.toNat + r'.qty.toNat ≤ r.start.toNat) ∧
      (∀ r' ∈ rs₂, m.lo + m.len ≤ r'.start.toNat) ∧
      (r.start.toNat ≤ m.lo ↔ m.ReadWhole mappings) := by
  obtain ⟨hgspace, hsound, hrun⟩ := funcGroups_spec hspace hg
  have hin := hsound.inside m hmg
  have hpos := (hspace m (mem_funcGroups_members hg hmg).1).pos
  obtain ⟨l₁, c, l₂, hsplit, h1, h2, hl₁, hl₂, hwhole⟩ :=
    exists_last_chunk (maxAllowed_pos m.function) hpos hin.1 hin.2
  rw [← groupRequests_spans hgspace, List.map_eq_append_iff] at hsplit
  obtain ⟨rs₁, rest, hreqs, hrs₁, hrest⟩ := hsplit
  obtain ⟨r, rs₂, rfl, hr, hrs₂⟩ := List.map_eq_cons_iff.mp hrest
  subst hrs₁ hr hrs₂
  refine ⟨rs₁, r, rs₂, hreqs, h1, h2, ?_, ?_, ?_⟩
  · intro r' hr'
    exact hl₁ r'.span (List.mem_map_of_mem hr')
  · intro r' hr'
    exact hl₂ r'.span (List.mem_map_of_mem hr')
  · refine hwhole.trans ⟨fun h => ⟨g.start.toNat, hrun m hmg, h⟩, ?_⟩
    rintro ⟨s, hs, h⟩
    rw [hs.unique (hrun m hmg)] at h
    exact h

end PlcBridge.Modbus
