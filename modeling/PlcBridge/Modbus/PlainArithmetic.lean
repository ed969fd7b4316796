/-
  PlcBridge.Modbus.PlainArithmetic

  Whether the read phase of a cycle stays within its arithmetic.  The plain
  additions and subtractions of the grouping, packing and extraction code are
  written down operation by operation (`cycleOps`); wrapping and saturating
  operators cannot fail and are left out.

  `validate` bounds neither the end of a range nor where a coil sits in its
  group.  A range that holds address 65535 overflows when it joins a group, and
  is read beyond the address space unless a request ends exactly there; the log
  message about a short payload underflows for a coil that starts behind the
  packed words.
-/
import PlcBridge.Lib.Arith
import PlcBridge.Modbus.Coverage

namespace PlcBridge.Modbus

open PlcBridge.Lib
open PlcBridge.DriverState (Extends AllNew)

-- ============================================================================
-- The operations
-- ============================================================================

/-- `m.address + m.quantity - 1` and `new_end - *start + 1`, for a mapping that
    joins the last group. -/
def Group.pushOps (g : Group) (m : ModbusMapping) : List PlainOp :=
  let mapEnd := m.address + m.quantity - 1
  let newEnd := if g.lastAddr ≤ mapEnd then mapEnd else g.lastAddr
  [.add 16 m.address.toNat m.quantity.toNat, .sub (m.address + m.quantity).toNat 1,
   .sub newEnd.toNat g.start.toNat, .add 16 (newEnd - g.start).toNat 1]

/-- The grouping loop with `g` as `groups.last_mut()`. -/
def groupOpsFrom (g : Group) : List ModbusMapping → List PlainOp
  | [] => []
  | m :: ms =>
      if m.address ≤ g.lastAddr + 1 then g.pushOps m ++ groupOpsFrom (g.push m) ms
      else groupOpsFrom (Group.of m) ms

/-- The grouping of a sorted list. -/
def groupOps : List ModbusMapping → List PlainOp
  | [] => []
  | m :: ms => groupOpsFrom (Group.of m) ms

/-- Packing `n` bits: `i + bit` in the test and, if it holds, in the index, and
    `i += 16` after each word. -/
def packOps (n : Nat) : List PlainOp :=
  (List.range ((n + 15) / 16)).flatMap fun k =>
    ((List.range 16).flatMap fun bit =>
      .add 64 (16 * k) bit :: if 16 * k + bit < n then [.add 64 (16 * k) bit] else []) ++
    [.add 64 (16 * k) 16]

def ReadData.packOps : ReadData → List PlainOp
  | .registers _ => []
  | .bits bs => Modbus.packOps bs.length

/-- Extraction of one mapping from a payload of `rawLen` bytes.  The last
    subtraction is an argument of the warning about a short payload. -/
def extractOps (r : ReadRequest) (rawLen : Nat) (m : ModbusMapping) : List PlainOp :=
  let chunkStart := r.start.toNat
  let chunkEnd := chunkStart + r.qty.toNat - 1
  let mapStart := m.address.toNat
  let mapEnd := mapStart + m.quantity.toNat - 1
  .add 32 mapStart m.quantity.toNat :: .sub (mapStart + m.quantity.toNat) 1 ::
    if mapEnd < chunkStart ∨ chunkEnd < mapStart then []
    else
      let overlapStart := max mapStart chunkStart
      let overlapEnd := min mapEnd chunkEnd
      let offBytes := (overlapStart - chunkStart) * 2
      let lenBytes := (overlapEnd - overlapStart + 1) * 2
      .sub overlapStart chunkStart :: .sub overlapEnd overlapStart ::
        .add 32 (overlapEnd - overlapStart) 1 :: .add 64 offBytes lenBytes ::
        if rawLen < offBytes + lenBytes then [.sub rawLen offBytes] else [.add 64 offBytes lenBytes]

/-- One answered request: packing, `chunk_end_u32` and the extraction of every
    member. -/
def ReadRequest.ops (r : ReadRequest) (data : ReadData) : List PlainOp :=
  data.packOps ++
    [.add 32 r.start.toNat r.qty.toNat, .sub (r.start.toNat + r.qty.toNat) 1] ++
    r.members.flatMap (extractOps r data.rawBytes.length)

/-- The plain additions and subtractions of a read phase whose requests are
    answered with `data`. -/
def cycleOps (order : FuncOrder) (mappings : List ModbusMapping)
    (data : ModbusFunction → UInt16 → UInt16 → ReadData) : List PlainOp :=
  order.list.flatMap fun func =>
    groupOps (sortByAddress (byFunc mappings func)) ++
      (funcRequests mappings func).flatMap fun r => r.ops (data r.func r.start r.qty)

/-- Exactly the requested number of registers or bits. -/
def ReadData.Exact (func : ModbusFunction) (qty : UInt16) : ReadData → Prop
  | .registers regs => func.isRegister ∧ regs.length = qty.toNat
  | .bits bs => func.isBit ∧ bs.length = qty.toNat

-- ============================================================================
-- One request
-- ============================================================================

theorem allFit_packOps {n : Nat} (hn : n < 2 ^ 32) : AllFit (packOps n) := by
  rw [packOps, allFit_flatMap]
  intro k hk
  rw [List.mem_range] at hk
  rw [allFit_append, allFit_flatMap]
  refine ⟨?_, ?_⟩
  · intro bit hbit
    rw [List.mem_range] at hbit
    have hfits : (PlainOp.add 64 (16 * k) bit).Fits := by
      show 16 * k + bit < 2 ^ 64
      omega
    split <;> simp [hfits]
  · rw [allFit_cons]
    refine ⟨?_, allFit_nil⟩
    show 16 * k + 16 < 2 ^ 64
    omega

variable {r : ReadRequest} {m : ModbusMapping}

/-- Extraction fits exactly when the mapping starts inside the payload or right
    behind it. -/
theorem allFit_extractOps (hr : 0 < r.qty.toNat) (hm : 0 < m.len) (rawLen : Nat) :
    AllFit (extractOps r rawLen m) ↔
      (Meets r.span m.lo m.len → (max m.lo r.start.toNat - r.start.toNat) * 2 ≤ rawLen) := by
  have hstart := r.start.toNat_lt
  have hqty := r.qty.toNat_lt
  have haddr := m.address.toNat_lt
  have hquant := m.quantity.toNat_lt
  simp only [ModbusMapping.len] at hm
  simp only [extractOps, allFit_cons, PlainOp.Fits, Meets, ReadRequest.span, ModbusMapping.lo,
    ModbusMapping.len]
  by_cases hmiss : m.address.toNat + m.quantity.toNat - 1 < r.start.toNat ∨
      r.start.toNat + r.qty.toNat - 1 < m.address.toNat
  · rw [if_pos hmiss]
    simp only [allFit_nil, and_true]
    omega
  · rw [if_neg hmiss]
    split
    · simp only [allFit_cons, allFit_nil, PlainOp.Fits, and_true]
      omega
    · simp only [allFit_cons, allFit_nil, PlainOp.Fits, and_true]
      omega

theorem length_rawBytes_registers {func : ModbusFunction} {qty : UInt16} {data : ReadData}
    (hexact : data.Exact func qty) (hfunc : func.isRegister) :
    data.rawBytes.length = qty.toNat * 2 := by
  cases data with
  | registers regs => rw [ReadData.rawBytes, registersToBytes, length_beBytes, hexact.2, Nat.mul_comm]
  | bits bs => exact absurd hexact.1 (not_isBit_of_isRegister hfunc)

theorem length_rawBytes_bits {func : ModbusFunction} {qty : UInt16} {data : ReadData}
    (hexact : data.Exact func qty) (hfunc : func.isBit) :
    data.rawBytes.length = (qty.toNat + 15) / 16 * 2 := by
  cases data with
  | registers regs => exact absurd hfunc (not_isBit_of_isRegister hexact.1)
  | bits bs =>
      rw [ReadData.rawBytes, registersToBytes, length_beBytes, length_packBits, hexact.2, Nat.mul_comm]

/-- The offset of a mapping in a request, in addresses. -/
def ReadRequest.offset (r : ReadRequest) (m : ModbusMapping) : Nat :=
  max m.lo r.start.toNat - r.start.toNat

/-- Registers are always long enough; bits are packed sixteen to a word, but
    the extraction counts in words. -/
theorem allFit_ops (hr : 0 < r.qty.toNat) (hm : ∀ m ∈ r.members, 0 < m.len) {data : ReadData}
    (hexact : data.Exact r.func r.qty) :
    AllFit (r.ops data) ↔ (r.func.isBit → ∀ m ∈ r.members, Meets r.span m.lo m.len →
      r.offset m ≤ (r.qty.toNat + 15) / 16) := by
  have hstart := r.start.toNat_lt
  have hqty := r.qty.toNat_lt
  have hpack : AllFit data.packOps := by
    cases data with
    | registers regs => exact allFit_nil
    | bits bs => exact allFit_packOps (by rw [hexact.2]; omega)
  have hend : AllFit [.add 32 r.start.toNat r.qty.toNat, .sub (r.start.toNat + r.qty.toNat) 1] := by
    simp only [allFit_cons, allFit_nil, PlainOp.Fits, and_true]
    omega
  rw [ReadRequest.ops, allFit_append, allFit_append, allFit_flatMap]
  simp only [hpack, hend, true_and]
  rcases isRegister_or_isBit r.func with hfunc | hfunc
  · refine ⟨fun _ hbit => absurd hbit (not_isBit_of_isRegister hfunc), ?_⟩
    intro _ m hmem
    rw [allFit_extractOps hr (hm m hmem), length_rawBytes_registers hexact hfunc]
    rintro ⟨h1, -⟩
    simp only [ReadRequest.span] at h1
    omega
  · refine ⟨fun h _ m hmem hmeets => ?_, fun h m hmem => ?_⟩
    · have hfit := (allFit_extractOps hr (hm m hmem) _).mp (h m hmem) hmeets
      rw [length_rawBytes_bits hexact hfunc] at hfit
      exact Nat.le_of_mul_le_mul_right hfit (by decide)
    · rw [allFit_extractOps hr (hm m hmem), length_rawBytes_bits hexact hfunc]
      intro hmeets
      exact Nat.mul_le_mul_right 2 (h hfunc m hmem hmeets)

-- ============================================================================
-- A group inside the address space
-- ============================================================================

variable {func : ModbusFunction} {g : Group}

/-- The only request that matters for a mapping is the one that reads its first
    address; in later ones its offset is zero. -/
theorem offsets_iff (hg : g.InSpace) (hpos : ∀ m ∈ g.members, 0 < m.len)
    (hin : ∀ m ∈ g.members, g.start.toNat ≤ m.lo ∧ m.lo < g.start.toNat + g.quantity.toNat) :
    (∀ r ∈ groupRequests func g, ∀ m ∈ r.members, Meets r.span m.lo m.len →
      r.offset m ≤ (r.qty.toNat + 15) / 16) ↔
    ∀ m ∈ g.members,
      m.lo - (chunkAt (maxAllowed func).toNat g.start.toNat g.quantity.toNat m.lo).1 ≤
        ((chunkAt (maxAllowed func).toNat g.start.toNat g.quantity.toNat m.lo).2 + 15) / 16 := by
  have hcap := maxAllowed_pos func
  have hspans := @groupRequests_spans func g hg
  constructor
  · intro h m hm
    obtain ⟨hmem, h1, h2⟩ := chunkAt_mem hcap (hin m hm).1 (hin m hm).2
    have hmem' : chunkAt (maxAllowed func).toNat g.start.toNat g.quantity.toNat m.lo ∈
        (groupRequests func g).map ReadRequest.span := by
      rw [hspans]
      exact hmem
    obtain ⟨r, hr, hspan⟩ := List.mem_map.mp hmem'
    rw [← hspan] at h1 h2 ⊢
    have hmeets : Meets r.span m.lo m.len :=
      ⟨h2, Nat.lt_of_le_of_lt h1 (Nat.lt_add_of_pos_right (hpos m hm))⟩
    have hoff := h r hr m (by rw [(mem_groupRequests hr).2]; exact hm) hmeets
    rw [ReadRequest.offset, Nat.max_eq_left (show r.start.toNat ≤ m.lo from h1)] at hoff
    exact hoff
  · intro h r hr m hm hmeets
    rw [(mem_groupRequests hr).2] at hm
    rcases Nat.le_total m.lo r.start.toNat with hle | hle
    · rw [ReadRequest.offset, Nat.max_eq_right hle, Nat.sub_self]
      exact Nat.zero_le _
    · have hc : r.span ∈ chunks (maxAllowed func).toNat g.start.toNat g.quantity.toNat := by
        rw [← show _ = chunks _ g.start.toNat g.quantity.toNat from hspans]
        exact List.mem_map_of_mem hr
      have hat := h m hm
      rw [← eq_chunkAt hcap hc hle hmeets.1] at hat
      rwa [ReadRequest.offset, Nat.max_eq_left hle]

-- ============================================================================
-- A range that holds the last address
-- ============================================================================

/-- The range holds address 65535, or reaches beyond it. -/
def ModbusMapping.Wide (m : ModbusMapping) : Prop := 65535 < m.lo + m.len

theorem chunkLoop_bounds {cap : UInt16} (hcap : 0 < cap.toNat) {fuel remaining : Nat} {start : UInt16}
    (hrem : remaining ≤ 65535) {c : UInt16 × UInt16} (hc : c ∈ chunkLoop cap fuel start remaining) :
    0 < c.2.toNat ∧ start.toNat ≤ c.1.toNat := by
  induction fuel generalizing start remaining with
  | zero => exact absurd hc (List.not_mem_nil)
  | succ fuel ih =>
      rw [chunkLoop] at hc
      by_cases hz : remaining = 0
      · rw [if_pos hz] at hc
        exact absurd hc (List.not_mem_nil)
      · rw [if_neg hz] at hc
        have hqty := @toNat_chunkQty cap remaining hrem
        rcases List.mem_cons.mp hc with rfl | hc
        · exact ⟨by rw [hqty]; omega, le_rfl⟩
        · rw [hqty] at hc
          split at hc
          · exact absurd hc (List.not_mem_nil)
          · have hrec := ih (by omega) hc
            have hto : (UInt16.ofNat (start.toNat + min cap.toNat remaining)).toNat
                = start.toNat + min cap.toNat remaining :=
              UInt16.toNat_ofNat_of_lt (by simp [UInt16.size]; omega)
            exact ⟨hrec.1, by omega⟩

/-- The chunk loop over a range that reaches the end of the address space stays
    inside it exactly when a request ends there. -/
theorem chunkLoop_within_iff {cap : UInt16} (hcap : 0 < cap.toNat) {fuel remaining : Nat}
    {start : UInt16} (hfuel : remaining ≤ fuel) (hrem : remaining ≤ 65535)
    (h : 65536 ≤ start.toNat + remaining) :
    (∀ c ∈ chunkLoop cap fuel start remaining, c.1.toNat + c.2.toNat ≤ 65536) ↔
      start.toNat + remaining = 65536 ∨ (65536 - start.toNat) % cap.toNat = 0 := by
  induction fuel generalizing start remaining with
  | zero =>
      have hlt : start.toNat < 65536 := start.toNat_lt
      omega
  | succ fuel ih =>
      have hlt : start.toNat < 65536 := start.toNat_lt
      have hqty := @toNat_chunkQty cap remaining hrem
      rw [chunkLoop, if_neg (by omega), List.forall_mem_cons]
      simp only [hqty]
      by_cases hnext : 65535 < start.toNat + min cap.toNat remaining
      · -- The last request: what is left of the space is at most one request.
        rw [if_pos hnext]
        have hmod : (65536 - start.toNat) % cap.toNat = 0 ↔ 65536 - start.toNat = cap.toNat := by
          rcases Nat.lt_or_ge (65536 - start.toNat) cap.toNat with hl | hg
          · rw [Nat.mod_eq_of_lt hl]
            omega
          · have heq : 65536 - start.toNat = cap.toNat := by omega
            rw [heq, Nat.mod_self]
            simp
        rw [hmod]
        simp only [List.not_mem_nil, false_imp_iff, implies_true, and_true]
        omega
      · rw [if_neg hnext]
        have hto : (UInt16.ofNat (start.toNat + min cap.toNat remaining)).toNat
            = start.toNat + min cap.toNat remaining :=
          UInt16.toNat_ofNat_of_lt (by simp [UInt16.size]; omega)
        have hmin : min cap.toNat remaining = cap.toNat := by omega
        rw [ih (by omega) (by omega) (by rw [hto]; omega), hto, hmin,
          Nat.mod_eq_sub_mod (show cap.toNat ≤ 65536 - start.toNat by omega), Nat.sub_add_eq]
        omega

/-- A group of one wide mapping. -/
theorem wide_group_iff (hm : m.Wide) (hpos : 0 < m.len)
    {data : ModbusFunction → UInt16 → UInt16 → ReadData}
    (hexact : ∀ func start qty, (data func start qty).Exact func qty) :
    (∀ r ∈ groupRequests func (Group.of m), AllFit (r.ops (data r.func r.start r.qty)) ∧
      r.start.toNat + r.qty.toNat ≤ 65536) ↔
    m.lo + m.len = 65536 ∨ (65536 - m.lo) % (maxAllowed func).toNat = 0 := by
  have hquant := m.quantity.toNat_lt
  have hspace : 65535 < m.address.toNat + m.quantity.toNat := hm
  have hwithin := @chunkLoop_within_iff (maxAllowed func) (maxAllowed_pos func) m.quantity.toNat
    m.quantity.toNat m.address le_rfl (by omega) (by omega)
  refine Iff.trans ?_ hwithin
  constructor
  · intro h c hc
    exact (h ⟨func, c.1, c.2, [m]⟩ (List.mem_map_of_mem hc)).2
  · intro h r hr
    obtain ⟨c, hc, rfl⟩ := List.mem_map.mp hr
    obtain ⟨hcpos, hcstart⟩ := chunkLoop_bounds (maxAllowed_pos func) (Nat.le_of_lt_succ hquant) hc
    refine ⟨?_, h c hc⟩
    rw [allFit_ops hcpos (fun m' hm' => ?_) (hexact _ _ _)]
    · intro _ m' hm' _
      obtain rfl := List.mem_singleton.mp hm'
      rw [ReadRequest.offset, Nat.max_eq_right (show m'.lo ≤ c.1.toNat from hcstart), Nat.sub_self]
      exact Nat.zero_le _
    · obtain rfl := List.mem_singleton.mp hm'
      exact hpos

-- ============================================================================
-- Grouping
-- ============================================================================

theorem pairwise_before {l : List ModbusMapping} (hchain : l.IsChain ModbusMapping.Before)
    (hsorted : l.Pairwise fun a b => a.lo ≤ b.lo) : l.Pairwise ModbusMapping.Before := by
  induction hchain with
  | nil => exact List.Pairwise.nil
  | singleton m => exact List.pairwise_singleton _ m
  | cons_cons hab _ ih =>
      rw [List.pairwise_cons] at hsorted
      refine List.pairwise_cons.mpr ⟨?_, ih hsorted.2⟩
      intro c hc
      rcases List.mem_cons.mp hc with rfl | hc
      · exact hab
      · have hle := (List.pairwise_cons.mp hsorted.2).1 c hc
        exact UInt16.lt_iff_toNat_lt.mpr (lt_of_lt_of_le (UInt16.lt_iff_toNat_lt.mp hab) hle)

theorem end_le_of_before {a b : ModbusMapping} (ha : a.InSpace) (h : a.Before b) :
    a.lo + a.len ≤ b.lo := by
  have hend := toNat_rangeEnd (m := a) ha.pos
  have hle := ha.le
  have hlt := UInt16.lt_iff_toNat_lt.mp h
  simp only [ModbusMapping.lo, ModbusMapping.len] at hle ⊢
  omega

/-- The overlap check takes a wide range to end one address too early, so
    mappings at the last address pass behind it. -/
theorem lo_of_wide_before {a b : ModbusMapping} (ha : a.Wide) (hpos : 0 < a.len) (h : a.Before b) :
    b.lo = 65535 := by
  have hend := toNat_rangeEnd (m := a) hpos
  have hlt := UInt16.lt_iff_toNat_lt.mp h
  have hb := b.address.toNat_lt
  simp only [ModbusMapping.Wide, ModbusMapping.lo, ModbusMapping.len] at ha ⊢
  omega

/-- Wide ranges come last. -/
theorem exists_wide_split {l : List ModbusMapping} (hbefore : l.Pairwise ModbusMapping.Before)
    (hpos : ∀ m ∈ l, 0 < m.len) :
    ∃ pre suf, l = pre ++ suf ∧ (∀ m ∈ pre, m.InSpace) ∧ ∀ m ∈ suf, m.Wide := by
  induction l with
  | nil => exact ⟨[], [], rfl, by simp, by simp⟩
  | cons m ms ih =>
      rw [List.pairwise_cons] at hbefore
      rw [List.forall_mem_cons] at hpos
      by_cases hm : m.Wide
      · refine ⟨[], m :: ms, rfl, by simp, ?_⟩
        rw [List.forall_mem_cons]
        refine ⟨hm, ?_⟩
        intro m' hm'
        have hlo := lo_of_wide_before hm hpos.1 (hbefore.1 m' hm')
        have hlen := hpos.2 m' hm'
        show 65535 < m'.lo + m'.len
        omega
      · obtain ⟨pre, suf, rfl, hpre, hsuf⟩ := ih hbefore.2 hpos.2
        refine ⟨m :: pre, suf, rfl, ?_, hsuf⟩
        rw [List.forall_mem_cons]
        exact ⟨⟨hpos.1, Nat.le_of_not_lt hm⟩, hpre⟩

/-- The end of a wide group wraps around, so nothing joins it. -/
theorem not_joins_wide {w : ModbusMapping} (hw : w.Wide) (hm : m.lo = 65535) :
    ¬ m.address ≤ (Group.of w).lastAddr + 1 := by
  have haddr := w.address.toNat_lt
  have hquant := w.quantity.toNat_lt
  have hend : ((Group.of w).lastAddr + 1).toNat = (w.address.toNat + w.quantity.toNat) % 65536 := by
    rw [Group.lastAddr, UInt16.sub_add_cancel, UInt16.toNat_add]
    rfl
  simp only [ModbusMapping.Wide, ModbusMapping.lo, ModbusMapping.len] at hw hm
  rw [UInt16.le_iff_toNat_le, hend]
  omega

theorem groups_behind_wide {w : ModbusMapping} {ws : List ModbusMapping} (hw : w.Wide)
    (hws : ∀ m ∈ ws, m.Wide ∧ m.lo = 65535) :
    buildGroupsFrom (Group.of w) ws = (w :: ws).map Group.of ∧ groupOpsFrom (Group.of w) ws = [] := by
  induction ws generalizing w with
  | nil => exact ⟨rfl, rfl⟩
  | cons m ms ih =>
      rw [List.forall_mem_cons] at hws
      obtain ⟨hgroups, hops⟩ := ih hws.1.1 hws.2
      have hjoin := not_joins_wide hw hws.1.2
      refine ⟨?_, ?_⟩
      · rw [buildGroupsFrom, if_neg hjoin, hgroups]
        rfl
      · rw [groupOpsFrom, if_neg hjoin, hops]

/-- The loop over a list in two parts: the second starts from the last group of
    the first. -/
theorem buildGroupsFrom_append (g : Group) (pre : List ModbusMapping) :
    ∃ gs g', buildGroupsFrom g pre = gs ++ [g'] ∧ ∀ suf,
      buildGroupsFrom g (pre ++ suf) = gs ++ buildGroupsFrom g' suf ∧
      groupOpsFrom g (pre ++ suf) = groupOpsFrom g pre ++ groupOpsFrom g' suf := by
  induction pre generalizing g with
  | nil => exact ⟨[], g, rfl, fun _ => ⟨rfl, rfl⟩⟩
  | cons m ms ih =>
      by_cases hjoin : m.address ≤ g.lastAddr + 1
      · obtain ⟨gs, g', hms, hsuf⟩ := ih (g.push m)
        refine ⟨gs, g', by rw [buildGroupsFrom, if_pos hjoin, hms], ?_⟩
        intro suf
        rw [List.cons_append, buildGroupsFrom, groupOpsFrom, groupOpsFrom, if_pos hjoin, if_pos hjoin,
          if_pos hjoin, (hsuf suf).1, (hsuf suf).2, List.append_assoc]
        exact ⟨rfl, rfl⟩
      · obtain ⟨gs, g', hms, hsuf⟩ := ih (Group.of m)
        refine ⟨g :: gs, g', by rw [buildGroupsFrom, if_neg hjoin, hms, List.cons_append], ?_⟩
        intro suf
        rw [List.cons_append, buildGroupsFrom, groupOpsFrom, groupOpsFrom, if_neg hjoin, if_neg hjoin,
          if_neg hjoin, (hsuf suf).1, (hsuf suf).2]
        exact ⟨rfl, rfl⟩

theorem allFit_pushOps (hg : g.InSpace) (hm : m.InSpace) : AllFit (g.pushOps m) := by
  have hend := toNat_newEnd hg hm
  obtain ⟨hgpos, hgle⟩ := hg
  have hpos : 0 < m.quantity.toNat := hm.pos
  have hle : m.address.toNat + m.quantity.toNat ≤ 65535 := hm.le
  have hsum : (m.address + m.quantity).toNat = m.address.toNat + m.quantity.toNat := by
    rw [UInt16.toNat_add]
    exact Nat.mod_eq_of_lt (by omega)
  have hnewle : g.start ≤ (if g.lastAddr ≤ m.address + m.quantity - 1 then m.address + m.quantity - 1
      else g.lastAddr) := UInt16.le_iff_toNat_le.mpr (by rw [hend]; omega)
  simp only [Group.pushOps, allFit_cons, allFit_nil, PlainOp.Fits, and_true, hsum,
    UInt16.toNat_sub_of_le _ _ hnewle, hend]
  omega

theorem allFit_groupOpsFrom {ms : List ModbusMapping} (hg : g.InSpace) (hms : ∀ m ∈ ms, m.InSpace)
    (hsorted : ms.Pairwise fun a b => a.lo ≤ b.lo) (hstart : ∀ m ∈ ms, g.start.toNat ≤ m.lo) :
    AllFit (groupOpsFrom g ms) := by
  induction ms generalizing g with
  | nil => exact allFit_nil
  | cons m ms ih =>
      rw [List.forall_mem_cons] at hms hstart
      rw [List.pairwise_cons] at hsorted
      rw [groupOpsFrom]
      split
      · rw [allFit_append]
        exact ⟨allFit_pushOps hg hms.1,
          ih (Group.push_spec hg hms.1 hstart.1).1 hms.2 hsorted.2 hstart.2⟩
      · exact ih (Group.inSpace_of hms.1) hms.2 hsorted.2 hsorted.1

theorem allFit_groupOps {ms : List ModbusMapping} (hms : ∀ m ∈ ms, m.InSpace)
    (hsorted : ms.Pairwise fun a b => a.lo ≤ b.lo) : AllFit (groupOps ms) := by
  cases ms with
  | nil => exact allFit_nil
  | cons m ms =>
      rw [List.forall_mem_cons] at hms
      rw [List.pairwise_cons] at hsorted
      exact allFit_groupOpsFrom (Group.inSpace_of hms.1) hms.2 hsorted.2 hsorted.1

variable {pre suf : List ModbusMapping}

/-- A mapping joins the last group exactly when some range reaches up to it. -/
theorem joins_last_iff (hpre : ∀ m ∈ pre, m.InSpace) (hsorted : pre.Pairwise fun a b => a.lo ≤ b.lo)
    {gs : List Group} {g' : Group} (hlast : buildGroups pre = gs ++ [g']) (w : ModbusMapping) :
    w.address ≤ g'.lastAddr + 1 ↔ ∃ p ∈ pre, w.lo ≤ p.lo + p.len := by
  have hblocks := (buildGroups_toBlock hpre hsorted).2
  obtain ⟨hg', hmem⟩ := mem_buildGroups hpre hsorted (show g' ∈ buildGroups pre by rw [hlast]; simp)
  rw [hlast, List.map_append, List.map_singleton] at hblocks
  rw [le_lastAddr_succ_iff hg']
  constructor
  · intro hle
    obtain ⟨p, hp, hend⟩ := exists_end_of_mem_coalesce hsorted hmem hg'.1
    refine ⟨p, mem_of_mem_coalesce hmem hp, ?_⟩
    rw [hend]
    exact hle
  · rintro ⟨p, hp, hle⟩
    exact hle.trans (le_end_of_coalesce hsorted hblocks.symm hp)

/-- Every wide mapping starts behind the ranges inside the space, with a
    gap. -/
def Apart (pre suf : List ModbusMapping) : Prop := ∀ p ∈ pre, ∀ w ∈ suf, p.lo + p.len < w.lo

theorem apart_cons_iff {w : ModbusMapping} {ws : List ModbusMapping}
    (hsorted : (w :: ws).Pairwise fun a b => a.lo ≤ b.lo) :
    Apart pre (w :: ws) ↔ ¬ ∃ p ∈ pre, w.lo ≤ p.lo + p.len := by
  rw [List.pairwise_cons] at hsorted
  constructor
  · rintro h ⟨p, hp, hle⟩
    exact absurd (h p hp w (List.mem_cons_self ..)) (Nat.not_lt.mpr hle)
  · intro h p hp w' hw'
    have hlt : p.lo + p.len < w.lo := Nat.lt_of_not_le fun hle => h ⟨p, hp, hle⟩
    rcases List.mem_cons.mp hw' with rfl | hw'
    · exact hlt
    · exact lt_of_lt_of_le hlt (hsorted.1 w' hw')

/-- The step from the last group inside the space to the first wide mapping:
    to join it overflows. -/
theorem groups_at_wide {w : ModbusMapping} {ws : List ModbusMapping} (hw : w.Wide)
    (hws : ∀ m ∈ ws, m.Wide ∧ m.lo = 65535) (g : Group) :
    (AllFit (groupOpsFrom g (w :: ws)) ↔ ¬ w.address ≤ g.lastAddr + 1) ∧
    (¬ w.address ≤ g.lastAddr + 1 → buildGroupsFrom g (w :: ws) = g :: (w :: ws).map Group.of) := by
  obtain ⟨hgroups, hops⟩ := groups_behind_wide hw hws
  rw [groupOpsFrom, buildGroupsFrom]
  by_cases hjoin : w.address ≤ g.lastAddr + 1
  · rw [if_pos hjoin]
    refine ⟨iff_of_false ?_ (not_not.mpr hjoin), fun h => absurd hjoin h⟩
    intro hfit
    have hlt : w.address.toNat + w.quantity.toNat < 65536 :=
      hfit (.add 16 w.address.toNat w.quantity.toNat) (by simp [Group.pushOps])
    have hwide : 65535 < w.address.toNat + w.quantity.toNat := hw
    omega
  · rw [if_neg hjoin, if_neg hjoin, hops, hgroups]
    exact ⟨iff_of_true allFit_nil hjoin, fun _ => rfl⟩

/-- The grouping of an accepted list: it stays within its arithmetic exactly
    when no wide mapping joins a group, and then each has one of its own. -/
theorem groups_of_split (hpre : ∀ m ∈ pre, m.InSpace) (hsuf : ∀ m ∈ suf, m.Wide ∧ 0 < m.len)
    (hsorted : (pre ++ suf).Pairwise fun a b => a.lo ≤ b.lo)
    (hbefore : suf.Pairwise ModbusMapping.Before) :
    (AllFit (groupOps (pre ++ suf)) ↔ Apart pre suf) ∧
    (Apart pre suf → buildGroups (pre ++ suf) = buildGroups pre ++ suf.map Group.of) := by
  obtain ⟨hpreSorted, hsufSorted, -⟩ := List.pairwise_append.mp hsorted
  have hpreFit := allFit_groupOps hpre hpreSorted
  cases suf with
  | nil =>
      rw [List.append_nil]
      exact ⟨iff_of_true hpreFit (by simp [Apart]), fun _ => by simp⟩
  | cons w ws =>
      rw [List.forall_mem_cons] at hsuf
      have hws : ∀ m ∈ ws, m.Wide ∧ m.lo = 65535 := fun m hm =>
        ⟨(hsuf.2 m hm).1,
          lo_of_wide_before hsuf.1.1 hsuf.1.2 ((List.pairwise_cons.mp hbefore).1 m hm)⟩
      cases pre with
      | nil =>
          obtain ⟨hgroups, hops⟩ := groups_behind_wide hsuf.1.1 hws
          refine ⟨iff_of_true ?_ (by simp [Apart]), fun _ => hgroups⟩
          rw [List.nil_append, groupOps, hops]
          exact allFit_nil
      | cons m ms =>
          obtain ⟨gs, g', hlast, happend⟩ := buildGroupsFrom_append (Group.of m) ms
          obtain ⟨hall, hallOps⟩ := happend (w :: ws)
          obtain ⟨hfit, hgroups⟩ := groups_at_wide hsuf.1.1 hws g'
          have hjoins := joins_last_iff hpre hpreSorted (show buildGroups (m :: ms) = _ from hlast) w
          rw [apart_cons_iff hsufSorted, ← hjoins]
          simp only [List.cons_append, groupOps, buildGroups] at hpreFit ⊢
          rw [hallOps, hall, allFit_append, hfit]
          refine ⟨and_iff_right hpreFit, fun hnot => ?_⟩
          rw [hgroups hnot, hlast, List.append_assoc]
          rfl

-- ============================================================================
-- One function
-- ============================================================================

/-- A wide range starts where no range ends, and a request ends exactly at
    65536.  For any other range of coils or inputs, cut the run of mapped
    addresses around it into requests: in the one that reads its first bit, its
    offset is at most the number of packed words. -/
structure ModbusMapping.Stays (mappings : List ModbusMapping) (m : ModbusMapping) : Prop where
  alone : m.Wide → ∀ m' : ModbusMapping, m' ∈ mappings → m'.function = m.function →
    m'.lo + m'.len ≠ m.lo
  tiled : m.Wide → m.lo + m.len = 65536 ∨ (65536 - m.lo) % (maxAllowed m.function).toNat = 0
  packed : ¬ m.Wide → m.function.isBit → ∃ s n, IsRun (Mapped mappings m.function) s n m.lo ∧
    m.lo - (chunkAt (maxAllowed m.function).toNat s n m.lo).1 ≤
      ((chunkAt (maxAllowed m.function).toNat s n m.lo).2 + 15) / 16

/-- No operation on the answered request fails, and it ends inside the address
    space. -/
def ReadRequest.Within (data : ModbusFunction → UInt16 → UInt16 → ReadData) (r : ReadRequest) : Prop :=
  AllFit (r.ops (data r.func r.start r.qty)) ∧ r.start.toNat + r.qty.toNat ≤ 65536

section Function

variable {mappings : List ModbusMapping} {data : ModbusFunction → UInt16 → UInt16 → ReadData}
  (hpre : ∀ m ∈ pre, m.InSpace) (hsorted : pre.Pairwise fun a b => a.lo ≤ b.lo)

include hpre hsorted

theorem space_group_iff (hexact : ∀ func start qty, (data func start qty).Exact func qty)
    (hg : g ∈ buildGroups pre) :
    (∀ r ∈ groupRequests func g, r.Within data) ↔ (func.isBit → ∀ m ∈ g.members,
      m.lo - (chunkAt (maxAllowed func).toNat g.start.toNat g.quantity.toNat m.lo).1 ≤
        ((chunkAt (maxAllowed func).toNat g.start.toNat g.quantity.toNat m.lo).2 + 15) / 16) := by
  obtain ⟨hgspace, hmem⟩ := mem_buildGroups hpre hsorted hg
  have hpos : ∀ m ∈ g.members, 0 < m.len := fun m hm => (hpre m (mem_of_mem_coalesce hmem hm)).pos
  have hin : ∀ m ∈ g.members, g.start.toNat ≤ m.lo ∧ m.lo < g.start.toNat + g.quantity.toNat := by
    intro m hm
    obtain ⟨h1, h2⟩ := (coalesce_sound _ hsorted _ hmem).inside m hm
    exact ⟨h1, lt_of_lt_of_le (Nat.lt_add_of_pos_right (hpos m hm)) h2⟩
  have hfit : ∀ r ∈ groupRequests func g, r.Within data ↔ (func.isBit → ∀ m ∈ r.members,
      Meets r.span m.lo m.len → r.offset m ≤ (r.qty.toNat + 15) / 16) := by
    intro r hr
    obtain ⟨hrfunc, hrmem⟩ := mem_groupRequests hr
    have hops := @allFit_ops r (groupRequests_pos hgspace hr) (by rw [hrmem]; exact hpos) _
      (hexact r.func r.start r.qty)
    rw [hrfunc] at hops
    have hend := groupRequests_end hgspace hr
    have hle := hgspace.2
    rw [ReadRequest.Within, hrfunc, hops]
    exact and_iff_left (by omega)
  rw [← offsets_iff hgspace hpos hin]
  constructor
  · intro h hbit r hr
    exact (hfit r hr).mp (h r hr) hbit
  · intro h r hr
    exact (hfit r hr).mpr fun hbit => h hbit r hr

variable (hmem : ∀ m, m ∈ pre ++ suf ↔ m ∈ mappings ∧ m.function = func) (hapart : Apart pre suf)

include hmem hapart

/-- A group inside the space is a run of mapped addresses. -/
theorem isRun_group (hg : g ∈ buildGroups pre) (hm : m ∈ g.members) :
    IsRun (Mapped mappings func) g.start.toNat g.quantity.toNat m.lo := by
  obtain ⟨hgspace, hb⟩ := mem_buildGroups hpre hsorted hg
  obtain ⟨p, hp, hend⟩ := exists_end_of_mem_coalesce hsorted hb hgspace.1
  refine (isRun_of_mem_coalesce hsorted hb hm (hpre m (mem_of_mem_coalesce hb hm)).pos).congr ?_
  intro y hy
  constructor
  · rintro ⟨m', hm', hin⟩
    exact ⟨m', mem_byFunc.mpr ((hmem m').mp (List.mem_append_left _ hm')), hin⟩
  · rintro ⟨m', hm', hin⟩
    rcases List.mem_append.mp ((hmem m').mpr (mem_byFunc.mp hm')) with hm' | hm'
    · exact ⟨m', hm', hin⟩
    · have hgap := hapart p (mem_of_mem_coalesce hb hp) m' hm'
      omega

theorem stays_space_iff (hg : g ∈ buildGroups pre) (hm : m ∈ g.members) :
    m.Stays mappings ↔ (func.isBit →
      m.lo - (chunkAt (maxAllowed func).toNat g.start.toNat g.quantity.toNat m.lo).1 ≤
        ((chunkAt (maxAllowed func).toNat g.start.toNat g.quantity.toNat m.lo).2 + 15) / 16) := by
  have hrun := isRun_group hpre hsorted hmem hapart hg hm
  have hmpre : m ∈ pre := by
    rw [← buildGroups_members pre]
    exact List.mem_flatMap.mpr ⟨g, hg, hm⟩
  have hfunc : m.function = func := ((hmem m).mp (List.mem_append_left _ hmpre)).2
  have hnot : ¬ m.Wide := Nat.not_lt.mpr (hpre m hmpre).le
  subst hfunc
  constructor
  · intro h hbit
    obtain ⟨s, n, hrun', hle⟩ := h.packed hnot hbit
    obtain ⟨rfl, rfl⟩ := hrun'.unique hrun
    exact hle
  · intro h
    exact ⟨fun hw => absurd hw hnot, fun hw => absurd hw hnot, fun _ hbit => ⟨_, _, hrun, h hbit⟩⟩

omit hpre hsorted in
theorem stays_wide_iff (hsuf : ∀ m ∈ suf, m.Wide ∧ 0 < m.len) (hm : m ∈ suf) :
    m.Stays mappings ↔ m.lo + m.len = 65536 ∨ (65536 - m.lo) % (maxAllowed func).toNat = 0 := by
  have hfunc : m.function = func := ((hmem m).mp (List.mem_append_right _ hm)).2
  have hwide := (hsuf m hm).1
  subst hfunc
  refine ⟨fun h => h.tiled hwide, fun h => ⟨?_, fun _ => h, fun hnot => absurd hwide hnot⟩⟩
  intro _ m' hm' hfunc'
  rcases List.mem_append.mp ((hmem m').mpr ⟨hm', hfunc'⟩) with hin | hin
  · exact Nat.ne_of_lt (hapart m' hin m hm)
  · have hend : 65535 < m'.lo + m'.len := (hsuf m' hin).1
    have hlo : m.lo < 65536 := m.address.toNat_lt
    omega

/-- The groups inside the space, member by member. -/
theorem space_groups_iff (hexact : ∀ func start qty, (data func start qty).Exact func qty) :
    (∀ r ∈ (buildGroups pre).flatMap (groupRequests func), r.Within data) ↔
      ∀ m ∈ pre, m.Stays mappings := by
  have hmembers : ∀ m, m ∈ pre ↔ ∃ g ∈ buildGroups pre, m ∈ g.members := by
    intro m
    rw [← List.mem_flatMap, buildGroups_members]
  rw [List.forall_mem_flatMap]
  constructor
  · intro h m hm
    obtain ⟨g, hg, hmg⟩ := (hmembers m).mp hm
    refine (stays_space_iff hpre hsorted hmem hapart hg hmg).mpr ?_
    intro hbit
    exact (space_group_iff hpre hsorted hexact hg).mp (h g hg) hbit m hmg
  · intro h g hg
    refine (space_group_iff hpre hsorted hexact hg).mpr ?_
    intro hbit m hmg
    exact (stays_space_iff hpre hsorted hmem hapart hg hmg).mp (h m ((hmembers m).mpr ⟨g, hg, hmg⟩)) hbit

end Function

/-- One function of an accepted list. -/
theorem func_within_iff {vorder : FuncOrder} {mappings : List ModbusMapping}
    (hval : validate vorder mappings = .ok ()) (func : ModbusFunction)
    {data : ModbusFunction → UInt16 → UInt16 → ReadData}
    (hexact : ∀ func start qty, (data func start qty).Exact func qty) :
    (AllFit (groupOps (sortByAddress (byFunc mappings func))) ∧
      ∀ r ∈ funcRequests mappings func, r.Within data) ↔
    ∀ m ∈ mappings, m.function = func → m.Stays mappings := by
  obtain ⟨hoks, hchains⟩ := of_validate hval
  have hsorted := sorted_byFunc mappings func
  have hbefore := pairwise_before (hchains func) hsorted
  have hmem : ∀ m, m ∈ sortByAddress (byFunc mappings func) ↔ m ∈ mappings ∧ m.function = func :=
    fun m => mem_sortByAddress.trans mem_byFunc
  have hpos : ∀ m ∈ sortByAddress (byFunc mappings func), 0 < m.len := fun m hm =>
    (hoks m ((hmem m).mp hm).1).quantity_pos
  obtain ⟨pre, suf, hsplit, hpre, hwide⟩ := exists_wide_split hbefore hpos
  rw [funcRequests, funcGroups, hsplit]
  rw [hsplit] at hsorted hbefore hmem hpos
  have hsuf : ∀ m ∈ suf, m.Wide ∧ 0 < m.len := fun m hm =>
    ⟨hwide m hm, hpos m (List.mem_append_right _ hm)⟩
  obtain ⟨-, hbeforeSuf, hcross⟩ := List.pairwise_append.mp hbefore
  obtain ⟨hfit, hgroups⟩ := groups_of_split hpre hsuf hsorted hbeforeSuf
  have hstays : (∀ m ∈ mappings, m.function = func → m.Stays mappings) ↔
      ∀ m ∈ pre ++ suf, m.Stays mappings :=
    ⟨fun h m hm => h m ((hmem m).mp hm).1 ((hmem m).mp hm).2,
      fun h m hm hfunc => h m ((hmem m).mpr ⟨hm, hfunc⟩)⟩
  rw [hstays, hfit]
  by_cases hapart : Apart pre suf
  · rw [hgroups hapart, List.flatMap_append, List.forall_mem_append, List.forall_mem_append,
      space_groups_iff hpre (List.pairwise_append.mp hsorted).1 hmem hapart hexact,
      List.forall_mem_flatMap, List.forall_mem_map]
    have hwides : (∀ m ∈ suf, ∀ r ∈ groupRequests func (Group.of m), r.Within data) ↔
        ∀ m ∈ suf, m.Stays mappings :=
      forall₂_congr fun m hm =>
        (wide_group_iff (hsuf m hm).1 (hsuf m hm).2 hexact).trans (stays_wide_iff hmem hapart hsuf hm).symm
    rw [hwides]
    exact and_iff_right hapart
  · -- A wide mapping that touches a range inside the space starts at its end.
    refine iff_of_false (fun h => hapart h.1) ?_
    intro h
    apply hapart
    intro p hp w hw
    have hle := end_le_of_before (hpre p hp) (hcross p hp w hw)
    obtain ⟨hpm, hpf⟩ := (hmem p).mp (List.mem_append_left _ hp)
    have hwf := ((hmem w).mp (List.mem_append_right _ hw)).2
    have hne := (h w (List.mem_append_right _ hw)).alone (hwide w hw) p hpm (hpf.trans hwf.symm)
    omega

-- ============================================================================
-- The cycle
-- ============================================================================

theorem allFit_cycleOps (order : FuncOrder) (mappings : List ModbusMapping)
    (data : ModbusFunction → UInt16 → UInt16 → ReadData) :
    AllFit (cycleOps order mappings data) ↔ ∀ func,
      AllFit (groupOps (sortByAddress (byFunc mappings func))) ∧
      ∀ r ∈ funcRequests mappings func, AllFit (r.ops (data r.func r.start r.qty)) := by
  rw [cycleOps, allFit_flatMap]
  simp only [allFit_append, allFit_flatMap]
  exact ⟨fun h func => h func (order.complete func), fun h func _ => h func⟩

/-- For every accepted list and every cycle whose reads are answered with
    exactly what they ask for, all plain additions and subtractions fit and all
    requests end inside the address space exactly when every mapping stays. -/
theorem arithmetic_stays_iff {env : Env} {vorder : FuncOrder} {mappings : List ModbusMapping}
    {d : State} {data : ModbusFunction → UInt16 → UInt16 → ReadData}
    (hval : validate vorder mappings = .ok ())
    (hexact : ∀ func start qty, (data func start qty).Exact func qty)
    (hw : WritesGoThrough env mappings d)
    (hans : AllNew (Answered data) d (runReadCycleImpl env mappings d).2) :
    (AllFit (cycleOps env.order mappings data) ∧
      ∀ q ∈ readRequests (d.exchanges (runReadCycleImpl env mappings d).2),
        q.2.1.toNat + q.2.2.toNat ≤ 65536) ↔
    ∀ m ∈ mappings, m.Stays mappings := by
  obtain ⟨d', hcycle⟩ := cycle_ok_of_answered hw hans
  have hreqs := readRequests_of_ok hcycle
  rw [hcycle, hreqs, List.forall_mem_map, allFit_cycleOps]
  have hplan : ∀ r, r ∈ readPlan env.order mappings ↔ ∃ func, r ∈ funcRequests mappings func := by
    intro r
    rw [readPlan, List.mem_flatMap]
    exact exists_congr fun func => and_iff_right (env.order.complete func)
  constructor
  · rintro ⟨hfit, hle⟩ m hm
    refine (func_within_iff hval m.function hexact).mp ⟨(hfit m.function).1, ?_⟩ m hm rfl
    intro r hr
    exact ⟨(hfit m.function).2 r hr, hle r ((hplan r).mpr ⟨_, hr⟩)⟩
  · intro h
    have hfunc := fun func => (func_within_iff hval func hexact).mpr fun m hm _ => h m hm
    refine ⟨fun func => ⟨(hfunc func).1, fun r hr => ((hfunc func).2 r hr).1⟩, ?_⟩
    intro r hr
    obtain ⟨func, hr⟩ := (hplan r).mp hr
    exact ((hfunc func).2 r hr).2

theorem exact_answer (t : Tables) (func : ModbusFunction) (start qty : UInt16) :
    (t.answer func start qty).Exact func qty := by
  cases func with
  | coils => exact ⟨.inl rfl, length_window ..⟩
  | discreteInputs => exact ⟨.inr rfl, length_window ..⟩
  | holdingRegisters => exact ⟨.inl rfl, length_window ..⟩
  | inputRegisters => exact ⟨.inr rfl, length_window ..⟩

/-- Three adjacent coils, two adjacent registers at the end of the address
    space, and a pair of input registers that reaches beyond it. -/
def topMappings : List ModbusMapping :=
  [{ tagId := "run", dataType := .bool, address := 0, quantity := 1, function := .coils },
   { tagId := "stop", dataType := .bool, address := 1, quantity := 1, function := .coils },
   { tagId := "trip", dataType := .bool, address := 2, quantity := 1, function := .coils },
   { tagId := "low", dataType := .uint16, address := 65534, quantity := 1,
     function := .holdingRegisters },
   { tagId := "high", dataType := .uint16, address := 65535, quantity := 1,
     function := .holdingRegisters },
   { tagId := "total", dataType := .uint32, address := 65535, quantity := 2,
     function := .inputRegisters }]

def topState : State := .new (.ofDefinitions []) () []

theorem arithmetic_stays_iff_top :
    (AllFit (cycleOps .declared topMappings (Tables.holding 0 []).answer) ∧
      ∀ q ∈ readRequests (topState.exchanges
          (runReadCycleImpl (Env.ofTables (Tables.holding 0 [])) topMappings topState).2),
        q.2.1.toNat + q.2.2.toNat ≤ 65536) ↔
    ∀ m ∈ topMappings, m.Stays topMappings :=
  @arithmetic_stays_iff (Env.ofTables (Tables.holding 0 [])) .declared topMappings topState
    (Tables.holding 0 []).answer (by decide) (exact_answer _) (writesGoThrough_ofTables _ _ _)
    (answered_ofTables _ _ _)

/-- `address + quantity` overflows when the register 65535 joins the group of
    65534; the log message for the third coil subtracts 4 from a payload of 2
    bytes; and the pair of input registers is requested as it stands. -/
theorem arithmetic_leaves :
    validate .declared topMappings = .ok () ∧
    (∀ func start qty, ((Tables.holding 0 []).answer func start qty).Exact func qty) ∧
    AllNew (Answered (Tables.holding 0 []).answer) topState
      (runReadCycleImpl (Env.ofTables (Tables.holding 0 [])) topMappings topState).2 ∧
    (.add 16 65535 1 ∈ cycleOps .declared topMappings (Tables.holding 0 []).answer ∧
      ¬ (PlainOp.add 16 65535 1).Fits) ∧
    (.sub 2 4 ∈ cycleOps .declared topMappings (Tables.holding 0 []).answer ∧
      ¬ (PlainOp.sub 2 4).Fits) ∧
    (.inputRegisters, 65535, 2) ∈ readRequests (topState.exchanges
      (runReadCycleImpl (Env.ofTables (Tables.holding 0 [])) topMappings topState).2) ∧
    ¬ (AllFit (cycleOps .declared topMappings (Tables.holding 0 []).answer) ∧
      ∀ q ∈ readRequests (topState.exchanges
          (runReadCycleImpl (Env.ofTables (Tables.holding 0 [])) topMappings topState).2),
        q.2.1.toNat + q.2.2.toNat ≤ 65536) := by
  have hlog : .sub 2 4 ∈ cycleOps .declared topMappings (Tables.holding 0 []).answer := by
    decide +kernel
  refine ⟨by decide, exact_answer _, answered_ofTables _ _ _, ⟨by decide +kernel, by decide⟩,
    ⟨hlog, by decide⟩, by decide +kernel, ?_⟩
  rintro ⟨hfit, -⟩
  exact absurd (hfit _ hlog) (by decide)

end PlcBridge.Modbus
