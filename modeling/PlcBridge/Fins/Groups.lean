/-
  PlcBridge.Fins.Groups

  The read groups `FinsDriver::new` precomputes: mappings are sorted by
  address within each area, contiguous ranges are joined, and the joined ranges
  are cut into requests of at most `max_words_per_request` words.

  The source computes in `u32`, wrapping as a release build does, and casts the
  words of a request to `u16`.  A request of zero words would keep the loop
  going forever, so `FinsDriver.new` is partial here.
-/
import PlcBridge.Fins.Mapping
import PlcBridge.Lib.Runs
import PlcBridge.Lib.Spans

namespace PlcBridge.Fins

open PlcBridge.Lib

-- ============================================================================
-- Contiguous ranges
-- ============================================================================

/-- A group under construction: `start_addr`, `end_addr` and
    `group_mappings`. -/
structure Run where
  startAddr : UInt32
  endAddr : UInt32
  mappings : List TagMapping

/-- Last address of a mapping, as the grouping computes it. -/
def TagMapping.endAddr (m : TagMapping) : UInt32 := m.address + m.wordCount.toUInt32 - 1

def Run.of (m : TagMapping) : Run := ⟨m.address, m.endAddr, [m]⟩

def Run.push (r : Run) (m : TagMapping) : Run :=
  ⟨r.startAddr, if r.endAddr < m.endAddr then m.endAddr else r.endAddr, r.mappings ++ [m]⟩

/-- The inner loop over `j`: join the mapping to the group, or finish the
    group and open the next. -/
def runsFrom (r : Run) : List TagMapping → List Run
  | [] => [r]
  | m :: ms =>
      if m.address ≤ r.endAddr + 1 then runsFrom (r.push m) ms
      else r :: runsFrom (Run.of m) ms

/-- The contiguous ranges of a sorted list. -/
def runs : List TagMapping → List Run
  | [] => []
  | m :: ms => runsFrom (Run.of m) ms

/-- The contiguous ranges of all areas, lowest area first, as the ordered map
    of the source visits them. -/
def allRuns (mappings : List TagMapping) : List (UInt8 × Run) :=
  allAreas.flatMap fun area => (runs (sortByAddress (byArea mappings area))).map (area, ·)

-- ============================================================================
-- Requests
-- ============================================================================

/-- A single FINS read request and the mappings of its group. -/
structure ReadGroup where
  area : UInt8
  startAddress : UInt32
  wordCount : UInt16
  mappings : List TagMapping
deriving DecidableEq

/-- `while remaining > 0`: the requests `(chunk_start, chunk_words)`.  Each
    turn takes at least one word, so `remaining` is enough fuel. -/
def chunkLoop (maxWords : UInt32) : Nat → UInt32 → Nat → Option (List (UInt32 × UInt16))
  | 0, _, remaining => if remaining = 0 then some [] else none
  | fuel + 1, chunkStart, remaining =>
      if remaining = 0 then some []
      else
        let chunkWords := UInt16.ofNat (min remaining maxWords.toNat)
        -- Zero words make no progress: the loop never ends.
        if chunkWords = 0 then none
        else
          (chunkLoop maxWords fuel (chunkStart + chunkWords.toUInt32)
            (remaining - chunkWords.toNat)).map ((chunkStart, chunkWords) :: ·)

/-- Split a range into requests. -/
def splitRun (maxWords : UInt32) (ar : UInt8 × Run) : Option (List ReadGroup) :=
  let totalWords := (ar.2.endAddr - ar.2.startAddr + 1).toNat
  (chunkLoop maxWords totalWords ar.2.startAddr totalWords).map
    fun cs => cs.map fun c => ⟨ar.1, c.1, c.2, ar.2.mappings⟩

/-- The fields of `FinsDriver` that never change. -/
structure FinsDriver where
  mappings : List TagMapping
  readGroups : List ReadGroup

/-- `FinsDriver::new`, where it returns. -/
def FinsDriver.new (config : FinsConfig) : Option FinsDriver :=
  (gather (splitRun config.maxWordsPerRequest) (allRuns config.mappings)).map
    fun groups => ⟨config.mappings, groups⟩

-- ============================================================================
-- Members
-- ============================================================================

theorem runsFrom_mappings (r : Run) (ms : List TagMapping) :
    (runsFrom r ms).flatMap Run.mappings = r.mappings ++ ms := by
  induction ms generalizing r with
  | nil => simp [runsFrom]
  | cons m ms ih =>
      simp only [runsFrom]
      by_cases h : m.address ≤ r.endAddr + 1
      · rw [if_pos h, ih]
        simp [Run.push]
      · rw [if_neg h, List.flatMap_cons, ih]
        simp [Run.of]

/-- Every mapping goes into one range, none is lost. -/
theorem runs_mappings (ms : List TagMapping) : (runs ms).flatMap Run.mappings = ms := by
  cases ms with
  | nil => rfl
  | cons m ms =>
      rw [runs, runsFrom_mappings]
      rfl

theorem mem_allRuns {mappings : List TagMapping} {ar : UInt8 × Run} :
    ar ∈ allRuns mappings ↔ ar.2 ∈ runs (sortByAddress (byArea mappings ar.1)) := by
  obtain ⟨area, r⟩ := ar
  simp only [allRuns, List.mem_flatMap, List.mem_map, Prod.mk.injEq]
  constructor
  · rintro ⟨area', -, r', hr', rfl, rfl⟩
    exact hr'
  · intro hr
    exact ⟨area, mem_allAreas area, r, hr, rfl, rfl⟩

theorem mem_run_mappings {mappings : List TagMapping} {ar : UInt8 × Run} {m : TagMapping}
    (har : ar ∈ allRuns mappings) (hm : m ∈ ar.2.mappings) : m ∈ mappings ∧ m.area = ar.1 := by
  have hmem : m ∈ (runs (sortByAddress (byArea mappings ar.1))).flatMap Run.mappings :=
    List.mem_flatMap.mpr ⟨ar.2, mem_allRuns.mp har, hm⟩
  rw [runs_mappings, mem_sortByAddress] at hmem
  exact mem_byArea.mp hmem

theorem exists_run {mappings : List TagMapping} {m : TagMapping} (hm : m ∈ mappings) :
    ∃ ar ∈ allRuns mappings, ar.1 = m.area ∧ m ∈ ar.2.mappings := by
  have hmem : m ∈ (runs (sortByAddress (byArea mappings m.area))).flatMap Run.mappings := by
    rw [runs_mappings, mem_sortByAddress]
    exact mem_byArea.mpr ⟨hm, rfl⟩
  obtain ⟨r, hr, hmr⟩ := List.mem_flatMap.mp hmem
  exact ⟨(m.area, r), mem_allRuns.mpr hr, rfl, hmr⟩

/-- The ids of a range's mappings. -/
def Run.ids (r : Run) : List String := r.mappings.map TagMapping.tagId

theorem nodup_allAreas : allAreas.Nodup := by
  apply List.Nodup.map_on ?_ List.nodup_range
  intro i hi j hj h
  rw [List.mem_range] at hi hj
  have := congrArg UInt8.toNat h
  rw [UInt8.toNat_ofNat', UInt8.toNat_ofNat'] at this
  omega

/-- Different ids of the mappings are different ids of the ranges. -/
theorem nodup_run_ids {mappings : List TagMapping}
    (hnodup : (mappings.map TagMapping.tagId).Nodup) :
    ((allRuns mappings).flatMap fun ar => ar.2.ids).Nodup := by
  have hinner : ∀ area, ((runs (sortByAddress (byArea mappings area))).map (area, ·)).flatMap
      (fun ar : UInt8 × Run => ar.2.ids) =
        (sortByAddress (byArea mappings area)).map TagMapping.tagId := by
    intro area
    have hmap : (runs (sortByAddress (byArea mappings area))).flatMap Run.ids =
        ((runs (sortByAddress (byArea mappings area))).flatMap Run.mappings).map TagMapping.tagId := by
      rw [List.map_flatMap]
      rfl
    rw [List.flatMap_map, ← runs_mappings (sortByAddress (byArea mappings area)), ← hmap,
      runs_mappings]
  rw [allRuns, List.flatMap_assoc]
  simp only [hinner]
  rw [List.nodup_flatMap]
  refine ⟨?_, ?_⟩
  · intro area _
    rw [((perm_sortByAddress _).map _).nodup_iff]
    exact hnodup.sublist ((List.filter_sublist (l := mappings)).map _)
  · apply nodup_allAreas.imp
    intro a b hab id ha hb
    obtain ⟨m, hm, rfl⟩ := List.mem_map.mp ha
    obtain ⟨m', hm', hid⟩ := List.mem_map.mp hb
    rw [mem_sortByAddress, mem_byArea] at hm hm'
    have heq := List.inj_on_of_nodup_map hnodup hm'.1 hm.1 hid
    exact hab (by rw [← hm.2, ← heq, hm'.2])

-- ============================================================================
-- Ranges on plain numbers
-- ============================================================================

namespace TagMapping

/-- First address of the range. -/
def lo (m : TagMapping) : Nat := m.address.toNat

/-- Number of words in the range. -/
def len (m : TagMapping) : Nat := m.wordCount.toNat

/-- The range is not empty and ends below the last address. -/
structure InSpace (m : TagMapping) : Prop where
  pos : 0 < m.len
  lt : m.lo + m.len < 2 ^ 32

end TagMapping

/-- The last address can be computed in `u32`: the range is not empty at
    address zero and ends below the last address. -/
structure TagMapping.EndFits (m : TagMapping) : Prop where
  pos : 1 ≤ m.lo + m.len
  lt : m.lo + m.len < 2 ^ 32

theorem TagMapping.InSpace.endFits {m : TagMapping} (hm : m.InSpace) : m.EndFits := by
  have hpos := hm.pos
  exact ⟨by omega, hm.lt⟩

/-- A range as a block of plain numbers. -/
def Run.toBlock (r : Run) : Block TagMapping :=
  ⟨r.startAddr.toNat, r.endAddr.toNat - r.startAddr.toNat + 1, r.mappings⟩

/-- A range as a block that may be empty: then `end_addr` is right in front of
    `start_addr`. -/
def Run.block (r : Run) : Block TagMapping :=
  ⟨r.startAddr.toNat, r.endAddr.toNat + 1 - r.startAddr.toNat, r.mappings⟩

/-- No `u32` operation on the range wraps around. -/
structure Run.InSpace (r : Run) : Prop where
  le : r.startAddr.toNat ≤ r.endAddr.toNat
  lt : r.endAddr.toNat + 1 < 2 ^ 32

/-- The same for a range that may be empty. -/
structure Run.EndFits (r : Run) : Prop where
  le : r.startAddr.toNat ≤ r.endAddr.toNat + 1
  lt : r.endAddr.toNat + 1 < 2 ^ 32

theorem toNat_endAddr {m : TagMapping} (hm : m.EndFits) : m.endAddr.toNat = m.lo + m.len - 1 := by
  have hpos : 1 ≤ m.address.toNat + m.wordCount.toNat := hm.pos
  have hlt : m.address.toNat + m.wordCount.toNat < 2 ^ 32 := hm.lt
  have hadd : (m.address + m.wordCount.toUInt32).toNat = m.address.toNat + m.wordCount.toNat := by
    rw [UInt32.toNat_add, UInt16.toNat_toUInt32]
    exact Nat.mod_eq_of_lt hlt
  have hle : 1 ≤ m.address + m.wordCount.toUInt32 := by
    rw [UInt32.le_iff_toNat_le, hadd]
    exact hpos
  rw [TagMapping.endAddr, UInt32.toNat_sub_of_le _ _ hle, hadd]
  rfl

theorem le_endAddr_succ_iff {r : Run} (hr : r.EndFits) (a : UInt32) :
    a ≤ r.endAddr + 1 ↔ a.toNat ≤ r.block.start + r.block.len := by
  have hsucc : (r.endAddr + 1).toNat = r.endAddr.toNat + 1 := by
    rw [UInt32.toNat_add]
    exact Nat.mod_eq_of_lt hr.lt
  have hle := hr.le
  rw [UInt32.le_iff_toNat_le, hsucc]
  show _ ↔ a.toNat ≤ r.startAddr.toNat + (r.endAddr.toNat + 1 - r.startAddr.toNat)
  omega

theorem Run.endFits_of {m : TagMapping} (hm : m.EndFits) : (Run.of m).EndFits := by
  have hend : (Run.of m).endAddr.toNat = _ := toNat_endAddr hm
  have hpos := hm.pos
  have hlt := hm.lt
  refine ⟨?_, ?_⟩
  · show m.lo ≤ _
    omega
  · omega

theorem Run.block_of {m : TagMapping} (hm : m.EndFits) :
    (Run.of m).block = Block.of TagMapping.lo TagMapping.len m := by
  have hend : m.endAddr.toNat = _ := toNat_endAddr hm
  have hpos := hm.pos
  have hlen : m.endAddr.toNat + 1 - m.lo = m.len := by omega
  show (⟨m.lo, m.endAddr.toNat + 1 - m.lo, [m]⟩ : Block TagMapping) = ⟨m.lo, m.len, [m]⟩
  rw [hlen]

/-- Extending a range in `u32` arithmetic is extending its block. -/
theorem Run.push_spec {r : Run} {m : TagMapping} (hr : r.EndFits) (hm : m.EndFits)
    (hstart : r.startAddr.toNat ≤ m.lo) :
    (r.push m).EndFits ∧ (r.push m).block = r.block.absorb TagMapping.lo TagMapping.len m := by
  have hle := hr.le
  have hlt := hr.lt
  have hpos := hm.pos
  have hmlt := hm.lt
  have hmend := toNat_endAddr hm
  have hend : (r.push m).endAddr.toNat = max r.endAddr.toNat (m.lo + m.len - 1) := by
    show (if r.endAddr < m.endAddr then m.endAddr else r.endAddr).toNat = _
    by_cases h : r.endAddr < m.endAddr
    · rw [if_pos h, hmend]
      rw [UInt32.lt_iff_toNat_lt, hmend] at h
      omega
    · rw [if_neg h]
      rw [UInt32.lt_iff_toNat_lt, hmend] at h
      omega
  have hnew : (r.push m).startAddr = r.startAddr := rfl
  refine ⟨⟨by rw [hnew]; omega, by omega⟩, ?_⟩
  show (⟨r.startAddr.toNat, (r.push m).endAddr.toNat + 1 - r.startAddr.toNat, r.mappings ++ [m]⟩ :
    Block TagMapping) = ⟨r.startAddr.toNat, _, r.mappings ++ [m]⟩
  congr 1
  simp only [Run.block]
  omega

theorem runsFrom_block {r : Run} {ms : List TagMapping} (hr : r.EndFits)
    (hms : ∀ m ∈ ms, m.EndFits) (hsorted : ms.Pairwise fun a b => a.address.toNat ≤ b.address.toNat)
    (hstart : ∀ m ∈ ms, r.startAddr.toNat ≤ m.lo) :
    (∀ r' ∈ runsFrom r ms, r'.EndFits) ∧
    (runsFrom r ms).map Run.block = coalesceFrom TagMapping.lo TagMapping.len r.block ms := by
  induction ms generalizing r with
  | nil =>
      refine ⟨?_, rfl⟩
      intro r' hr'
      obtain rfl := List.mem_singleton.mp hr'
      exact hr
  | cons m ms ih =>
      rw [List.pairwise_cons] at hsorted
      have hm := hms m (List.mem_cons_self ..)
      have htail : ∀ m' ∈ ms, m'.EndFits := fun m' h => hms m' (List.mem_cons_of_mem m h)
      have hiff : m.address ≤ r.endAddr + 1 ↔ m.lo ≤ r.block.start + r.block.len :=
        le_endAddr_succ_iff hr m.address
      simp only [runsFrom, coalesceFrom]
      by_cases h : m.address ≤ r.endAddr + 1
      · have hspec := Run.push_spec hr hm (hstart m (List.mem_cons_self ..))
        rw [if_pos h, if_pos (hiff.mp h), ← hspec.2]
        apply ih hspec.1 htail hsorted.2
        intro m' hm'
        exact hstart m' (List.mem_cons_of_mem m hm')
      · rw [if_neg h, if_neg (fun h' => h (hiff.mpr h'))]
        have hrec := ih (r := Run.of m) (Run.endFits_of hm) htail hsorted.2 hsorted.1
        refine ⟨?_, ?_⟩
        · intro r' hr'
          rcases List.mem_cons.mp hr' with rfl | hr'
          · exact hr
          · exact hrec.1 r' hr'
        · rw [List.map_cons, hrec.2, Run.block_of hm]

/-- The ranges are the contiguous blocks, empty mappings included. -/
theorem runs_block {ms : List TagMapping} (hms : ∀ m ∈ ms, m.EndFits)
    (hsorted : ms.Pairwise fun a b => a.address.toNat ≤ b.address.toNat) :
    (∀ r ∈ runs ms, r.EndFits) ∧
    (runs ms).map Run.block = coalesce TagMapping.lo TagMapping.len ms := by
  cases ms with
  | nil => exact ⟨fun r hr => absurd hr (List.not_mem_nil), rfl⟩
  | cons m ms =>
      rw [List.pairwise_cons] at hsorted
      have hm := hms m (List.mem_cons_self ..)
      have hspec := runsFrom_block (Run.endFits_of hm)
        (fun m' h => hms m' (List.mem_cons_of_mem m h)) hsorted.2 hsorted.1
      rw [Run.block_of hm] at hspec
      exact hspec

/-- The ranges are the maximal contiguous blocks. -/
theorem runs_toBlock {ms : List TagMapping} (hms : ∀ m ∈ ms, m.InSpace)
    (hsorted : ms.Pairwise fun a b => a.address.toNat ≤ b.address.toNat) :
    (∀ r ∈ runs ms, r.InSpace) ∧
    (runs ms).map Run.toBlock = coalesce TagMapping.lo TagMapping.len ms := by
  obtain ⟨hfits, hblocks⟩ := runs_block (fun m hm => (hms m hm).endFits) hsorted
  have hpos : ∀ b ∈ coalesce TagMapping.lo TagMapping.len ms, 0 < b.len := by
    refine (coalesce_pos_iff hsorted).mpr ?_
    intro m hm hzero
    have := (hms m hm).pos
    omega
  -- A range that is not empty ends behind its start.
  have hle : ∀ r ∈ runs ms, r.startAddr.toNat ≤ r.endAddr.toNat := by
    intro r hr
    have hlen : 0 < r.block.len := hpos _ (by rw [← hblocks]; exact List.mem_map_of_mem hr)
    simp only [Run.block] at hlen
    omega
  refine ⟨fun r hr => ⟨hle r hr, (hfits r hr).lt⟩, ?_⟩
  rw [← hblocks]
  apply List.map_congr_left
  intro r hr
  have hlen : r.endAddr.toNat - r.startAddr.toNat + 1 = r.endAddr.toNat + 1 - r.startAddr.toNat := by
    have := hle r hr
    omega
  rw [Run.toBlock, Run.block, hlen]

theorem sorted_byArea (mappings : List TagMapping) (area : UInt8) :
    (sortByAddress (byArea mappings area)).Pairwise fun a b => a.lo ≤ b.lo :=
  pairwise_sortByAddress (byArea mappings area)

theorem runs_byArea {mappings : List TagMapping} (hspace : ∀ m ∈ mappings, m.InSpace)
    (area : UInt8) :
    (∀ r ∈ runs (sortByAddress (byArea mappings area)), r.InSpace) ∧
    (runs (sortByAddress (byArea mappings area))).map Run.toBlock =
      coalesce TagMapping.lo TagMapping.len (sortByAddress (byArea mappings area)) := by
  refine runs_toBlock ?_ (sorted_byArea mappings area)
  intro m hm
  exact hspace m (mem_byArea.mp (mem_sortByAddress.mp hm)).1

/-- The words of one area's mappings, as the set of their addresses. -/
def Mapped (mappings : List TagMapping) (area : UInt8) : Nat → Prop :=
  Covers TagMapping.lo TagMapping.len (byArea mappings area)

/-- A range of in-space mappings: no arithmetic wraps, the mappings lie inside
    and fill it, and it starts where the contiguous run does. -/
theorem run_spec {mappings : List TagMapping} (hspace : ∀ m ∈ mappings, m.InSpace)
    {ar : UInt8 × Run} (har : ar ∈ allRuns mappings) :
    ar.2.InSpace ∧ ar.2.toBlock.Sound TagMapping.lo TagMapping.len ∧
    ∀ m ∈ ar.2.mappings, IsRunStart (Mapped mappings ar.1) ar.2.startAddr.toNat m.lo := by
  have hsorted := sorted_byArea mappings ar.1
  obtain ⟨hruns, hblocks⟩ := runs_byArea hspace ar.1
  have hb : ar.2.toBlock ∈ coalesce TagMapping.lo TagMapping.len
      (sortByAddress (byArea mappings ar.1)) := by
    rw [← hblocks]
    exact List.mem_map_of_mem (mem_allRuns.mp har)
  refine ⟨hruns _ (mem_allRuns.mp har), coalesce_sound _ hsorted _ hb, ?_⟩
  intro m hm
  have hrun := isRunStart_of_mem_coalesce hsorted hb hm
    (hspace m (mem_run_mappings har hm).1).pos
  have hcov : Covers TagMapping.lo TagMapping.len (sortByAddress (byArea mappings ar.1)) =
      Mapped mappings ar.1 := by
    funext x
    simp only [Mapped, Covers, mem_sortByAddress]
  rw [← hcov]
  exact hrun

/-- Ranges are ordered by area and address, with an unmapped word in
    between. -/
theorem allRuns_ordered {mappings : List TagMapping} (hspace : ∀ m ∈ mappings, m.InSpace) :
    (allRuns mappings).Pairwise fun ar ar' => ar.1 < ar'.1 ∨
      (ar.1 = ar'.1 ∧ ar.2.toBlock.start + ar.2.toBlock.len < ar'.2.toBlock.start) := by
  rw [allRuns, List.pairwise_flatMap]
  refine ⟨?_, ?_⟩
  · intro area _
    have hgap := @coalesce_gap _ TagMapping.lo TagMapping.len _ (sorted_byArea mappings area)
    rw [← (runs_byArea hspace area).2, List.pairwise_map] at hgap
    rw [List.pairwise_map]
    exact hgap.imp fun h => .inr ⟨rfl, h⟩
  · have hlt : allAreas.Pairwise fun a b => a < b := by
      rw [allAreas, List.pairwise_map]
      apply List.pairwise_lt_range.imp_of_mem
      intro i j hi hj hij
      rw [List.mem_range] at hi hj
      rw [UInt8.lt_iff_toNat_lt, UInt8.toNat_ofNat', UInt8.toNat_ofNat']
      omega
    apply hlt.imp
    intro a b hab ar har ar' har'
    obtain ⟨r, -, rfl⟩ := List.mem_map.mp har
    obtain ⟨r', -, rfl⟩ := List.mem_map.mp har'
    exact .inl hab

-- ============================================================================
-- Requests on plain numbers
-- ============================================================================

/-- A request's words as `(first, count)`. -/
def ReadGroup.span (g : ReadGroup) : Nat × Nat := (g.startAddress.toNat, g.wordCount.toNat)

def ReadGroup.ids (g : ReadGroup) : List String := g.mappings.map TagMapping.tagId

/-- The largest request a limit allows: the cast to `u16` caps it. -/
def requestCap (maxWords : UInt32) : Nat := min maxWords.toNat 65535

/-- With a limit beyond `u16`, a range beyond `u16` is never cut up: some turn
    comes to a request of zero words. -/
theorem chunkLoop_of_large {maxWords : UInt32} (hmax : 65536 ≤ maxWords.toNat) {fuel remaining : Nat}
    (hrem : 65536 ≤ remaining) (start : UInt32) : chunkLoop maxWords fuel start remaining = none := by
  induction fuel generalizing start remaining with
  | zero => exact if_neg (by omega)
  | succ fuel ih =>
      rw [chunkLoop, if_neg (by omega)]
      simp only
      by_cases hz : UInt16.ofNat (min remaining maxWords.toNat) = 0
      · rw [if_pos hz]
      · have hwords : (UInt16.ofNat (min remaining maxWords.toNat)).toNat
            = min remaining maxWords.toNat % 65536 := by
          rw [UInt16.toNat_ofNat']
        rw [if_neg hz, ih (by omega), Option.map_none]

/-- Where the loop ends, it cuts as `chunks` does. -/
theorem chunkLoop_eq {maxWords : UInt32} {fuel remaining : Nat} {start : UInt32}
    {cs : List (UInt32 × UInt16)} (h : chunkLoop maxWords fuel start remaining = some cs)
    (hspace : start.toNat + remaining < 2 ^ 32) :
    (0 < remaining → 0 < requestCap maxWords) ∧
    cs.map (fun c => (c.1.toNat, c.2.toNat)) = chunks (requestCap maxWords) start.toNat remaining := by
  have hsmall : maxWords.toNat ≤ 65535 ∨ remaining ≤ 65535 := by
    by_contra hlarge
    rw [chunkLoop_of_large (by omega) (by omega)] at h
    exact absurd h (by simp)
  induction fuel generalizing start remaining cs with
  | zero =>
      rw [chunkLoop] at h
      by_cases hz : remaining = 0
      · rw [if_pos hz] at h
        obtain rfl := Option.some.inj h
        subst hz
        exact ⟨fun h => absurd h (lt_irrefl 0), (chunks_zero ..).symm⟩
      · rw [if_neg hz] at h
        exact absurd h (by simp)
  | succ fuel ih =>
      rw [chunkLoop] at h
      by_cases hz : remaining = 0
      · rw [if_pos hz] at h
        obtain rfl := Option.some.inj h
        subst hz
        exact ⟨fun h => absurd h (lt_irrefl 0), (chunks_zero ..).symm⟩
      · rw [if_neg hz] at h
        simp only at h
        -- The request has as many words as the limit and the rest allow.
        have hwords : (UInt16.ofNat (min remaining maxWords.toNat)).toNat
            = min (requestCap maxWords) remaining := by
          rw [UInt16.toNat_ofNat', requestCap]
          omega
        generalize hw : UInt16.ofNat (min remaining maxWords.toNat) = w at h hwords
        by_cases hw0 : w = 0
        · rw [if_pos hw0] at h
          exact absurd h (by simp)
        · rw [if_neg hw0] at h
          obtain ⟨rest, hrest, rfl⟩ := Option.map_eq_some_iff.mp h
          have hpos : 0 < w.toNat := Nat.pos_of_ne_zero fun h0 => hw0 (UInt16.toNat_inj.mp h0)
          have hnext : (start + w.toUInt32).toNat = start.toNat + w.toNat := by
            rw [UInt32.toNat_add, UInt16.toNat_toUInt32]
            exact Nat.mod_eq_of_lt (by omega)
          obtain ⟨-, hchunks⟩ := ih hrest (by rw [hnext]; omega) (by omega)
          have hcap : 0 < requestCap maxWords := by omega
          refine ⟨fun _ => hcap, ?_⟩
          rw [chunks_of_pos hcap (by omega), List.map_cons, hchunks, hnext, hwords]

/-- `total_words` of a range. -/
theorem toNat_totalWords {r : Run} (hr : r.InSpace) :
    (r.endAddr - r.startAddr + 1).toNat = r.toBlock.len := by
  have hle := hr.le
  have hlt := hr.lt
  rw [UInt32.toNat_add, UInt32.toNat_sub_of_le _ _ (UInt32.le_iff_toNat_le.mpr hle)]
  show (_ - _ + 1) % 2 ^ 32 = _ - _ + 1
  exact Nat.mod_eq_of_lt (by omega)

/-- The requests of one range. -/
def groupsOf (maxWords : UInt32) (ar : UInt8 × Run) : List ReadGroup := (splitRun maxWords ar).getD []

theorem of_mem_groupsOf {maxWords : UInt32} {ar : UInt8 × Run} {g : ReadGroup}
    (hg : g ∈ groupsOf maxWords ar) : g.area = ar.1 ∧ g.mappings = ar.2.mappings := by
  rw [groupsOf, splitRun] at hg
  cases hcs : chunkLoop maxWords (ar.2.endAddr - ar.2.startAddr + 1).toNat ar.2.startAddr
      (ar.2.endAddr - ar.2.startAddr + 1).toNat with
  | none =>
      rw [hcs] at hg
      exact absurd hg (List.not_mem_nil)
  | some cs =>
      rw [hcs] at hg
      obtain ⟨c, -, rfl⟩ := List.mem_map.mp hg
      exact ⟨rfl, rfl⟩

theorem groupsOf_spec {maxWords : UInt32} {ar : UInt8 × Run} (hr : ar.2.InSpace)
    (h : ∃ gs, splitRun maxWords ar = some gs) :
    0 < requestCap maxWords ∧
    (groupsOf maxWords ar).map ReadGroup.span =
      chunks (requestCap maxWords) ar.2.toBlock.start ar.2.toBlock.len ∧
    ∀ g ∈ groupsOf maxWords ar, g.area = ar.1 ∧ g.mappings = ar.2.mappings := by
  obtain ⟨gs, hgs⟩ := h
  have hle := hr.le
  have hlt := hr.lt
  rw [groupsOf, hgs, Option.getD_some]
  rw [splitRun, toNat_totalWords hr] at hgs
  obtain ⟨cs, hcs, rfl⟩ := Option.map_eq_some_iff.mp hgs
  obtain ⟨hpos, hchunks⟩ := chunkLoop_eq hcs (by simp only [Run.toBlock]; omega)
  refine ⟨hpos (Nat.succ_pos _), ?_, ?_⟩
  · rw [List.map_map]
    exact hchunks
  · intro g hg
    obtain ⟨c, -, rfl⟩ := List.mem_map.mp hg
    exact ⟨rfl, rfl⟩

/-- The loop ends if the limit or the range fits `u16`. -/
theorem exists_chunkLoop {maxWords : UInt32} (hmin : 1 ≤ maxWords.toNat) {fuel remaining : Nat}
    (hsmall : maxWords.toNat ≤ 65535 ∨ remaining ≤ 65535) (hfuel : remaining ≤ fuel)
    (start : UInt32) : ∃ cs, chunkLoop maxWords fuel start remaining = some cs := by
  induction fuel generalizing start remaining with
  | zero => exact ⟨[], if_pos (by omega)⟩
  | succ fuel ih =>
      rw [chunkLoop]
      by_cases hz : remaining = 0
      · rw [if_pos hz]
        exact ⟨[], rfl⟩
      · rw [if_neg hz]
        simp only
        have hwords : (UInt16.ofNat (min remaining maxWords.toNat)).toNat
            = min remaining maxWords.toNat := by
          rw [UInt16.toNat_ofNat']
          omega
        have hne : UInt16.ofNat (min remaining maxWords.toNat) ≠ 0 := by
          intro h0
          rw [h0] at hwords
          have : (0 : UInt16).toNat = 0 := rfl
          omega
        have hrest : remaining - (UInt16.ofNat (min remaining maxWords.toNat)).toNat ≤ fuel := by
          rw [hwords]
          omega
        obtain ⟨cs, hcs⟩ := ih (by omega) hrest
          (start + (UInt16.ofNat (min remaining maxWords.toNat)).toUInt32)
        rw [if_neg hne, hcs]
        exact ⟨_, rfl⟩

/-- `FinsDriver::new` returns where every range is cut up. -/
theorem exists_new_of_split {config : FinsConfig}
    (h : ∀ ar ∈ allRuns config.mappings, ∃ gs, splitRun config.maxWordsPerRequest ar = some gs) :
    ∃ drv, FinsDriver.new config = some drv := by
  obtain ⟨gs, hgs⟩ := gather_isSome h
  rw [FinsDriver.new, hgs]
  exact ⟨_, rfl⟩

/-- `FinsDriver::new` returns for limits of 1 to 65535 words. -/
theorem exists_new {config : FinsConfig} (hmin : 1 ≤ config.maxWordsPerRequest.toNat)
    (hmax : config.maxWordsPerRequest.toNat ≤ 65535) : ∃ drv, FinsDriver.new config = some drv := by
  apply exists_new_of_split
  intro ar _
  obtain ⟨cs, hcs⟩ := exists_chunkLoop hmin (.inl hmax) le_rfl ar.2.startAddr
  rw [splitRun, hcs]
  exact ⟨_, rfl⟩

/-- What `FinsDriver::new` leaves in the driver. -/
theorem new_eq_some {config : FinsConfig} {drv : FinsDriver} (h : FinsDriver.new config = some drv) :
    drv.mappings = config.mappings ∧
    (∀ ar ∈ allRuns config.mappings, ∃ gs, splitRun config.maxWordsPerRequest ar = some gs) ∧
    drv.readGroups = (allRuns config.mappings).flatMap (groupsOf config.maxWordsPerRequest) := by
  obtain ⟨gs, hgs, rfl⟩ := Option.map_eq_some_iff.mp h
  obtain ⟨hall, rfl⟩ := gather_eq_some hgs
  exact ⟨rfl, hall, rfl⟩

/-- Read groups hold mappings of the driver. -/
theorem mem_mappings_of_readGroups {config : FinsConfig} {drv : FinsDriver}
    (h : FinsDriver.new config = some drv) {g : ReadGroup} (hg : g ∈ drv.readGroups) {m : TagMapping}
    (hm : m ∈ g.mappings) : m ∈ drv.mappings := by
  obtain ⟨hmappings, -, hgroups⟩ := new_eq_some h
  rw [hgroups] at hg
  obtain ⟨ar, har, hg⟩ := List.mem_flatMap.mp hg
  rw [(of_mem_groupsOf hg).2] at hm
  rw [hmappings]
  exact (mem_run_mappings har hm).1

-- ============================================================================
-- Where a tag sits in its range
-- ============================================================================

/-- The mapping is read after the request at `start` of the area: its area
    comes later, or an unmapped word lies in between. -/
def Behind (mappings : List TagMapping) (area : UInt8) (start : Nat) (m : TagMapping) : Prop :=
  area < m.area ∨ (m.area = area ∧ ∃ a, start ≤ a ∧ a < m.lo ∧ ¬ Mapped mappings area a)

/-- No request boundary cuts the mapping's range: counted from the start of
    the contiguous run of mapped words it belongs to, it does not reach over a
    multiple of the largest request. -/
def TagMapping.ReadWhole (config : FinsConfig) (m : TagMapping) : Prop :=
  ∃ s, IsRunStart (Mapped config.mappings m.area) s m.lo ∧
    (m.lo - s) % requestCap config.maxWordsPerRequest + m.len
      ≤ requestCap config.maxWordsPerRequest

/-- The request is not empty and no `u32` operation on it wraps around. -/
structure ReadGroup.InSpace (g : ReadGroup) : Prop where
  pos : 0 < g.wordCount.toNat
  lt : g.startAddress.toNat + g.wordCount.toNat < 2 ^ 32

/-- The requests that can touch a tag: those of its own range, in order. -/
structure OwnGroups (config : FinsConfig) (m : TagMapping) (own : List ReadGroup) : Prop where
  each : ∀ g ∈ own, g.area = m.area ∧ m ∈ g.mappings ∧ g.ids.Nodup ∧ g.InSpace
  /-- They start at mapped words. -/
  mapped : ∀ g ∈ own, Mapped config.mappings m.area g.startAddress.toNat
  /-- Every word of the mapping is in one of them, and the later ones start
      behind it. -/
  covers : ∀ a, m.lo ≤ a → a < m.lo + m.len → ∃ gs₁ g gs₂, own = gs₁ ++ g :: gs₂ ∧
    g.startAddress.toNat ≤ a ∧ a < g.startAddress.toNat + g.wordCount.toNat ∧
    ∀ g' ∈ gs₂, g.startAddress.toNat + g.wordCount.toNat ≤ g'.startAddress.toNat
  /-- One of them holds the end of the mapping, the later ones do not meet
      it. -/
  last : ∃ gs₁ g gs₂, own = gs₁ ++ g :: gs₂ ∧ g.startAddress.toNat < m.lo + m.len ∧
    m.lo + m.len ≤ g.startAddress.toNat + g.wordCount.toNat ∧
    (∀ g' ∈ gs₁, g'.startAddress.toNat + g'.wordCount.toNat ≤ g.startAddress.toNat) ∧
    (∀ g' ∈ gs₂, m.lo + m.len ≤ g'.startAddress.toNat) ∧
    (g.startAddress.toNat ≤ m.lo ↔ m.ReadWhole config)

theorem ownGroups_groupsOf {config : FinsConfig} (hspace : ∀ m ∈ config.mappings, m.InSpace)
    (hnodup : (config.mappings.map TagMapping.tagId).Nodup) {ar : UInt8 × Run}
    (har : ar ∈ allRuns config.mappings)
    (hsplit : ∃ gs, splitRun config.maxWordsPerRequest ar = some gs) {m : TagMapping}
    (hm : m ∈ ar.2.mappings) :
    OwnGroups config m (groupsOf config.maxWordsPerRequest ar) := by
  obtain ⟨hr, hsound, hrun⟩ := run_spec hspace har
  obtain ⟨hcap, hspans, hgroups⟩ := groupsOf_spec hr hsplit
  obtain ⟨hmem, harea⟩ := mem_run_mappings har hm
  have hin := hsound.inside m hm
  have hpos := (hspace m hmem).pos
  have hbounds : ∀ g ∈ groupsOf config.maxWordsPerRequest ar, 0 < g.wordCount.toNat ∧
      ar.2.toBlock.start ≤ g.startAddress.toNat ∧
      g.startAddress.toNat + g.wordCount.toNat ≤ ar.2.toBlock.start + ar.2.toBlock.len := by
    intro g hg
    have hspan : g.span ∈ chunks (requestCap config.maxWordsPerRequest) ar.2.toBlock.start
        ar.2.toBlock.len := by
      rw [← hspans]
      exact List.mem_map_of_mem hg
    obtain ⟨hwords, -, hfirst, hend⟩ := chunk_bounds hcap hspan
    exact ⟨hwords, hfirst, hend⟩
  refine ⟨?_, ?_, ?_, ?_⟩
  · intro g hg
    obtain ⟨ha, hmaps⟩ := hgroups g hg
    obtain ⟨hwords, -, hend⟩ := hbounds g hg
    refine ⟨ha.trans harea.symm, by rw [hmaps]; exact hm, ?_, hwords, ?_⟩
    · rw [ReadGroup.ids, hmaps]
      exact (List.nodup_flatMap.mp (nodup_run_ids hnodup)).1 ar har
    · have hlt := hr.lt
      have hle := hr.le
      simp only [Run.toBlock] at hend
      omega
  · intro g hg
    obtain ⟨hwords, hfirst, hend⟩ := hbounds g hg
    obtain ⟨m', hm', hlo, hhi⟩ := hsound.filled g.startAddress.toNat hfirst (by omega)
    obtain ⟨hmem', harea'⟩ := mem_run_mappings har hm'
    exact ⟨m', mem_byArea.mpr ⟨hmem', harea'.trans harea.symm⟩, hlo, hhi⟩
  · intro a ha1 ha2
    obtain ⟨l₁, c, l₂, hsplit', hc1, hc2, -, hl₂⟩ := @exists_chunk_split _ ar.2.toBlock.start
      ar.2.toBlock.len a hcap (le_trans hin.1 ha1) (lt_of_lt_of_le ha2 hin.2)
    rw [← hspans, List.map_eq_append_iff] at hsplit'
    obtain ⟨gs₁, rest, hgs, -, hrest⟩ := hsplit'
    obtain ⟨g, gs₂, rfl, rfl, rfl⟩ := List.map_eq_cons_iff.mp hrest
    refine ⟨gs₁, g, gs₂, hgs, hc1, hc2, ?_⟩
    intro g' hg'
    exact hl₂ g'.span (List.mem_map_of_mem hg')
  · obtain ⟨l₁, c, l₂, hsplit', h1, h2, hl₁, hl₂, hwhole⟩ :=
      exists_last_chunk hcap hpos hin.1 hin.2
    rw [← hspans, List.map_eq_append_iff] at hsplit'
    obtain ⟨gs₁, rest, hgs, hgs₁, hrest⟩ := hsplit'
    obtain ⟨g, gs₂, rfl, hg, hgs₂⟩ := List.map_eq_cons_iff.mp hrest
    subst hgs₁ hg hgs₂
    refine ⟨gs₁, g, gs₂, hgs, h1, h2, ?_, ?_, ?_⟩
    · intro g' hg'
      exact hl₁ g'.span (List.mem_map_of_mem hg')
    · intro g' hg'
      exact hl₂ g'.span (List.mem_map_of_mem hg')
    · have hstart := hrun m hm
      rw [← harea] at hstart
      refine hwhole.trans ⟨fun h => ⟨_, hstart, h⟩, ?_⟩
      rintro ⟨s, hs, h⟩
      rw [hs.unique hstart] at h
      exact h

/-- Every read group is one of the requests of its mappings' range. -/
theorem exists_own {config : FinsConfig} (hspace : ∀ m ∈ config.mappings, m.InSpace)
    (hnodup : (config.mappings.map TagMapping.tagId).Nodup) {drv : FinsDriver}
    (hnew : FinsDriver.new config = some drv) {g : ReadGroup} (hg : g ∈ drv.readGroups) :
    (∃ m, m ∈ g.mappings) ∧ ∀ m ∈ g.mappings, m ∈ config.mappings ∧
      ∃ own, g ∈ own ∧ OwnGroups config m own := by
  obtain ⟨-, hsplit, hgroups⟩ := new_eq_some hnew
  rw [hgroups] at hg
  obtain ⟨ar, har, hg⟩ := List.mem_flatMap.mp hg
  obtain ⟨hr, hsound, -⟩ := run_spec hspace har
  obtain ⟨-, -, hmaps⟩ := groupsOf_spec hr (hsplit ar har)
  rw [(hmaps g hg).2]
  refine ⟨?_, ?_⟩
  · obtain ⟨m, hm, -⟩ := hsound.filled ar.2.toBlock.start le_rfl (by simp only [Run.toBlock]; omega)
    exact ⟨m, hm⟩
  · intro m hm
    exact ⟨(mem_run_mappings har hm).1, _, hg, ownGroups_groupsOf hspace hnodup har (hsplit ar har) hm⟩

/-- A request that meets a range no boundary cuts contains all of it. -/
theorem OwnGroups.contains_of_whole {config : FinsConfig} {m : TagMapping} {own : List ReadGroup}
    (hown : OwnGroups config m own) (hwhole : m.ReadWhole config) {g : ReadGroup} (hg : g ∈ own)
    (hmeets : Meets g.span m.lo m.len) :
    g.startAddress.toNat ≤ m.lo ∧ m.lo + m.len ≤ g.startAddress.toNat + g.wordCount.toNat := by
  obtain ⟨gs₁, g₀, gs₂, rfl, -, hend, hbefore, hafter, hiff⟩ := hown.last
  have hstart := hiff.mpr hwhole
  simp only [Meets, ReadGroup.span] at hmeets
  rcases List.mem_append.mp hg with hg | hg
  · have := hbefore g hg
    omega
  · rcases List.mem_cons.mp hg with rfl | hg
    · exact ⟨hstart, hend⟩
    · have := hafter g hg
      omega

/-- The read groups around a tag: those before its own have it behind them,
    and none but its own mentions it. -/
theorem exists_groups_split {config : FinsConfig} (hspace : ∀ m ∈ config.mappings, m.InSpace)
    (hnodup : (config.mappings.map TagMapping.tagId).Nodup) {drv : FinsDriver}
    (hnew : FinsDriver.new config = some drv) {m : TagMapping} (hm : m ∈ config.mappings) :
    ∃ before own after, drv.readGroups = before ++ own ++ after ∧ OwnGroups config m own ∧
      (∀ g ∈ before, Behind config.mappings g.area g.startAddress.toNat m) ∧
      (∀ g ∈ before ++ after, m.tagId ∉ g.ids) := by
  obtain ⟨-, hsplit, hgroups⟩ := new_eq_some hnew
  obtain ⟨ar, har, harea, hmr⟩ := exists_run hm
  obtain ⟨l₁, l₂, hruns, hother⟩ := exists_split_of_nodup (nodup_run_ids hnodup) har
    (List.mem_map_of_mem hmr : m.tagId ∈ ar.2.ids)
  have hmem : ∀ ar' ∈ l₁ ++ l₂, ar' ∈ allRuns config.mappings := by
    intro ar' har'
    rw [hruns]
    rcases List.mem_append.mp har' with h | h <;> simp [h]
  refine ⟨l₁.flatMap (groupsOf config.maxWordsPerRequest), groupsOf config.maxWordsPerRequest ar,
    l₂.flatMap (groupsOf config.maxWordsPerRequest), ?_,
    ownGroups_groupsOf hspace hnodup har (hsplit ar har) hmr, ?_, ?_⟩
  · rw [hgroups, hruns, List.flatMap_append, List.flatMap_cons, List.append_assoc]
  · intro g hg
    obtain ⟨ar', har', hg⟩ := List.mem_flatMap.mp hg
    have har'' := hmem ar' (List.mem_append_left _ har')
    have horder := allRuns_ordered hspace
    rw [hruns, List.pairwise_append] at horder
    obtain ⟨hr', -, -⟩ := run_spec hspace har''
    obtain ⟨hcap, hspans, hareas⟩ := groupsOf_spec hr' (hsplit ar' har'')
    have hspan : g.span ∈ chunks (requestCap config.maxWordsPerRequest) ar'.2.toBlock.start
        ar'.2.toBlock.len := by
      rw [← hspans]
      exact List.mem_map_of_mem hg
    obtain ⟨hpos, -, -, hend⟩ := chunk_bounds hcap hspan
    obtain ⟨-, hsound, hrun⟩ := run_spec hspace har
    have hin : ar.2.startAddr.toNat ≤ m.lo := (hsound.inside m hmr).1
    simp only [ReadGroup.span, Run.toBlock] at hpos hend
    rw [(hareas g hg).1]
    rcases horder.2.2 ar' har' ar (List.mem_cons_self ..) with hlt | ⟨heq, hlt⟩
    · left
      rw [← harea]
      exact hlt
    · right
      simp only [Run.toBlock] at hlt
      rw [heq]
      exact ⟨harea.symm, ar.2.startAddr.toNat - 1, by omega, by omega,
        (hrun m hmr).first _ (by omega)⟩
  · intro g hg
    rw [← List.flatMap_append] at hg
    obtain ⟨ar', har', hg⟩ := List.mem_flatMap.mp hg
    have har'' := hmem ar' har'
    obtain ⟨-, -, hareas⟩ := groupsOf_spec (run_spec hspace har'').1 (hsplit ar' har'')
    rw [ReadGroup.ids, (hareas g hg).2]
    exact hother ar' har'

end PlcBridge.Fins
