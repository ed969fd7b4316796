/-
  PlcBridge.Fins.Coverage

  Which words the read groups of `FinsDriver::new` read.  Within an area the
  groups tile the mapped words, whether or not the mappings overlap, and each
  group lists every mapping it meets.
-/
import PlcBridge.Fins.Groups

namespace PlcBridge.Fins

open PlcBridge.Lib

variable {config : FinsConfig} {drv : FinsDriver}

/-- First word and word count of the read groups of one area. -/
def areaSpans (area : UInt8) (groups : List ReadGroup) : List (Nat × Nat) :=
  (groups.filter fun g => g.area = area).map ReadGroup.span

/-- The requests of one area. -/
def areaGroups (config : FinsConfig) (area : UInt8) : List ReadGroup :=
  (runs (sortByAddress (byArea config.mappings area))).flatMap fun r =>
    groupsOf config.maxWordsPerRequest (area, r)

theorem filter_readGroups (hnew : FinsDriver.new config = some drv) (area : UInt8) :
    drv.readGroups.filter (fun g => g.area = area) = areaGroups config area := by
  have hgroups : drv.readGroups = allAreas.flatMap (areaGroups config) := by
    rw [(new_eq_some hnew).2.2, allRuns, List.flatMap_assoc]
    simp only [List.flatMap_map]
    rfl
  rw [hgroups]
  refine filter_flatMap_of_key nodup_allAreas (mem_allAreas area) ?_
  intro area' g hg
  obtain ⟨r, -, hg⟩ := List.mem_flatMap.mp hg
  exact (of_mem_groupsOf hg).1

/-- The groups of one area tile its mapped words. -/
theorem areaGroups_spans (hspace : ∀ m ∈ config.mappings, m.InSpace)
    (hnew : FinsDriver.new config = some drv) (area : UInt8) :
    (areaGroups config area).map ReadGroup.span =
      tiles TagMapping.lo TagMapping.len (requestCap config.maxWordsPerRequest)
        (sortByAddress (byArea config.mappings area)) := by
  obtain ⟨hruns, hblocks⟩ := runs_byArea hspace area
  rw [tiles, ← hblocks, areaGroups, List.map_flatMap, List.flatMap_map]
  apply List.flatMap_congr
  intro r hr
  have hsplit := (new_eq_some hnew).2.1 (area, r) (mem_allRuns.mpr hr)
  exact (@groupsOf_spec config.maxWordsPerRequest (area, r) (hruns r hr) hsplit).2.1

/-- Two ranges of one area that share a word are one range. -/
theorem run_mappings_unique {mappings : List TagMapping} (hspace : ∀ m ∈ mappings, m.InSpace)
    {ar ar' : UInt8 × Run} (har : ar ∈ allRuns mappings) (har' : ar' ∈ allRuns mappings)
    (harea : ar.1 = ar'.1) {x : Nat}
    (hx : ar.2.toBlock.start ≤ x ∧ x < ar.2.toBlock.start + ar.2.toBlock.len)
    (hx' : ar'.2.toBlock.start ≤ x ∧ x < ar'.2.toBlock.start + ar'.2.toBlock.len) :
    ar.2.mappings = ar'.2.mappings := by
  rw [mem_allRuns] at har har'
  rw [← harea] at har'
  have hsorted := sorted_byArea mappings ar.1
  have hblocks := (runs_byArea hspace ar.1).2
  have hb : ar.2.toBlock ∈ coalesce TagMapping.lo TagMapping.len
      (sortByAddress (byArea mappings ar.1)) := by
    rw [← hblocks]
    exact List.mem_map_of_mem har
  have hb' : ar'.2.toBlock ∈ coalesce TagMapping.lo TagMapping.len
      (sortByAddress (byArea mappings ar.1)) := by
    rw [← hblocks]
    exact List.mem_map_of_mem har'
  have heq : ar.2.toBlock = ar'.2.toBlock := by
    by_contra hne
    have hsep := coalesce_separated hsorted hb hb' hne
    omega
  exact congrArg Block.members heq

/-- A mapping is listed by every group it meets. -/
theorem mem_mappings_of_meets (hspace : ∀ m ∈ config.mappings, m.InSpace)
    (hnew : FinsDriver.new config = some drv) {g : ReadGroup} (hg : g ∈ drv.readGroups)
    {m : TagMapping} (hm : m ∈ config.mappings) (harea : m.area = g.area) {x : Nat}
    (hgx : g.span.1 ≤ x ∧ x < g.span.1 + g.span.2) (hmx : m.lo ≤ x ∧ x < m.lo + m.len) :
    m ∈ g.mappings := by
  obtain ⟨-, hsplit, hgroups⟩ := new_eq_some hnew
  rw [hgroups] at hg
  obtain ⟨ar, har, hg⟩ := List.mem_flatMap.mp hg
  obtain ⟨hr, -, -⟩ := run_spec hspace har
  obtain ⟨hcap, hspans, hown⟩ := groupsOf_spec hr (hsplit ar har)
  have hspan : g.span ∈ chunks (requestCap config.maxWordsPerRequest) ar.2.toBlock.start
      ar.2.toBlock.len := by
    rw [← hspans]
    exact List.mem_map_of_mem hg
  obtain ⟨-, -, hstart, hend⟩ := chunk_bounds hcap hspan
  obtain ⟨ar', har', harea', hmr⟩ := exists_run hm
  obtain ⟨-, hsound, -⟩ := run_spec hspace har'
  have hin := hsound.inside m hmr
  have hsame : ar.2.mappings = ar'.2.mappings :=
    run_mappings_unique (x := x) hspace har har'
      (((hown g hg).1.symm.trans harea.symm).trans harea'.symm) ⟨by omega, by omega⟩
      ⟨by omega, by omega⟩
  rw [(hown g hg).2, hsame]
  exact hmr

/-- For limits of 1 to 65535 words: construction ends, no group is empty or
    beyond the limit, the groups of an area ascend without overlap and cover
    exactly its mapped words, and a mapping is listed by every group it
    meets. -/
theorem read_groups_cover_mapped {config : FinsConfig}
    (hspace : ∀ m ∈ config.mappings, 1 ≤ m.wordCount.toNat ∧
      m.address.toNat + m.wordCount.toNat < 2 ^ 32)
    (hmin : 1 ≤ config.maxWordsPerRequest.toNat) (hmax : config.maxWordsPerRequest.toNat ≤ 65535) :
    ∃ drv, FinsDriver.new config = some drv ∧
      (∀ g ∈ drv.readGroups, 1 ≤ g.wordCount.toNat ∧
        g.wordCount.toNat ≤ config.maxWordsPerRequest.toNat) ∧
      (∀ area, (areaSpans area drv.readGroups).Pairwise fun c c' => c.1 < c'.1 ∧ c.1 + c.2 ≤ c'.1) ∧
      (∀ area x, InSpans (areaSpans area drv.readGroups) x ↔
        ∃ m ∈ config.mappings, m.area = area ∧ m.address.toNat ≤ x ∧
          x < m.address.toNat + m.wordCount.toNat) ∧
      ∀ g ∈ drv.readGroups, ∀ m ∈ config.mappings, m.area = g.area →
        (∃ x, g.startAddress.toNat ≤ x ∧ x < g.startAddress.toNat + g.wordCount.toNat ∧
          m.address.toNat ≤ x ∧ x < m.address.toNat + m.wordCount.toNat) → m ∈ g.mappings := by
  obtain ⟨drv, hnew⟩ := exists_new hmin hmax
  have hin : ∀ m ∈ config.mappings, m.InSpace := fun m hm => ⟨(hspace m hm).1, (hspace m hm).2⟩
  have hcap : requestCap config.maxWordsPerRequest = config.maxWordsPerRequest.toNat :=
    Nat.min_eq_left hmax
  have hspans : ∀ area, areaSpans area drv.readGroups =
      tiles TagMapping.lo TagMapping.len config.maxWordsPerRequest.toNat
        (sortByAddress (byArea config.mappings area)) := by
    intro area
    rw [areaSpans, filter_readGroups hnew, areaGroups_spans hin hnew, hcap]
  have hsorted := sorted_byArea config.mappings
  refine ⟨drv, hnew, ?_, ?_, ?_, ?_⟩
  · intro g hg
    have hspan : g.span ∈ areaSpans g.area drv.readGroups :=
      List.mem_map_of_mem (List.mem_filter.mpr ⟨hg, by simp⟩)
    rw [hspans] at hspan
    exact tile_bounds hmin hspan
  · intro area
    rw [hspans]
    apply (tiles_ascending hmin (hsorted area)).imp_of_mem
    intro c c' hc _ hle
    have hpos := (tile_bounds hmin hc).1
    exact ⟨by omega, hle⟩
  · intro area x
    rw [hspans, inSpans_tiles hmin (hsorted area)]
    simp only [Covers, mem_sortByAddress, mem_byArea, and_assoc]
    rfl
  · rintro g hg m hm harea ⟨x, hg1, hg2, hm1, hm2⟩
    exact mem_mappings_of_meets hin hnew hg hm harea ⟨hg1, hg2⟩ ⟨hm1, hm2⟩

/-- Two overlapping mappings, read in requests of two words. -/
def overlappingConfig : FinsConfig where
  mappings := [{ tagId := "total", area := 0x82, address := 100, wordCount := 4, dataType := .uint64 },
    { tagId := "low", area := 0x82, address := 102, wordCount := 2, dataType := .uint32 }]
  maxWordsPerRequest := 2

theorem read_groups_cover_overlapping :
    ∃ drv, FinsDriver.new overlappingConfig = some drv ∧
      ∀ area x, InSpans (areaSpans area drv.readGroups) x ↔
        ∃ m ∈ overlappingConfig.mappings, m.area = area ∧ m.address.toNat ≤ x ∧
          x < m.address.toNat + m.wordCount.toNat := by
  obtain ⟨drv, hnew, -, -, hcover, -⟩ :=
    @read_groups_cover_mapped overlappingConfig (by decide) (by decide) (by decide)
  exact ⟨drv, hnew, hcover⟩

end PlcBridge.Fins
