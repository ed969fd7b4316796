/-
  PlcBridge.Fins.Construction

  Whether `FinsDriver::new` ends, and whether it stays within its arithmetic.
  It runs before `validate`, so it meets limits and mappings that `validate`
  would reject.

  The loop that cuts a range into requests makes no progress with a request of
  zero words, which the cast to `u16` produces for limits beyond 65535.  The
  arithmetic of `u32` and `u16` is written down operation by operation
  (`newOps`); it fits unless a mapping ends beyond the address space, or an
  empty mapping stands alone.
-/
import PlcBridge.Fins.Groups
import PlcBridge.Lib.Arith

namespace PlcBridge.Fins

open PlcBridge.Lib

-- ============================================================================
-- The loop as it is written
-- ============================================================================

/-- `while remaining > 0` for at most `turns` turns; `none` while it still
    runs. -/
def splitLoop (maxWords : UInt32) : Nat → UInt32 → Nat → Option (List (UInt32 × UInt16))
  | 0, _, remaining => if remaining = 0 then some [] else none
  | turns + 1, chunkStart, remaining =>
      if remaining = 0 then some []
      else
        let chunkWords := UInt16.ofNat (min remaining maxWords.toNat)
        (splitLoop maxWords turns (chunkStart + chunkWords.toUInt32)
          (remaining - chunkWords.toNat)).map ((chunkStart, chunkWords) :: ·)

/-- Split a range, each loop for at most `turns` turns. -/
def splitWithin (turns : Nat) (maxWords : UInt32) (ar : UInt8 × Run) : Option (List ReadGroup) :=
  let totalWords := (ar.2.endAddr - ar.2.startAddr + 1).toNat
  (splitLoop maxWords turns ar.2.startAddr totalWords).map
    fun cs => cs.map fun c => ⟨ar.1, c.1, c.2, ar.2.mappings⟩

/-- `FinsDriver::new` with every splitting loop cut off after `turns` turns.
    The other loops go over the mappings once. -/
def FinsDriver.newWithin (turns : Nat) (config : FinsConfig) : Option FinsDriver :=
  (gather (splitWithin turns config.maxWordsPerRequest) (allRuns config.mappings)).map
    fun groups => ⟨config.mappings, groups⟩

variable {maxWords : UInt32}

/-- A request of zero words keeps the loop where it is. -/
theorem splitLoop_of_zero {remaining : Nat} (hrem : remaining ≠ 0)
    (hzero : UInt16.ofNat (min remaining maxWords.toNat) = 0) (turns : Nat) (start : UInt32) :
    splitLoop maxWords turns start remaining = none := by
  induction turns generalizing start with
  | zero => exact if_neg hrem
  | succ turns ih =>
      rw [splitLoop, if_neg hrem, hzero]
      simp only
      have hstay : remaining - (0 : UInt16).toNat = remaining := rfl
      rw [hstay, ih, Option.map_none]

theorem splitLoop_of_chunkLoop {fuel remaining : Nat} {start : UInt32} {cs : List (UInt32 × UInt16)}
    (h : chunkLoop maxWords fuel start remaining = some cs) {turns : Nat} (hturns : fuel ≤ turns) :
    splitLoop maxWords turns start remaining = some cs := by
  induction fuel generalizing start remaining cs turns with
  | zero =>
      rw [chunkLoop] at h
      by_cases hz : remaining = 0
      · rw [if_pos hz] at h
        cases turns with
        | zero => rw [splitLoop, if_pos hz, h]
        | succ turns => rw [splitLoop, if_pos hz, h]
      · rw [if_neg hz] at h
        exact absurd h (by simp)
  | succ fuel ih =>
      obtain ⟨turns, rfl⟩ : ∃ n, turns = n + 1 := ⟨turns - 1, by omega⟩
      rw [chunkLoop] at h
      rw [splitLoop]
      by_cases hz : remaining = 0
      · rw [if_pos hz] at h ⊢
        exact h
      · rw [if_neg hz] at h ⊢
        simp only at h ⊢
        by_cases hw : UInt16.ofNat (min remaining maxWords.toNat) = 0
        · rw [if_pos hw] at h
          exact absurd h (by simp)
        · rw [if_neg hw] at h
          obtain ⟨rest, hrest, rfl⟩ := Option.map_eq_some_iff.mp h
          rw [ih hrest (by omega)]
          rfl

/-- Where the loop ends, it makes at least one word of progress a turn. -/
theorem chunkLoop_of_splitLoop {turns remaining : Nat} {start : UInt32}
    {cs : List (UInt32 × UInt16)} (h : splitLoop maxWords turns start remaining = some cs)
    {fuel : Nat} (hfuel : remaining ≤ fuel) : chunkLoop maxWords fuel start remaining = some cs := by
  induction turns generalizing start remaining cs fuel with
  | zero =>
      rw [splitLoop] at h
      by_cases hz : remaining = 0
      · rw [if_pos hz] at h
        cases fuel with
        | zero => rw [chunkLoop, if_pos hz, h]
        | succ fuel => rw [chunkLoop, if_pos hz, h]
      · rw [if_neg hz] at h
        exact absurd h (by simp)
  | succ turns ih =>
      by_cases hz : remaining = 0
      · rw [splitLoop, if_pos hz] at h
        cases fuel with
        | zero => rw [chunkLoop, if_pos hz, h]
        | succ fuel => rw [chunkLoop, if_pos hz, h]
      · by_cases hw : UInt16.ofNat (min remaining maxWords.toNat) = 0
        · rw [splitLoop_of_zero hz hw] at h
          exact absurd h (by simp)
        · obtain ⟨fuel, rfl⟩ : ∃ n, fuel = n + 1 := ⟨fuel - 1, by omega⟩
          rw [splitLoop, if_neg hz] at h
          rw [chunkLoop, if_neg hz]
          simp only at h ⊢
          have hpos : 0 < (UInt16.ofNat (min remaining maxWords.toNat)).toNat :=
            Nat.pos_of_ne_zero fun h0 => hw (UInt16.toNat_inj.mp h0)
          obtain ⟨rest, hrest, rfl⟩ := Option.map_eq_some_iff.mp h
          rw [if_neg hw, ih hrest (by omega)]
          rfl

theorem splitRun_of_splitWithin {turns : Nat} (ar : UInt8 × Run) (gs : List ReadGroup)
    (h : splitWithin turns maxWords ar = some gs) : splitRun maxWords ar = some gs := by
  obtain ⟨cs, hcs, rfl⟩ := Option.map_eq_some_iff.mp h
  rw [splitRun, chunkLoop_of_splitLoop hcs le_rfl]
  rfl

theorem splitWithin_of_splitRun (ar : UInt8 × Run) (gs : List ReadGroup)
    (h : splitRun maxWords ar = some gs) : splitWithin (2 ^ 32) maxWords ar = some gs := by
  obtain ⟨cs, hcs, rfl⟩ := Option.map_eq_some_iff.mp h
  rw [splitWithin, splitLoop_of_chunkLoop hcs (UInt32.toNat_lt _).le]
  rfl

/-- The loops end exactly when the model of `FinsDriver::new` returns. -/
theorem newWithin_iff {config : FinsConfig} {drv : FinsDriver} :
    (∃ turns, FinsDriver.newWithin turns config = some drv) ↔ FinsDriver.new config = some drv := by
  constructor
  · rintro ⟨turns, h⟩
    obtain ⟨gs, hgs, rfl⟩ := Option.map_eq_some_iff.mp h
    rw [FinsDriver.new, gather_mono hgs splitRun_of_splitWithin]
    rfl
  · intro h
    obtain ⟨gs, hgs, rfl⟩ := Option.map_eq_some_iff.mp h
    refine ⟨2 ^ 32, ?_⟩
    rw [FinsDriver.newWithin, gather_mono hgs splitWithin_of_splitRun]
    rfl

-- ============================================================================
-- When construction ends
-- ============================================================================

/-- Some area has 65536 mapped words in a row. -/
def LongRun (mappings : List TagMapping) : Prop :=
  ∃ area start, ∀ x, start ≤ x → x < start + 65536 → Mapped mappings area x

theorem exists_long_run {mappings : List TagMapping} (hspace : ∀ m ∈ mappings, m.InSpace) :
    LongRun mappings ↔ ∃ ar ∈ allRuns mappings, 65536 ≤ ar.2.toBlock.len := by
  constructor
  · rintro ⟨area, start, hall⟩
    have hcov : ∀ x, start ≤ x → x < start + 65536 →
        Covers TagMapping.lo TagMapping.len (sortByAddress (byArea mappings area)) x := by
      intro x h1 h2
      obtain ⟨m, hm, hr⟩ := hall x h1 h2
      exact ⟨m, mem_sortByAddress.mpr hm, hr⟩
    obtain ⟨b, hb, hstart, hend⟩ :=
      exists_block_of_covered (sorted_byArea mappings area) (by omega) hcov
    rw [← (runs_byArea hspace area).2] at hb
    obtain ⟨r, hr, rfl⟩ := List.mem_map.mp hb
    exact ⟨(area, r), mem_allRuns.mpr hr, by show 65536 ≤ r.toBlock.len; omega⟩
  · rintro ⟨ar, har, hlen⟩
    obtain ⟨-, hsound, -⟩ := run_spec hspace har
    refine ⟨ar.1, ar.2.toBlock.start, ?_⟩
    intro x h1 h2
    obtain ⟨m, hm, hr⟩ := hsound.filled x h1 (by omega)
    exact ⟨m, mem_byArea.mpr (mem_run_mappings har hm), hr⟩

/-- The loop over one range ends exactly when the limit is not zero and the
    limit or the range fits `u16`. -/
theorem splitRun_iff {ar : UInt8 × Run} (hr : ar.2.InSpace) :
    (∃ gs, splitRun maxWords ar = some gs) ↔
      1 ≤ maxWords.toNat ∧ (maxWords.toNat ≤ 65535 ∨ ar.2.toBlock.len ≤ 65535) := by
  constructor
  · intro h
    have hcap := (groupsOf_spec hr h).1
    refine ⟨by rw [requestCap] at hcap; omega, ?_⟩
    by_contra hlarge
    obtain ⟨gs, hgs⟩ := h
    rw [splitRun, toNat_totalWords hr, chunkLoop_of_large (by omega) (by omega)] at hgs
    exact absurd hgs (by simp)
  · rintro ⟨hmin, hsmall⟩
    obtain ⟨cs, hcs⟩ := exists_chunkLoop hmin hsmall le_rfl ar.2.startAddr
    rw [splitRun, toNat_totalWords hr, hcs]
    exact ⟨_, rfl⟩

/-- Construction ends exactly when there is nothing to read, or the limit is
    not zero and either fits `u16` or no area has 65536 mapped words in a
    row. -/
theorem construction_ends_iff {config : FinsConfig}
    (hspace : ∀ m ∈ config.mappings, 1 ≤ m.wordCount.toNat ∧
      m.address.toNat + m.wordCount.toNat < 2 ^ 32) :
    (∃ turns drv, FinsDriver.newWithin turns config = some drv) ↔
      config.mappings = [] ∨
      (1 ≤ config.maxWordsPerRequest.toNat ∧
        (config.maxWordsPerRequest.toNat ≤ 65535 ∨ ¬ LongRun config.mappings)) := by
  have hin : ∀ m ∈ config.mappings, m.InSpace := fun m hm => ⟨(hspace m hm).1, (hspace m hm).2⟩
  rw [exists_comm]
  simp only [newWithin_iff]
  constructor
  · rintro ⟨drv, hnew⟩
    have hsplit := (new_eq_some hnew).2.1
    refine or_iff_not_imp_left.mpr fun hne => ?_
    obtain ⟨m, hm⟩ := List.exists_mem_of_ne_nil _ hne
    obtain ⟨ar, har, -, -⟩ := exists_run hm
    refine ⟨((splitRun_iff (run_spec hin har).1).mp (hsplit ar har)).1, ?_⟩
    refine or_iff_not_imp_left.mpr fun hmax hlong => ?_
    obtain ⟨ar', har', hlen⟩ := (exists_long_run hin).mp hlong
    have hsmall := ((splitRun_iff (run_spec hin har').1).mp (hsplit ar' har')).2
    omega
  · intro h
    apply exists_new_of_split
    intro ar har
    rw [splitRun_iff (run_spec hin har).1]
    rcases h with hnil | ⟨hmin, hsmall⟩
    · obtain ⟨m, hm, -⟩ := (run_spec hin har).2.1.filled ar.2.toBlock.start le_rfl
        (by simp only [Run.toBlock]; omega)
      have hmem := (mem_run_mappings har hm).1
      rw [hnil] at hmem
      exact absurd hmem (List.not_mem_nil)
    · refine ⟨hmin, hsmall.imp_right fun hlong => ?_⟩
      by_contra hlen
      exact hlong ((exists_long_run hin).mpr ⟨ar, har, by omega⟩)

/-- A single word, and a limit of zero words in the configuration file. -/
def zeroLimitConfig : FinsConfig where
  mappings := [{ tagId := "level", area := 0x82, address := 100, dataType := .uint16 }]
  maxWordsPerRequest := 0

theorem construction_ends_iff_zeroLimit :
    (∃ turns drv, FinsDriver.newWithin turns zeroLimitConfig = some drv) ↔
      zeroLimitConfig.mappings = [] ∨
      (1 ≤ zeroLimitConfig.maxWordsPerRequest.toNat ∧
        (zeroLimitConfig.maxWordsPerRequest.toNat ≤ 65535 ∨ ¬ LongRun zeroLimitConfig.mappings)) :=
  construction_ends_iff (by decide)

/-- The driver is never built. -/
theorem construction_hangs :
    (∀ m ∈ zeroLimitConfig.mappings, 1 ≤ m.wordCount.toNat ∧
      m.address.toNat + m.wordCount.toNat < 2 ^ 32) ∧
    ¬ ∃ turns drv, FinsDriver.newWithin turns zeroLimitConfig = some drv := by
  refine ⟨by decide, ?_⟩
  rintro ⟨turns, drv, h⟩
  have hnew := newWithin_iff.mp ⟨turns, h⟩
  have hin : ∀ m ∈ zeroLimitConfig.mappings, m.InSpace := by
    intro m hm
    rw [List.mem_singleton.mp hm]
    exact ⟨by decide, by decide⟩
  obtain ⟨ar, har, -, -⟩ := exists_run (List.mem_singleton_self _ : _ ∈ zeroLimitConfig.mappings)
  have hmin := ((splitRun_iff (run_spec hin har).1).mp ((new_eq_some hnew).2.1 ar har)).1
  exact absurd hmin (by decide)

-- ============================================================================
-- The arithmetic, operation by operation
-- ============================================================================

/-- `address + (word_count as u32) - 1`. -/
def TagMapping.endOps (m : TagMapping) : List PlainOp :=
  [.add 32 m.address.toNat m.wordCount.toNat, .sub (m.address + m.wordCount.toUInt32).toNat 1]

/-- The splitting loop: the cast of the words of a request, and the next
    `chunk_start`. -/
def chunkOps (maxWords : UInt32) : Nat → UInt32 → Nat → List PlainOp
  | 0, _, _ => []
  | fuel + 1, chunkStart, remaining =>
      if remaining = 0 then []
      else
        let chunkWords := UInt16.ofNat (min remaining maxWords.toNat)
        .cast 16 (min remaining maxWords.toNat) :: .add 32 chunkStart.toNat chunkWords.toNat ::
          chunkOps maxWords fuel (chunkStart + chunkWords.toUInt32) (remaining - chunkWords.toNat)

/-- `total_words` of a finished group, and its requests. -/
def Run.splitOps (maxWords : UInt32) (r : Run) : List PlainOp :=
  let totalWords := (r.endAddr - r.startAddr + 1).toNat
  .sub r.endAddr.toNat r.startAddr.toNat :: .add 32 (r.endAddr - r.startAddr).toNat 1 ::
    chunkOps maxWords totalWords r.startAddr totalWords

/-- The inner loop over `j` and what follows it: `end_addr + 1` for the next
    mapping, then its own end, joined to the group or opening the next one. -/
def runsFromOps (maxWords : UInt32) (r : Run) : List TagMapping → List PlainOp
  | [] => r.splitOps maxWords
  | m :: ms => .add 32 r.endAddr.toNat 1 ::
      if m.address ≤ r.endAddr + 1 then m.endOps ++ runsFromOps maxWords (r.push m) ms
      else r.splitOps maxWords ++ m.endOps ++ runsFromOps maxWords (Run.of m) ms

/-- The operations on the sorted mappings of one area. -/
def runsOps (maxWords : UInt32) : List TagMapping → List PlainOp
  | [] => []
  | m :: ms => m.endOps ++ runsFromOps maxWords (Run.of m) ms

/-- The `u32` and `u16` operations of `FinsDriver::new`. -/
def newOps (config : FinsConfig) : List PlainOp :=
  allAreas.flatMap fun area =>
    runsOps config.maxWordsPerRequest (sortByAddress (byArea config.mappings area))

theorem allFit_endOps (m : TagMapping) : AllFit m.endOps ↔ m.EndFits := by
  have hsub : m.lo + m.len < 2 ^ 32 →
      (m.address + m.wordCount.toUInt32).toNat = m.lo + m.len := by
    intro hlt
    rw [UInt32.toNat_add, UInt16.toNat_toUInt32]
    exact Nat.mod_eq_of_lt hlt
  simp only [TagMapping.endOps, allFit_cons, allFit_nil, and_true]
  constructor
  · rintro ⟨hadd, hone⟩
    have hlt : m.lo + m.len < 2 ^ 32 := hadd
    refine ⟨?_, hlt⟩
    rw [← hsub hlt]
    exact hone
  · intro hm
    refine ⟨hm.lt, ?_⟩
    show 1 ≤ _
    rw [hsub hm.lt]
    exact hm.pos

/-- Requests inside the address space, of at most 65535 words. -/
theorem allFit_chunkOps (hmax : maxWords.toNat ≤ 65535) {fuel remaining : Nat} {start : UInt32}
    (hspace : start.toNat + remaining < 2 ^ 32) : AllFit (chunkOps maxWords fuel start remaining) := by
  induction fuel generalizing start remaining with
  | zero => exact allFit_nil
  | succ fuel ih =>
      rw [chunkOps]
      by_cases hz : remaining = 0
      · rw [if_pos hz]
        exact allFit_nil
      · rw [if_neg hz]
        simp only [allFit_cons]
        have hwords : (UInt16.ofNat (min remaining maxWords.toNat)).toNat
            = min remaining maxWords.toNat := by
          rw [UInt16.toNat_ofNat']
          omega
        have hnext : (start + (UInt16.ofNat (min remaining maxWords.toNat)).toUInt32).toNat =
            start.toNat + min remaining maxWords.toNat := by
          rw [UInt32.toNat_add, UInt16.toNat_toUInt32, hwords]
          exact Nat.mod_eq_of_lt (by omega)
        refine ⟨?_, ?_, ih (by rw [hnext, hwords]; omega)⟩
        · show min remaining maxWords.toNat < 2 ^ 16
          omega
        · show start.toNat + _ < 2 ^ 32
          rw [hwords]
          omega

/-- A finished group can be split exactly when it is not empty. -/
theorem allFit_splitOps (hmax : maxWords.toNat ≤ 65535) {r : Run} (hr : r.EndFits) :
    AllFit (r.splitOps maxWords) ↔ 0 < r.block.len := by
  have hlt := hr.lt
  have hpos : 0 < r.block.len ↔ r.startAddr.toNat ≤ r.endAddr.toNat := by
    simp only [Run.block]
    omega
  rw [hpos]
  simp only [Run.splitOps, allFit_cons]
  refine ⟨fun h => h.1, fun hle => ?_⟩
  have hdiff : (r.endAddr - r.startAddr).toNat = r.endAddr.toNat - r.startAddr.toNat :=
    UInt32.toNat_sub_of_le _ _ (UInt32.le_iff_toNat_le.mpr hle)
  refine ⟨hle, ?_, allFit_chunkOps hmax ?_⟩
  · show _ + 1 < 2 ^ 32
    rw [hdiff]
    omega
  · rw [toNat_totalWords ⟨hle, hlt⟩]
    simp only [Run.toBlock]
    omega

/-- The end of every mapping is computed. -/
theorem endFits_of_runsFromOps {r : Run} {ms : List TagMapping}
    (h : AllFit (runsFromOps maxWords r ms)) : ∀ m ∈ ms, m.EndFits := by
  induction ms generalizing r with
  | nil => exact fun m hm => absurd hm (List.not_mem_nil)
  | cons m ms ih =>
      rw [runsFromOps, allFit_cons] at h
      have hboth : m.EndFits ∧ ∀ m' ∈ ms, m'.EndFits := by
        by_cases hjoin : m.address ≤ r.endAddr + 1
        · rw [if_pos hjoin, allFit_append, allFit_endOps] at h
          exact ⟨h.2.1, ih h.2.2⟩
        · rw [if_neg hjoin, allFit_append, allFit_append, allFit_endOps] at h
          exact ⟨h.2.1.2, ih h.2.2⟩
      exact List.forall_mem_cons.mpr hboth

theorem allFit_runsFromOps {r : Run} {ms : List TagMapping} (hr : r.EndFits)
    (hms : ∀ m ∈ ms, m.EndFits) (hsorted : ms.Pairwise fun a b => a.lo ≤ b.lo)
    (hstart : ∀ m ∈ ms, r.startAddr.toNat ≤ m.lo) :
    AllFit (runsFromOps maxWords r ms) ↔ ∀ r' ∈ runsFrom r ms, AllFit (r'.splitOps maxWords) := by
  induction ms generalizing r with
  | nil => simp [runsFromOps, runsFrom]
  | cons m ms ih =>
      rw [List.pairwise_cons] at hsorted
      have hm := hms m (List.mem_cons_self ..)
      have htail : ∀ m' ∈ ms, m'.EndFits := fun m' h => hms m' (List.mem_cons_of_mem m h)
      have hsucc : (PlainOp.add 32 r.endAddr.toNat 1).Fits := hr.lt
      have hend := (allFit_endOps m).mpr hm
      rw [runsFromOps, allFit_cons, runsFrom]
      by_cases hjoin : m.address ≤ r.endAddr + 1
      · have hpush := (Run.push_spec hr hm (hstart m (List.mem_cons_self ..))).1
        have hrec := ih hpush htail hsorted.2 fun m' h => hstart m' (List.mem_cons_of_mem m h)
        rw [if_pos hjoin, if_pos hjoin, allFit_append, hrec]
        exact ⟨fun h => h.2.2, fun h => ⟨hsucc, hend, h⟩⟩
      · have hrec := ih (Run.endFits_of hm) htail hsorted.2 hsorted.1
        rw [if_neg hjoin, if_neg hjoin, allFit_append, allFit_append, hrec, List.forall_mem_cons]
        exact ⟨fun h => ⟨h.2.1.1, h.2.2⟩, fun h => ⟨hsucc, ⟨h.1, hend⟩, h.2⟩⟩

/-- One area: every end fits, and no group is left empty. -/
theorem allFit_runsOps (hmax : maxWords.toNat ≤ 65535) {ms : List TagMapping}
    (hsorted : ms.Pairwise fun a b => a.lo ≤ b.lo) :
    AllFit (runsOps maxWords ms) ↔ (∀ m ∈ ms, m.EndFits) ∧
      ∀ m ∈ ms, m.len = 0 → ∃ p ∈ ms, 0 < p.len ∧ p.lo ≤ m.lo ∧ m.lo ≤ p.lo + p.len := by
  have hends : AllFit (runsOps maxWords ms) → ∀ m ∈ ms, m.EndFits := by
    intro h
    cases ms with
    | nil => exact fun m hm => absurd hm (List.not_mem_nil)
    | cons m ms =>
        rw [runsOps, allFit_append, allFit_endOps] at h
        exact List.forall_mem_cons.mpr ⟨h.1, endFits_of_runsFromOps h.2⟩
  have hgroups : (∀ m ∈ ms, m.EndFits) →
      (AllFit (runsOps maxWords ms) ↔ ∀ r ∈ runs ms, AllFit (r.splitOps maxWords)) := by
    intro hms
    cases ms with
    | nil => simp [runsOps, runs]
    | cons m ms =>
        rw [List.pairwise_cons] at hsorted
        obtain ⟨hm, htail⟩ := List.forall_mem_cons.mp hms
        rw [runsOps, allFit_append, allFit_endOps,
          allFit_runsFromOps (Run.endFits_of hm) htail hsorted.2 hsorted.1]
        exact ⟨fun h => h.2, fun h => ⟨hm, h⟩⟩
  have hblocks : (∀ m ∈ ms, m.EndFits) → ((∀ r ∈ runs ms, AllFit (r.splitOps maxWords)) ↔
      ∀ b ∈ coalesce TagMapping.lo TagMapping.len ms, 0 < b.len) := by
    intro hms
    obtain ⟨hfits, hmap⟩ := runs_block hms hsorted
    rw [← hmap, List.forall_mem_map]
    exact forall₂_congr fun r hr => allFit_splitOps hmax (hfits r hr)
  rw [← coalesce_pos_iff hsorted]
  refine ⟨fun h => ?_, fun h => ?_⟩
  · have hms := hends h
    exact ⟨hms, (hblocks hms).mp ((hgroups hms).mp h)⟩
  · exact (hgroups h.1).mpr ((hblocks h.1).mpr h.2)

/-- The mapping ends inside the address space, and if it is empty, it is not at
    address zero and touches a mapping of its area that is not. -/
def TagMapping.Placed (mappings : List TagMapping) (m : TagMapping) : Prop :=
  m.address.toNat + m.wordCount.toNat < 2 ^ 32 ∧
  (m.wordCount.toNat = 0 → 0 < m.address.toNat ∧ ∃ p ∈ mappings, p.area = m.area ∧
    0 < p.wordCount.toNat ∧ p.address.toNat ≤ m.address.toNat ∧
    m.address.toNat ≤ p.address.toNat + p.wordCount.toNat)

/-- Construction stays within its arithmetic exactly when every mapping is
    placed. -/
theorem allFit_newOps {config : FinsConfig} (hmax : config.maxWordsPerRequest.toNat ≤ 65535) :
    AllFit (newOps config) ↔ ∀ m ∈ config.mappings, m.Placed config.mappings := by
  rw [newOps, allFit_flatMap]
  simp only [allFit_runsOps hmax (sorted_byArea config.mappings _), mem_sortByAddress]
  constructor
  · intro h m hm
    obtain ⟨hends, htouch⟩ := h m.area (mem_allAreas m.area)
    have hmem : m ∈ byArea config.mappings m.area := mem_byArea.mpr ⟨hm, rfl⟩
    have hpos := (hends m hmem).pos
    refine ⟨(hends m hmem).lt, fun hzero => ⟨?_, ?_⟩⟩
    · simp only [TagMapping.lo, TagMapping.len] at hpos
      omega
    · obtain ⟨p, hp, hr⟩ := htouch m hmem hzero
      exact ⟨p, (mem_byArea.mp hp).1, (mem_byArea.mp hp).2, hr⟩
  · intro h area _
    refine ⟨?_, ?_⟩
    · intro m hm
      obtain ⟨hlt, hzero⟩ := h m (mem_byArea.mp hm).1
      refine ⟨?_, hlt⟩
      simp only [TagMapping.lo, TagMapping.len]
      by_contra hnone
      have := (hzero (by omega)).1
      omega
    · intro m hm hzero
      obtain ⟨p, hp, harea, hr⟩ := ((h m (mem_byArea.mp hm).1).2 hzero).2
      exact ⟨p, mem_byArea.mpr ⟨hp, harea.trans (mem_byArea.mp hm).2⟩, hr⟩

end PlcBridge.Fins
