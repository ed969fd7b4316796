/-
  PlcBridge.Lib.Spans

  Ranges of natural-number addresses: reading a table over a range, joining
  the ranges of a sorted list into maximal contiguous blocks, and cutting a
  block into chunks of bounded length.

  * `window t start len` is the list of values of `t` on `[start, start+len)`.
  * `coalesce lo len items` joins items, sorted by `lo`, whose ranges
    `[lo a, lo a + len a)` touch or overlap.  Every block is filled by its
    members (`Block.Sound`), two blocks are separated by a gap
    (`coalesce_gap`), and so a block starts where the contiguous run of
    covered addresses around each of its members starts (`IsRunStart`).
  * `chunks cap start len` cuts `[start, start+len)` into pieces of `cap`
    addresses, the last one possibly shorter.
  * `tiles lo len cap items` joins and then cuts: its pieces ascend and cover
    exactly the addresses of the items (`inSpans_tiles`).
-/
import Mathlib.Data.List.Basic
import Mathlib.Data.List.GetD
import Mathlib.Data.List.Pairwise
import Mathlib.Tactic.Ring

namespace PlcBridge.Lib

-- ============================================================================
-- Windows of a table
-- ============================================================================

section Window

variable {α : Type*}

/-- The values of `t` on `[start, start + len)`, in order. -/
def window (t : Nat → α) (start len : Nat) : List α := (List.range' start len).map t

@[simp] theorem length_window (t : Nat → α) (start len : Nat) :
    (window t start len).length = len := by
  simp [window]

@[simp] theorem window_zero (t : Nat → α) (start : Nat) : window t start 0 = [] := rfl

theorem window_succ (t : Nat → α) (start len : Nat) :
    window t start (len + 1) = t start :: window t (start + 1) len := by
  simp [window, List.range'_succ]

theorem getElem_window (t : Nat → α) (start len i : Nat) (h : i < (window t start len).length) :
    (window t start len)[i] = t (start + i) := by
  simp [window]

/-- Cutting a shorter window out of a window. -/
theorem take_drop_window (t : Nat → α) (start len off n : Nat) (h : off + n ≤ len) :
    ((window t start len).drop off).take n = window t (start + off) n := by
  apply List.ext_getElem
  · simp
    omega
  · intro i h1 h2
    rw [List.getElem_take, List.getElem_drop, getElem_window, getElem_window]
    congr 1
    omega

theorem drop_window (t : Nat → α) (start len k : Nat) :
    (window t start len).drop k = window t (start + k) (len - k) := by
  apply List.ext_getElem
  · simp
  · intro i h1 h2
    rw [List.getElem_drop, getElem_window, getElem_window]
    congr 1
    omega

theorem window_congr {t t' : Nat → α} {start len : Nat}
    (h : ∀ x, start ≤ x → x < start + len → t x = t' x) :
    window t start len = window t' start len := by
  apply List.map_congr_left
  intro x hx
  rw [List.mem_range'_1] at hx
  exact h x hx.1 hx.2

end Window

/-- The table after `ws` was stored from address `start` on. -/
def overwrite (t : Nat → α) (start : Nat) (ws : List α) : Nat → α :=
  fun x => if start ≤ x then ws.getD (x - start) (t x) else t x

/-- Storing touches the addresses of the stored words only. -/
theorem overwrite_of_not_mem {t : Nat → α} {start x : Nat} {ws : List α}
    (h : x < start ∨ start + ws.length ≤ x) : overwrite t start ws x = t x := by
  unfold overwrite
  by_cases hx : start ≤ x
  · rw [if_pos hx, List.getD_eq_default _ _ (by omega)]
  · rw [if_neg hx]

/-- Reading from the start of a store: the stored words, then what was there
    before. -/
theorem window_overwrite (t : Nat → α) (start : Nat) (ws : List α) {len : Nat}
    (h : ws.length ≤ len) :
    window (overwrite t start ws) start len =
      ws ++ window t (start + ws.length) (len - ws.length) := by
  apply List.ext_getElem
  · rw [length_window, List.length_append, length_window]
    omega
  · intro i h1 h2
    rw [getElem_window, overwrite, if_pos (by omega), Nat.add_sub_cancel_left]
    by_cases hi : i < ws.length
    · rw [List.getElem_append_left hi, List.getD_eq_getElem _ _ hi]
    · rw [List.getElem_append_right (by omega), getElem_window, List.getD_eq_default _ _ (by omega)]
      congr 1
      omega

/-- Words stored apart from a range leave it as it was. -/
theorem window_overwrite_apart {t : Nat → α} {start lo n : Nat} {ws : List α}
    (h : lo + n ≤ start ∨ start + ws.length ≤ lo) :
    window (overwrite t start ws) lo n = window t lo n := by
  apply window_congr
  intro x h1 h2
  exact overwrite_of_not_mem (by omega)

/-- Words stored over an address of a range change it, for some table. -/
theorem exists_window_overwrite_ne [Nontrivial α] {start lo n a : Nat} {ws : List α} (h1 : lo ≤ a)
    (h2 : a < lo + n) (h3 : start ≤ a) (h4 : a < start + ws.length) :
    ∃ t : Nat → α, window (overwrite t start ws) lo n ≠ window t lo n := by
  have hlt : a - start < ws.length := by omega
  obtain ⟨y, hy⟩ := exists_ne (ws.get ⟨a - start, hlt⟩)
  refine ⟨fun _ => y, ?_⟩
  intro heq
  -- Both windows at address `a`.
  have hi : a - lo < (window (fun _ : Nat => y) lo n).length := by
    rw [length_window]
    omega
  have hword := List.getElem_of_eq heq (by rw [heq]; exact hi)
  rw [getElem_window, getElem_window, Nat.add_sub_cancel' h1, overwrite, if_pos h3,
    List.getD_eq_getElem _ _ hlt] at hword
  exact hy hword.symm

-- ============================================================================
-- Joining sorted ranges into blocks
-- ============================================================================

/-- A contiguous range together with the items it was joined from. -/
structure Block (α : Type*) where
  start : Nat
  len : Nat
  members : List α

section Coalesce

variable {α : Type*} (lo len : α → Nat)

/-- Address `x` lies in the range of some item of `l`. -/
def Covers (l : List α) (x : Nat) : Prop := ∃ a ∈ l, lo a ≤ x ∧ x < lo a + len a

/-- The block of a single item. -/
def Block.of (a : α) : Block α := ⟨lo a, len a, [a]⟩

/-- Extend a block by an item that starts inside it or right behind it. -/
def Block.absorb (b : Block α) (a : α) : Block α :=
  ⟨b.start, max (b.start + b.len) (lo a + len a) - b.start, b.members ++ [a]⟩

/-- Join the items of a sorted list to the current block, opening a new block
    at every gap. -/
def coalesceFrom (b : Block α) : List α → List (Block α)
  | [] => [b]
  | a :: as =>
      if lo a ≤ b.start + b.len then coalesceFrom (b.absorb lo len a) as
      else b :: coalesceFrom (Block.of lo len a) as

/-- The maximal contiguous blocks of a list sorted by `lo`. -/
def coalesce : List α → List (Block α)
  | [] => []
  | a :: as => coalesceFrom lo len (Block.of lo len a) as

/-- A block contains the ranges of its members and is filled by them. -/
structure Block.Sound (b : Block α) : Prop where
  inside : ∀ a ∈ b.members, b.start ≤ lo a ∧ lo a + len a ≤ b.start + b.len
  filled : ∀ x, b.start ≤ x → x < b.start + b.len → Covers lo len b.members x

variable {lo len}

theorem Block.sound_of (a : α) : (Block.of lo len a).Sound lo len where
  inside := by
    intro a' ha'
    obtain rfl := List.mem_singleton.mp ha'
    exact ⟨le_rfl, le_rfl⟩
  filled := by
    intro x h1 h2
    exact ⟨a, List.mem_singleton_self a, h1, h2⟩

theorem Block.Sound.absorb {b : Block α} {a : α} (hb : b.Sound lo len)
    (h1 : b.start ≤ lo a) (h2 : lo a ≤ b.start + b.len) :
    (b.absorb lo len a).Sound lo len where
  inside := by
    intro a' ha'
    simp only [Block.absorb, List.mem_append, List.mem_singleton] at ha' ⊢
    rcases ha' with ha' | rfl
    · have := hb.inside a' ha'
      omega
    · omega
  filled := by
    intro x hx1 hx2
    simp only [Block.absorb] at hx1 hx2 ⊢
    by_cases hx : x < b.start + b.len
    · obtain ⟨a', ha', hr⟩ := hb.filled x hx1 hx
      exact ⟨a', List.mem_append_left _ ha', hr⟩
    · exact ⟨a, by simp, by omega, by omega⟩

/-- The items are distributed over the blocks in order, none lost. -/
theorem coalesceFrom_members (b : Block α) (as : List α) :
    (coalesceFrom lo len b as).flatMap Block.members = b.members ++ as := by
  induction as generalizing b with
  | nil => simp [coalesceFrom]
  | cons a as ih =>
      simp only [coalesceFrom]
      by_cases h : lo a ≤ b.start + b.len
      · rw [if_pos h, ih]
        simp [Block.absorb]
      · rw [if_neg h, List.flatMap_cons, ih]
        simp [Block.of]

theorem coalesceFrom_sound {b : Block α} {as : List α} (hb : b.Sound lo len)
    (hsorted : as.Pairwise fun a a' => lo a ≤ lo a') (hstart : ∀ a ∈ as, b.start ≤ lo a) :
    ∀ b' ∈ coalesceFrom lo len b as, b'.Sound lo len := by
  induction as generalizing b with
  | nil =>
      intro b' hb'
      obtain rfl := List.mem_singleton.mp hb'
      exact hb
  | cons a as ih =>
      rw [List.pairwise_cons] at hsorted
      simp only [coalesceFrom]
      by_cases h : lo a ≤ b.start + b.len
      · rw [if_pos h]
        exact ih (hb.absorb (hstart a (by simp)) h) hsorted.2
          (fun a' ha' => hstart a' (List.mem_cons_of_mem a ha'))
      · rw [if_neg h]
        intro b' hb'
        rcases List.mem_cons.mp hb' with rfl | hb'
        · exact hb
        · exact ih (Block.sound_of a) hsorted.2 hsorted.1 b' hb'

theorem le_start_of_mem_coalesceFrom {b : Block α} {as : List α} {lb : Nat} (hb : lb ≤ b.start)
    (has : ∀ a ∈ as, lb ≤ lo a) :
    ∀ b' ∈ coalesceFrom lo len b as, lb ≤ b'.start := by
  induction as generalizing b with
  | nil =>
      intro b' hb'
      obtain rfl := List.mem_singleton.mp hb'
      exact hb
  | cons a as ih =>
      have htail : ∀ a' ∈ as, lb ≤ lo a' := fun a' ha' => has a' (List.mem_cons_of_mem a ha')
      simp only [coalesceFrom]
      by_cases h : lo a ≤ b.start + b.len
      · rw [if_pos h]
        exact ih hb htail
      · rw [if_neg h]
        intro b' hb'
        rcases List.mem_cons.mp hb' with rfl | hb'
        · exact hb
        · exact ih (has a (by simp)) htail b' hb'

theorem coalesceFrom_gap {b : Block α} {as : List α}
    (hsorted : as.Pairwise fun a a' => lo a ≤ lo a') :
    (coalesceFrom lo len b as).Pairwise fun c d => c.start + c.len < d.start := by
  induction as generalizing b with
  | nil => exact List.pairwise_singleton _ b
  | cons a as ih =>
      rw [List.pairwise_cons] at hsorted
      simp only [coalesceFrom]
      by_cases h : lo a ≤ b.start + b.len
      · rw [if_pos h]
        exact ih hsorted.2
      · rw [if_neg h, List.pairwise_cons]
        refine ⟨fun d hd => ?_, ih hsorted.2⟩
        have hlo : lo a ≤ d.start := le_start_of_mem_coalesceFrom le_rfl hsorted.1 d hd
        omega

variable (lo len) in
theorem coalesce_members (l : List α) : (coalesce lo len l).flatMap Block.members = l := by
  cases l with
  | nil => rfl
  | cons a as =>
      rw [coalesce, coalesceFrom_members]
      rfl

variable (len) in
theorem coalesce_sound {l : List α} (hsorted : l.Pairwise fun a a' => lo a ≤ lo a') :
    ∀ b ∈ coalesce lo len l, b.Sound lo len := by
  cases l with
  | nil => intro b hb; exact absurd hb (List.not_mem_nil)
  | cons a as =>
      rw [List.pairwise_cons] at hsorted
      exact coalesceFrom_sound (Block.sound_of a) hsorted.2 hsorted.1

theorem coalesce_gap {l : List α} (hsorted : l.Pairwise fun a a' => lo a ≤ lo a') :
    (coalesce lo len l).Pairwise fun c d => c.start + c.len < d.start := by
  cases l with
  | nil => exact List.Pairwise.nil
  | cons a as => exact coalesceFrom_gap (List.pairwise_cons.mp hsorted).2

/-- Two different blocks leave at least one address between them. -/
theorem coalesce_separated {l : List α} (hsorted : l.Pairwise fun a a' => lo a ≤ lo a')
    {b b' : Block α} (hb : b ∈ coalesce lo len l) (hb' : b' ∈ coalesce lo len l) (hne : b ≠ b') :
    b.start + b.len < b'.start ∨ b'.start + b'.len < b.start := by
  have hsym : (coalesce lo len l).Pairwise fun c d =>
      c.start + c.len < d.start ∨ d.start + d.len < c.start :=
    (coalesce_gap hsorted).imp Or.inl
  have : Std.Symm fun c d : Block α =>
      c.start + c.len < d.start ∨ d.start + d.len < c.start := ⟨fun _ _ h => h.symm⟩
  exact hsym.forall hb hb' hne

theorem mem_of_mem_coalesce {l : List α} {b : Block α} {a : α} (hb : b ∈ coalesce lo len l)
    (ha : a ∈ b.members) : a ∈ l := by
  rw [← coalesce_members lo len l]
  exact List.mem_flatMap.mpr ⟨b, hb, ha⟩

variable (lo len) in
/-- Every item ends up in a block. -/
theorem exists_block_of_mem {l : List α} {a : α} (ha : a ∈ l) :
    ∃ b ∈ coalesce lo len l, a ∈ b.members := by
  rw [← coalesce_members lo len l] at ha
  exact List.mem_flatMap.mp ha

theorem members_ne_nil_of_mem_coalesceFrom {b : Block α} {as : List α} (hb : b.members ≠ []) :
    ∀ b' ∈ coalesceFrom lo len b as, b'.members ≠ [] := by
  induction as generalizing b with
  | nil =>
      intro b' hb'
      obtain rfl := List.mem_singleton.mp hb'
      exact hb
  | cons a as ih =>
      simp only [coalesceFrom]
      by_cases h : lo a ≤ b.start + b.len
      · rw [if_pos h]
        exact ih (by simp [Block.absorb])
      · rw [if_neg h]
        intro b' hb'
        rcases List.mem_cons.mp hb' with rfl | hb'
        · exact hb
        · exact ih (by simp [Block.of]) b' hb'

theorem exists_mem_of_mem_coalesce {l : List α} {b : Block α} (hb : b ∈ coalesce lo len l) :
    ∃ a, a ∈ b.members := by
  cases l with
  | nil => exact absurd hb (List.not_mem_nil)
  | cons a as =>
      exact List.exists_mem_of_ne_nil _
        (members_ne_nil_of_mem_coalesceFrom (by simp [Block.of]) b hb)

/-- No block is empty exactly when every empty item touches one that is not. -/
theorem coalesce_pos_iff {l : List α} (hsorted : l.Pairwise fun a a' => lo a ≤ lo a') :
    (∀ b ∈ coalesce lo len l, 0 < b.len) ↔
      ∀ a ∈ l, len a = 0 → ∃ p ∈ l, 0 < len p ∧ lo p ≤ lo a ∧ lo a ≤ lo p + len p := by
  have hsound := coalesce_sound len hsorted
  constructor
  · intro hpos a ha hzero
    obtain ⟨b, hb, hab⟩ := exists_block_of_mem lo len ha
    have hin := (hsound b hb).inside a hab
    have hlen := hpos b hb
    -- The item sits at an address of the block, or right behind its last one.
    obtain ⟨p, hp, h1, h2⟩ := (hsound b hb).filled (min (lo a) (b.start + b.len - 1)) (by omega)
      (by omega)
    have hinp := (hsound b hb).inside p hp
    exact ⟨p, mem_of_mem_coalesce hb hp, by omega, by omega, by omega⟩
  · intro htouch b hb
    by_contra hlen
    obtain ⟨a, ha⟩ := exists_mem_of_mem_coalesce hb
    have hin := (hsound b hb).inside a ha
    obtain ⟨p, hp, hpos, h1, h2⟩ := htouch a (mem_of_mem_coalesce hb ha) (by omega)
    obtain ⟨b', hb', hpb⟩ := exists_block_of_mem lo len hp
    have hin' := (hsound b' hb').inside p hpb
    have hne : b ≠ b' := by
      rintro rfl
      omega
    have hsep := coalesce_separated hsorted hb hb' hne
    omega

/-- Covered addresses without a gap lie in one block. -/
theorem exists_block_of_covered {l : List α} (hsorted : l.Pairwise fun a a' => lo a ≤ lo a')
    {s n : Nat} (hn : 0 < n) (h : ∀ x, s ≤ x → x < s + n → Covers lo len l x) :
    ∃ b ∈ coalesce lo len l, b.start ≤ s ∧ s + n ≤ b.start + b.len := by
  have hsound := coalesce_sound len hsorted
  obtain ⟨a, ha, h1, h2⟩ := h s le_rfl (by omega)
  obtain ⟨b, hb, hab⟩ := exists_block_of_mem lo len ha
  have hin := (hsound b hb).inside a hab
  refine ⟨b, hb, by omega, ?_⟩
  by_contra hshort
  -- The address right behind the block would be covered from another block.
  obtain ⟨a', ha', h1', h2'⟩ := h (b.start + b.len) (by omega) (by omega)
  obtain ⟨b', hb', hab'⟩ := exists_block_of_mem lo len ha'
  have hin' := (hsound b' hb').inside a' hab'
  have hne : b ≠ b' := by
    rintro rfl
    omega
  have hsep := coalesce_separated hsorted hb hb' hne
  omega

end Coalesce

-- ============================================================================
-- Where a contiguous run starts
-- ============================================================================

/-- `s` is the first address of the contiguous run of `P`-addresses that
    contains `x`. -/
structure IsRunStart (P : Nat → Prop) (s x : Nat) : Prop where
  le : s ≤ x
  run : ∀ y, s ≤ y → y ≤ x → P y
  first : ∀ y, y + 1 = s → ¬ P y

theorem IsRunStart.unique {P : Nat → Prop} {s s' x : Nat} (h : IsRunStart P s x)
    (h' : IsRunStart P s' x) : s = s' := by
  have key : ∀ {u v : Nat}, IsRunStart P u x → IsRunStart P v x → v ≤ u := by
    intro u v hu hv
    by_contra hlt
    have hpos : v - 1 + 1 = v := by omega
    have hle := hv.le
    exact hv.first (v - 1) hpos (hu.run (v - 1) (by omega) (by omega))
  exact Nat.le_antisymm (key h' h) (key h h')

/-- `[s, s + n)` is the contiguous run of `P`-addresses that contains `x`. -/
structure IsRun (P : Nat → Prop) (s n x : Nat) : Prop extends IsRunStart P s x where
  lt : x < s + n
  filled : ∀ y, x ≤ y → y < s + n → P y
  ends : ¬ P (s + n)

theorem IsRun.unique {P : Nat → Prop} {s s' n n' x : Nat} (h : IsRun P s n x)
    (h' : IsRun P s' n' x) : s = s' ∧ n = n' := by
  have hs := h.toIsRunStart.unique h'.toIsRunStart
  subst hs
  have key : ∀ {u v : Nat}, IsRun P s u x → IsRun P s v x → v ≤ u := by
    intro u v hu hv
    by_contra hlt
    have hle := hu.lt
    exact hu.ends (hv.filled (s + u) (by omega) (by omega))
  exact ⟨rfl, Nat.le_antisymm (key h' h) (key h h')⟩

/-- A run depends on the addresses up to the one behind it. -/
theorem IsRun.congr {P Q : Nat → Prop} {s n x : Nat} (h : IsRun P s n x)
    (hPQ : ∀ y, y ≤ s + n → (P y ↔ Q y)) : IsRun Q s n x where
  le := h.le
  run := fun y h1 h2 => (hPQ y (by have := h.lt; omega)).mp (h.run y h1 h2)
  first := fun y hy hQ => h.first y hy ((hPQ y (by omega)).mpr hQ)
  lt := h.lt
  filled := fun y h1 h2 => (hPQ y (by omega)).mp (h.filled y h1 h2)
  ends := fun hQ => h.ends ((hPQ _ le_rfl).mpr hQ)

section RunStart

variable {α : Type*} {lo len : α → Nat}

/-- The block an item was joined into starts where the contiguous run of
    covered addresses around the item starts. -/
theorem isRunStart_of_mem_coalesce {l : List α} {b : Block α} {a : α}
    (hsorted : l.Pairwise fun a a' => lo a ≤ lo a')
    (hb : b ∈ coalesce lo len l) (ha : a ∈ b.members) (hlen : 0 < len a) :
    IsRunStart (Covers lo len l) b.start (lo a) := by
  have hsound := coalesce_sound len hsorted
  have hin := (hsound b hb).inside a ha
  refine ⟨hin.1, ?_, ?_⟩
  · intro y h1 h2
    obtain ⟨a', ha', hr⟩ := (hsound b hb).filled y h1 (by omega)
    exact ⟨a', mem_of_mem_coalesce hb ha', hr⟩
  · -- An item covering the address before the block would sit in another
    -- block, and blocks keep a gap of at least one address.
    rintro y hy ⟨a', ha', h1, h2⟩
    obtain ⟨b', hb', hm'⟩ := exists_block_of_mem lo len ha'
    have hin' := (hsound b' hb').inside a' hm'
    by_cases hbb : b' = b
    · subst hbb
      omega
    · have hsep := coalesce_separated hsorted hb' hb hbb
      omega

/-- The block an item was joined into is the contiguous run around it. -/
theorem isRun_of_mem_coalesce {l : List α} {b : Block α} {a : α}
    (hsorted : l.Pairwise fun a a' => lo a ≤ lo a')
    (hb : b ∈ coalesce lo len l) (ha : a ∈ b.members) (hlen : 0 < len a) :
    IsRun (Covers lo len l) b.start b.len (lo a) := by
  have hsound := coalesce_sound len hsorted
  have hin := (hsound b hb).inside a ha
  refine ⟨isRunStart_of_mem_coalesce hsorted hb ha hlen, by omega, ?_, ?_⟩
  · intro y h1 h2
    obtain ⟨a', ha', hr⟩ := (hsound b hb).filled y (by omega) h2
    exact ⟨a', mem_of_mem_coalesce hb ha', hr⟩
  · rintro ⟨a', ha', h1, h2⟩
    obtain ⟨b', hb', hm'⟩ := exists_block_of_mem lo len ha'
    have hin' := (hsound b' hb').inside a' hm'
    by_cases hbb : b' = b
    · subst hbb
      omega
    · have hsep := coalesce_separated hsorted hb' hb hbb
      omega

/-- A block ends where one of its members does. -/
theorem exists_end_of_mem_coalesce {l : List α} {b : Block α}
    (hsorted : l.Pairwise fun a a' => lo a ≤ lo a') (hb : b ∈ coalesce lo len l) (hpos : 0 < b.len) :
    ∃ a ∈ b.members, lo a + len a = b.start + b.len := by
  obtain ⟨hinside, hfilled⟩ := coalesce_sound len hsorted b hb
  obtain ⟨a, ha, h1, h2⟩ := hfilled (b.start + b.len - 1) (by omega) (by omega)
  have hin := hinside a ha
  exact ⟨a, ha, by omega⟩

/-- No item ends behind the last block. -/
theorem le_end_of_coalesce {l : List α} {bs : List (Block α)} {b : Block α}
    (hsorted : l.Pairwise fun a a' => lo a ≤ lo a') (hsplit : coalesce lo len l = bs ++ [b]) {a : α}
    (ha : a ∈ l) : lo a + len a ≤ b.start + b.len := by
  have hgap := @coalesce_gap _ lo len l hsorted
  obtain ⟨b', hb', hm'⟩ := exists_block_of_mem lo len ha
  have hin := (coalesce_sound len hsorted b' hb').inside a hm'
  rw [hsplit] at hgap hb'
  rcases List.mem_append.mp hb' with hbs | hlast
  · have := (List.pairwise_append.mp hgap).2.2 b' hbs b (List.mem_singleton_self b)
    omega
  · obtain rfl := List.mem_singleton.mp hlast
    exact hin.2

end RunStart

-- ============================================================================
-- Cutting a block into chunks
-- ============================================================================

/-- `[start, start + len)` cut into pieces `(first address, length)` of `cap`
    addresses each, the last one possibly shorter. -/
def chunks (cap start len : Nat) : List (Nat × Nat) :=
  (List.range ((len + cap - 1) / cap)).map fun k => (start + k * cap, min cap (len - k * cap))

@[simp] theorem chunks_zero (cap start : Nat) : chunks cap start 0 = [] := by
  by_cases hcap : cap = 0
  · simp [chunks, hcap]
  · have hdiv : (0 + cap - 1) / cap = 0 := Nat.div_eq_of_lt (by omega)
    rw [chunks, hdiv]
    rfl

/-- The first chunk and the chunks of what it leaves. -/
theorem chunks_of_pos {cap start len : Nat} (hcap : 0 < cap) (hlen : 0 < len) :
    chunks cap start len
      = (start, min cap len) :: chunks cap (start + min cap len) (len - min cap len) := by
  by_cases h : len ≤ cap
  · have hdiv : (len + cap - 1) / cap = 1 := by
      rw [show len + cap - 1 = len - 1 + cap from by omega, Nat.add_div_right _ hcap,
        Nat.div_eq_of_lt (by omega)]
    rw [Nat.min_eq_right h, Nat.sub_self, chunks_zero, chunks, hdiv]
    simp [h]
  · have hdiv : (len + cap - 1) / cap = (len - cap + cap - 1) / cap + 1 := by
      rw [show len + cap - 1 = len - cap + cap - 1 + cap from by omega, Nat.add_div_right _ hcap]
    rw [Nat.min_eq_left (by omega), chunks, hdiv, List.range_succ_eq_map, List.map_cons,
      List.map_map, chunks]
    congr 1
    · simp
      omega
    · apply List.map_congr_left
      intro k _
      simp only [Function.comp_apply, Nat.succ_eq_add_one, Nat.add_mul, Nat.one_mul, Prod.mk.injEq]
      omega

theorem mem_chunks {cap start len : Nat} (hcap : 0 < cap) {c : Nat × Nat} :
    c ∈ chunks cap start len ↔
      ∃ k, k * cap < len ∧ c = (start + k * cap, min cap (len - k * cap)) := by
  simp only [chunks, List.mem_map, List.mem_range]
  constructor
  · rintro ⟨k, hk, rfl⟩
    refine ⟨k, ?_, rfl⟩
    have h := (Nat.lt_div_iff_mul_lt hcap).mp hk
    omega
  · rintro ⟨k, hk, rfl⟩
    refine ⟨k, ?_, rfl⟩
    rw [Nat.lt_div_iff_mul_lt hcap]
    omega

/-- The chunks ascend without overlap. -/
theorem chunks_ascending (cap start len : Nat) :
    (chunks cap start len).Pairwise fun c d => c.1 + c.2 ≤ d.1 := by
  rw [chunks, List.pairwise_map]
  apply List.pairwise_lt_range.imp
  intro i j hij
  have hmul : (i + 1) * cap ≤ j * cap := Nat.mul_le_mul_right cap hij
  rw [Nat.add_mul, Nat.one_mul] at hmul
  have := Nat.min_le_left cap (len - i * cap)
  simp only
  omega

/-- Every address of the block lies in a chunk; the chunks split around it. -/
theorem exists_chunk_split {cap start len x : Nat} (hcap : 0 < cap) (h1 : start ≤ x)
    (h2 : x < start + len) :
    ∃ l₁ c l₂, chunks cap start len = l₁ ++ c :: l₂ ∧ c.1 ≤ x ∧ x < c.1 + c.2 ∧
      (∀ d ∈ l₁, d.1 + d.2 ≤ c.1) ∧ ∀ d ∈ l₂, c.1 + c.2 ≤ d.1 := by
  have hmod := Nat.div_add_mod (x - start) cap
  have hlt := Nat.mod_lt (x - start) hcap
  have hcomm := Nat.mul_comm cap ((x - start) / cap)
  have hmem : (start + (x - start) / cap * cap,
      min cap (len - (x - start) / cap * cap)) ∈ chunks cap start len :=
    (mem_chunks hcap).mpr ⟨(x - start) / cap, by omega, rfl⟩
  obtain ⟨l₁, l₂, hsplit⟩ := List.append_of_mem hmem
  have hasc := chunks_ascending cap start len
  rw [hsplit, List.pairwise_append, List.pairwise_cons] at hasc
  refine ⟨l₁, _, l₂, hsplit, ?_, ?_, ?_, hasc.2.1.1⟩
  · simp only
    omega
  · simp only
    omega
  · intro d hd
    exact hasc.2.2 d hd _ (List.mem_cons_self ..)

/-- A chunk is not empty and lies inside the block. -/
theorem chunk_bounds {cap start len : Nat} (hcap : 0 < cap) {c : Nat × Nat}
    (hc : c ∈ chunks cap start len) :
    0 < c.2 ∧ c.2 ≤ cap ∧ start ≤ c.1 ∧ c.1 + c.2 ≤ start + len := by
  obtain ⟨k, hk, rfl⟩ := (mem_chunks hcap).mp hc
  simp only
  omega

/-- A chunk starts a whole number of `cap`s behind the block's start. -/
theorem chunk_start_mod {cap start len : Nat} (hcap : 0 < cap) {c : Nat × Nat}
    (hc : c ∈ chunks cap start len) : (c.1 - start) % cap = 0 := by
  obtain ⟨k, hk, rfl⟩ := (mem_chunks hcap).mp hc
  simp

/-- The remainder of an address is its offset in its chunk. -/
theorem mod_of_mem_chunk {cap start len x : Nat} (hcap : 0 < cap) {c : Nat × Nat}
    (hc : c ∈ chunks cap start len) (h1 : c.1 ≤ x) (h2 : x < c.1 + c.2) :
    (x - start) % cap = x - c.1 := by
  obtain ⟨k, hk, rfl⟩ := (mem_chunks hcap).mp hc
  simp only at h1 h2 ⊢
  have hx : x - start = x - (start + k * cap) + k * cap := by omega
  rw [hx, Nat.add_mul_mod_self_right]
  exact Nat.mod_eq_of_lt (by omega)

/-- A range that starts in a chunk stays inside it exactly when it does not
    reach over the next multiple of `cap`. -/
theorem chunk_contains_iff {cap start len : Nat} (hcap : 0 < cap) {c : Nat × Nat}
    (hc : c ∈ chunks cap start len) {x n : Nat} (h1 : c.1 ≤ x) (h2 : x < c.1 + c.2)
    (hend : x + n ≤ start + len) : x + n ≤ c.1 + c.2 ↔ (x - start) % cap + n ≤ cap := by
  rw [mod_of_mem_chunk hcap hc h1 h2]
  obtain ⟨k, hk, rfl⟩ := (mem_chunks hcap).mp hc
  simp only at h1 h2 ⊢
  omega

/-- The chunk of `[start, start + len)` that contains `x`. -/
def chunkAt (cap start len x : Nat) : Nat × Nat :=
  (x - (x - start) % cap, min cap (start + len - (x - (x - start) % cap)))

theorem chunkAt_mem {cap start len x : Nat} (hcap : 0 < cap) (h1 : start ≤ x)
    (h2 : x < start + len) :
    chunkAt cap start len x ∈ chunks cap start len ∧ (chunkAt cap start len x).1 ≤ x ∧
      x < (chunkAt cap start len x).1 + (chunkAt cap start len x).2 := by
  have hmod := Nat.div_add_mod (x - start) cap
  have hlt := Nat.mod_lt (x - start) hcap
  have hcomm := Nat.mul_comm cap ((x - start) / cap)
  refine ⟨(mem_chunks hcap).mpr ⟨(x - start) / cap, by omega, ?_⟩, ?_, ?_⟩
  · rw [chunkAt]
    congr 1
    · omega
    · congr 1
      omega
  · rw [chunkAt]
    omega
  · rw [chunkAt]
    simp only
    omega

theorem eq_chunkAt {cap start len x : Nat} (hcap : 0 < cap) {c : Nat × Nat}
    (hc : c ∈ chunks cap start len) (h1 : c.1 ≤ x) (h2 : x < c.1 + c.2) :
    c = chunkAt cap start len x := by
  rw [chunkAt, mod_of_mem_chunk hcap hc h1 h2, Nat.sub_sub_self h1]
  obtain ⟨k, hk, rfl⟩ := (mem_chunks hcap).mp hc
  simp only
  congr 2
  omega

-- ============================================================================
-- Items and chunks
-- ============================================================================

/-- The range `[lo, lo + n)` shares an address with the chunk. -/
def Meets (c : Nat × Nat) (lo n : Nat) : Prop := lo < c.1 + c.2 ∧ c.1 < lo + n

instance (c : Nat × Nat) (lo n : Nat) : Decidable (Meets c lo n) :=
  inferInstanceAs (Decidable (_ ∧ _))

/-- The part of `[lo, lo + n)` inside the chunk, as `(first address, length)`. -/
def overlap (c : Nat × Nat) (lo n : Nat) : Nat × Nat :=
  (max lo c.1, min (lo + n) (c.1 + c.2) - max lo c.1)

/-- The chunk that holds the end of a range: no later chunk meets the range,
    and the range lies inside it exactly when no multiple of `cap` cuts it. -/
theorem exists_last_chunk {cap start len lo n : Nat} (hcap : 0 < cap) (hn : 0 < n)
    (h1 : start ≤ lo) (h2 : lo + n ≤ start + len) :
    ∃ l₁ c l₂, chunks cap start len = l₁ ++ c :: l₂ ∧ c.1 < lo + n ∧ lo + n ≤ c.1 + c.2 ∧
      (∀ d ∈ l₁, d.1 + d.2 ≤ c.1) ∧ (∀ d ∈ l₂, lo + n ≤ d.1) ∧
      (c.1 ≤ lo ↔ (lo - start) % cap + n ≤ cap) := by
  obtain ⟨l₁, c, l₂, hsplit, hc1, hc2, hl₁, hl₂⟩ :=
    @exists_chunk_split cap start len (lo + n - 1) hcap (by omega) (by omega)
  have hmem : c ∈ chunks cap start len := by simp [hsplit]
  refine ⟨l₁, c, l₂, hsplit, by omega, by omega, hl₁, ?_, ?_⟩
  · intro d hd
    have := hl₂ d hd
    omega
  · constructor
    · intro hle
      exact (chunk_contains_iff hcap hmem hle (by omega) h2).mp (by omega)
    · -- The chunk that holds the first address reaches to the last one, so it
      -- is the same chunk: neither in front of `c` nor behind it.
      intro hmod
      obtain ⟨k₁, c', k₂, hsplit', hc1', hc2', -, -⟩ :=
        @exists_chunk_split cap start len lo hcap h1 (by omega)
      have hmem' : c' ∈ chunks cap start len := by simp [hsplit']
      have hend := (chunk_contains_iff hcap hmem' hc1' hc2' h2).mpr hmod
      rw [hsplit] at hmem'
      rcases List.mem_append.mp hmem' with hin | hin
      · have := hl₁ c' hin
        omega
      · rcases List.mem_cons.mp hin with rfl | hin
        · exact hc1'
        · have := hl₂ c' hin
          omega

-- ============================================================================
-- Tiling the covered addresses
-- ============================================================================

section Tiles

variable {α : Type*} {lo len : α → Nat} {cap : Nat} {l : List α}

/-- Address `x` lies in one of the pieces. -/
def InSpans (spans : List (Nat × Nat)) (x : Nat) : Prop := ∃ c ∈ spans, c.1 ≤ x ∧ x < c.1 + c.2

variable (lo len cap) in
/-- The blocks of a list sorted by `lo`, each cut into chunks. -/
def tiles (l : List α) : List (Nat × Nat) :=
  (coalesce lo len l).flatMap fun b => chunks cap b.start b.len

theorem tile_bounds (hcap : 0 < cap) {c : Nat × Nat} (hc : c ∈ tiles lo len cap l) :
    1 ≤ c.2 ∧ c.2 ≤ cap := by
  obtain ⟨b, -, hc⟩ := List.mem_flatMap.mp hc
  obtain ⟨hpos, hle, -⟩ := chunk_bounds hcap hc
  exact ⟨hpos, hle⟩

/-- Tiles ascend without overlap. -/
theorem tiles_ascending (hcap : 0 < cap) (hsorted : l.Pairwise fun a a' => lo a ≤ lo a') :
    (tiles lo len cap l).Pairwise fun c d => c.1 + c.2 ≤ d.1 := by
  rw [tiles, List.pairwise_flatMap]
  refine ⟨fun b _ => chunks_ascending cap b.start b.len, ?_⟩
  apply (coalesce_gap hsorted).imp
  intro b b' hgap c hc d hd
  have hend := (chunk_bounds hcap hc).2.2.2
  have hstart := (chunk_bounds hcap hd).2.2.1
  omega

/-- Tiles cover what the items cover, and nothing else. -/
theorem inSpans_tiles (hcap : 0 < cap) (hsorted : l.Pairwise fun a a' => lo a ≤ lo a') (x : Nat) :
    InSpans (tiles lo len cap l) x ↔ Covers lo len l x := by
  constructor
  · rintro ⟨c, hc, h1, h2⟩
    obtain ⟨b, hb, hc⟩ := List.mem_flatMap.mp hc
    obtain ⟨-, -, hstart, hend⟩ := chunk_bounds hcap hc
    obtain ⟨a, ha, hr⟩ := (coalesce_sound len hsorted b hb).filled x (by omega) (by omega)
    exact ⟨a, mem_of_mem_coalesce hb ha, hr⟩
  · rintro ⟨a, ha, h1, h2⟩
    obtain ⟨b, hb, hab⟩ := exists_block_of_mem lo len ha
    have hin := (coalesce_sound len hsorted b hb).inside a hab
    obtain ⟨l₁, c, l₂, hsplit, hc1, hc2, -, -⟩ :=
      @exists_chunk_split cap b.start b.len x hcap (by omega) (by omega)
    exact ⟨c, List.mem_flatMap.mpr ⟨b, hb, by simp [hsplit]⟩, hc1, hc2⟩

end Tiles

end PlcBridge.Lib
