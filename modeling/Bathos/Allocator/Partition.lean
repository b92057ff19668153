import Bathos.Allocator.Operations

/-!
# Bathos — runs of the buddy allocator

Histories of `bathos_alloc_buffer` and `bathos_free_buffer` calls, with the list
of buffers the callers hold. A free is valid when it is given a live buffer and
a size of the order it was allocated with.

`HeapInv` is the invariant of every history: free and live blocks partition the
memory and no two buddies are free together. It survives every allocation; it
survives a free as long as the alignment check of `bathos_free_buffer` lets the
pointer through, and for buffers of order zero this check reads
`1 << (order - 1)`, a shift by `-1` (`Op.Meets`).

Main results:

* `run_partitioned` — live and free blocks partition `mem`;
* `run_canonical` — the bitmap is a function of the live blocks, and freeing
  everything, in any order, restores the bitmap of `bathos_alloc_init`.

`oddUnits` is a build, with 3-byte units and a target where `1 << -1` is `1`, on
which a valid free is refused and both fail.
-/

namespace Bathos.Allocator

open Bathos.Lib

variable {cfg : Config}

-- ---------------------------------------------------------------------------
-- Histories
-- ---------------------------------------------------------------------------

/-- A buffer held by a caller: where it is in `mem`, and the size asked for. -/
structure LiveBuf where
  offset : Nat
  size : Int
deriving DecidableEq, Repr

/-- The block a live buffer occupies. -/
def LiveBuf.block (cfg : Config) (buf : LiveBuf) : Option Block :=
  (sizeToOrder cfg buf.size).map fun o => ⟨o, buf.offset / cfg.bufSize o⟩

inductive Op where
  | alloc (size : Int)
  | free (buf : LiveBuf) (size : Int)
deriving DecidableEq, Repr

/-- The allocator together with the buffers handed out and not yet freed. -/
structure Heap (cfg : Config) where
  state : State cfg
  live : List LiveBuf

namespace Heap

def step (h : Heap cfg) : Op → Except Fault (Heap cfg)
  | .alloc size =>
    match bathosAllocBuffer h.state size with
    | (s, none) => .ok ⟨s, h.live⟩
    | (s, some offset) => .ok ⟨s, ⟨offset, size⟩ :: h.live⟩
  | .free buf size =>
    match bathosFreeBuffer h.state buf.offset size with
    | .error e => .error e
    | .ok s => .ok ⟨s, h.live.erase buf⟩

/-- Static memory at power on. -/
def boot (cfg : Config) : Heap cfg := ⟨State.boot cfg, []⟩

/-- Right after `bathos_alloc_init`. -/
def start (cfg : Config) : Heap cfg := ⟨bathosAllocInit (State.boot cfg), []⟩

def liveBlocks (h : Heap cfg) : Set Block := {b | ∃ buf ∈ h.live, buf.block cfg = some b}

end Heap

/-- The caller's side of the contract. -/
def Op.Valid (h : Heap cfg) : Op → Prop
  | .alloc _ => True
  | .free buf size => buf ∈ h.live ∧ sizeToOrder cfg size = sizeToOrder cfg buf.size

/-- A free of an order-zero buffer meets the alignment check: its offset has no
bit in common with what the target computes for `1 << -1`. Other calls always
meet it. -/
def Op.Meets (cfg : Config) : Op → Prop
  | .alloc _ => True
  | .free buf size => sizeToOrder cfg size = some 0 → buf.offset &&& cfg.shlOne (-1) = 0

/-- The heaps reached by a list of valid calls, from `bathos_alloc_init` or from
power on; the first allocation then runs `bathos_alloc_init` itself. -/
inductive Run (cfg : Config) : List Op → Heap cfg → Prop
  | init : Run cfg [] (Heap.start cfg)
  | first {size : Int} {h : Heap cfg} (hstep : (Heap.boot cfg).step (.alloc size) = .ok h) :
      Run cfg [.alloc size] h
  | next {ops : List Op} {op : Op} {h h' : Heap cfg} (hrun : Run cfg ops h)
      (hvalid : op.Valid h) (hstep : h.step op = .ok h') : Run cfg (ops ++ [op]) h'

-- ---------------------------------------------------------------------------
-- The invariant
-- ---------------------------------------------------------------------------

structure HeapInv (h : Heap cfg) : Prop where
  wf : WellFormed h.state.bitmap
  layout : Layout cfg.maxOrder (freeBlocks h.state.bitmap) h.liveBlocks
  coalesced : Coalesced cfg.maxOrder (freeBlocks h.state.bitmap)
  -- `__initialized` is clear only before the first allocation
  fresh : h.state.initialized = false →
    h.live = [] ∧ freeBlocks h.state.bitmap = {⟨cfg.maxOrder, 0⟩}
  placed : ∀ buf ∈ h.live, ∃ b, buf.block cfg = some b ∧ buf.offset = b.start * cfg.bufSize 0
  distinct : (h.live.map (LiveBuf.block cfg)).Nodup

theorem top_fits (cfg : Config) : (⟨cfg.maxOrder, 0⟩ : Block).Fits cfg.maxOrder :=
  ⟨le_rfl, by simp⟩

theorem top_start (cfg : Config) : (⟨cfg.maxOrder, 0⟩ : Block).start = 0 := by
  simp [Block.start]

theorem wellFormed_boot (cfg : Config) : WellFormed (State.boot cfg).bitmap := by
  unfold State.boot
  refine ⟨by simp [Nat.one_shiftLeft], ?_⟩
  unfold bitSet
  simp [List.getD_eq_getElem?_getD, List.getElem?_replicate]
  split <;> simp

theorem freeBlocks_boot (cfg : Config) : freeBlocks (State.boot cfg).bitmap = ∅ := by
  ext b
  unfold freeBlocks State.boot bitSet
  simp [List.getD_eq_getElem?_getD, List.getElem?_replicate]
  intro _
  split <;> simp

/-- What `bathos_alloc_init` does: the block of the top order becomes free. -/
theorem bathosAllocInit_spec {s : State cfg} (hwf : WellFormed s.bitmap) :
    WellFormed (bathosAllocInit s).bitmap ∧
      freeBlocks (bathosAllocInit s).bitmap =
        insert ⟨cfg.maxOrder, 0⟩ (freeBlocks s.bitmap) := by
  have h1 := wellFormed_markAvailable hwf (top_fits cfg)
  have h2 := freeBlocks_markAvailable hwf (top_fits cfg)
  rw [top_start] at h1 h2
  exact ⟨h1, h2⟩

theorem start_free (cfg : Config) :
    WellFormed (Heap.start cfg).state.bitmap ∧
      freeBlocks (Heap.start cfg).state.bitmap = {⟨cfg.maxOrder, 0⟩} := by
  obtain ⟨hwf, hfree⟩ := bathosAllocInit_spec (wellFormed_boot cfg)
  refine ⟨hwf, ?_⟩
  unfold Heap.start
  rw [hfree, freeBlocks_boot]
  simp

theorem start_inv (cfg : Config) : HeapInv (Heap.start cfg) := by
  obtain ⟨hwf, hfree⟩ := start_free cfg
  have hlive : (Heap.start cfg).liveBlocks = ∅ := by
    ext b
    simp [Heap.liveBlocks, Heap.start]
  refine ⟨hwf, ?_, ?_, fun _ => ⟨rfl, hfree⟩, ?_, ?_⟩
  · rw [hfree, hlive]
    exact Layout.whole _
  · rw [hfree]
    exact Layout.coalesced_whole _
  · simp [Heap.start]
  · simp [Heap.start]

-- Setting the bit of the top order again changes nothing.
theorem bathosAllocInit_again {s : State cfg} (hwf : WellFormed s.bitmap)
    (htop : ⟨cfg.maxOrder, 0⟩ ∈ freeBlocks s.bitmap) : (bathosAllocInit s).bitmap = s.bitmap := by
  obtain ⟨hwf', hfree'⟩ := bathosAllocInit_spec hwf
  apply bitmap_ext hwf' hwf
  rw [hfree', Set.insert_eq_of_mem htop]

/-- The lazy initialisation at the start of `bathos_alloc_buffer` leaves the
bitmap as it is when the block of the top order is still free. -/
theorem lazyInit_bitmap {s : State cfg} (hwf : WellFormed s.bitmap)
    (htop : s.initialized = false → ⟨cfg.maxOrder, 0⟩ ∈ freeBlocks s.bitmap) :
    (if s.initialized then s else { bathosAllocInit s with initialized := true }) =
      { s with initialized := true } := by
  cases hi : s.initialized with
  | true =>
    simp only [if_true]
    rw [← hi]
  | false =>
    simp only [Bool.false_eq_true, if_false]
    rw [bathosAllocInit_again hwf (htop hi)]

theorem HeapInv.top_free {h : Heap cfg} (hinv : HeapInv h) (hi : h.state.initialized = false) :
    ⟨cfg.maxOrder, 0⟩ ∈ freeBlocks h.state.bitmap := by
  rw [(hinv.fresh hi).2]
  exact Set.mem_singleton _

theorem step_boot_alloc (size : Int) :
    (Heap.boot cfg).step (.alloc size) = (Heap.start cfg).step (.alloc size) := by
  have hlazy := lazyInit_bitmap (start_inv cfg).wf (start_inv cfg).top_free
  unfold Heap.step bathosAllocBuffer
  rw [hlazy]
  rfl

-- ---------------------------------------------------------------------------
-- One call
-- ---------------------------------------------------------------------------

/-- A buffer at the start of a block, with a size of its order, occupies that
block. -/
theorem block_of_start {c : Block} {size : Int} (hsize : sizeToOrder cfg size = some c.order) :
    LiveBuf.block cfg ⟨c.start * cfg.bufSize 0, size⟩ = some c := by
  have ho := (sizeToOrder_some hsize).1
  have hpos : 0 < cfg.bufSize c.order := by
    rw [bufSize_eq ho]
    exact Nat.mul_pos (Nat.two_pow_pos _) (bufSize_zero_pos cfg)
  have hoff : c.start * cfg.bufSize 0 = c.num * cfg.bufSize c.order := by
    rw [bufSize_eq ho]
    unfold Block.start
    ring
  unfold LiveBuf.block
  rw [hsize, hoff]
  simp [Nat.mul_div_cancel _ hpos]

theorem liveBlocks_cons (s : State cfg) {buf : LiveBuf} {c : Block} (live : List LiveBuf)
    (hbuf : buf.block cfg = some c) :
    Heap.liveBlocks ⟨s, buf :: live⟩ = insert c (Heap.liveBlocks ⟨s, live⟩) := by
  ext d
  unfold Heap.liveBlocks
  simp only [Set.mem_ofPred_eq, List.mem_cons, exists_eq_or_imp, Set.mem_insert_iff, hbuf,
    Option.some.injEq]
  exact or_congr_left eq_comm

theorem liveBlocks_erase (s : State cfg) {buf : LiveBuf} {b : Block} {live : List LiveBuf}
    (hdist : (live.map (LiveBuf.block cfg)).Nodup) (hmem : buf ∈ live)
    (hbuf : buf.block cfg = some b) :
    Heap.liveBlocks ⟨s, live.erase buf⟩ = Heap.liveBlocks ⟨s, live⟩ \ {b} := by
  have hnodup : live.Nodup := List.Nodup.of_map _ hdist
  ext d
  unfold Heap.liveBlocks
  simp only [Set.mem_ofPred_eq, Set.mem_sdiff, Set.mem_singleton_iff, hnodup.mem_erase_iff]
  refine ⟨fun ⟨x, ⟨hne, hx⟩, hxd⟩ => ⟨⟨x, hx, hxd⟩, ?_⟩, fun ⟨⟨x, hx, hxd⟩, hne⟩ => ?_⟩
  · -- two live buffers of one block are the same buffer
    intro hdb
    subst hdb
    exact hne (List.inj_on_of_nodup_map hdist hx hmem (hxd.trans hbuf.symm))
  · refine ⟨x, ⟨?_, hx⟩, hxd⟩
    intro hxb
    subst hxb
    exact hne (Option.some.inj (hxd.symm.trans hbuf))

/-- An allocation keeps the invariant, whether it succeeds or not. -/
theorem alloc_step_inv {h : Heap cfg} (hinv : HeapInv h) (size : Int) :
    ∃ h', h.step (.alloc size) = .ok h' ∧ HeapInv h' := by
  have hlazy := lazyInit_bitmap hinv.wf hinv.top_free
  -- a failed allocation leaves free and live blocks as they are
  have hsame : HeapInv (⟨{ h.state with initialized := true }, h.live⟩ : Heap cfg) :=
    ⟨hinv.wf, hinv.layout, hinv.coalesced, by simp, hinv.placed, hinv.distinct⟩
  unfold Heap.step bathosAllocBuffer
  simp only
  rw [hlazy]
  cases hsize : sizeToOrder cfg size with
  | none => exact ⟨_, rfl, hsame⟩
  | some order =>
    have ho := (sizeToOrder_some hsize).1
    rcases allocOrder_spec hinv.wf ho with ⟨hloop, -⟩ | ⟨b, bm', hbo, hb, -, hloop, hwf', hfree', hnot⟩
    · simp only [hloop]
      exact ⟨_, rfl, hsame⟩
    · simp only [hloop]
      refine ⟨_, rfl, ?_⟩
      have hcarve := hinv.layout.carve hb.1 hbo
      have hnew : b.leftmost order ∉ h.liveBlocks := hcarve.disjoint _ (Set.mem_insert _ _)
      have hblock : LiveBuf.block cfg ⟨b.start * cfg.bufSize 0, size⟩ = some (b.leftmost order) := by
        rw [← leftmost_start hbo]
        exact block_of_start hsize
      refine ⟨hwf', ?_, ?_, by simp, ?_, ?_⟩
      · rw [liveBlocks_cons _ _ hblock]
        have htake := hcarve.take (Set.mem_insert _ _)
        rw [Set.insert_sdiff_self_of_notMem hnot, ← hfree'] at htake
        exact htake
      · have hco := Layout.coalesced_carve hinv.layout hinv.coalesced hb.1 hbo hnot
        rw [← hfree'] at hco
        exact hco
      · intro buf hbuf
        rcases List.mem_cons.mp hbuf with rfl | hold
        · exact ⟨_, hblock, by rw [leftmost_start hbo]⟩
        · exact hinv.placed buf hold
      · rw [List.map_cons, List.nodup_cons]
        refine ⟨?_, hinv.distinct⟩
        intro hmem
        obtain ⟨buf, hbuf, heq⟩ := List.mem_map.mp hmem
        exact hnew ⟨buf, hbuf, heq.trans hblock⟩

/-- A valid free keeps the invariant when it meets the alignment check. -/
theorem free_step_inv {h : Heap cfg} (hinv : HeapInv h) {buf : LiveBuf} {size : Int}
    (hvalid : Op.Valid h (.free buf size)) (hmeets : Op.Meets cfg (.free buf size)) :
    ∃ h', h.step (.free buf size) = .ok h' ∧ HeapInv h' ∧ h'.live = h.live.erase buf := by
  obtain ⟨hmem, hsame⟩ := hvalid
  obtain ⟨b, hb, hoff⟩ := hinv.placed buf hmem
  have hsize : sizeToOrder cfg size = some b.order := by
    unfold LiveBuf.block at hb
    obtain ⟨o, ho, hbo⟩ := Option.map_eq_some_iff.mp hb
    rw [hsame, ho, ← hbo]
  have hzero : b.order = 0 → b.start * cfg.bufSize 0 &&& cfg.shlOne (-1) = 0 := by
    intro h0
    rw [← hoff]
    exact hmeets (hsize.trans (congrArg some h0))
  obtain ⟨s', hok, hinit, hwf', hlay', hco'⟩ :=
    bathosFreeBuffer_spec hinv.wf hinv.layout hinv.coalesced ⟨buf, hmem, hb⟩ hsize hzero
  refine ⟨⟨s', h.live.erase buf⟩, ?_, ⟨hwf', ?_, hco', ?_, ?_, ?_⟩, rfl⟩
  · unfold Heap.step
    simp only
    rw [hoff, hok]
  · have hlive := liveBlocks_erase s' hinv.distinct hmem hb
    rw [hlive]
    exact hlay'
  · intro hfalse
    rw [hinit] at hfalse
    rw [(hinv.fresh hfalse).1] at hmem
    exact absurd hmem (by simp)
  · intro x hx
    exact hinv.placed x (List.mem_of_mem_erase hx)
  · exact hinv.distinct.sublist (List.erase_sublist.map _)

theorem step_inv {h : Heap cfg} (hinv : HeapInv h) {op : Op} (hvalid : op.Valid h)
    (hmeets : op.Meets cfg) : ∃ h', h.step op = .ok h' ∧ HeapInv h' := by
  cases op with
  | alloc size => exact alloc_step_inv hinv size
  | free buf size =>
    obtain ⟨h', hok, hinv', -⟩ := free_step_inv hinv hvalid hmeets
    exact ⟨h', hok, hinv'⟩

/-- **The invariant holds along every history** whose frees meet the check. -/
theorem run_inv {ops : List Op} {h : Heap cfg} (hrun : Run cfg ops h) :
    (∀ op ∈ ops, op.Meets cfg) → HeapInv h := by
  induction hrun with
  | init => exact fun _ => start_inv cfg
  | first hstep =>
    intro _
    rw [step_boot_alloc] at hstep
    obtain ⟨h', hok, hinv⟩ := alloc_step_inv (start_inv cfg) _
    rw [hok] at hstep
    exact Except.ok.inj hstep ▸ hinv
  | next hrun hvalid hstep ih =>
    intro hmeets
    have hinv := ih fun op hop => hmeets op (List.mem_append_left _ hop)
    obtain ⟨h', hok, hinv'⟩ := step_inv hinv hvalid (hmeets _ (by simp))
    rw [hok] at hstep
    exact Except.ok.inj hstep ▸ hinv'

-- ---------------------------------------------------------------------------
-- The partition
-- ---------------------------------------------------------------------------

/-- Length in bytes of a live buffer: that of the buffers of its order. -/
def LiveBuf.len (cfg : Config) (buf : LiveBuf) : Nat :=
  match sizeToOrder cfg buf.size with
  | some o => cfg.bufSize o
  | none => 0

/-- The byte ranges `[a, a + la)` and `[b, b + lb)` do not meet. -/
def Apart (a la b lb : Nat) : Prop := a + la ≤ b ∨ b + lb ≤ a

/-- Free and live blocks partition the units of `mem`, and what this means for
the callers: a live buffer starts at a block of its order, lies inside `mem`,
has the length asked for, and shares no byte with another live buffer or with a
free block. -/
structure Heap.Partitioned (h : Heap cfg) : Prop where
  layout : Layout cfg.maxOrder (freeBlocks h.state.bitmap) h.liveBlocks
  placed : ∀ buf ∈ h.live, ∃ b ∈ h.liveBlocks, buf.offset = b.start * cfg.bufSize 0 ∧
    buf.len cfg = cfg.bufSize b.order
  inside : ∀ buf ∈ h.live, buf.offset + buf.len cfg ≤ cfg.allocatorMemory
  large : ∀ buf ∈ h.live, buf.size ≤ buf.len cfg
  apart : h.live.Pairwise fun x y => Apart x.offset (x.len cfg) y.offset (y.len cfg)
  apartFree : ∀ buf ∈ h.live, ∀ b ∈ freeBlocks h.state.bitmap,
    Apart buf.offset (buf.len cfg) (b.start * cfg.bufSize 0) (cfg.bufSize b.order)

/-- Blocks without a common unit have no common byte. -/
theorem apart_of_disjoint {b c : Block} (hb : b.order ≤ cfg.maxOrder)
    (hc : c.order ≤ cfg.maxOrder) (hdis : ∀ u, b.Has u → ¬ c.Has u) :
    Apart (b.start * cfg.bufSize 0) (cfg.bufSize b.order)
      (c.start * cfg.bufSize 0) (cfg.bufSize c.order) := by
  unfold Apart
  rw [bufSize_eq hb, bufSize_eq hc, ← Nat.add_mul, ← Nat.add_mul]
  -- the block that starts later starts outside the other one
  rcases Nat.le_total b.start c.start with hle | hle
  · refine Or.inl (Nat.mul_le_mul_right _ ?_)
    by_contra hlt
    exact hdis c.start (Block.has_iff.mpr ⟨hle, by omega⟩) c.has_start
  · refine Or.inr (Nat.mul_le_mul_right _ ?_)
    by_contra hlt
    exact hdis b.start b.has_start (Block.has_iff.mpr ⟨hle, by omega⟩)

theorem len_of_block {buf : LiveBuf} {b : Block} (h : buf.block cfg = some b) :
    buf.len cfg = cfg.bufSize b.order ∧ buf.size ≤ cfg.bufSize b.order := by
  unfold LiveBuf.block at h
  obtain ⟨o, ho, hb⟩ := Option.map_eq_some_iff.mp h
  subst hb
  unfold LiveBuf.len
  rw [ho]
  exact ⟨rfl, (sizeToOrder_some ho).2⟩

theorem HeapInv.partitioned {h : Heap cfg} (hinv : HeapInv h) : h.Partitioned := by
  have hlay := hinv.layout
  -- blocks of the layout that differ share no unit
  have hdis : ∀ b ∈ freeBlocks h.state.bitmap ∪ h.liveBlocks,
      ∀ c ∈ freeBlocks h.state.bitmap ∪ h.liveBlocks, b ≠ c → ∀ u, b.Has u → ¬ c.Has u :=
    fun b hb c hc hne u hbu hcu => hne (hlay.unique b hb c hc u hbu hcu)
  refine ⟨hlay, ?_, ?_, ?_, ?_, ?_⟩
  · intro buf hbuf
    obtain ⟨b, hb, hoff⟩ := hinv.placed buf hbuf
    exact ⟨b, ⟨buf, hbuf, hb⟩, hoff, (len_of_block hb).1⟩
  · intro buf hbuf
    obtain ⟨b, hb, hoff⟩ := hinv.placed buf hbuf
    rw [hoff, (len_of_block hb).1]
    exact block_end_le (hlay.fits b (Or.inr ⟨buf, hbuf, hb⟩))
  · intro buf hbuf
    obtain ⟨b, hb, -⟩ := hinv.placed buf hbuf
    rw [(len_of_block hb).1]
    exact (len_of_block hb).2
  · have hpair : h.live.Pairwise fun x y => x.block cfg ≠ y.block cfg :=
      List.pairwise_map.mp hinv.distinct
    refine hpair.imp_of_mem ?_
    intro x y hx hy hne
    obtain ⟨b, hb, hxoff⟩ := hinv.placed x hx
    obtain ⟨c, hc, hyoff⟩ := hinv.placed y hy
    have hbL : b ∈ h.liveBlocks := ⟨x, hx, hb⟩
    have hcL : c ∈ h.liveBlocks := ⟨y, hy, hc⟩
    rw [hxoff, hyoff, (len_of_block hb).1, (len_of_block hc).1]
    refine apart_of_disjoint (hlay.fits b (Or.inr hbL)).1 (hlay.fits c (Or.inr hcL)).1
      (hdis b (Or.inr hbL) c (Or.inr hcL) ?_)
    intro hbc
    exact hne (by rw [hb, hc, hbc])
  · intro buf hbuf b hbF
    obtain ⟨c, hc, hoff⟩ := hinv.placed buf hbuf
    have hcL : c ∈ h.liveBlocks := ⟨buf, hbuf, hc⟩
    rw [hoff, (len_of_block hc).1]
    refine apart_of_disjoint (hlay.fits c (Or.inr hcL)).1 (hlay.fits b (Or.inl hbF)).1
      (hdis c (Or.inr hcL) b (Or.inl hbF) ?_)
    intro hcb
    exact hlay.disjoint b hbF (hcb ▸ hcL)

/-- **Partition.** In every history whose order-zero frees meet the alignment
check, free and live blocks partition `mem`, and every further valid call that
meets it runs without a fault. -/
theorem run_partitioned {ops : List Op} {h : Heap cfg} (hrun : Run cfg ops h)
    (hmeets : ∀ op ∈ ops, op.Meets cfg) :
    h.Partitioned ∧
      ∀ op : Op, op.Valid h → op.Meets cfg → ∃ h', h.step op = .ok h' := by
  have hinv := run_inv hrun hmeets
  refine ⟨hinv.partitioned, ?_⟩
  intro op hvalid hop
  obtain ⟨h', hok, -⟩ := step_inv hinv hvalid hop
  exact ⟨h', hok⟩

/-- A build with units of 3 bytes for a target whose shift loop makes `1` of
`1 << -1`. -/
def oddUnits : Config where
  norders := 8
  bitsPerLong := 32
  allocatorMemory := 384
  shlNegative := fun _ => 1
  norders_pos := Config.one_le_eight
  wordSize := Config.wordSize_32
  map_words := Config.map_words_32
  memory_pos := by decide
  memory_units := by decide

/-- The heap of `oddUnits` after one and after two allocations of 3 bytes. -/
def oddOne : Heap oddUnits :=
  ⟨⟨[2, 0, 0, 0, 2, 0, 2, 0x22020002], true⟩, [⟨0, 3⟩]⟩

def oddTwo : Heap oddUnits :=
  ⟨⟨[0, 0, 0, 0, 2, 0, 2, 0x22020002], true⟩, [⟨3, 3⟩, ⟨0, 3⟩]⟩

theorem run_oddOne : Run oddUnits ([] ++ [.alloc 3]) oddOne :=
  .next .init trivial rfl

theorem run_oddTwo : Run oddUnits ([] ++ [.alloc 3] ++ [.alloc 3]) oddTwo :=
  .next run_oddOne trivial rfl

-- The free of the second buffer is refused, and leaves the bitmap as it was.
theorem run_oddRefused : Run oddUnits ([] ++ [.alloc 3] ++ [.alloc 3] ++ [.free ⟨3, 3⟩ 3])
    ⟨oddTwo.state, [⟨0, 3⟩]⟩ :=
  .next run_oddTwo ⟨by decide, rfl⟩ rfl

-- The first buffer is at offset 0: its free meets the check.
theorem run_partitioned_oddUnits :
    oddTwo.Partitioned ∧
      ∀ op : Op, op.Valid oddTwo → op.Meets oddUnits → ∃ h', oddTwo.step op = .ok h' :=
  run_partitioned run_oddTwo (by simp [Op.Meets])

/-- The second buffer is not taken back: `3 & 1` is not zero, so the valid free is
refused as unaligned, and unit 1 is then neither free nor live. -/
theorem run_not_partitioned :
    ¬ ∀ (cfg : Config) (ops : List Op) (h : Heap cfg), Run cfg ops h → h.Partitioned := by
  intro hall
  obtain ⟨b, hb, hbu⟩ := (hall _ _ _ run_oddRefused).layout.cover 1 (by decide)
  rcases hb with ⟨hfit, hset⟩ | ⟨buf, hbuf, hblock⟩
  · -- the blocks over unit 1, one for each order, are not free
    have hnum : b.num = 1 / 2 ^ b.order := hbu.symm
    have hfree : ∀ o < 8, bitSet oddTwo.state.bitmap (blockBit oddUnits ⟨o, 1 / 2 ^ o⟩) = false := by
      decide
    have ho : b.order < 8 := Nat.lt_succ_of_le hfit.1
    have hb' : b = ⟨b.order, 1 / 2 ^ b.order⟩ := by rw [← hnum]
    rw [hb', hfree b.order ho] at hset
    exact absurd hset (by decide)
  · rw [List.mem_singleton] at hbuf
    subst hbuf
    have hb0 : b = ⟨0, 0⟩ := Option.some.inj hblock.symm
    rw [hb0] at hbu
    exact absurd hbu (by simp [Block.Has])

-- ---------------------------------------------------------------------------
-- Canonical form
-- ---------------------------------------------------------------------------

/-- No block below the top order is free together with its buddy, in the terms
of the code. -/
def NoFreeBuddies (bm : Bitmap cfg) : Prop :=
  ∀ b : Block, b.Fits cfg.maxOrder → b.order < cfg.maxOrder →
    isFree bm b.start b.order = true → isFree bm (getBuddy b.start b.order) b.order = false

theorem noFreeBuddies {bm : Bitmap cfg} (h : Coalesced cfg.maxOrder (freeBlocks bm)) :
    NoFreeBuddies bm := by
  intro b hb hlt hfree
  have hbud := Block.buddy_fits hb hlt
  rw [getBuddy_start, ← Bool.not_eq_true]
  intro hfree'
  exact h b ((isFree_eq hb).mp hfree) hlt ((isFree_eq (b := b.buddy) hbud).mp hfree')

/-- Frees of a list of buffers, each with the size it is given back with. -/
def Heap.freeAll (h : Heap cfg) : List (LiveBuf × Int) → Except Fault (Heap cfg)
  | [] => .ok h
  | f :: fs =>
    match h.step (.free f.1 f.2) with
    | .error e => .error e
    | .ok h' => h'.freeAll fs

theorem HeapInv.bitmap_unique {h h' : Heap cfg} (hinv : HeapInv h) (hinv' : HeapInv h')
    (hlive : h'.liveBlocks = h.liveBlocks) : h'.state.bitmap = h.state.bitmap := by
  apply bitmap_ext hinv'.wf hinv.wf
  have hlay := hinv.layout
  rw [← hlive] at hlay
  exact Layout.free_unique hinv'.layout hinv'.coalesced hlay hinv.coalesced

/-- Freeing every live buffer once goes through and leaves no live buffer. -/
theorem freeAll_inv : ∀ {fs : List (LiveBuf × Int)} {h : Heap cfg}, HeapInv h →
    (fs.map Prod.fst).Perm h.live →
    (∀ f ∈ fs, sizeToOrder cfg f.2 = sizeToOrder cfg f.1.size) →
    (∀ f ∈ fs, Op.Meets cfg (.free f.1 f.2)) →
    ∃ h', h.freeAll fs = .ok h' ∧ HeapInv h' ∧ h'.live = [] := by
  intro fs
  induction fs with
  | nil =>
    intro h hinv hperm _ _
    exact ⟨h, rfl, hinv, (List.nil_perm.mp hperm)⟩
  | cons f fs ih =>
    intro h hinv hperm hsize hmeets
    rw [List.map_cons, List.cons_perm_iff_perm_erase] at hperm
    obtain ⟨h', hok, hinv', hlive⟩ :=
      free_step_inv hinv ⟨hperm.1, hsize f (by simp)⟩ (hmeets f (by simp))
    obtain ⟨h'', hok', hinv'', hempty⟩ := ih hinv' (hlive ▸ hperm.2)
      (fun g hg => hsize g (List.mem_cons_of_mem _ hg))
      (fun g hg => hmeets g (List.mem_cons_of_mem _ hg))
    refine ⟨h'', ?_, hinv'', hempty⟩
    unfold Heap.freeAll
    rw [hok]
    exact hok'

/-- **Canonical form.** In every history whose order-zero frees meet the
alignment check no two buddies are free together, the bitmap is determined by
the live blocks, and freeing all live buffers in any order restores the bitmap
of `bathos_alloc_init`. -/
theorem run_canonical {ops : List Op} {h : Heap cfg} (hrun : Run cfg ops h)
    (hmeets : ∀ op ∈ ops, op.Meets cfg) :
    NoFreeBuddies h.state.bitmap ∧
      (∀ (ops' : List Op) (h' : Heap cfg), Run cfg ops' h' → (∀ op ∈ ops', op.Meets cfg) →
        h'.liveBlocks = h.liveBlocks → h'.state.bitmap = h.state.bitmap) ∧
      ∀ fs : List (LiveBuf × Int), (fs.map Prod.fst).Perm h.live →
        (∀ f ∈ fs, sizeToOrder cfg f.2 = sizeToOrder cfg f.1.size) →
        (∀ f ∈ fs, Op.Meets cfg (.free f.1 f.2)) →
        ∃ h', h.freeAll fs = .ok h' ∧ h'.live = [] ∧
          h'.state.bitmap = (bathosAllocInit (State.boot cfg)).bitmap := by
  have hinv := run_inv hrun hmeets
  refine ⟨noFreeBuddies hinv.coalesced, ?_, ?_⟩
  · intro ops' h' hrun' hmeets' hlive
    exact hinv.bitmap_unique (run_inv hrun' hmeets') hlive
  · intro fs hperm hsize hfs
    obtain ⟨h', hok, hinv', hempty⟩ := freeAll_inv hinv hperm hsize hfs
    refine ⟨h', hok, hempty, ?_⟩
    -- no live block is left, as right after initialisation
    apply (start_inv cfg).bitmap_unique hinv'
    unfold Heap.liveBlocks
    rw [hempty]
    rfl

theorem run_canonical_oddUnits : NoFreeBuddies oddOne.state.bitmap ∧
    ∃ h', oddOne.freeAll [(⟨0, 3⟩, 2)] = .ok h' ∧ h'.live = [] ∧
      h'.state.bitmap = (bathosAllocInit (State.boot oddUnits)).bitmap := by
  obtain ⟨hno, -, hfree⟩ := run_canonical run_oddOne (by simp [Op.Meets])
  refine ⟨hno, hfree [(⟨0, 3⟩, 2)] (List.Perm.refl _) ?_ ?_⟩
  · simp only [List.mem_singleton, forall_eq]
    rfl
  · simp only [List.mem_singleton, forall_eq]
    exact fun _ => rfl

/-- The second buffer of `oddTwo` is freed in vain: the live blocks are again those
of `oddOne`, and the bitmap is not. -/
theorem run_not_canonical :
    ¬ ∀ (cfg : Config) (ops ops' : List Op) (h h' : Heap cfg), Run cfg ops h → Run cfg ops' h' →
      h'.liveBlocks = h.liveBlocks → h'.state.bitmap = h.state.bitmap := by
  intro hall
  have heq := hall _ _ _ _ _ run_oddOne run_oddRefused rfl
  exact absurd heq (by decide)

end Bathos.Allocator
