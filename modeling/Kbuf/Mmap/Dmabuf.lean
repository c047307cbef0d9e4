import Kbuf.Mmap.Pages

namespace Kbuf

section Definitions

-- struct scatterlist, as sg_set_page fills it in
structure Scatterlist where
  page : Option Page
  length : Nat
  offset : Nat
  deriving DecidableEq, Repr

-- How the allocations and the DMA mapping of kbuf_dmabuf_map turn out.
structure DmabufEnv where
  kzalloc : Bool
  sgAllocTable : Except Errno Unit
  dmaMapSgtable : Except Errno Unit

variable (pageSize : Nat)

def KBUF_DMABUF_PAGES : Nat := KBUF_MMAP_CAPACITY / pageSize

-- The loop of kbuf_dmabuf_map: `n` more entries, the next one being entry `i`.
def sgSetPages : (n i : Nat) → List Scatterlist → List Scatterlist
  | n + 1, i, _ :: sgl =>
      ⟨vmallocToPage pageSize (.data (i * pageSize)), pageSize, 0⟩ :: sgSetPages n (i + 1) sgl
  | _, _, sgl => sgl

def kbufDmabufMap (env : DmabufEnv) : Except Errno (List Scatterlist) :=
  if !env.kzalloc then .error .ENOMEM
  else
    match env.sgAllocTable with
    | .error e => .error e
    | .ok () =>
        let pages := KBUF_DMABUF_PAGES pageSize
        let sgl := sgSetPages pageSize pages 0 (List.replicate pages ⟨none, 0, 0⟩)
        match env.dmaMapSgtable with
        | .error e => .error e
        | .ok () => .ok sgl

-- Byte `k` of what a table describes, its entries taken in order.
def sgByte : List Scatterlist → Nat → Option KernelAddr
  | [], _ => none
  | sg :: sgl, k =>
      if k < sg.length then sg.page.map (Page.addr pageSize (sg.offset + k))
      else sgByte sgl (k - sg.length)

-- The address that kbuf_dmabuf_vmap hands out, and the bytes behind it.
def kbufDmabufVmap : KernelAddr := .data 0

def KernelAddr.plus (k : Nat) : KernelAddr → KernelAddr
  | .ctrl off => .ctrl (off + k)
  | .data off => .data (off + k)

-- remap_vmalloc_range on the data ring: the pages it puts into the mapping, in order.
-- A range that leaves the ring is refused.
def remapVmallocRange (vma : Vma) (pgoff : Nat) : Except Errno (List Page) :=
  let pages := (vma.vmEnd - vma.vmStart + (pageSize - 1)) / pageSize
  if (pgoff + pages) * pageSize > KBUF_MMAP_CAPACITY then .error .EINVAL
  else .ok ((List.range pages).map fun i => .data (pgoff + i))

def kbufDmabufMmap (vma : Vma) : Except Errno (List Page) :=
  let size := vma.vmEnd - vma.vmStart
  if size > KBUF_MMAP_CAPACITY then .error .EINVAL
  else remapVmallocRange pageSize vma vma.vmPgoff

-- Where a user address leads in a mapping that has all its pages.
def resolveIn (vma : Vma) (pages : List Page) (addr : Nat) : Option KernelAddr :=
  if vma.vmStart ≤ addr ∧ addr < vma.vmEnd then
    pages[(addr - vma.vmStart) / pageSize]?.map
      (Page.addr pageSize ((addr - vma.vmStart) % pageSize))
  else none

end Definitions

section Table

variable {pageSize : Nat}

-- The table that the loop leaves, entry by entry.
def pageEntries (pageSize : Nat) : (n i : Nat) → List Scatterlist
  | 0, _ => []
  | n + 1, i => ⟨some (.data i), pageSize, 0⟩ :: pageEntries pageSize n (i + 1)

theorem vmallocToPage_data (hpos : 0 < pageSize) {i : Nat}
    (hi : i * pageSize < KBUF_MMAP_CAPACITY) :
    vmallocToPage pageSize (.data (i * pageSize)) = some (.data i) := by
  simp only [vmallocToPage, if_pos hi, Nat.mul_div_cancel _ hpos]

theorem sgSetPages_eq (hpos : 0 < pageSize) (sg : Scatterlist) (n i : Nat)
    (hfits : (i + n) * pageSize ≤ KBUF_MMAP_CAPACITY) :
    sgSetPages pageSize n i (List.replicate n sg) = pageEntries pageSize n i := by
  induction n generalizing i with
  | zero => rfl
  | succ n ih =>
      have hi : i * pageSize < KBUF_MMAP_CAPACITY :=
        Nat.lt_of_lt_of_le (Nat.mul_lt_mul_of_pos_right (by omega) hpos) hfits
      rw [List.replicate_succ, sgSetPages, pageEntries, vmallocToPage_data hpos hi,
        ih (i + 1) (by rwa [Nat.add_right_comm])]

theorem kbufDmabufMap_ok (hdvd : pageSize ∣ KBUF_MMAP_CAPACITY) {env : DmabufEnv}
    {sgl : List Scatterlist} (h : kbufDmabufMap pageSize env = .ok sgl) :
    sgl = pageEntries pageSize (KBUF_DMABUF_PAGES pageSize) 0 := by
  have hpages : KBUF_DMABUF_PAGES pageSize * pageSize = KBUF_MMAP_CAPACITY :=
    Nat.div_mul_cancel hdvd
  unfold kbufDmabufMap at h
  split at h
  · cases h
  split at h
  · cases h
  dsimp only at h
  split at h
  · cases h
  · rw [← Except.ok.inj h]
    apply sgSetPages_eq (pageSize_pos hdvd)
    rw [Nat.zero_add, hpages]

theorem pageEntries_pages (n i : Nat) :
    (pageEntries pageSize n i).map Scatterlist.page =
      (List.range' i n).map fun index => some (.data index) := by
  induction n generalizing i with
  | zero => rfl
  | succ n ih => rw [pageEntries, List.map_cons, ih, List.range'_succ, List.map_cons]

theorem pageEntries_length (n i : Nat) :
    ((pageEntries pageSize n i).map Scatterlist.length).sum = n * pageSize := by
  induction n generalizing i with
  | zero => simp [pageEntries]
  | succ n ih => rw [pageEntries, List.map_cons, List.sum_cons, ih, Nat.succ_mul, Nat.add_comm]

-- Walking the table counts off whole pages.
theorem sgByte_pageEntries (n i k : Nat) (hk : k < n * pageSize) :
    sgByte pageSize (pageEntries pageSize n i) k = some (.data (i * pageSize + k)) := by
  induction n generalizing i k with
  | zero => omega
  | succ n ih =>
      rw [pageEntries, sgByte]
      by_cases hlt : k < pageSize
      · rw [if_pos hlt, Option.map_some, Page.addr, Nat.zero_add]
      · rw [Nat.succ_mul] at hk
        have hoff : (i + 1) * pageSize + (k - pageSize) = i * pageSize + k := by
          rw [Nat.succ_mul]
          omega
        rw [if_neg hlt, ih (i + 1) (k - pageSize) (by omega), hoff]

end Table

section Views

variable {pageSize : Nat}

-- A flat mapping from page `vm_pgoff` on shows the bytes from there on.
theorem resolveIn_dmabuf (hpos : 0 < pageSize) {vma : Vma} {pages : List Page}
    (h : kbufDmabufMmap pageSize vma = .ok pages) {addr : Nat} (hstart : vma.vmStart ≤ addr)
    (hend : addr < vma.vmEnd) :
    resolveIn pageSize vma pages addr =
      some (.data (vma.vmPgoff * pageSize + (addr - vma.vmStart))) := by
  have hpages : pages = (List.range ((vma.vmEnd - vma.vmStart + (pageSize - 1)) / pageSize)).map
      fun i => .data (vma.vmPgoff + i) := by
    unfold kbufDmabufMmap remapVmallocRange at h
    dsimp only at h
    split at h
    · cases h
    split at h
    · cases h
    · exact (Except.ok.inj h).symm
  have hin : (addr - vma.vmStart) / pageSize <
      (vma.vmEnd - vma.vmStart + (pageSize - 1)) / pageSize := by
    rw [Nat.div_lt_iff_lt_mul hpos]
    have hcover := Nat.div_add_mod' (vma.vmEnd - vma.vmStart + (pageSize - 1)) pageSize
    have hrest := Nat.mod_lt (vma.vmEnd - vma.vmStart + (pageSize - 1)) hpos
    omega
  have hbyte := Nat.div_add_mod' (addr - vma.vmStart) pageSize
  rw [resolveIn, if_pos ⟨hstart, hend⟩, hpages, List.getElem?_map, List.getElem?_range hin,
    Option.map_some, Option.map_some, Page.addr, Nat.add_mul]
  congr 2
  omega

-- Every way to reach byte `k` of an exported ring leads to the same byte of
-- `dev->mmap_data`, and the scatter-gather table is the whole ring, page by page.
theorem exported_views_alias (pageSize : Nat) (hdvd : pageSize ∣ KBUF_MMAP_CAPACITY) :
    (∀ env sgl, kbufDmabufMap pageSize env = .ok sgl →
      (sgl.map Scatterlist.length).sum = KBUF_MMAP_CAPACITY ∧
      sgl.map Scatterlist.page =
        (List.range (KBUF_MMAP_CAPACITY / pageSize)).map (fun index => some (.data index)) ∧
      ∀ k, k < KBUF_MMAP_CAPACITY → sgByte pageSize sgl k = some (.data k)) ∧
    ∀ k, k < KBUF_MMAP_CAPACITY →
      kbufDmabufVmap.plus k = .data k ∧
      (∀ vma pages addr, kbufDmabufMmap pageSize vma = .ok pages → vma.vmStart ≤ addr →
        addr < vma.vmEnd → vma.vmPgoff * pageSize + (addr - vma.vmStart) = k →
        resolveIn pageSize vma pages addr = some (.data k)) ∧
      ∀ vma, kbufMmap pageSize vma = .ok () →
        resolve pageSize vma (mapData pageSize vma + k) = some (.data k) ∧
        resolve pageSize vma (mapData pageSize vma + (KBUF_MMAP_CAPACITY + k)) =
          some (.data k) := by
  refine ⟨fun env sgl h => ?_, fun k hk => ⟨?_, ?_, fun vma hmap => ⟨?_, ?_⟩⟩⟩
  · have hpages : KBUF_DMABUF_PAGES pageSize * pageSize = KBUF_MMAP_CAPACITY :=
      Nat.div_mul_cancel hdvd
    rw [kbufDmabufMap_ok hdvd h]
    refine ⟨?_, ?_, fun k hk => ?_⟩
    · rw [pageEntries_length, hpages]
    · rw [pageEntries_pages, List.range_eq_range']
      rfl
    · rw [sgByte_pageEntries _ _ _ (by rwa [hpages]), Nat.zero_mul, Nat.zero_add]
  · rw [kbufDmabufVmap, KernelAddr.plus, Nat.zero_add]
  · rintro vma pages addr h hstart hend rfl
    exact resolveIn_dmabuf (pageSize_pos hdvd) h hstart hend
  · rw [resolve_data hdvd hmap (by omega), Nat.mod_eq_of_lt hk]
  · rw [resolve_data hdvd hmap (by omega), Nat.add_mod_left, Nat.mod_eq_of_lt hk]

-- The second half of the ring, seen through a mapping of its own.
def halfVma : Vma := ⟨0x9000, 0x9000 + KBUF_MMAP_CAPACITY / 2, 8⟩

theorem exported_views_alias_4096 :
    ∃ sgl pages, kbufDmabufMap 4096 ⟨true, .ok (), .ok ()⟩ = .ok sgl ∧
      kbufDmabufMmap 4096 halfVma = .ok pages ∧ kbufMmap 4096 sampleVma = .ok () ∧
      sgByte 4096 sgl 0x8005 = some (.data 0x8005) ∧
      resolveIn 4096 halfVma pages 0x9005 = some (.data 0x8005) ∧
      resolve 4096 sampleVma (mapData 4096 sampleVma + (KBUF_MMAP_CAPACITY + 0x8005)) =
        some (.data 0x8005) := by
  have hmap : kbufMmap 4096 sampleVma = .ok () := by decide
  obtain ⟨hsg, hviews⟩ := exported_views_alias 4096 (by decide)
  obtain ⟨-, hflat, hdevice⟩ := hviews 0x8005 (by decide)
  obtain ⟨sgl, hsgl⟩ : ∃ sgl, kbufDmabufMap 4096 ⟨true, .ok (), .ok ()⟩ = .ok sgl := ⟨_, rfl⟩
  obtain ⟨pages, hpages⟩ : ∃ pages, kbufDmabufMmap 4096 halfVma = .ok pages := by
    simp [kbufDmabufMmap, remapVmallocRange, halfVma, KBUF_MMAP_CAPACITY]
  obtain ⟨-, -, hwalk⟩ := hsg _ _ hsgl
  exact ⟨sgl, pages, hsgl, hpages, hmap, hwalk 0x8005 (by decide),
    hflat _ _ _ hpages (by decide) (by decide) (by decide), (hdevice sampleVma hmap).2⟩

end Views

end Kbuf
