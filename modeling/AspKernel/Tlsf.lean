import AspKernel.Lib.WordMem
import Mathlib.Data.Nat.Bitwise

/-! The memory allocator of the target (`tlsf.c`) on a memory of words. -/

namespace AspKernel.Tlsf
set_option autoImplicit true
open WordMem

def NULL : Nat := 0

/-- Arithmetic of `size_t`. -/
def add32 (a b : Nat) : Nat := (a + b) % 2 ^ 32

def sub32 (a b : Nat) : Nat := (a + (2 ^ 32 - b)) % 2 ^ 32

def not32 (a : Nat) : Nat := 2 ^ 32 - 1 - a

def MAX_FLI : Nat := 30

def MAX_LOG2_SLI : Nat := 5

def MAX_SLI : Nat := 1 <<< MAX_LOG2_SLI

def FLI_OFFSET : Nat := 6

def SMALL_BLOCK : Nat := 128

def REAL_FLI : Nat := MAX_FLI - FLI_OFFSET

def MIN_BLOCK_SIZE : Nat := 8

def sizeofBhdr : Nat := 16

def BHDR_OVERHEAD : Nat := sizeofBhdr - MIN_BLOCK_SIZE

def TLSF_SIGNATURE : Nat := 0x2A59FA59

def PTR_MASK : Nat := 3

def BLOCK_SIZE : Nat := 0xFFFFFFFF - PTR_MASK

def MEM_ALIGN : Nat := 7

def FREE_BLOCK : Nat := 1

def USED_BLOCK : Nat := 0

def PREV_STATE : Nat := 2

def PREV_FREE : Nat := 2

def PREV_USED : Nat := 0

def getNextBlock (addr r : Nat) : Nat := addr + r

def roundupSize (r : Nat) : Nat := add32 r MEM_ALIGN &&& not32 MEM_ALIGN

def rounddownSize (r : Nat) : Nat := r &&& not32 MEM_ALIGN

/-- The fields of a `bhdr_t`. -/
def Bhdr.prevHdr (b : Nat) : Nat := b

def Bhdr.size (b : Nat) : Nat := b + 4

def Bhdr.prev (b : Nat) : Nat := b + 8

def Bhdr.next (b : Nat) : Nat := b + 12

def Bhdr.buffer (b : Nat) : Nat := b + 8

/-- The fields of an `area_info_t`. -/
def AreaInfo.endHdr (ai : Nat) : Nat := ai

def AreaInfo.next (ai : Nat) : Nat := ai + 4

def sizeofAreaInfo : Nat := 8

/-- The fields of the `tlsf_t`. -/
def tlsfSignature (tlsf : Nat) : Nat := tlsf

def areaHead (tlsf : Nat) : Nat := tlsf + 4

def flBitmap (tlsf : Nat) : Nat := tlsf + 8

def slBitmap (tlsf fl : Nat) : Nat := tlsf + 12 + 4 * fl

def matrix (tlsf fl sl : Nat) : Nat := tlsf + 12 + 4 * REAL_FLI + 4 * (MAX_SLI * fl + sl)

def sizeofTlsf : Nat := 12 + 4 * REAL_FLI + 4 * (MAX_SLI * REAL_FLI)

def table : List Int := [-1, 0, 1, 1] ++ List.replicate 4 2 ++ List.replicate 8 3 ++ List.replicate 16 4 ++
  List.replicate 32 5 ++ List.replicate 64 6 ++ List.replicate 128 7

/-- The look-up that `ls_bit` and `ms_bit` share. -/
def bitOf (x : Nat) : Int :=
  let a := if x ≤ 0xffff then if x ≤ 0xff then 0 else 8 else if x ≤ 0xffffff then 16 else 24
  table.getD (x >>> a) 0 + a

def lsBit (i : Nat) : Int := bitOf (i &&& sub32 0 i)

def msBit (i : Nat) : Int := bitOf i

def setBit (m : Mem) (nr addr : Nat) : Mem :=
  m.set (addr + 4 * (nr >>> 5)) (m (addr + 4 * (nr >>> 5)) ||| 1 <<< (nr &&& 0x1f))

def clearBit (m : Mem) (nr addr : Nat) : Mem :=
  m.set (addr + 4 * (nr >>> 5)) (m (addr + 4 * (nr >>> 5)) &&& not32 (1 <<< (nr &&& 0x1f)))

/-- The size that is searched for, and the indices. -/
def mappingSearch (r : Nat) : Nat × Nat × Nat :=
  if r < SMALL_BLOCK then (r, 0, r / (SMALL_BLOCK / MAX_SLI))
  else
    let t := 1 <<< ((msBit r).toNat - MAX_LOG2_SLI) - 1
    let r := add32 r t
    let fl := (msBit r).toNat
    (r &&& not32 t, fl - FLI_OFFSET, r >>> (fl - MAX_LOG2_SLI) - MAX_SLI)

def mappingInsert (r : Nat) : Nat × Nat :=
  if r < SMALL_BLOCK then (0, r / (SMALL_BLOCK / MAX_SLI))
  else
    let fl := (msBit r).toNat
    (fl - FLI_OFFSET, r >>> (fl - MAX_LOG2_SLI) - MAX_SLI)

/-- The block, or `NULL`, and the indices of its list. -/
def findSuitableBlock (m : Mem) (tlsf fl sl : Nat) : Nat × Nat × Nat :=
  let tmp := m (slBitmap tlsf fl) &&& (0xFFFFFFFF <<< sl) % 2 ^ 32
  if tmp ≠ 0 then
    let sl := (lsBit tmp).toNat
    (m (matrix tlsf fl sl), fl, sl)
  else
    let i := lsBit (m (flBitmap tlsf) &&& (0xFFFFFFFF <<< (fl + 1)) % 2 ^ 32)
    if 0 < i then
      let fl := i.toNat
      let sl := (lsBit (m (slBitmap tlsf fl))).toNat
      (m (matrix tlsf fl sl), fl, sl)
    else (NULL, i.toNat, sl)

/-- The bits of a list that has become empty. -/
def clearBits (m : Mem) (tlsf fl sl : Nat) : Mem :=
  let m := clearBit m sl (slBitmap tlsf fl)
  if m (slBitmap tlsf fl) = 0 then clearBit m fl (flBitmap tlsf) else m

def extractBlockHdr (m : Mem) (b tlsf fl sl : Nat) : Mem :=
  let m := m.set (matrix tlsf fl sl) (m (Bhdr.next b))
  let m := if m (matrix tlsf fl sl) ≠ NULL then m.set (Bhdr.prev (m (matrix tlsf fl sl))) NULL
    else clearBits m tlsf fl sl
  let m := m.set (Bhdr.prev b) NULL
  m.set (Bhdr.next b) NULL

def extractBlock (m : Mem) (b tlsf fl sl : Nat) : Mem :=
  let m := if m (Bhdr.next b) ≠ NULL then m.set (Bhdr.prev (m (Bhdr.next b))) (m (Bhdr.prev b)) else m
  let m := if m (Bhdr.prev b) ≠ NULL then m.set (Bhdr.next (m (Bhdr.prev b))) (m (Bhdr.next b)) else m
  let m := if m (matrix tlsf fl sl) = b then
      let m := m.set (matrix tlsf fl sl) (m (Bhdr.next b))
      if m (matrix tlsf fl sl) = NULL then clearBits m tlsf fl sl else m
    else m
  let m := m.set (Bhdr.prev b) NULL
  m.set (Bhdr.next b) NULL

def insertBlock (m : Mem) (b tlsf fl sl : Nat) : Mem :=
  let m := m.set (Bhdr.prev b) NULL
  let m := m.set (Bhdr.next b) (m (matrix tlsf fl sl))
  let m := if m (matrix tlsf fl sl) ≠ NULL then m.set (Bhdr.prev (m (matrix tlsf fl sl))) b else m
  let m := m.set (matrix tlsf fl sl) b
  let m := setBit m sl (slBitmap tlsf fl)
  setBit m fl (flBitmap tlsf)

/-- The area as a used block of the area's own data, a used block and the end, and the first of them. -/
def processArea (m : Mem) (area size : Nat) : Mem × Nat :=
  let ib := area
  let m := m.set (Bhdr.size ib) (if sizeofAreaInfo < MIN_BLOCK_SIZE then MIN_BLOCK_SIZE
    else roundupSize sizeofAreaInfo ||| USED_BLOCK ||| PREV_USED)
  let b := getNextBlock (Bhdr.buffer ib) (m (Bhdr.size ib) &&& BLOCK_SIZE)
  let m := m.set (Bhdr.size b) (rounddownSize (sub32 (sub32 size (3 * BHDR_OVERHEAD)) (m (Bhdr.size ib) &&& BLOCK_SIZE)) |||
    USED_BLOCK ||| PREV_USED)
  let m := m.set (Bhdr.next b) NULL
  let m := m.set (Bhdr.prev b) NULL
  let lb := getNextBlock (Bhdr.buffer b) (m (Bhdr.size b) &&& BLOCK_SIZE)
  let m := m.set (Bhdr.prevHdr lb) b
  let m := m.set (Bhdr.size lb) (0 ||| USED_BLOCK ||| PREV_FREE)
  let ai := Bhdr.buffer ib
  let m := m.set (AreaInfo.next ai) NULL
  let m := m.set (AreaInfo.endHdr ai) lb
  (m, ib)

/-- The size that a block is asked for. -/
def blockSize (size : Nat) : Nat := if size < MIN_BLOCK_SIZE then MIN_BLOCK_SIZE else roundupSize size

/-- What is left of a block, of `tmpSize` bytes, becomes a free block in front of `nextB`. Where the
block was in use, `nextB` is marked. -/
def splitBlock (mark : Bool) (m : Mem) (b nextB size tmpSize tlsf : Nat) : Mem :=
  let tmpSize := sub32 tmpSize BHDR_OVERHEAD
  let b2 := getNextBlock (Bhdr.buffer b) size
  let m := m.set (Bhdr.size b2) (tmpSize ||| FREE_BLOCK ||| PREV_USED)
  let m := m.set (Bhdr.prevHdr nextB) b2
  let m := if mark then m.set (Bhdr.size nextB) (m (Bhdr.size nextB) ||| PREV_FREE) else m
  let i := mappingInsert tmpSize
  let m := insertBlock m b2 tlsf i.1 i.2
  m.set (Bhdr.size b) (size ||| m (Bhdr.size b) &&& PREV_STATE)

def mallocEx (m : Mem) (size tlsf : Nat) : Mem × Nat :=
  let s := mappingSearch (blockSize size)
  let size := s.1
  let i := findSuitableBlock m tlsf s.2.1 s.2.2
  let b := i.1
  if b = NULL then (m, NULL)
  else
    let m := extractBlockHdr m b tlsf i.2.1 i.2.2
    let nextB := getNextBlock (Bhdr.buffer b) (m (Bhdr.size b) &&& BLOCK_SIZE)
    let tmpSize := sub32 (m (Bhdr.size b) &&& BLOCK_SIZE) size
    if sizeofBhdr ≤ tmpSize then (splitBlock false m b nextB size tmpSize tlsf, Bhdr.buffer b)
    else
      let m := m.set (Bhdr.size nextB) (m (Bhdr.size nextB) &&& not32 PREV_FREE)
      let m := m.set (Bhdr.size b) (m (Bhdr.size b) &&& not32 FREE_BLOCK)
      (m, Bhdr.buffer b)

/-- The list of a free block by its size. -/
def extractFree (m : Mem) (b tlsf : Nat) : Mem :=
  let i := mappingInsert (m (Bhdr.size b) &&& BLOCK_SIZE)
  extractBlock m b tlsf i.1 i.2

/-- `b->size += (tmp_b->size & BLOCK_SIZE) + BHDR_OVERHEAD` -/
def grow (m : Mem) (b tmp : Nat) : Mem :=
  m.set (Bhdr.size b) (add32 (m (Bhdr.size b)) (add32 (m (Bhdr.size tmp) &&& BLOCK_SIZE) BHDR_OVERHEAD))

/-- The end of `free_ex`: the free block goes into its list, and the block behind it is marked. -/
def linkFree (m : Mem) (b tlsf : Nat) : Mem :=
  let i := mappingInsert (m (Bhdr.size b) &&& BLOCK_SIZE)
  let m := insertBlock m b tlsf i.1 i.2
  let tmp := getNextBlock (Bhdr.buffer b) (m (Bhdr.size b) &&& BLOCK_SIZE)
  let m := m.set (Bhdr.size tmp) (m (Bhdr.size tmp) ||| PREV_FREE)
  m.set (Bhdr.prevHdr tmp) b

def freeEx (m : Mem) (ptr tlsf : Nat) : Mem :=
  if ptr = NULL then m
  else
    let b := ptr - BHDR_OVERHEAD
    let m := m.set (Bhdr.size b) (m (Bhdr.size b) ||| FREE_BLOCK)
    let m := m.set (Bhdr.prev b) NULL
    let m := m.set (Bhdr.next b) NULL
    let tmp := getNextBlock (Bhdr.buffer b) (m (Bhdr.size b) &&& BLOCK_SIZE)
    let m := if m (Bhdr.size tmp) &&& FREE_BLOCK ≠ 0 then grow (extractFree m tmp tlsf) b tmp else m
    if m (Bhdr.size b) &&& PREV_FREE ≠ 0 then
      let tmp := m (Bhdr.prevHdr b)
      linkFree (grow (extractFree m tmp tlsf) tmp b) tmp tlsf
    else linkFree m b tlsf

/-- `tmp_b` of the bytes that are left is split off where there is room for it. -/
def splitRest (m : Mem) (b nextB newSize tmpSize tlsf : Nat) : Mem :=
  let tmpSize := sub32 tmpSize newSize
  if sizeofBhdr ≤ tmpSize then splitBlock true m b nextB newSize tmpSize tlsf else m

/-- The branch of `realloc_ex` for a size that the block has. -/
def reallocShrink (m : Mem) (b nextB newSize tmpSize tlsf : Nat) : Mem :=
  if m (Bhdr.size nextB) &&& FREE_BLOCK ≠ 0 then
    let m := extractFree m nextB tlsf
    splitRest m b (getNextBlock (Bhdr.buffer nextB) (m (Bhdr.size nextB) &&& BLOCK_SIZE)) newSize
      (add32 tmpSize (add32 (m (Bhdr.size nextB) &&& BLOCK_SIZE) BHDR_OVERHEAD)) tlsf
  else splitRest m b nextB newSize tmpSize tlsf

/-- The branch of `realloc_ex` that takes the free block behind the block. -/
def reallocGrow (m : Mem) (b nextB newSize tlsf : Nat) : Mem :=
  let m := grow (extractFree m nextB tlsf) b nextB
  let nextB := getNextBlock (Bhdr.buffer b) (m (Bhdr.size b) &&& BLOCK_SIZE)
  let m := m.set (Bhdr.prevHdr nextB) b
  let m := m.set (Bhdr.size nextB) (m (Bhdr.size nextB) &&& not32 PREV_FREE)
  splitRest m b nextB newSize (m (Bhdr.size b) &&& BLOCK_SIZE) tlsf

/-- The branch of `realloc_ex` that copies the data to another block. -/
def reallocMove (m : Mem) (ptr b newSize tlsf : Nat) : Mem × Nat :=
  let r := mallocEx m newSize tlsf
  let m := r.1
  let aux := r.2
  if aux = NULL then (m, NULL)
  else
    let cpsize := if newSize < m (Bhdr.size b) &&& BLOCK_SIZE then newSize else m (Bhdr.size b) &&& BLOCK_SIZE
    (freeEx (m.copy aux ptr cpsize) ptr tlsf, aux)

def reallocEx (m : Mem) (ptr newSize tlsf : Nat) : Mem × Nat :=
  if ptr = NULL then if newSize ≠ 0 then mallocEx m newSize tlsf else (m, NULL)
  else if newSize = 0 then (freeEx m ptr tlsf, NULL)
  else
    let b := ptr - BHDR_OVERHEAD
    let nextB := getNextBlock (Bhdr.buffer b) (m (Bhdr.size b) &&& BLOCK_SIZE)
    let newSize := blockSize newSize
    let tmpSize := m (Bhdr.size b) &&& BLOCK_SIZE
    if newSize ≤ tmpSize then (reallocShrink m b nextB newSize tmpSize tlsf, Bhdr.buffer b)
    else if m (Bhdr.size nextB) &&& FREE_BLOCK ≠ 0 ∧
        newSize ≤ add32 tmpSize (m (Bhdr.size nextB) &&& BLOCK_SIZE) then
      (reallocGrow m b nextB newSize tlsf, Bhdr.buffer b)
    else reallocMove m ptr b newSize tlsf

def callocEx (m : Mem) (nelem elemSize tlsf : Nat) : Mem × Nat :=
  if nelem = 0 ∨ elemSize = 0 then (m, NULL)
  else
    let r := mallocEx m (nelem * elemSize % 2 ^ 32) tlsf
    if r.2 = NULL then (r.1, NULL) else (r.1.zero r.2 (nelem * elemSize % 2 ^ 32), r.2)

def initMemoryPool (m : Mem) (memPoolSize memPool : Nat) : Mem × Nat :=
  if memPool = NULL ∨ memPoolSize = 0 ∨ memPoolSize < sizeofTlsf + BHDR_OVERHEAD * 8 then (m, 2 ^ 32 - 1)
  else if memPool &&& PTR_MASK ≠ 0 then (m, 2 ^ 32 - 1)
  else if m (tlsfSignature memPool) = TLSF_SIGNATURE then
    (m, m (Bhdr.size (getNextBlock memPool (roundupSize sizeofTlsf))) &&& BLOCK_SIZE)
  else
    let m := m.zero memPool sizeofTlsf
    let m := m.set (tlsfSignature memPool) TLSF_SIGNATURE
    let r := processArea m (getNextBlock memPool (roundupSize sizeofTlsf))
      (rounddownSize (sub32 memPoolSize sizeofTlsf))
    let m := r.1
    let ib := r.2
    let b := getNextBlock (Bhdr.buffer ib) (m (Bhdr.size ib) &&& BLOCK_SIZE)
    let m := freeEx m (Bhdr.buffer b) memPool
    let m := m.set (areaHead memPool) (Bhdr.buffer ib)
    (m, m (Bhdr.size b) &&& BLOCK_SIZE)

/-- A block as `print_all_blocks` shows it: its address, its size, and whether it is free. -/
structure Blk where
  addr : Nat
  size : Nat
  free : Bool
  deriving DecidableEq, Repr

/-- The blocks of an area up to its sentinel, `n` of them at most. -/
def blocksFrom (m : Mem) : Nat → Nat → List Blk
  | 0, _ => []
  | n + 1, b =>
    ⟨b, m (Bhdr.size b) &&& BLOCK_SIZE, decide (m (Bhdr.size b) &&& FREE_BLOCK = FREE_BLOCK)⟩ ::
      if m (Bhdr.size b) &&& BLOCK_SIZE ≠ 0 then
        blocksFrom m n (getNextBlock (Bhdr.buffer b) (m (Bhdr.size b) &&& BLOCK_SIZE))
      else []

/-- The blocks of the areas from one on, `n` areas at most. -/
def areasFrom (m : Mem) : Nat → Nat → List Blk
  | 0, _ => []
  | n + 1, ai =>
    if ai = NULL then []
    else blocksFrom m (n + 1) (ai - BHDR_OVERHEAD) ++ areasFrom m n (m (AreaInfo.next ai))

/-- What `print_all_blocks` prints, of `n` areas of `n` blocks at most. -/
def printAllBlocks (m : Mem) (tlsf n : Nat) : List Blk := areasFrom m n (m (areaHead tlsf))

end AspKernel.Tlsf
