/-
Purpose: The loader of program files of kernel/proc/elf.c: the header and
  segment tests of elf_load and the page-wise loading of its segments into a new
  address space.
Trusted boundary: the physical allocator hands out frames that differ from each
  other, so a mapped page is its content; the file lies in the kernel's part of
  the address space, and what stands around it is a choice of the environment;
  the region list of the process and console messages are not modelled
Main exports: Image, byteAt, word
-/
import Mathlib.Algebra.Ring.Nat
import Mathlib.Logic.Function.Basic

namespace MainDob.Kernel.Elf

def pageSize : Nat := 4096

def userSpaceLimit : Nat := 0xC0000000

/-- The number of values of a `uint32_t`. -/
def wordSize : Nat := 2 ^ 32

def elfMagic : Nat := 0x464C457F

def etExec : Nat := 2

def em386 : Nat := 3

def ptLoad : Nat := 1

/-- `sizeof(elf_header_t)`. -/
def headerSize : Nat := 46

/-- `sizeof(elf_phdr_t)`. -/
def phdrSize : Nat := 32

/-- A file in kernel memory, with the memory around it: the byte at a distance
from its start, when that is outside the file. -/
structure Image where
  bytes : List UInt8
  inKernel : bytes.length ≤ 0x40000000
  outside : Nat → UInt8

/-- The `size` that comes with a file. -/
def Image.size (img : Image) : Nat := img.bytes.length

/-- The byte at `data + off`, in 32-bit pointer arithmetic. -/
def byteAt (img : Image) (off : Nat) : UInt8 :=
  (img.bytes[off % wordSize]?).getD (img.outside (off % wordSize))

/-- The little-endian `uint16_t` at an offset. -/
def half (img : Image) (off : Nat) : Nat :=
  (byteAt img off).toNat + 256 * (byteAt img (off + 1)).toNat

/-- The little-endian `uint32_t` at an offset. -/
def word (img : Image) (off : Nat) : Nat :=
  half img off + 65536 * half img (off + 2)

/-! ### The header and the segments -/

/-- `h->entry`. -/
def entryOf (img : Image) : Nat := word img 24

/-- `h->phoff`. -/
def phoff (img : Image) : Nat := word img 28

/-- `h->phnum`. -/
def phnum (img : Image) : Nat := half img 44

/-- The fields of an `elf_phdr_t` that the loader reads. -/
structure Phdr where
  type : Nat
  offset : Nat
  vaddr : Nat
  filesz : Nat
  memsz : Nat
deriving DecidableEq, Repr

/-- `ph[i]`. -/
def phdr (img : Image) (i : Nat) : Phdr where
  type := word img (phoff img + i * phdrSize)
  offset := word img (phoff img + i * phdrSize + 4)
  vaddr := word img (phoff img + i * phdrSize + 8)
  filesz := word img (phoff img + i * phdrSize + 16)
  memsz := word img (phoff img + i * phdrSize + 20)

/-- `header_is_valid`. -/
def headerIsValid (img : Image) : Bool :=
  if img.size < headerSize then false
  else if word img 0 ≠ elfMagic ∨ byteAt img 4 ≠ 1 then false
  else if half img 16 ≠ etExec ∨ half img 18 ≠ em386 then false
  else if (phoff img + phnum img * phdrSize) % wordSize > img.size then false
  else true

/-- `segment_is_sane`. -/
def segmentIsSane (ph : Phdr) (fileSize : Nat) : Bool :=
  if (ph.vaddr + ph.memsz) % wordSize < ph.vaddr then false
  else if (ph.vaddr + ph.memsz) % wordSize > userSpaceLimit then false
  else if ph.filesz > ph.memsz then false
  else if ph.offset + ph.filesz > fileSize then false
  else true

/-! ### Loading -/

/-- The address space that is built, by page number, with the free frames that
are left and, as a record the code does not keep, the ranges of the file that
were read, each an offset and a length. -/
structure Space where
  pages : Nat → Option (Nat → UInt8)
  frames : Nat
  reads : List (Nat × Nat)

/-- A frame after `memset` and the `memcpy` of `count` bytes of the file from
`src` on, to `dst`. -/
def filledPage (img : Image) (dst src count : Nat) : Nat → UInt8 :=
  fun o => if dst ≤ o ∧ o < dst + count then byteAt img (src + (o - dst)) else 0

/-- One page of a segment: a frame is taken, zeroed, filled with the part of the
file that falls into it, and mapped. -/
def loadPage (img : Image) (ph : Phdr) (pageVaddr : Nat) (s : Space) :
    Option Space :=
  if s.frames = 0 then none
  else
    if pageVaddr + pageSize > ph.vaddr ∧ pageVaddr < ph.vaddr + ph.filesz then
      let copyStart := if pageVaddr > ph.vaddr then pageVaddr else ph.vaddr
      let copyEnd :=
        if ph.vaddr + ph.filesz > pageVaddr + pageSize then pageVaddr + pageSize
        else ph.vaddr + ph.filesz
      let dstOff := copyStart - pageVaddr
      let srcOff := copyStart - ph.vaddr
      some
        { pages := Function.update s.pages (pageVaddr / pageSize)
            (some (filledPage img dstOff (ph.offset + srcOff) (copyEnd - copyStart)))
          frames := s.frames - 1
          reads := (ph.offset + srcOff, copyEnd - copyStart) :: s.reads }
    else
      some { s with
          pages := Function.update s.pages (pageVaddr / pageSize)
            (some fun _ => 0)
          frames := s.frames - 1 }

/-- The loop of `load_segment` with `left` pages to go. -/
def loadPages (img : Image) (ph : Phdr) : Nat → Nat → Space → Option Space
  | 0, _, s => some s
  | left + 1, pageVaddr, s =>
    (loadPage img ph pageVaddr s).bind (loadPages img ph left (pageVaddr + pageSize))

/-- The first page of a segment, `ALIGN_DOWN(ph->vaddr, PAGE_SIZE)` as a page
number. -/
def firstPage (ph : Phdr) : Nat := ph.vaddr / pageSize

/-- The page behind a segment, `ALIGN_UP(ph->vaddr + ph->memsz, PAGE_SIZE)` as a
page number, in 32-bit arithmetic. -/
def lastPage (ph : Phdr) : Nat :=
  (ph.vaddr + ph.memsz + (pageSize - 1)) % wordSize / pageSize

/-- `load_segment`; absent when the frames run out. -/
def loadSegment (img : Image) (ph : Phdr) (s : Space) : Option Space :=
  loadPages img ph (lastPage ph - firstPage ph) (firstPage ph * pageSize) s

/-- A segment that the loader does not skip. -/
def Phdr.loads (ph : Phdr) : Bool := ph.type == ptLoad && ph.memsz != 0

/-- The loop of `elf_load` over the program headers, with `left` to go. -/
def loadSegments (img : Image) : Nat → Nat → Nat → Space → Option (Nat × Space)
  | 0, _, brk, s => some (brk, s)
  | left + 1, i, brk, s =>
    let ph := phdr img i
    let s := { s with
      reads := ((phoff img + i * phdrSize) % wordSize, phdrSize) :: s.reads }
    if ph.loads then
      if segmentIsSane ph img.size then
        (loadSegment img ph s).bind (loadSegments img left (i + 1) (max (ph.vaddr + ph.memsz) brk))
      else none
    else loadSegments img left (i + 1) brk s

/-- What `elf_load` returns on success. -/
structure Loaded where
  entryPoint : Nat
  brk : Nat
deriving DecidableEq, Repr

/-- `elf_load`, into an address space; absent when the file is rejected. -/
def elfLoad (img : Image) (s : Space) : Option (Loaded × Space) :=
  if headerIsValid img then
    (loadSegments img (phnum img) 0 0 { s with reads := [(0, headerSize)] }).map fun (brk, s) =>
        ({ entryPoint := entryOf img
           brk := (brk + (pageSize - 1)) / pageSize * pageSize }, s)
  else none

/-! ### What the loader promises -/

/-- The byte that a segment has at an address of its pages: the file's, and 0
outside the part that comes from the file. -/
def pageByte (img : Image) (ph : Phdr) (addr : Nat) : UInt8 :=
  if ph.vaddr ≤ addr ∧ addr < ph.vaddr + ph.filesz then
    byteAt img (ph.offset + (addr - ph.vaddr))
  else 0

/-- An accepted file was read inside its bytes, only pages below the user limit
were mapped, and every byte of every loaded segment stands in the address
space. -/
structure LoadOk (img : Image) (s s' : Space) : Prop where
  reads : ∀ range ∈ s'.reads, range.1 + range.2 ≤ img.size
  below : ∀ page, s'.pages page ≠ s.pages page → (page + 1) * pageSize ≤ userSpaceLimit
  contents : ∀ i < phnum img, (phdr img i).loads = true → ∀ k < (phdr img i).memsz,
    ∃ content, s'.pages (((phdr img i).vaddr + k) / pageSize) = some content ∧
      content (((phdr img i).vaddr + k) % pageSize) =
        if k < (phdr img i).filesz then byteAt img ((phdr img i).offset + k)
        else 0

/-- A segment covers a page. -/
def covers (ph : Phdr) (page : Nat) : Bool :=
  ph.loads && decide (firstPage ph ≤ page ∧ page < lastPage ph)

/-- The last of the first `count` segments that covers a page. -/
def lastCover (img : Image) (page : Nat) : Nat → Option Nat
  | 0 => none
  | count + 1 =>
    if covers (phdr img count) page then some count
    else lastCover img page count

/-- The table of program headers ends inside the address space. -/
def TableInside (img : Image) : Prop :=
  phoff img + phnum img * phdrSize < wordSize

/-- Where segments share a page, the last one that covers it has the bytes of
the others in it. -/
def SharedAgree (img : Image) : Prop :=
  ∀ i < phnum img, (phdr img i).loads = true → ∀ k < (phdr img i).memsz,
    ∀ j, lastCover img (((phdr img i).vaddr + k) / pageSize) (phnum img) = some j → pageByte img
    (phdr img j) ((phdr img i).vaddr + k) = pageByte img (phdr img i) ((phdr img i).vaddr + k)

end MainDob.Kernel.Elf
