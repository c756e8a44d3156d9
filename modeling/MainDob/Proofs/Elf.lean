/-
Purpose: Loading a program file: what every page of the new address space holds
  after a file is accepted, and exactly when the accepted file was read inside
  its bytes and all its segments stand in memory.
Trusted boundary: none beyond MainDob.Kernel.Elf
Main exports: word_lt, Sane, elf_load_ok
-/
import MainDob.Kernel.Elf
import Mathlib.Tactic.Common

namespace MainDob.Kernel.Elf

open List Option Function

/-! ### Fields -/

theorem half_lt (img : Image) (off : Nat) : half img off < 65536 := by
  have low := (byteAt img off).toNat_lt
  have high := (byteAt img (off + 1)).toNat_lt
  unfold half
  omega

theorem word_lt (img : Image) (off : Nat) : word img off < wordSize := by
  have low := half_lt img off
  have high := half_lt img (off + 2)
  simp only [word, wordSize]
  omega

/-- A segment that passes the test lies below the user limit, and what comes
from the file lies inside it. -/
structure Sane (ph : Phdr) (size : Nat) : Prop where
  below : ph.vaddr + ph.memsz ≤ userSpaceLimit
  shorter : ph.filesz ≤ ph.memsz
  inside : ph.offset + ph.filesz ≤ size

theorem Sane.of_test {img : Image} {i : Nat} (passed : segmentIsSane (phdr img i) img.size = true) :
    Sane (phdr img i) img.size := by
  have memsz : (phdr img i).memsz < wordSize := word_lt _ _
  unfold segmentIsSane at passed
  split at passed
  · cases passed
  split at passed
  · cases passed
  split at passed
  · cases passed
  split at passed
  · cases passed
  simp only [wordSize] at *
  exact ⟨by omega, by omega, by omega⟩

theorem Sane.lastPage_eq {ph : Phdr} {size : Nat} (sane : Sane ph size) :
    lastPage ph = (ph.vaddr + ph.memsz + 4095) / 4096 := by
  have below := sane.below
  simp only [userSpaceLimit] at below
  simp only [lastPage, wordSize, pageSize]
  rw [Nat.mod_eq_of_lt (by omega)]

/-! ### Pages -/

/-- A page holds the bytes of a segment. -/
def PageOf (img : Image) (ph : Phdr) (page : Nat) (entry : Option (Nat → UInt8)) : Prop :=
  ∃ content, entry = some content ∧
    ∀ o < pageSize, content o = pageByte img ph (page * pageSize + o)

/-- The ranges read for a segment lie inside the file. -/
def ReadsInside (size : Nat) (old new : List (Nat × Nat)) : Prop :=
  (∀ range ∈ old, range ∈ new) ∧ ∀ range ∈ new, range ∈ old ∨ range.1 + range.2 ≤ size

theorem ReadsInside.refl (size : Nat) (reads : List (Nat × Nat)) : ReadsInside size reads reads :=
  ⟨fun _ held => held, fun _ held => .inl held⟩

theorem ReadsInside.trans {size : Nat} {one two three : List (Nat × Nat)}
    (first : ReadsInside size one two) (second : ReadsInside size two three) :
    ReadsInside size one three := by
  refine ⟨fun range held => second.1 range (first.1 range held), ?_⟩
  intro range held
  rcases second.2 range held with old | inside
  · exact first.2 range old
  · exact .inr inside

section Pages

variable {img : Image} {ph : Phdr} {s s' : Space}

theorem filledPage_pageByte {pageVaddr start stop o : Nat} (first : start = max pageVaddr ph.vaddr)
    (last : stop = min (pageVaddr + pageSize) (ph.vaddr + ph.filesz)) (low : o < pageSize) :
    filledPage img (start - pageVaddr) (ph.offset + (start - ph.vaddr))
      (stop - start) o = pageByte img ph (pageVaddr + o) := by
  unfold filledPage pageByte
  by_cases inside : ph.vaddr ≤ pageVaddr + o ∧ pageVaddr + o < ph.vaddr + ph.filesz
  · rw [if_pos (by omega), if_pos inside]
    congr 1
    omega
  · rw [if_neg (by omega), if_neg inside]

theorem loadPage_spec (sane : Sane ph img.size) {page : Nat} (loaded : loadPage img ph
    (page * pageSize) s = some s') : PageOf img ph page (s'.pages page) ∧ (∀ other, other ≠ page →
    s'.pages other = s.pages other) ∧ ReadsInside img.size s.reads s'.reads := by
  have number : page * pageSize / pageSize = page := Nat.mul_div_cancel _ (by decide)
  have inside := sane.inside
  unfold loadPage at loaded
  split at loaded
  · cases loaded
  split at loaded
  · rename_i overlaps
    have first : (if page * pageSize > ph.vaddr then page * pageSize
        else ph.vaddr) = max (page * pageSize) ph.vaddr := by
      split <;> omega
    have last : (if ph.vaddr + ph.filesz > page * pageSize + pageSize then
        page * pageSize + pageSize else ph.vaddr + ph.filesz) =
        min (page * pageSize + pageSize) (ph.vaddr + ph.filesz) := by
      split <;> omega
    cases loaded
    simp only [number]
    refine ⟨⟨_, update_self .., fun o low => filledPage_pageByte first last low⟩,
      fun other different => update_of_ne different .., ?_, ?_⟩
    · exact fun range held => mem_cons_of_mem _ held
    intro range held
    rcases mem_cons.mp held with rfl | old
    · right
      omega
    · exact .inl old
  · rename_i apart
    cases loaded
    simp only [number]
    refine ⟨⟨_, update_self .., fun o low => ?_⟩,
      fun other different => update_of_ne different .., .refl _ _⟩
    rw [pageByte, if_neg]
    omega

theorem loadPages_spec (sane : Sane ph img.size) (left : Nat) : ∀ {page : Nat} {s s' : Space},
    loadPages img ph left (page * pageSize) s = some s' → (∀ q, page ≤ q →
      q < page + left → PageOf img ph q (s'.pages q)) ∧ (∀ q, ¬ (page ≤ q ∧ q < page + left) →
      s'.pages q = s.pages q) ∧ ReadsInside img.size s.reads s'.reads := by
  induction left with
  | zero =>
    intro page s s' loaded
    cases loaded
    exact ⟨fun q low high => by omega, fun q _ => rfl, .refl _ _⟩
  | succ _ ih =>
    intro page s s' loaded
    rw [loadPages, bind_eq_some_iff] at loaded
    obtain ⟨middle, first, rest⟩ := loaded
    rw [← Nat.succ_mul] at rest
    obtain ⟨here, others, reads⟩ := loadPage_spec sane first
    obtain ⟨filled, kept, later⟩ := ih rest
    refine ⟨fun q low high => ?_, fun q outside => ?_, reads.trans later⟩
    · rcases Nat.eq_or_lt_of_le low with rfl | above
      · rw [kept _ (by omega)]
        exact here
      · exact filled q above (by omega)
    · rw [kept q (by omega), others q (by omega)]

theorem loadSegment_spec (sane : Sane ph img.size) (loaded : loadSegment img ph s = some s') :
    (∀ q, firstPage ph ≤ q → q < lastPage ph → PageOf img ph q (s'.pages q)) ∧
      (∀ q, ¬ (firstPage ph ≤ q ∧ q < lastPage ph) → s'.pages q = s.pages q) ∧
      ReadsInside img.size s.reads s'.reads := by
  obtain ⟨filled, kept, reads⟩ := loadPages_spec sane _ loaded
  refine ⟨fun q low high => filled q low (by omega), fun q outside => ?_, reads⟩
  exact kept q (by omega)

end Pages

/-! ### Segments -/

/-- The range of the file that holds a program header. -/
def tableRange (img : Image) (i : Nat) : Nat × Nat :=
  ((phoff img + i * phdrSize) % wordSize, phdrSize)

/-- What stands in the address space after the first `count` program headers. -/
structure Built (img : Image) (start : Space) (count : Nat) (s : Space) :
    Prop where
  covered : ∀ page j, lastCover img page count = some j →
    PageOf img (phdr img j) page (s.pages page)
  rest : ∀ page, lastCover img page count = none → s.pages page = start.pages page
  sane : ∀ i < count, (phdr img i).loads = true → Sane (phdr img i) img.size
  table : ∀ i < count, tableRange img i ∈ s.reads
  reads : ∀ range ∈ s.reads, range.1 + range.2 ≤ img.size ∨ ∃ i < count, range = tableRange img i

section Segments

variable {img : Image} {start s s' : Space} {count : Nat}

theorem Built.skip (built : Built img start count s) (skipped : (phdr img count).loads = false) :
    Built img start (count + 1) { s with reads := tableRange img count :: s.reads } := by
  have same : ∀ page, lastCover img page (count + 1) = lastCover img page count := by
    intro page
    rw [lastCover, covers, skipped]
    rfl
  constructor
  case covered => exact fun page j found => built.covered page j (same page ▸ found)
  case rest => exact fun page none => built.rest page (same page ▸ none)
  case sane =>
    intro i below loads
    rcases Nat.lt_succ_iff_lt_or_eq.mp below with earlier | rfl
    · exact built.sane i earlier loads
    · rw [skipped] at loads
      cases loads
  case table =>
    intro i below
    rcases Nat.lt_succ_iff_lt_or_eq.mp below with earlier | rfl
    · exact mem_cons_of_mem _ (built.table i earlier)
    · exact mem_cons_self ..
  case reads =>
    intro range held
    rcases mem_cons.mp held with rfl | old
    · exact .inr ⟨count, Nat.lt_succ_self _, rfl⟩
    · exact (built.reads range old).imp_right fun ⟨i, below, same⟩ =>
        ⟨i, Nat.lt_succ_of_lt below, same⟩

theorem Built.load (built : Built img start count s) (loads : (phdr img count).loads = true)
    (sane : Sane (phdr img count) img.size) (loaded : loadSegment img (phdr img count)
      { s with reads := tableRange img count :: s.reads } = some s') :
    Built img start (count + 1) s' := by
  obtain ⟨filled, kept, older, newer⟩ := loadSegment_spec sane loaded
  have cover : ∀ page, covers (phdr img count) page = true ↔
      firstPage (phdr img count) ≤ page ∧ page < lastPage (phdr img count) := by
    intro page
    rw [covers, loads, Bool.true_and, decide_eq_true_iff]
  constructor
  case covered =>
    intro page j found
    rw [lastCover] at found
    split at found
    · rename_i here
      cases found
      obtain ⟨low, high⟩ := (cover page).mp here
      exact filled page low high
    · rename_i elsewhere
      rw [kept page fun inside => elsewhere ((cover page).mpr inside)]
      exact built.covered page j found
  case rest =>
    intro page none
    rw [lastCover] at none
    split at none
    · cases none
    rename_i elsewhere
    rw [kept page fun inside => elsewhere ((cover page).mpr inside)]
    exact built.rest page none
  case sane =>
    intro i below
    rcases Nat.lt_succ_iff_lt_or_eq.mp below with earlier | rfl
    · exact built.sane i earlier
    · exact fun _ => sane
  case table =>
    intro i below
    refine older _ ?_
    rcases Nat.lt_succ_iff_lt_or_eq.mp below with earlier | rfl
    · exact mem_cons_of_mem _ (built.table i earlier)
    · exact mem_cons_self ..
  case reads =>
    intro range held
    rcases newer range held with old | inside
    · rcases mem_cons.mp old with rfl | older
      · exact .inr ⟨count, Nat.lt_succ_self _, rfl⟩
      · exact (built.reads range older).imp_right fun ⟨i, below, same⟩ =>
          ⟨i, Nat.lt_succ_of_lt below, same⟩
    · exact .inl inside

theorem loadSegments_built (left : Nat) : ∀ {count brk : Nat} {s : Space} {result : Nat × Space},
    Built img start count s → loadSegments img left count brk s = some result →
      Built img start (count + left) result.2 := by
  induction left with
  | zero =>
    intro count brk s result built loaded
    cases loaded
    exact built
  | succ _ ih =>
    intro count brk s result built loaded
    rw [← Nat.add_assoc, Nat.add_right_comm]
    rw [loadSegments] at loaded
    split at loaded
    · rename_i loads
      split at loaded
      · rename_i passed
        obtain ⟨_, segment, rest⟩ := bind_eq_some_iff.mp loaded
        exact ih (built.load loads (.of_test passed) segment) rest
      · cases loaded
    · rename_i skipped
      exact ih (built.skip (by simpa using skipped)) loaded

theorem elfLoad_built {result : Loaded} (accepted : elfLoad img start = some (result, s')) :
    headerIsValid img = true ∧ Built img start (phnum img) s' := by
  unfold elfLoad at accepted
  split at accepted
  · rename_i valid
    obtain ⟨⟨brk, last⟩, loaded, same⟩ := map_eq_some_iff.mp accepted
    cases same
    refine ⟨valid, ?_⟩
    have header : headerSize ≤ img.size := by
      unfold headerIsValid at valid
      split at valid
      · cases valid
      · rename_i long
        exact Nat.le_of_not_lt long
    have first : Built img start 0 { start with reads := [(0, headerSize)] } :=
      { covered := fun page j found => nomatch found
        rest := fun page _ => rfl
        sane := fun i below => absurd below (Nat.not_lt_zero i)
        table := fun i below => absurd below (Nat.not_lt_zero i)
        reads := fun range held => by
          cases mem_singleton.mp held
          exact .inl (by simpa using header) }
    have built := loadSegments_built (phnum img) first loaded
    rwa [zero_add] at built
  · cases accepted

/-! ### What is promised -/

theorem lastCover_some {page j : Nat} (found : lastCover img page count = some j) :
    j < count ∧ covers (phdr img j) page = true := by
  induction count with
  | zero => cases found
  | succ _ ih =>
    rw [lastCover] at found
    split at found
    · rename_i here
      cases found
      exact ⟨Nat.lt_succ_self _, here⟩
    · obtain ⟨below, cover⟩ := ih found
      exact ⟨Nat.lt_succ_of_lt below, cover⟩

theorem lastCover_of_covers {page i : Nat} (below : i < count)
    (cover : covers (phdr img i) page = true) : ∃ j, lastCover img page count = some j := by
  induction count with
  | zero => exact absurd below (Nat.not_lt_zero i)
  | succ count ih =>
    rw [lastCover]
    split
    · exact ⟨count, rfl⟩
    rename_i elsewhere
    rcases Nat.lt_succ_iff_lt_or_eq.mp below with earlier | rfl
    · exact ih earlier
    · exact absurd cover elsewhere

theorem Sane.covers_byte {ph : Phdr} {size k : Nat} (sane : Sane ph size) (loads : ph.loads = true)
    (inside : k < ph.memsz) : covers ph ((ph.vaddr + k) / pageSize) = true := by
  rw [covers, loads, Bool.true_and, decide_eq_true_iff, sane.lastPage_eq, firstPage]
  simp only [pageSize]
  omega

theorem pageByte_segment (ph : Phdr) (k : Nat) :
    pageByte img ph (ph.vaddr + k) = if k < ph.filesz then byteAt img (ph.offset + k) else 0 := by
  unfold pageByte
  rw [Nat.add_sub_cancel_left]
  refine if_congr ?_ rfl rfl
  omega

theorem Built.contents_iff (built : Built img start (phnum img) s') :
    (∀ i < phnum img, (phdr img i).loads = true → ∀ k < (phdr img i).memsz, ∃ content,
        s'.pages (((phdr img i).vaddr + k) / pageSize) = some content ∧
        content (((phdr img i).vaddr + k) % pageSize) = if k < (phdr img i).filesz then byteAt img
          ((phdr img i).offset + k) else 0) ↔ SharedAgree img := by
  have offset : ∀ a, a % pageSize < pageSize := fun a => Nat.mod_lt a (by decide)
  have whole : ∀ a, a / pageSize * pageSize + a % pageSize = a := fun a => by
    rw [mul_comm]
    exact Nat.div_add_mod a pageSize
  constructor
  · intro stands i below loads k inside j found
    obtain ⟨_, there, byte⟩ := stands i below loads k inside
    obtain ⟨_, there', bytes⟩ := built.covered _ j found
    rw [there] at there'
    cases there'
    rw [bytes _ (offset _), whole] at byte
    rw [byte, pageByte_segment]
  · intro agree i below loads k inside
    obtain ⟨j, found⟩ := lastCover_of_covers below
      ((built.sane i below loads).covers_byte loads inside)
    obtain ⟨content, there, bytes⟩ := built.covered _ j found
    refine ⟨content, there, ?_⟩
    rw [bytes _ (offset _), whole, agree i below loads k inside j found, pageByte_segment]

theorem Built.reads_iff (built : Built img start (phnum img) s') (valid : headerIsValid img = true)
    : (∀ range ∈ s'.reads, range.1 + range.2 ≤ img.size) ↔ TableInside img := by
  have checked : (phoff img + phnum img * phdrSize) % wordSize ≤ img.size := by
    unfold headerIsValid at valid
    split at valid
    · cases valid
    split at valid
    · cases valid
    split at valid
    · cases valid
    split at valid
    · cases valid
    · rename_i inside
      exact Nat.le_of_not_lt inside
  have offset : phoff img < wordSize := word_lt _ _
  have number : phnum img < 65536 := half_lt _ _
  have size : img.size ≤ 0x40000000 := img.inKernel
  unfold TableInside
  simp only [wordSize, phdrSize] at *
  constructor
  · intro inside
    by_contra wraps
    have some : 0 < phnum img := by omega
    have first := inside _ (built.table 0 some)
    simp only [tableRange, wordSize, phdrSize] at first
    omega
  · intro noWrap range held
    rcases built.reads range held with inside | ⟨i, below, rfl⟩
    · exact inside
    · simp only [tableRange, wordSize, phdrSize]
      omega

/-- An accepted file was read inside its bytes and stands in memory, in pages
below the user limit, exactly when its program headers end inside the address
space and the segments that share a page agree. -/
theorem elf_load_ok {result : Loaded} (accepted : elfLoad img start = some (result, s')) :
    LoadOk img start s' ↔ TableInside img ∧ SharedAgree img := by
  obtain ⟨valid, built⟩ := elfLoad_built accepted
  constructor
  · intro ok
    exact ⟨(built.reads_iff valid).mp ok.reads, built.contents_iff.mp ok.contents⟩
  rintro ⟨table, agree⟩
  refine ⟨(built.reads_iff valid).mpr table, fun page changed => ?_, built.contents_iff.mpr agree⟩
  cases found : lastCover img page (phnum img) with
  | none => exact absurd (built.rest page found) changed
  | some j =>
    obtain ⟨below, cover⟩ := lastCover_some found
    rw [covers, Bool.and_eq_true, decide_eq_true_iff] at cover
    have sane := built.sane j below cover.1
    have limit := sane.below
    have last := cover.2.2
    rw [sane.lastPage_eq] at last
    simp only [userSpaceLimit, pageSize] at *
    omega

end Segments

/-- Four bytes, the lowest first. -/
def le32 (n : Nat) : List UInt8 :=
  [.ofNat n, .ofNat (n / 256), .ofNat (n / 65536), .ofNat (n / 16777216)]

/-- A program header with file bytes at an offset, for an address. -/
def segmentAt (offset vaddr filesz memsz : Nat) : List UInt8 :=
  le32 1 ++ le32 offset ++ le32 vaddr ++ le32 vaddr ++ le32 filesz ++
    le32 memsz ++ le32 7 ++ le32 4096

/-- The header of a program file with a number of segments. -/
def programHeader (segments : UInt8) : List UInt8 :=
  [0x7F, 0x45, 0x4C, 0x46, 1, 1, 1, 0, 0, 0, 0, 0, 0, 0, 0, 0, 2, 0, 3, 0] ++
    le32 1 ++ le32 0x1000 ++ le32 46 ++ le32 0 ++ le32 0 ++ [46, 0, 32, 0, segments, 0]

/-- A file with one segment of two bytes from the file and one that is zero. -/
def oneSegment : Image where
  bytes := programHeader 1 ++ segmentAt 78 0x1FFF 2 3 ++ [0xAA, 0xBB]
  inKernel := by decide
  outside := fun _ => 0

/-- A file with two segments of one byte each in one page. -/
def sharedPage : Image where
  bytes := programHeader 2 ++ segmentAt 110 0x1000 1 1 ++
    segmentAt 111 0x1800 1 1 ++ [0xAA, 0xBB]
  inKernel := by decide
  outside := fun _ => 0

/-- An empty address space, with a few frames. -/
def empty : Space where
  pages := fun _ => none
  frames := 4
  reads := []

/-- A segment across two pages stands in memory. -/
theorem elf_load_ok_sample : ∃ result s', elfLoad oneSegment empty = some (result, s') ∧
      TableInside oneSegment ∧ LoadOk oneSegment empty s' := by
  have accepted : (elfLoad oneSegment empty).isSome = true := by decide +kernel
  obtain ⟨⟨result, s'⟩, loaded⟩ := isSome_iff_exists.mp accepted
  have single : phnum oneSegment = 1 := by decide +kernel
  have table : TableInside oneSegment := by
    unfold TableInside
    decide +kernel
  refine ⟨result, s', loaded, table, (elf_load_ok loaded).mpr ⟨table, ?_⟩⟩
  intro i below _ k _ j found
  have same := (lastCover_some found).1
  rw [show i = j by omega]

/-- The second segment's page replaces the first one's, whose byte is lost. -/
theorem elf_load_shared_page :
    ¬ ∀ img start result s', elfLoad img start = some (result, s') → LoadOk img start s' := by
  intro claimed
  have followed : (elfLoad sharedPage empty).map (fun result =>
      (result.2.pages 1).map fun content => content 0) = some (some 0) := by
    decide +kernel
  obtain ⟨⟨result, s'⟩, loaded, held⟩ := map_eq_some_iff.mp followed
  have fields : phnum sharedPage = 2 ∧ phdr sharedPage 0 =
      { type := 1, offset := 110, vaddr := 0x1000, filesz := 1, memsz := 1 } ∧
      byteAt sharedPage 110 = 0xAA := by
    decide +kernel
  obtain ⟨number, first, byte⟩ := fields
  obtain ⟨content, there, value⟩ := (claimed _ _ result s' loaded).contents 0
    (by rw [number]; decide) (by rw [first]; decide) 0 (by rw [first]; decide)
  rw [first] at there value
  have page : s'.pages 1 = some content := there
  have lost : content 0 = 0 := by
    rw [page] at held
    exact Option.some.inj (by simpa using held)
  have kept : content 0 = byteAt sharedPage 110 := value
  rw [lost, byte] at kept
  revert kept
  decide

end MainDob.Kernel.Elf
