/-
Purpose: Long names written and read back. The parts of a long name, the last one first, put its
  characters together again from the end to the start, for as many parts as a scan takes; the
  short entry behind them is shown under that name unless its first byte marks it as deleted.
Main exports: writeDirEntries_slots, parts_name, long_name_round_trip
-/
import MainDob.Fs.DirRecord
import MainDob.Proofs.ShortNames

namespace MainDob.Fs.Fat

open Lib.Bytes (leBytes getLe)
open List

/-! ### The characters of the parts -/

/-- A long name with its terminator and the padding a part may need. -/
def withPadding (name : Path) : List Char :=
  name ++ '\x00' :: List.replicate 12 '\xff'

theorem take_padding {chars : List Char} (some' : 0 < chars.length) (pad : Char) : (chars.take 13 ++
    List.replicate 13 pad).take 13 = (chars ++ List.replicate 12 pad).take 13 := by
  rw [take_append, take_append, take_take, Nat.min_self,
    take_replicate, take_replicate, length_take]
  refine congrArg (fun count => _ ++ List.replicate count pad) ?_
  omega

variable {name : Path} {seq : Nat}

theorem part_name (begins : (seq - 1) * 13 < name.length) (isLast : Bool) :
    (buildLfnEntry name seq isLast).name = ((withPadding name).drop ((seq - 1) * 13)).take 13 := by
  have whole : (name ++ ['\x00']).length = name.length + 1 := length_append
  have split : withPadding name = (name ++ ['\x00']) ++ List.replicate 12 '\xff' := by
    rw [append_assoc]
    rfl
  rw [split, drop_append_of_le_length (by omega)]
  exact take_padding (by rw [length_drop]; omega) '\xff'

/-- The buffer when the parts down to number `k + 1` of `m` have been met. -/
def assembled (name : Path) (m k : Nat) : List Char :=
  List.replicate (min k m * 13) '\x00' ++
    ((withPadding name).take (m * 13)).drop (min k m * 13) ++ List.replicate (280 - m * 13) '\x00'

theorem assembled_all {m k : Nat} (few : m ≤ 20) (all : m ≤ k) :
    assembled name m k = LfnState.start.buf := by
  unfold assembled
  rw [min_eq_right all, drop_eq_nil_of_le (length_take_le ..), append_nil, ← replicate_add]
  refine congrArg (List.replicate · '\x00') ?_
  omega

theorem assembled_step {m k : Nat} (more : k < m) :
    lfnExtractChars (((withPadding name).drop (k * 13)).take 13)
      (assembled name m (k + 1)) (k * 13) = assembled name m k := by
  have least : min (k + 1) m = k + 1 := min_eq_left more
  have least' : min k m = k := min_eq_left (le_of_lt more)
  unfold lfnExtractChars assembled
  rw [least, least']
  have front : (List.replicate ((k + 1) * 13) '\x00' ++
      ((withPadding name).take (m * 13)).drop ((k + 1) * 13) ++
      List.replicate (280 - m * 13) '\x00').take (k * 13) = List.replicate (k * 13) '\x00' := by
    rw [append_assoc, take_append_of_le_length (by rw [length_replicate]; omega), take_replicate,
      min_eq_left (by omega)]
  have back : (List.replicate ((k + 1) * 13) '\x00' ++
      ((withPadding name).take (m * 13)).drop ((k + 1) * 13) ++
      List.replicate (280 - m * 13) '\x00').drop (k * 13 + 13) = ((withPadding name).take
        (m * 13)).drop ((k + 1) * 13) ++ List.replicate (280 - m * 13) '\x00' := by
    have width : (List.replicate ((k + 1) * 13) '\x00').length = k * 13 + 13 := by
      rw [length_replicate]
      omega
    rw [append_assoc, ← width, drop_left]
  have middle : ((withPadding name).take (m * 13)).drop (k * 13) = ((withPadding name).drop
      (k * 13)).take 13 ++ ((withPadding name).take (m * 13)).drop ((k + 1) * 13) := by
    have after : (k + 1) * 13 = k * 13 + 13 := by omega
    have cut : m * 13 - k * 13 = 13 + (m * 13 - (k + 1) * 13) := by omega
    rw [drop_take, cut, take_add, drop_take, drop_drop, after]
  rw [front, back, middle]
  simp only [append_assoc]

/-! ### Meeting the parts -/

theorem mark_low : ∀ seq < 64, seq.testBit 6 = false ∧ seq % 64 = seq := by decide +kernel

theorem mark_last : ∀ seq < 64, (seq + 64).testBit 6 = true ∧ (seq + 64) % 64 = seq := by
  decide +kernel

theorem meet_last (small : seq < 64) (state : LfnState) :
    state.meet (buildLfnEntry name seq true) = if 0 < seq ∧
    seq ≤ 20 then ⟨true, lfnExtractChars (buildLfnEntry name seq true).name
          LfnState.start.buf ((seq - 1) * 13)⟩ else ⟨true, LfnState.start.buf⟩ := by
  obtain ⟨flag, number⟩ := mark_last seq small
  unfold LfnState.meet buildLfnEntry
  rw [if_pos rfl, flag, number, if_pos rfl]
  simp only [Bool.true_and, Bool.and_eq_true, decide_eq_true_eq]

theorem meet_next (small : seq < 64) (buf : List Char) : LfnState.meet
    ⟨true, buf⟩ (buildLfnEntry name seq false) = if 0 < seq ∧ seq ≤ 20 then ⟨true, lfnExtractChars
        (buildLfnEntry name seq false).name buf ((seq - 1) * 13)⟩ else ⟨true, buf⟩ := by
  obtain ⟨flag, number⟩ := mark_low seq small
  unfold LfnState.meet buildLfnEntry
  rw [if_neg Bool.false_ne_true, flag, number, if_neg Bool.false_ne_true]
  simp only [Bool.true_and, Bool.and_eq_true, decide_eq_true_eq]

theorem assembled_met {count k : Nat} (parts : count = (name.length + 12) / 13)
    (within : k < count) (isLast : Bool) :
    (if 0 < k + 1 ∧ k + 1 ≤ 20 then (⟨true, lfnExtractChars (buildLfnEntry name (k + 1) isLast).name
          (assembled name (min count 20) (k + 1)) ((k + 1 - 1) * 13)⟩ : LfnState) else
      ⟨true, assembled name (min count 20) (k + 1)⟩) = ⟨true, assembled name (min count 20) k⟩ := by
  by_cases taken : k + 1 ≤ 20
  · rw [if_pos ⟨Nat.succ_pos k, taken⟩, part_name (by omega), Nat.add_sub_cancel,
      assembled_step (by omega)]
  · have few : min count 20 ≤ 20 := min_le_right ..
    rw [if_neg (fun both => taken both.2), assembled_all few (by omega),
      assembled_all few (by omega)]

/-- The parts of a name, the last one first. -/
def lfnParts (name : Path) (count : Nat) : List Slot :=
  (List.range' 1 count).reverse.map fun seq =>
    buildLfnEntry name seq (seq == count)

theorem parts_below {name : Path} {count : Nat}
    (parts : count = (name.length + 12) / 13) (few : count < 64) :
    ∀ k, k < count → ((List.range' 1 k).reverse.map fun seq =>
          buildLfnEntry name seq (seq == count)).foldl LfnState.meet
        ⟨true, assembled name (min count 20) k⟩ =
      ⟨true, assembled name (min count 20) 0⟩
  | 0, _ => rfl
  | k + 1, within => by
    have lower : (k + 1 == count) = false := beq_false_of_ne (by omega)
    rw [List.range'_1_concat, reverse_concat, map_cons, foldl_cons,
      add_comm 1 k, lower, meet_next (by omega), assembled_met parts (by omega)]
    exact parts_below parts few k (by omega)

theorem parts_met (some' : 0 < name.length) {count : Nat} (parts : count = (name.length + 12) / 13)
    (few : count < 64) (state : LfnState) :
    (lfnParts name count).foldl LfnState.meet state = ⟨true, assembled name (min count 20) 0⟩ := by
  obtain ⟨k, rfl⟩ : ∃ k, count = k + 1 := ⟨count - 1, by omega⟩
  have fresh := @assembled_all name _ _ (min_le_right (k + 1) 20) (min_le_left (k + 1) 20)
  unfold lfnParts
  rw [List.range'_1_concat, reverse_concat, map_cons, foldl_cons, add_comm 1 k,
    beq_self_eq_true, meet_last few, ← fresh, assembled_met parts (Nat.lt_succ_self k)]
  exact parts_below parts few k (Nat.lt_succ_self k)

theorem assembled_name (text : '\x00' ∉ name) {count : Nat}
    (parts : count = (name.length + 12) / 13) :
    cString (assembled name (min count 20) 0) = name.take 260 := by
  have front : ∀ c ∈ name.take 260, decide (c ≠ '\x00') = true := by
    intro c member
    exact decide_eq_true (fun same => text (same ▸ mem_of_mem_take member))
  obtain ⟨rest, split⟩ : ∃ rest, assembled name (min count 20) 0 =
      name.take 260 ++ '\x00' :: rest := by
    unfold assembled withPadding
    rw [Nat.zero_min, zero_mul, drop_zero, replicate_zero, nil_append]
    by_cases fits : name.length ≤ 260
    · have few : min count 20 = count := min_eq_left (by omega)
      rw [few, take_of_length_le (l := name) fits, take_append,
        take_of_length_le (l := name) (by omega)]
      cases space : count * 13 - name.length with
      | zero =>
        -- the parts are full, and the buffer behind them is clear
        obtain ⟨more, left⟩ : ∃ more, 280 - count * 13 = more + 1 :=
          ⟨280 - count * 13 - 1, by omega⟩
        rw [take_zero, append_nil, left, replicate_succ]
        exact ⟨_, rfl⟩
      | succ =>
        rw [take_succ_cons, append_assoc, cons_append]
        exact ⟨_, rfl⟩
    · have full : min count 20 = 20 := min_eq_right (by omega)
      rw [full, take_append_of_le_length (by omega)]
      exact ⟨List.replicate 19 '\x00', rfl⟩
  unfold cString
  rw [split, takeWhile_append_of_pos front, takeWhile_cons_of_neg (by simp), append_nil]

/-! ### Scanning the records of a name -/

theorem part_mark (name : Path) (first : 0 < seq) (small : seq < 64)
    (isLast : Bool) : (buildLfnEntry name seq isLast).mark ≠ 0 ∧
      (buildLfnEntry name seq isLast).mark ≠ deletedMark := by
  unfold buildLfnEntry deletedMark
  dsimp only
  split <;> omega

theorem scanSlots_parts (stop : Slot → Path → Bool) (isLast : Bool)
    (cluster : Nat) (rest : List Slot) : ∀ (parts : List Slot),
    (∀ part ∈ parts, part.mark ≠ 0 ∧ part.mark ≠ deletedMark ∧
      part.attr = attrLfn) → ∀ (index : Nat) (state : LfnState),
    scanSlots stop isLast cluster (parts ++ rest) index state =
      scanSlots stop isLast cluster rest (index + parts.length) (parts.foldl LfnState.meet state)
  | [], _, _, _ => rfl
  | part :: parts, kinds, index, state => by
    obtain ⟨used, kept, kind⟩ := kinds part mem_cons_self
    have later := scanSlots_parts stop isLast cluster rest parts
      (fun other member => kinds other (mem_cons_of_mem _ member)) (index + 1) (state.meet part)
    rw [cons_append, scanSlots]
    rw [if_neg used, if_neg kept, if_pos kind, later, length_cons, foldl_cons]
    refine congrArg (fun place => scanSlots stop isLast cluster rest place _) ?_
    omega

theorem lfnParts_kinds {count : Nat} (few : count < 64) : ∀ part ∈ lfnParts name count,
    part.mark ≠ 0 ∧ part.mark ≠ deletedMark ∧ part.attr = attrLfn := by
  intro part member
  obtain ⟨seq, among, rfl⟩ := mem_map.mp member
  have range := mem_range'_1.mp (mem_reverse.mp among)
  obtain ⟨used, kept⟩ := part_mark name range.1 (by omega) (seq == count)
  exact ⟨used, kept, rfl⟩

theorem lfnParts_length (name : Path) (count : Nat) : (lfnParts name count).length = count := by
  unfold lfnParts
  rw [length_map, length_reverse, length_range']

/-- Wherever the records stand, a scan hands the last one to its callback under
the name, and nothing else. -/
def Yields (slots : List Slot) (entry : Slot) (name : Path) : Prop :=
  ∀ stop isLast cluster index state, ∃ buf, scanSlots stop isLast cluster slots index state =
      if stop entry name = true then
        .found ⟨entry, cluster, index + (slots.length - 1)⟩
      else .more ⟨false, buf⟩

/-! ### The bytes of the records -/

theorem byteChar_ofNat {n : Nat} (byte : n < 256) : byteChar (UInt8.ofNat n) = Char.ofNat n := by
  unfold byteChar
  rw [UInt8.toNat_ofNat_of_lt' byte]

theorem byteChar_charByte {c : Char} (byte : c.toNat < 256) : byteChar (charByte c) = c := by
  unfold charByte
  rw [byteChar_ofNat byte, Char.ofNat_toNat]

/-- The low byte of a unit. -/
def unitChar (name : Path) (place : Nat) : Char :=
  byteChar (UInt8.ofNat (lfnUnit name place))

theorem recordChars_part (seq : Nat) (isLast : Bool) (name : Path)
    (checksum : Nat) : recordChars (buildLfnRecord seq isLast name checksum) =
      (List.range' ((seq - 1) * 13) 13).map (unitChar name) := by
  unfold recordChars unitChars buildLfnRecord lfnUnits
  simp [List.range', range_succ, leBytes, unitChar, add_assoc]

theorem withPadding_unit (bytes : ∀ c ∈ name, c.toNat < 256) {place : Nat}
    (inside : place < name.length + 13) :
    (withPadding name)[place]? = some (unitChar name place) := by
  unfold withPadding unitChar lfnUnit
  by_cases here : place < name.length
  · have byte := bytes name[place] (getElem_mem here)
    rw [List.getElem?_append_left here, List.getElem?_eq_getElem here]
    dsimp only
    rw [Nat.mod_eq_of_lt byte, byteChar_ofNat byte, Char.ofNat_toNat]
  rw [List.getElem?_append_right (by omega), List.getElem?_eq_none (l := name) (by omega)]
  by_cases ends : place = name.length
  · rw [if_pos ends, ends, Nat.sub_self]
    rfl
  · obtain ⟨i, after⟩ : ∃ i, place - name.length = i + 1 := ⟨place - name.length - 1, by omega⟩
    rw [if_neg ends, after, List.getElem?_cons_succ, List.getElem?_replicate, if_pos (by omega)]
    rfl

theorem mark_or : ∀ seq < 64, seq ||| 0x40 = seq + 64 := by decide +kernel

theorem recordSlot_part (bytes : ∀ c ∈ name, c.toNat < 256) (small : seq < 64)
    (begins : (seq - 1) * 13 < name.length) (isLast : Bool) (checksum : Nat) :
    recordSlot (buildLfnRecord seq isLast name checksum) = buildLfnEntry name seq isLast := by
  have chars : recordChars (buildLfnRecord seq isLast name checksum) =
      (buildLfnEntry name seq isLast).name := by
    rw [recordChars_part, part_name begins]
    refine ext_getElem? (fun i => ?_)
    rw [List.getElem?_map, List.getElem?_take]
    by_cases within : i < 13
    · rw [List.getElem?_range' (by omega), if_pos within, List.getElem?_drop,
        withPadding_unit bytes (by omega), one_mul]
      rfl
    · rw [if_neg within, List.getElem?_eq_none (by rw [length_range']; omega)]
      rfl
  have kind : Record.byte (buildLfnRecord seq isLast name checksum) 11 = attrLfn := by
    unfold Record.byte buildLfnRecord lfnUnits
    simp [List.range', leBytes, attrLfn]
  have order : Record.byte (buildLfnRecord seq isLast name checksum) 0 =
      if isLast then seq + 64 else seq := by
    unfold Record.byte buildLfnRecord
    rw [getD_cons_zero, mark_or seq small, UInt8.toNat_ofNat_of_lt']
    split
    · exact Nat.lt_of_lt_of_le (Nat.add_lt_add_right small 64) (by decide)
    · exact lt_of_lt_of_le small (by decide)
  unfold recordSlot
  rw [if_pos kind, chars, order]
  rfl

theorem recordSlot_short {short : List Char} (length : short.length = 11)
    (bytes : ∀ c ∈ short, c.toNat < 256) {first size attr : Nat} (small : attr < 256)
    (plain : attr ≠ attrLfn) (within : first < 2 ^ 32) (within' : size < 2 ^ 32) :
    recordSlot (shortRecord short first size attr) =
      ⟨(short.headD ' ').toNat, short.drop 1, attr, first, size⟩ := by
  obtain ⟨c0, c1, c2, c3, c4, c5, c6, c7, c8, c9, c10, rfl⟩ : ∃ c0 c1 c2 c3 c4 c5 c6 c7 c8 c9 c10,
        short = [c0, c1, c2, c3, c4, c5, c6, c7, c8, c9, c10] := by
    match short, length with
    | [c0, c1, c2, c3, c4, c5, c6, c7, c8, c9, c10], _ =>
      exact ⟨c0, c1, c2, c3, c4, c5, c6, c7, c8, c9, c10, rfl⟩
  have back : ∀ c ∈ [c0, c1, c2, c3, c4, c5, c6, c7, c8, c9, c10],
      byteChar (charByte c) = c := fun c member => byteChar_charByte (bytes c member)
  have kind : Record.byte (shortRecord
      [c0, c1, c2, c3, c4, c5, c6, c7, c8, c9, c10] first size attr) 11 = attr := by
    unfold Record.byte shortRecord
    simp [Nat.mod_eq_of_lt small]
  have order : Record.byte (shortRecord
      [c0, c1, c2, c3, c4, c5, c6, c7, c8, c9, c10] first size attr) 0 = c0.toNat := by
    have byte := bytes c0 mem_cons_self
    unfold Record.byte shortRecord charByte
    simp [Nat.mod_eq_of_lt byte]
  unfold recordSlot
  rw [kind, if_neg plain, order]
  refine Slot.mk.injEq .. ▸ ⟨rfl, ?_, rfl, ?_, ?_⟩
  · simp only [mem_cons, not_mem_nil, or_false, forall_eq_or_imp, forall_eq] at back
    unfold shortRecord
    simp [back]
  · unfold shortRecord
    simp [getLe, leBytes]
    omega
  · unfold shortRecord
    simp [getLe, leBytes]
    omega

theorem writeDirEntries_slots (bytes : ∀ c ∈ name, c.toNat < 256) {count : Nat}
    (parts : count = (name.length + 12) / 13) (few : count < 64) {short : List Char}
    (length : short.length = 11) (bytes' : ∀ c ∈ short, c.toNat < 256) {first size attr : Nat}
    (small : attr < 256) (plain : attr ≠ attrLfn) (within : first < 2 ^ 32)
    (within' : size < 2 ^ 32) : (writeDirEntries name count short first size attr).map recordSlot =
      newEntries name count short first size attr := by
  unfold writeDirEntries newEntries
  rw [map_append, map_map, map_singleton, recordSlot_short length bytes' small plain within within']
  refine congrArg (· ++ _) (map_congr_left (fun seq member => ?_))
  have range := mem_range'_1.mp (mem_reverse.mp member)
  exact recordSlot_part bytes (by omega) (by omega) ..

/-! ### The first byte of the short entry -/

/-- The characters before the last dot that count for a short name. -/
def shortStem (name : Path) : Path :=
  (splitDot name).1.filter fun c => c ≠ ' ' ∧ c ≠ '.'

theorem repr_short : ∀ n ∈ List.range' 1 99, (Nat.repr n).toList.length ≤ 2 := by decide +kernel

theorem padded_head (basis suffix : List Char) {k : Nat} (some' : 0 < k) (tail : List Char) :
    (padded 8 (basis.take k ++ '~' :: suffix) ++ tail).headD ' ' = basis.headD '~' := by
  obtain ⟨more, rfl⟩ : ∃ more, k = more + 1 := ⟨k - 1, by omega⟩
  cases basis with
  | nil => rfl
  | cons => rfl

theorem numbered83_head (name : Path) {n : Nat} (number : n ∈ List.range' 1 99) :
    (numbered83 name n).headD ' ' = ((shortStem name).map upper).headD '~' := by
  have digits := repr_short n number
  unfold numbered83 shortStem
  cases splitDot name with
  | mk base =>
    rw [padded_head _ _ (by rw [length_cons]; omega)]
    cases (base.filter fun c => decide (c ≠ ' ' ∧ c ≠ '.')).map upper with
    | nil => rfl
    | cons => rfl

theorem upper_byte {c : Char} (byte : c.toNat < 256) : (upper c).toNat < 256 := by
  unfold upper
  split
  · next small =>
      have above : 97 ≤ c.toNat := small.1
      have below : c.toNat ≤ 122 := small.2
      generalize c.toNat = n at above below ⊢
      interval_cases n <;> decide
  · exact byte

theorem repr_bytes : ∀ n ∈ List.range' 1 99, ∀ c ∈ (Nat.repr n).toList, c.toNat < 256 := by
  have all : ((List.range' 1 99).all fun n =>
      (Nat.repr n).toList.all (·.toNat < 256)) = true := by
    decide +kernel
  intro n member c char
  simpa using all_eq_true.mp (all_eq_true.mp all n member) c char

theorem numbered83_bytes (bytes : ∀ c ∈ name, c.toNat < 256) {n : Nat}
    (number : n ∈ List.range' 1 99) : ∀ c ∈ numbered83 name n, c.toNat < 256 := by
  have capital : ∀ {chars : List Char}, (∀ c ∈ chars, c ∈ name) →
      ∀ c ∈ chars.map upper, c.toNat < 256 := by
    intro chars within c member
    obtain ⟨other, there, rfl⟩ := mem_map.mp member
    exact upper_byte (bytes other (within other there))
  have blank : ' '.toNat < 256 := by decide
  intro c member
  rcases mem_append.mp member with base | ext
  · rcases mem_padded base with stem | rfl
    · rcases mem_append.mp stem with basis | suffix
      · refine capital (fun c there => ?_) c (mem_of_mem_take (mem_of_mem_take basis))
        exact mem_splitDot.1 (mem_filter.mp there).1
      · rcases mem_cons.mp suffix with rfl | digits
        · decide
        · exact repr_bytes n number c digits
    · exact blank
  · rcases mem_padded ext with stem | rfl
    · refine capital (fun c there => ?_) c stem
      exact mem_splitDot.2 (mem_of_mem_take (mem_filter.mp there).1)
    · exact blank

theorem numbered83_mark (text : '\x00' ∉ name) {n : Nat} (number : n ∈ List.range' 1 99) :
    ((numbered83 name n).headD ' ').toNat ≠ 0 ∧
      (((numbered83 name n).headD ' ').toNat = deletedMark ↔
        (shortStem name).head? = some '\xe5') := by
  have least : ∀ c ∈ shortStem name, c ∈ name :=
    fun c member => mem_splitDot.1 (mem_filter.mp member).1
  rw [numbered83_head name number]
  cases stem : shortStem name with
  | nil => decide
  | cons c =>
    rw [map_cons, headD_cons, List.head?_cons, Option.some_inj, ← upper_eq_mark (by decide)]
    constructor
    · intro zero
      have ends : upper c = '\x00' := by rw [← Char.ofNat_toNat (upper c), zero]
      rw [upper_eq_mark (by decide)] at ends
      exact text (ends ▸ least c (stem ▸ mem_cons_self))
    · constructor
      · intro marked
        rw [← Char.ofNat_toNat (upper c), marked]
        rfl
      · intro marked
        rw [marked]
        rfl

/-! ### The round trip -/

theorem volume_not_lfn {attr : Nat} (entry : attr.testBit 3 = false) : attr ≠ attrLfn := by
  rintro rfl
  exact absurd entry (by decide)

theorem scan_newEntries (some' : 0 < name.length) (text : '\x00' ∉ name) {count : Nat}
    (parts : count = (name.length + 12) / 13) (few : count < 64) {short : List Char}
    {first size attr : Nat} (used : (short.headD ' ').toNat ≠ 0) (entry : attr.testBit 3 = false)
    (stop : Slot → Path → Bool) (isLast : Bool) (cluster index : Nat) (state : LfnState) :
    ∃ buf, scanSlots stop isLast cluster (newEntries name count short first size attr) index state =
      if (short.headD ' ').toNat ≠ deletedMark ∧
      stop ⟨(short.headD ' ').toNat, short.drop 1, attr, first, size⟩ (name.take 260) = true then
        .found ⟨⟨(short.headD ' ').toNat, short.drop 1, attr, first, size⟩, cluster, index + count⟩
      else .more ⟨false, buf⟩ := by
  refine ⟨assembled name (min count 20) 0, ?_⟩
  change scanSlots stop isLast cluster (lfnParts name count ++ [_]) index state = _
  rw [scanSlots_parts stop isLast cluster _ _ (lfnParts_kinds few),
    parts_met some' parts few, lfnParts_length, scanSlots]
  dsimp only
  rw [if_neg used, if_pos rfl, assembled_name text parts]
  by_cases deleted : (short.headD ' ').toNat = deletedMark
  · rw [if_pos deleted, if_neg (fun both => both.1 deleted)]
    rfl
  have volume : ¬Slot.volumeId
      ⟨(short.headD ' ').toNat, short.drop 1, attr, first, size⟩ = true := by
    unfold Slot.volumeId
    rw [entry]
    exact Bool.false_ne_true
  rw [if_neg deleted, if_neg (volume_not_lfn entry), if_neg volume]
  split
  · next stops => rw [if_pos ⟨deleted, stops⟩]
  · next goes => rw [if_neg (fun both => goes both.2)]; rfl

/-- The records of a long name and its short entry, as bytes, are shown as exactly
that name, unless the stem of the short name begins with the byte that marks a
deleted record. -/
theorem long_name_round_trip {name : Path} (some' : 1 ≤ name.length) (within : name.length ≤ 255)
    (text : '\x00' ∉ name) (bytes : ∀ c ∈ name, c.toNat < 256) {n : Nat}
    (number : n ∈ List.range' 1 99) {first size attr : Nat} (first32 : first < 2 ^ 32)
    (size32 : size < 2 ^ 32) (attr8 : attr < 256) (entry : attr.testBit 3 = false) :
    Yields ((writeDirEntries name ((name.length + 12) / 13) (numbered83 name n)
        first size attr).map recordSlot)
      ⟨((numbered83 name n).headD ' ').toNat, (numbered83 name n).drop 1, attr, first, size⟩ name ↔
      (shortStem name).head? ≠ some '\xe5' := by
  obtain ⟨used, deleted⟩ := numbered83_mark text number
  have few : (name.length + 12) / 13 < 64 := by omega
  have whole : name.take 260 = name := take_of_length_le (by omega)
  rw [writeDirEntries_slots bytes rfl few (numbered83_length name n)
    (numbered83_bytes bytes number) attr8 (volume_not_lfn entry) first32 size32, ne_eq, ← deleted]
  have scan := @scan_newEntries _ some' text _ rfl few _ first size _ used entry
  rw [whole] at scan
  unfold Yields
  rw [newEntries_length, Nat.add_sub_cancel]
  constructor
  · intro yields marked
    obtain ⟨_, found⟩ := yields (fun _ _ => true) false 0 0 LfnState.start
    obtain ⟨_, missed⟩ := scan (fun _ _ => true) false 0 0 LfnState.start
    rw [found, if_pos rfl, if_neg (fun both => both.1 marked)] at missed
    cases missed
  · intro live stop isLast cluster index state
    obtain ⟨buf, result⟩ := scan stop isLast cluster index state
    refine ⟨buf, result.trans ?_⟩
    simp only [ne_eq, live, not_false_eq_true, true_and]

theorem letter_bytes : ∀ c ∈ "Letter to Anna".toList, c.toNat < 256 := by
  have all : ("Letter to Anna".toList.all (·.toNat < 256)) = true := by decide
  intro c member
  simpa using all_eq_true.mp all c member

/-- A name of fourteen characters, in two parts. -/
theorem long_name_round_trip_letter :
    Yields ((writeDirEntries "Letter to Anna".toList 2
        (numbered83 "Letter to Anna".toList 1) 3 512 attrArchive).map recordSlot)
      ⟨'L'.toNat, "ETTER~1   ".toList, attrArchive, 3, 512⟩
      "Letter to Anna".toList :=
  Iff.mpr (long_name_round_trip (by decide) (by decide) (by decide) letter_bytes
    (by decide) (by decide) (by decide) (by decide) (by decide)) (by decide +kernel)

/-- A name that begins with the byte of deleted records is not shown. -/
theorem long_name_round_trip_fails :
    ¬Yields ((writeDirEntries "\xe5 lan".toList 1 (numbered83 "\xe5 lan".toList 1)
        3 512 attrArchive).map recordSlot)
      ⟨'\xe5'.toNat, "LAN~1     ".toList, attrArchive, 3, 512⟩
      "\xe5 lan".toList := by
  intro yields
  obtain ⟨_, found⟩ := yields (fun _ _ => true) true 2 0 LfnState.start
  rw [if_pos rfl] at found
  cases found

end MainDob.Fs.Fat
