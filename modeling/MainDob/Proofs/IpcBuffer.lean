/-
Purpose: Deliveries into the receive area of a process: they lie inside the
  area, each is read back as it was sent, and two consecutive ones that fit the
  area together lie apart exactly when the second one is not wrapped onto the
  first.
Trusted boundary: none beyond MainDob.Kernel.IpcBuffer
Main exports: Placed, Placed.step, deliveries_apart
-/
import MainDob.Kernel.IpcBuffer

namespace MainDob.Kernel.IpcBuffer

open Lib Lib.Mem

/-! ### Offsets -/

theorem align16_of_dvd {x : Nat} (aligned : 16 ∣ x) : align16 x = x := by
  unfold align16
  omega

theorem le_align16 (x : Nat) : x ≤ align16 x := by
  unfold align16
  omega

theorem align16_lt (x : Nat) : align16 x < x + 16 := by
  unfold align16
  omega

theorem align16_dvd (x : Nat) : 16 ∣ align16 x := Nat.dvd_mul_left _ _

/-- What every call keeps: the offset is aligned and inside the area, and the
overflow region has the pages of its capacity. -/
structure Placed (r : Receiver) : Prop where
  aligned : 16 ∣ r.ipcBufOffset
  below : r.ipcBufOffset < ipcBufSize
  capacity : r.overflowPages = r.overflowCapacity

section Calls

variable {r r' : Receiver} {kdata : Option Payload} {env : Environment}
  {payload : Payload} {call : Delivery} {dst : Nat}

theorem Placed.initial (ready : Bool) (memory : Memory) :
    Placed (Receiver.initial ready memory) where
  aligned := Nat.dvd_zero _
  below := show 0 < ipcBufSize by decide
  capacity := rfl

theorem place_inside (placed : Placed r) {size : Nat} (fits : size ≤ ipcBufSize) :
    InArea (ipcBufVaddr + place r.ipcBufOffset size) size := by
  have grows := le_align16 size
  unfold place
  rw [align16_of_dvd placed.aligned]
  constructor
  · exact Nat.le_add_right _ _
  · split <;> omega

theorem offsetAfter_placed (offset size : Nat) :
    16 ∣ offsetAfter offset size ∧ offsetAfter offset size < ipcBufSize := by
  have zero : 0 < ipcBufSize := by decide
  unfold offsetAfter
  split
  · exact ⟨Nat.dvd_zero _, zero⟩
  refine ⟨Nat.dvd_add ?_ (align16_dvd size), by omega⟩
  unfold place
  split
  · exact Nat.dvd_zero _
  · exact align16_dvd _

theorem ipcCopyToUserBuf_cases (r : Receiver) (kdata : Option Payload) (env : Environment) :
    ipcCopyToUserBuf r kdata env = (0, r) ∨
    (∃ payload, kdata = some payload ∧ ipcBufSize < payload.bytes.length ∧
      ipcCopyToUserBuf r kdata env = deliverOverflow r payload.bytes env) ∨
    (∃ memory, ipcCopyToUserBuf r kdata env = (0, { r with memory })) ∨
    ∃ payload, kdata = some payload ∧ 0 < payload.bytes.length ∧ payload.bytes.length ≤ ipcBufSize ∧
      ipcCopyToUserBuf r kdata env = (ipcBufVaddr + place r.ipcBufOffset payload.bytes.length,
          { r with
            memory := writeBytes r.memory (ipcBufVaddr + place r.ipcBufOffset payload.bytes.length)
              payload.bytes
            ipcBufOffset :=
              offsetAfter r.ipcBufOffset payload.bytes.length }) := by
  cases kdata with
  | none => exact .inl rfl
  | some payload =>
    unfold ipcCopyToUserBuf
    dsimp only
    split
    · exact .inl rfl
    rename_i some_
    split
    · rename_i large
      exact .inr (.inl ⟨payload, rfl, large, rfl⟩)
    cases env.fault with
    | some => exact .inr (.inr (.inl ⟨_, rfl⟩))
    | none =>
      refine .inr (.inr (.inr ⟨payload, rfl, ?_, by omega, rfl⟩))
      exact Nat.pos_of_ne_zero fun zero => some_ (.inl zero)

theorem deliverOverflow_spec (placed : Placed r) (bytes : List UInt8) (env : Environment) :
    (deliverOverflow r bytes env).2.ipcBufOffset = r.ipcBufOffset ∧
      Placed (deliverOverflow r bytes env).2 ∧ ((deliverOverflow r bytes env).1 ≠ 0 →
      (deliverOverflow r bytes env).1 = (deliverOverflow r bytes env).2.overflowVaddr ∧
          bytes.length ≤ (deliverOverflow r bytes env).2.overflowPages * pageSize ∧
          readBytes (deliverOverflow r bytes env).2.memory
            (deliverOverflow r bytes env).1 bytes.length = bytes) := by
  have room : bytes.length ≤ pagesNeeded bytes.length * pageSize := by
    simp only [pagesNeeded, pageSize]
    omega
  -- whether the old region was given back or not, the offset is as before
  have freed : (if r.overflowVaddr ≠ 0 then ipcFreeOverflow r else r)
      |> fun old => old.ipcBufOffset = r.ipcBufOffset ∧ Placed old ∧ old.memory = r.memory := by
    split
    · unfold ipcFreeOverflow
      split
      · exact ⟨rfl, placed, rfl⟩
      · exact ⟨rfl, { placed with capacity := rfl }, rfl⟩
    · exact ⟨rfl, placed, rfl⟩
  unfold deliverOverflow
  dsimp only at freed ⊢
  split
  · rename_i kept
    refine ⟨rfl, { placed with }, fun _ => ⟨rfl, ?_, ?_⟩⟩
    · dsimp only
      rw [placed.capacity]
      exact le_trans room (Nat.mul_le_mul_right _ kept.2.1)
    · exact readBytes_writeBytes _ _ _
  · obtain ⟨offset, old, _⟩ := freed
    split
    · exact ⟨offset, old, fun delivered => absurd rfl delivered⟩
    split
    · exact ⟨offset, old, fun delivered => absurd rfl delivered⟩
    · refine ⟨offset, { old with capacity := rfl }, fun _ => ⟨rfl, room, ?_⟩⟩
      exact readBytes_writeBytes _ _ _

theorem Placed.step (placed : Placed r) (taken : step r call r') : Placed r' := by
  unfold IpcBuffer.step at taken
  rcases ipcCopyToUserBuf_cases r call.kdata call.env with
    same | ⟨payload, _, _, same⟩ | ⟨memory, same⟩ | ⟨payload, _, _, _, same⟩
  · rw [same] at taken
    exact taken ▸ placed
  · rw [same] at taken
    exact taken ▸ (deliverOverflow_spec placed _ _).2.1
  · rw [same] at taken
    exact taken ▸ { placed with }
  rw [same] at taken
  subst taken
  obtain ⟨aligned, below⟩ := offsetAfter_placed r.ipcBufOffset payload.bytes.length
  exact { placed with aligned, below }

theorem Strips.offset (placed : Placed r) (stripped : Strips r call r') :
    r'.ipcBufOffset = r.ipcBufOffset := by
  unfold Strips at stripped
  rcases ipcCopyToUserBuf_cases r call.kdata call.env with
    same | ⟨payload, _, _, same⟩ | ⟨memory, same⟩ | ⟨payload, _, _, _, same⟩
  · rw [same] at stripped
    cases stripped
    rfl
  · rw [same] at stripped
    have spec := (deliverOverflow_spec placed payload.bytes call.env).1
    rw [stripped] at spec
    exact spec
  · rw [same] at stripped
    cases stripped
    rfl
  · rw [same] at stripped
    have base : 0 < ipcBufVaddr := by decide
    have zero := congrArg Prod.fst stripped
    omega

theorem strips_offset {calls : List Delivery} (placed : Placed r)
    (between : Steps Strips r calls r') : r'.ipcBufOffset = r.ipcBufOffset ∧ Placed r' := by
  have same : r.ipcBufOffset = r.ipcBufOffset ∧ Placed r := ⟨rfl, placed⟩
  refine @Steps.invariant _ _ _ (fun r' => r'.ipcBufOffset = r.ipcBufOffset ∧
    Placed r') (fun one call two before stripped => ?_) _ _ _ between same
  refine ⟨(Strips.offset before.2 stripped).trans before.1, ?_⟩
  exact before.2.step (congrArg Prod.snd stripped)

theorem Delivers.small (delivered : Delivers r call payload dst r')
    (fits : payload.bytes.length ≤ ipcBufSize) :
    0 < payload.bytes.length ∧ dst = ipcBufVaddr + place r.ipcBufOffset payload.bytes.length ∧
      r' = { r with
        memory := writeBytes r.memory dst payload.bytes
        ipcBufOffset := offsetAfter r.ipcBufOffset payload.bytes.length } := by
  obtain ⟨sent, some_, result⟩ := delivered
  rcases ipcCopyToUserBuf_cases r call.kdata call.env with
    same | ⟨other, its, large, _⟩ | ⟨memory, same⟩ | ⟨other, its, positive, _, same⟩
  · rw [same] at result
    cases result
    exact absurd rfl some_
  · rw [sent] at its
    cases its
    omega
  · rw [same] at result
    cases result
    exact absurd rfl some_
  · rw [sent] at its
    cases its
    rw [same] at result
    cases result
    exact ⟨positive, rfl, rfl⟩

/-- The process after its area has taken a payload. -/
def Receiver.accept (r : Receiver) (payload : Payload) : Receiver :=
  { r with
    memory := writeBytes r.memory
      (ipcBufVaddr + place r.ipcBufOffset payload.bytes.length) payload.bytes
    ipcBufOffset := offsetAfter r.ipcBufOffset payload.bytes.length }

@[simp] theorem accept_offset (r : Receiver) (payload : Payload) :
    (r.accept payload).ipcBufOffset = offsetAfter r.ipcBufOffset payload.bytes.length := rfl

theorem delivers_small (ready : r.ipcBufReady = true) (some_ : 0 < payload.bytes.length)
    (fits : payload.bytes.length ≤ ipcBufSize) (calm : env.fault = none) : Delivers r ⟨some payload,
    env⟩ payload (ipcBufVaddr + place r.ipcBufOffset payload.bytes.length) (r.accept payload) := by
  have base : 0 < ipcBufVaddr := by decide
  refine ⟨rfl, by omega, ?_⟩
  simp only [ipcCopyToUserBuf, calm]
  rw [if_neg, if_neg (by omega)]
  · rfl
  rintro (none | unready)
  · omega
  · rw [ready] at unready
    cases unready

theorem Delivers.read (placed : Placed r) (delivered : Delivers r call payload dst r') :
    readBytes r'.memory dst payload.bytes.length = payload.bytes := by
  by_cases fits : payload.bytes.length ≤ ipcBufSize
  · obtain ⟨_, _, rfl⟩ := delivered.small fits
    exact readBytes_writeBytes _ _ _
  obtain ⟨sent, some_, result⟩ := delivered
  rcases ipcCopyToUserBuf_cases r call.kdata call.env with
    same | ⟨other, its, large, same⟩ | ⟨memory, same⟩ | ⟨other, its, _, small, _⟩
  · rw [same] at result
    cases result
    exact absurd rfl some_
  · rw [sent] at its
    cases its
    rw [same] at result
    obtain ⟨_, _, read⟩ := deliverOverflow_spec placed payload.bytes call.env
    rw [result] at read
    exact (read some_).2.2
  · rw [same] at result
    cases result
    exact absurd rfl some_
  · rw [sent] at its
    cases its
    exact absurd small fits

theorem places_apart (placed : Placed r) {first second : Nat} (someFirst : 0 < first)
    (someSecond : 0 < second) (together : align16 first + align16 second ≤ ipcBufSize) : Apart
    (place r.ipcBufOffset first) first (place (offsetAfter r.ipcBufOffset first) second) second ↔
      Clear r.ipcBufOffset first second := by
  have alignedOffset := align16_of_dvd placed.aligned
  have alignedAfter := align16_of_dvd (offsetAfter_placed r.ipcBufOffset first).1
  obtain ⟨k, offset⟩ := placed.aligned
  have growsFirst := le_align16 first
  have growsSecond := le_align16 second
  have tightSecond := align16_lt second
  obtain ⟨j, unitsSecond⟩ := align16_dvd second
  unfold Clear Apart
  by_cases wraps : r.ipcBufOffset + align16 first > ipcBufSize
  · -- the first one is laid at 0, and the second one fits behind it
    have first_ : place r.ipcBufOffset first = 0 := by
      unfold place
      rw [alignedOffset, if_pos wraps]
    have after : offsetAfter r.ipcBufOffset first = align16 first := by
      unfold offsetAfter
      rw [first_, zero_add, if_neg (by omega)]
    have second_ : place (align16 first) second = align16 first := by
      unfold place
      rw [align16_of_dvd (align16_dvd first), if_neg (by omega)]
    rw [first_, after, second_]
    omega
  have first_ : place r.ipcBufOffset first = r.ipcBufOffset := by
    unfold place
    rw [alignedOffset, if_neg wraps]
  by_cases behind : r.ipcBufOffset + align16 first + align16 second ≤ ipcBufSize
  · have after : offsetAfter r.ipcBufOffset first = r.ipcBufOffset + align16 first := by
      unfold offsetAfter
      rw [first_, if_neg (by omega)]
    have second_ : place (r.ipcBufOffset + align16 first) second =
        r.ipcBufOffset + align16 first := by
      rw [after] at alignedAfter
      unfold place
      rw [alignedAfter, if_neg (by omega)]
    rw [first_, after, second_]
    omega
  · -- the second one is laid at 0
    have second_ : place (offsetAfter r.ipcBufOffset first) second = 0 := by
      unfold place
      rw [alignedAfter]
      unfold offsetAfter
      split
      · exact ite_self _
      · exact if_pos (by omega)
    omega

/-! ### Consecutive deliveries -/

/-- Two payloads were delivered one after the other, with nothing delivered in
between. -/
structure Consecutive (r : Receiver) (first second : Payload)
    (dst dst' : Nat) (between : List Delivery) (middle last : Receiver) :
    Prop where
  firstGiven : ∃ call, Delivers r call first dst middle
  secondGiven : ∃ before call, Steps Strips middle between before ∧
    Delivers before call second dst' last

/-- In every run of deliveries to a process, what is delivered is read back as
it was sent; and two consecutive deliveries that fit the area together lie
inside the area, and apart exactly when the second one is not wrapped onto the
first.  Then the first payload still stands after the second delivery, when
nothing came between them. -/
theorem deliveries_apart {ready : Bool} {memory : Memory} {calls : List Delivery} {r : Receiver}
    (run : Steps step (Receiver.initial ready memory) calls r) :
    (∀ call payload dst r', Delivers r call payload dst r' →
      readBytes r'.memory dst payload.bytes.length = payload.bytes) ∧
    ∀ first second dst dst' between middle last,
      Consecutive r first second dst dst' between middle last →
      align16 first.bytes.length + align16 second.bytes.length ≤ ipcBufSize →
      InArea dst first.bytes.length ∧ InArea dst' second.bytes.length ∧
      (Apart dst first.bytes.length dst' second.bytes.length ↔
        Clear r.ipcBufOffset first.bytes.length second.bytes.length) ∧
      (between = [] → Clear r.ipcBufOffset first.bytes.length second.bytes.length →
        readBytes last.memory dst first.bytes.length = first.bytes) := by
  have placed : Placed r := run.invariant (fun _ _ _ old taken => old.step taken) (.initial _ _)
  refine ⟨fun call payload dst r' delivered => delivered.read placed, ?_⟩
  rintro first second dst dst' between middle last
    ⟨⟨one, firstGiven⟩, before, two, nothing, secondGiven⟩ together
  have growsFirst := le_align16 first.bytes.length
  have growsSecond := le_align16 second.bytes.length
  have readFirst := firstGiven.read placed
  have placed1 : Placed middle := placed.step (congrArg Prod.snd firstGiven.2.2)
  obtain ⟨offset2, placed2⟩ := strips_offset placed1 nothing
  obtain ⟨someFirst, at_, after⟩ := firstGiven.small (by omega)
  obtain ⟨someSecond, at', after'⟩ := secondGiven.small (by omega)
  have offset1 : middle.ipcBufOffset =
      offsetAfter r.ipcBufOffset first.bytes.length := by rw [after]
  have apart : Apart dst first.bytes.length dst' second.bytes.length ↔
      Clear r.ipcBufOffset first.bytes.length second.bytes.length := by
    rw [← places_apart placed someFirst someSecond together, at_, at', offset2, offset1]
    unfold Apart
    omega
  refine ⟨?_, ?_, apart, ?_⟩
  · rw [at_]
    exact place_inside placed (by omega)
  · rw [at']
    exact place_inside placed2 (by omega)
  · rintro rfl clear
    cases nothing
    rw [after', readBytes_apart _ (apart.mpr clear)]
    exact readFirst

end Calls

/-- A payload of zero bytes. -/
def blank (size : Nat) (inKernel : size ≤ kernelSpan) : Payload where
  bytes := List.replicate size 0
  inKernel := by simpa using inKernel

@[simp] theorem blank_length (size : Nat) (inKernel : size ≤ kernelSpan) :
    (blank size inKernel).bytes.length = size := List.length_replicate

/-- Nothing fails, and no overflow region is needed. -/
def quiet : Environment where
  inWindow := 0
  anywhere := 0
  contiguous := false
  frames := 0
  fault := none

/-- A call that meets nothing unusual. -/
def quietCall (payload : Payload) : Delivery where
  kdata := some payload
  env := quiet

theorem delivers_blank {r : Receiver} {size : Nat} (inKernel : size ≤ kernelSpan)
    (ready : r.ipcBufReady = true) (some_ : 0 < size) (fits : size ≤ ipcBufSize) :
    Delivers r (quietCall (blank size inKernel)) (blank size inKernel)
      (ipcBufVaddr + place r.ipcBufOffset size) (r.accept (blank size inKernel)) := by
  have length := blank_length size inKernel
  have delivered : Delivers r (quietCall (blank size inKernel)) (blank size inKernel)
      (ipcBufVaddr + place r.ipcBufOffset (blank size inKernel).bytes.length)
      (r.accept (blank size inKernel)) :=
    delivers_small ready (by rwa [length]) (by rwa [length]) rfl
  rwa [length] at delivered

def fiveBytes : Payload := ⟨[1, 2, 3, 4, 5], by decide⟩

def threeBytes : Payload := ⟨[6, 7, 8], by decide⟩

/-- Two payloads behind each other in a new process; the first one still reads
as it was sent. -/
theorem deliveries_apart_behind : ∃ middle last, Consecutive (Receiver.initial true fun _ => 0)
        fiveBytes threeBytes 0x7FF00000 0x7FF00010 [] middle last ∧
      Apart 0x7FF00000 5 0x7FF00010 3 ∧ readBytes last.memory 0x7FF00000 5 = [1, 2, 3, 4, 5] := by
  have first : Delivers (Receiver.initial true fun _ => 0) (quietCall fiveBytes)
      fiveBytes 0x7FF00000 _ :=
    delivers_small rfl (by decide) (by decide) rfl
  have second : Delivers ((Receiver.initial true fun _ => 0).accept fiveBytes)
      (quietCall threeBytes) threeBytes 0x7FF00010 _ :=
    delivers_small rfl (by decide) (by decide) rfl
  have next : Consecutive _ fiveBytes threeBytes 0x7FF00000 0x7FF00010 [] _ _ :=
    ⟨⟨_, first⟩, _, _, .nil _, second⟩
  obtain ⟨_, _, apart, kept⟩ := (deliveries_apart (.nil _)).2 _ _ _ _ _ _ _ next (by decide)
  have clear : Clear 0 5 3 := by decide
  exact ⟨_, _, next, apart.mpr clear, kept rfl clear⟩

/-- With the offset at 20 KB, a payload of 40 KB stands at 20 KB, and the next
one of 24 KB is wrapped to 0 and overwrites its first 4 KB. -/
theorem deliveries_overlap : ¬ ∀ ready memory calls r first second dst dst' middle last,
      Steps step (Receiver.initial ready memory) calls r → Consecutive r first second dst dst'
      [] middle last → align16 first.bytes.length + align16 second.bytes.length ≤ ipcBufSize →
      Apart dst first.bytes.length dst' second.bytes.length := by
  intro claimed
  have opening := delivers_blank (r := Receiver.initial true fun _ => 0)
    (show 20480 ≤ kernelSpan by decide) rfl (by decide) (by decide)
  generalize atStart : (Receiver.initial true fun _ => 0).accept (blank 20480 _) = r0 at opening
  have ready0 : r0.ipcBufReady = true := by rw [← atStart]; rfl
  have offset0 : r0.ipcBufOffset = 20480 := by
    rw [← atStart, accept_offset, blank_length]
    decide
  have first := delivers_blank (r := r0)
    (show 40960 ≤ kernelSpan by decide) ready0 (by decide) (by decide)
  have second := delivers_blank (r := r0.accept (blank 40960 (by decide)))
    (show 24576 ≤ kernelSpan by decide) ready0 (by decide) (by decide)
  have offset1 : (r0.accept (blank 40960 (by decide))).ipcBufOffset = 61440 := by
    rw [accept_offset, blank_length, offset0]
    decide
  rw [offset0] at first
  rw [offset1] at second
  have apart := claimed _ _ _ _ _ _ _ _ _ _ (Steps.single (congrArg Prod.snd opening.2.2))
    ⟨⟨_, first⟩, _, _, .nil _, second⟩ (by rw [blank_length, blank_length]; decide)
  simp only [blank_length, Apart] at apart
  revert apart
  decide

end MainDob.Kernel.IpcBuffer
