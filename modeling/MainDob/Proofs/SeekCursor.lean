/-
Purpose: The cursor of an open file. Whatever seeks, reads and writes have put into the cursor and
  the waypoints, `fd_seek_cursor` comes to the cluster that a walk from the first cluster finds,
  as long as no cluster on the way is one that has no entry though its window has.
Trusted boundary: the block writes to the FAT succeed; one fd works on the
  chain.
Main exports: OnWalk, fdSeekCursor_walk, seek_cursor_agrees
-/
import MainDob.Proofs.ChainWalks

namespace MainDob.Fs.Fat

open List

/-! ### The cursor -/

/-- The cursor and the waypoints of the fd are where a walk from the first
cluster finds them. -/
structure OnWalk (io : Io) : Prop where
  tidy : Tidy io.vol
  ends : 2 ≤ io.fd.firstCluster → ∃ steps, EndsIn io.vol steps io.fd.firstCluster
  unset : io.fd.firstCluster < 2 → io.fd.curCluster < 2 ∧ io.fd.waypoints = [] ∧ io.fd.chainLen = 0
  cursor : 2 ≤ io.fd.curCluster →
    clusterAt io.vol.table io.fd.firstCluster io.fd.curClusterIdx = some io.fd.curCluster
  points : ∀ point ∈ io.fd.waypoints,
    clusterAt io.vol.table io.fd.firstCluster point.2 = some point.1
  last : io.fd.chainLen ≠ 0 → Final io.vol io.fd.chainLast

variable {v : Volume}

namespace OnWalk

variable {io : Io}

theorem of_same (walk : OnWalk io) (shape : Shape io.vol v)
    (coherent : Coherent v) (table : v.table = io.vol.table) : OnWalk ⟨v, io.fd⟩ where
  tidy := ⟨coherent, shape.reliable walk.tidy.reliable⟩
  ends := fun least => by
    obtain ⟨steps, ends⟩ := walk.ends least
    exact ⟨steps, ends.of_same shape table⟩
  unset := walk.unset
  cursor := by
    rw [table]
    exact walk.cursor
  points := by
    rw [table]
    exact walk.points
  last := fun known least => by
    obtain ⟨proper, eoc⟩ := walk.last known least
    exact ⟨fun gap => proper ((shape.gap _).mp gap), by rw [table]; exact eoc⟩

theorem of_seen (walk : OnWalk io) (seen : Seen io.vol v) : OnWalk ⟨v, io.fd⟩ :=
  walk.of_same seen.toShape seen.coherent seen.table

end OnWalk

variable {f : Fd}

theorem fdRecordWaypoint_walk {table : Nat → Nat} {first : Nat}
    (points : ∀ point ∈ f.waypoints, clusterAt table first point.2 = some point.1)
    (here : clusterAt table first f.curClusterIdx = some f.curCluster) :
    ∃ marks, fdRecordWaypoint f = { f with waypoints := marks } ∧
      ∀ point ∈ marks, clusterAt table first point.2 = some point.1 := by
  unfold fdRecordWaypoint
  split
  · exact ⟨f.waypoints, rfl, points⟩
  split
  · exact ⟨f.waypoints, rfl, points⟩
  split
  · exact ⟨f.waypoints, rfl, points⟩
  refine ⟨_, rfl, ?_⟩
  intro point member
  rcases mem_append.mp member with old | new
  · exact points point old
  · rw [mem_singleton.mp new]
    exact here

theorem seekStart_walk {io : Io} (walk : OnWalk io) (least : 2 ≤ io.fd.firstCluster)
    (target : Nat) : clusterAt io.vol.table io.fd.firstCluster (seekStart io.fd target).2 =
        some (seekStart io.fd target).1 ∧ (seekStart io.fd target).2 ≤ target := by
  unfold seekStart
  dsimp only
  split
  · next near => exact ⟨walk.cursor near.1, near.2.1⟩
  cases found : io.fd.waypoints.reverse.find? (fun point => point.2 ≤ target) with
  | none =>
    refine ⟨?_, Nat.zero_le _⟩
    exact if_neg (Nat.not_lt.mpr least)
  | some point =>
    have member := mem_reverse.mp (mem_of_find?_eq_some found)
    exact ⟨walk.points point member, by simpa using List.find?_some found⟩

/-- Where a seek leaves the fd: at the cluster the walk finds. -/
structure Reached (io : Io) (target cluster : Nat) (io' : Io) : Prop where
  seen : Seen io.vol io'.vol
  here : clusterAt io.vol.table io.fd.firstCluster target = some cluster
  moved : ∃ marks, io'.fd = { io.fd with
    curCluster := cluster, curClusterIdx := target, waypoints := marks } ∧
    ∀ point ∈ marks, clusterAt io.vol.table io.fd.firstCluster point.2 = some point.1

section

variable {io io' : Io} {target cluster : Nat} (reached : Reached io target cluster io')
include reached

theorem Reached.walk (walk : OnWalk io) (least : 2 ≤ io.fd.firstCluster) : OnWalk io' := by
  obtain ⟨_, moved, points⟩ := reached.moved
  obtain ⟨_, _⟩ := io'
  subst moved
  exact { walk.of_seen reached.seen with
    unset := fun small => absurd small (Nat.not_lt.mpr least)
    cursor := fun _ => by
      rw [reached.seen.table]
      exact reached.here
    points := by
      rw [reached.seen.table]
      exact points }

theorem Reached.arrived : io'.fd.curCluster = cluster ∧ io'.fd.curClusterIdx = target := by
  obtain ⟨_, moved, _⟩ := reached.moved
  rw [moved]
  exact ⟨rfl, rfl⟩

end

theorem moveCursor_reached {io : Io} (walk : OnWalk io) (seen : Seen io.vol v)
    {target cluster : Nat} (here : clusterAt io.vol.table io.fd.firstCluster target = some cluster)
    : Reached io target cluster ⟨v, moveCursor io.fd cluster target⟩ := by
  obtain ⟨marks, recorded, points⟩ := fdRecordWaypoint_walk
    (f := { io.fd with curCluster := cluster, curClusterIdx := target })
    walk.points here
  exact ⟨seen, here, marks, recorded, points⟩

/-- `fd_seek_cursor` comes to the cluster the walk finds at the index, and fails
exactly where the walk finds none. -/
theorem fdSeekCursor_walk {io : Io} (walk : OnWalk io) (target : Nat) :
    (∃ cluster io', fdSeekCursor io target = (true, io') ∧ Reached io target cluster io' ∧
      OnWalk io') ∨ (clusterAt io.vol.table io.fd.firstCluster target = none ∧
      ∃ v, fdSeekCursor io target = (false, ⟨v, io.fd⟩) ∧ Seen io.vol v) := by
  have same : Seen io.vol io.vol := Seen.refl walk.tidy.coherent
  unfold fdSeekCursor
  dsimp only
  split
  · next small =>
      refine Or.inr ⟨?_, io.vol, rfl, same⟩
      have empty : clusterAt io.vol.table io.fd.firstCluster 0 = none := if_pos small
      have none' := clusterAt_none empty target
      rw [zero_add] at none'
      exact none'
  next large =>
    have least := Nat.not_lt.mp large
    have reach : ∀ {v : Volume} {cluster : Nat}, Seen io.vol v →
        clusterAt io.vol.table io.fd.firstCluster target = some cluster →
        ∃ cluster' io', (true, Io.mk v (moveCursor io.fd cluster target)) = (true, io') ∧
          Reached io target cluster' io' ∧ OnWalk io' := by
      intro v cluster seen here
      have reached := moveCursor_reached walk seen here
      exact ⟨cluster, _, rfl, reached, reached.walk walk least⟩
    split
    · next already =>
        obtain ⟨set, rfl⟩ := already
        exact Or.inl ⟨io.fd.curCluster, io, rfl, ⟨same, walk.cursor set,
          io.fd.waypoints, rfl, walk.points⟩, walk⟩
    split
    · next one =>
        obtain ⟨set, rfl⟩ := one
        have here := walk.cursor set
        obtain ⟨_, onward⟩ := clusterAt_ends (walk.ends least) here
        obtain ⟨value, seen⟩ := fatRead_proper walk.tidy.coherent walk.tidy.reliable onward.proper
        have next := clusterAt_next here
        rw [value]
        split
        · next ended =>
            rw [if_pos ended] at next
            exact Or.inr ⟨next, _, rfl, seen⟩
        · next goes =>
            rw [if_neg goes] at next
            exact Or.inl (reach seen next)
    · obtain ⟨here, before⟩ := seekStart_walk walk least target
      obtain ⟨arrives, seen⟩ := walkChain_walk
        (target - (seekStart io.fd target).2) walk.tidy (walk.ends least) here
      rw [Nat.add_sub_cancel' before] at arrives
      split
      · next v ended =>
          rw [ended] at arrives seen
          exact Or.inr ⟨arrives.symm, v, rfl, seen⟩
      · next cluster v arrived =>
          rw [arrived] at arrives seen
          exact Or.inl (reach seen arrives.symm)

/-- What the operations of an fd leave: the cursor on the walk, and the geometry
of the volume. -/
structure Settles (io io' : Io) : Prop where
  walk : OnWalk io'
  shape : Shape io.vol io'.vol

theorem Settles.refl {io : Io} (walk : OnWalk io) : Settles io io := ⟨walk, Shape.refl _⟩

theorem Settles.trans {a b c : Io} (first : Settles a b) (second : Settles b c) : Settles a c :=
  ⟨second.walk, first.shape.trans second.shape⟩

section

variable {io : Io} (walk : OnWalk io)
include walk

theorem Settles.of_seen (seen : Seen io.vol v) : Settles io ⟨v, io.fd⟩ :=
  ⟨walk.of_seen seen, seen.toShape⟩

theorem fdSeekCursor_settles (target : Nat) : Settles io (fdSeekCursor io target).2 := by
  rcases fdSeekCursor_walk walk target with
    ⟨_, io', result, reached, kept⟩ | ⟨_, v, result, seen⟩
  · rw [result]
    exact ⟨kept, reached.seen.toShape⟩
  · rw [result]
    exact Settles.of_seen walk seen

/-! ### Room for a write -/

theorem measureChain_walk (least : 2 ≤ io.fd.firstCluster) :
    ∃ v len last, measureChain io = ⟨v, { io.fd with chainLen := len, chainLast := last }⟩ ∧
      Seen io.vol v ∧ Final v last := by
  unfold measureChain
  split
  · obtain ⟨steps, ends⟩ := walk.ends least
    have short := ends.short
    obtain ⟨last, len, v, result, final, seen⟩ := measureLoop_final
      (io.vol.totalClusters + 3 + io.vol.fatSizeSectors * entriesPerSector) 1
      walk.tidy ends (by omega)
    rw [result]
    exact ⟨v, len, last, rfl, seen, final⟩
  · next known =>
      exact ⟨io.vol, io.fd.chainLen, io.fd.chainLast, rfl,
        Seen.refl walk.tidy.coherent, walk.last known⟩

theorem OnWalk.grow (grows : Grows io.vol v)
    {len last : Nat} (final : len ≠ 0 → Final v last) (started : io.fd.firstCluster < 2 → len = 0) :
    OnWalk ⟨v, { io.fd with chainLen := len, chainLast := last }⟩ where
  tidy := grows.tidy walk.tidy
  ends := fun least => by
    obtain ⟨steps, ends⟩ := walk.ends least
    exact grows.ends _ steps ends
  unset := fun small => ⟨(walk.unset small).1, (walk.unset small).2.1, started small⟩
  cursor := fun set => grows.clusterAt (walk.cursor set)
  points := fun point member => grows.clusterAt (walk.points point member)
  last := final

theorem fdEnsureClusters_settles (able : Assignable io.vol)
    (endOffset : Nat) : Settles io (fdEnsureClusters io endOffset).2 := by
  unfold fdEnsureClusters
  dsimp only
  split
  · exact Settles.refl walk
  generalize clustersFor io.vol endOffset = needed
  split
  · next small =>
      have nothing : Final io.vol 0 := fun impossible => absurd impossible (by decide)
      have added := allocRoom_added walk.tidy able nothing needed
      generalize allocRoom io.vol 0 needed = result at added ⊢
      obtain ⟨got, v⟩ := result
      obtain ⟨grows, begun, _⟩ := added
      obtain ⟨_, bare, unmeasured⟩ := walk.unset small
      split
      · exact ⟨walk.grow grows (fun known => absurd unmeasured known)
          (fun _ => unmeasured), grows.toShape⟩
      next some' =>
        obtain ⟨least, ends⟩ := begun.first some'
        refine ⟨?_, grows.toShape⟩
        exact {
          tidy := grows.tidy walk.tidy
          ends := fun _ => ends
          unset := fun impossible => absurd impossible (Nat.not_lt.mpr least)
          cursor := fun _ => if_neg (Nat.not_lt.mpr least)
          points := by
            intro point member
            rw [bare] at member
            cases member
          last := fun _ => begun.final }
  · next large =>
      have least := Nat.not_lt.mp large
      obtain ⟨v, len, last, measured, seen, final⟩ := measureChain_walk walk least
      have started : ∀ len, io.fd.firstCluster < 2 → len = 0 :=
        fun _ impossible => absurd impossible large
      have walk' := walk.grow (Grows.of_seen seen) (fun _ => final) (started len)
      rw [measured]
      split
      · exact ⟨walk', seen.toShape⟩
      have added := allocRoom_added walk'.tidy (able.of_shape seen.toShape) final (needed - len)
      generalize allocRoom v last (needed - len) = result at added ⊢
      obtain ⟨grows, begun, same⟩ := added
      have shape := seen.toShape.trans grows.toShape
      split
      · next nothing =>
          have final' := begun.final
          rw [same nothing] at final'
          exact ⟨walk'.grow grows (fun _ => final') (started _), shape⟩
      · exact ⟨walk'.grow grows (fun _ => begun.final) (started _), shape⟩

end

/-! ### The buffer -/

/-- The fields the cursor depends on. -/
structure SamePlace (f f' : Fd) : Prop where
  first : f'.firstCluster = f.firstCluster
  cur : f'.curCluster = f.curCluster
  index : f'.curClusterIdx = f.curClusterIdx
  points : f'.waypoints = f.waypoints
  len : f'.chainLen = f.chainLen
  last : f'.chainLast = f.chainLast

theorem Settles.of_place {io : Io} (walk : OnWalk io)
    (same : SamePlace io.fd f) : Settles io ⟨io.vol, f⟩ := by
  refine ⟨⟨walk.tidy, ?_, ?_, ?_, ?_, ?_⟩, Shape.refl _⟩
  · dsimp only
    rw [same.first]
    exact walk.ends
  · dsimp only
    rw [same.first, same.cur, same.points, same.len]
    exact walk.unset
  · dsimp only
    rw [same.first, same.cur, same.index]
    exact walk.cursor
  · dsimp only
    rw [same.first, same.points]
    exact walk.points
  · dsimp only
    rw [same.len, same.last]
    exact walk.last

theorem storeRetries_shape : ∀ (tries : Nat) (v : Volume) (cluster : Nat)
    (bytes : Nat → UInt8), Coherent v → Shape v (storeRetries tries v cluster bytes).2 ∧
      Coherent (storeRetries tries v cluster bytes).2 ∧
      (storeRetries tries v cluster bytes).2.table = v.table := by
  intro tries
  induction tries with
  | zero => exact fun v _ _ coherent => ⟨Shape.refl v, coherent, rfl⟩
  | succ _ ih =>
    intro v cluster bytes coherent
    unfold storeRetries writeCluster diskWrite
    by_cases small : cluster < 2
    · rw [if_pos small]
      exact ih v cluster bytes coherent
    rw [if_neg small]
    cases v.outcome .data (v.writes .data) with
    | true => exact ⟨⟨rfl, rfl, rfl, rfl, rfl, rfl⟩, { coherent with }, rfl⟩
    | false =>
      obtain ⟨shape, coherent', table⟩ := ih { v with
          writes := Function.update v.writes .data (v.writes .data + 1) }
        cluster bytes { coherent with }
      exact ⟨{ shape with }, coherent', table⟩

theorem fdFlushWrite_settles {io : Io} (walk : OnWalk io) : Settles io (fdFlushWrite io).2 := by
  unfold fdFlushWrite
  split
  · exact Settles.refl walk
  have sought := fdSeekCursor_settles walk
    (sub32 io.fd.offset io.fd.bufPos / io.vol.bytesPerCluster)
  generalize fdSeekCursor io
    (sub32 io.fd.offset io.fd.bufPos / io.vol.bytesPerCluster) = result at sought ⊢
  obtain ⟨ok, io'⟩ := result
  cases ok with
  | false => exact sought
  | true =>
    have stored := storeRetries_shape fdFlushRetries io'.vol io'.fd.curCluster
      (flushImage io') sought.walk.tidy.coherent
    dsimp only at *
    generalize storeRetries fdFlushRetries io'.vol io'.fd.curCluster
      (flushImage io') = result at stored ⊢
    obtain ⟨ok, v⟩ := result
    obtain ⟨shape, coherent, table⟩ := stored
    have kept : Settles io' ⟨v, io'.fd⟩ := ⟨sought.walk.of_same shape coherent table, shape⟩
    cases ok with
    | false => exact sought.trans kept
    | true =>
      exact (sought.trans kept).trans (Settles.of_place kept.walk ⟨rfl, rfl, rfl, rfl, rfl, rfl⟩)

theorem runLoop_seen (want : Nat) : ∀ (fuel : Nat) {v : Volume} {steps prev : Nat}
    (count : Nat), Tidy v → EndsIn v steps prev → Seen v (runLoop want fuel v prev count).2 := by
  intro fuel
  induction fuel with
  | zero => exact fun _ tidy _ => Seen.refl tidy.coherent
  | succ _ ih =>
    intro v steps prev count tidy ends
    obtain ⟨value, seen⟩ := fatRead_proper tidy.coherent tidy.reliable ends.proper
    unfold runLoop
    split
    · dsimp only
      rw [value]
      split
      · exact seen
      next goes =>
        obtain ⟨_, rest⟩ := ends.tail (Bool.eq_false_iff.mpr fun eoc => goes (Or.inl eoc))
        exact seen.trans (ih (count + 1) (tidy.of_seen seen) (rest.of_seen seen))
    · exact Seen.refl tidy.coherent

theorem fdFillRead_settles {io : Io} (walk : OnWalk io) : Settles io (fdFillRead io).2 := by
  unfold fdFillRead
  dsimp only
  have sought := fdSeekCursor_settles walk (io.fd.offset % word / io.vol.bytesPerCluster)
  have found := fdSeekCursor_walk walk (io.fd.offset % word / io.vol.bytesPerCluster)
  generalize io.fd.offset % word / io.vol.bytesPerCluster = index at sought found ⊢
  rcases found with ⟨cluster, io', result, reached, kept⟩ | ⟨_, v, result, seen⟩
  · rw [result] at sought ⊢
    dsimp only at sought ⊢
    split
    · exact sought.trans (Settles.of_place kept ⟨rfl, rfl, rfl, rfl, rfl, rfl⟩)
    have set : 2 ≤ io'.fd.curCluster := by
      rw [reached.arrived.1]
      exact clusterAt_least reached.here
    have first : 2 ≤ io'.fd.firstCluster := by
      refine Nat.le_of_not_lt fun small => ?_
      have none' := (kept.unset small).1
      omega
    obtain ⟨_, ends⟩ := clusterAt_ends (kept.ends first) (kept.cursor set)
    have seen := runLoop_seen (wantClusters io' index) (wantClusters io' index) 1 kept.tidy ends
    have after := Settles.of_seen kept seen
    exact (sought.trans after).trans (Settles.of_place after.walk ⟨rfl, rfl, rfl, rfl, rfl, rfl⟩)
  · rw [result]
    exact Settles.of_seen walk seen

/-! ### The requests -/

theorem readLoop_settles : ∀ (fuel : Nat) {io : Io} (size : Nat), OnWalk io →
    Settles io (readLoop fuel io size).2 := by
  intro fuel
  induction fuel with
  | zero => exact fun _ walk => Settles.refl walk
  | succ _ ih =>
    intro io size walk
    unfold readLoop
    split
    · exact Settles.refl walk
    have filled : Settles io (if inSpan io then (true, io) else fdFillRead io).2 := by
      split
      · exact Settles.refl walk
      · exact fdFillRead_settles walk
    generalize (if inSpan io then (true, io) else fdFillRead io) = result at filled ⊢
    obtain ⟨ok, io'⟩ := result
    cases ok with
    | false => exact filled
    | true =>
      dsimp only at filled ⊢
      split
      · exact filled
      have moved : Settles io' ⟨io'.vol, { io'.fd with
          offset := io'.fd.offset + min size (sub32 io'.fd.bufValid
            (sub32 io'.fd.offset (io'.fd.bufStartClusterIdx *
              io'.vol.bytesPerCluster % word))) }⟩ :=
        Settles.of_place filled.walk ⟨rfl, rfl, rfl, rfl, rfl, rfl⟩
      exact (filled.trans moved).trans (ih _ moved.walk)

theorem writeLoop_settles : ∀ (fuel : Nat) {io : Io} (src : List UInt8),
    OnWalk io → Settles io (writeLoop fuel io src).2 := by
  intro fuel
  induction fuel with
  | zero => exact fun _ walk => Settles.refl walk
  | succ _ ih =>
    intro io src walk
    unfold writeLoop
    split
    · exact Settles.refl walk
    dsimp only
    generalize min src.length (sub32 io.vol.bytesPerCluster io.fd.bufPos) = chunk
    have staged : Settles io ⟨io.vol, stage io.fd (src.take chunk)⟩ :=
      Settles.of_place walk ⟨rfl, rfl, rfl, rfl, rfl, rfl⟩
    split
    · have flushed := fdFlushWrite_settles staged.walk
      generalize fdFlushWrite ⟨io.vol, stage io.fd (src.take chunk)⟩ = result at flushed ⊢
      obtain ⟨ok, io'⟩ := result
      cases ok with
      | false => exact staged.trans flushed
      | true =>
        have sought := fdSeekCursor_settles flushed.walk (io'.fd.curClusterIdx + 1)
        exact ((staged.trans flushed).trans sought).trans (ih _ sought.walk)
    · exact staged.trans (ih _ staged.walk)

theorem startStaging_place (f : Fd) : SamePlace f (startStaging f) := by
  unfold startStaging
  split <;> exact ⟨rfl, rfl, rfl, rfl, rfl, rfl⟩

theorem growSize_place (f : Fd) : SamePlace f (growSize f) := by
  unfold growSize
  split <;> exact ⟨rfl, rfl, rfl, rfl, rfl, rfl⟩

theorem moveTo_place (v : Volume) (f : Fd) (position : Nat) :
    SamePlace f (moveTo v f position) := by
  unfold moveTo
  dsimp only
  split <;> exact ⟨rfl, rfl, rfl, rfl, rfl, rfl⟩

theorem writeBytes_settles {io : Io} (walk : OnWalk io) (able : Assignable io.vol)
    (src : List UInt8) : Settles io (writeBytes io src).2 := by
  unfold writeBytes
  dsimp only
  have started := Settles.of_place walk (startStaging_place io.fd)
  have ensured := fdEnsureClusters_settles started.walk able
    (((startStaging io.fd).offset + src.length) % word)
  generalize fdEnsureClusters ⟨io.vol, startStaging io.fd⟩
    (((startStaging io.fd).offset + src.length) % word) = result at ensured ⊢
  obtain ⟨ok, io'⟩ := result
  cases ok with
  | false => exact started.trans ensured
  | true =>
    dsimp only at ensured ⊢
    have positioned : Settles io' (positionCursor io') := by
      unfold positionCursor
      split
      · exact fdSeekCursor_settles ensured.walk _
      · exact Settles.refl ensured.walk
    have written := writeLoop_settles (2 * src.length + 1) src positioned.walk
    have before := (started.trans ensured).trans positioned
    generalize writeLoop (2 * src.length + 1) (positionCursor io') src = result at written ⊢
    obtain ⟨ok, io''⟩ := result
    cases ok with
    | false => exact before.trans written
    | true =>
      exact (before.trans written).trans (Settles.of_place written.walk (growSize_place io''.fd))

theorem seekFd_settles {io : Io} (walk : OnWalk io) (whence : Whence)
    (offHi offLo : Nat) : Settles io (seekFd io whence offHi offLo).2 := by
  unfold seekFd
  have flushed : Settles io (if io.fd.bufDirty then fdFlushWrite io else (true, io)).2 := by
    split
    · exact fdFlushWrite_settles walk
    · exact Settles.refl walk
  generalize (if io.fd.bufDirty then fdFlushWrite io else (true, io)) = result at flushed ⊢
  obtain ⟨ok, io'⟩ := result
  cases ok with
  | false => exact flushed
  | true =>
    dsimp only at flushed ⊢
    have cleaned := flushed.trans (Settles.of_place
      (f := { io'.fd with bufDirty := false }) flushed.walk
      ⟨rfl, rfl, rfl, rfl, rfl, rfl⟩)
    split
    · exact cleaned
    · exact cleaned.trans (Settles.of_place cleaned.walk (moveTo_place _ _ _))

/-! ### Runs -/

/-- The requests on an open file, and a seek of its cursor alone. -/
inductive CursorOp where
  | read (sender size : Nat)
  | write (sender : Nat) (payload : List UInt8)
  | seek (sender : Nat) (whence : Whence) (offHi offLo : Nat)
  | place (target : Nat)

namespace CursorOp

def apply (fd : Nat) (s : Server) : CursorOp → Server
  | .read sender size => (handleRead s sender fd size).2
  | .write sender payload => (handleWrite s sender fd payload).2
  | .seek sender whence offHi offLo => (handleSeek s sender fd whence offHi offLo).2
  | .place target => s.put fd (fdSeekCursor (s.io fd) target).2

def isWrite : CursorOp → Bool
  | .write _ _ => true
  | _ => false

end CursorOp

/-- The server after the requests. -/
def cursorRun (fd : Nat) (s : Server) (ops : List CursorOp) : Server :=
  ops.foldl (CursorOp.apply fd) s

theorem Server.io_put (s : Server) (fd : Nat) (io : Io) : (s.put fd io).io fd = io := by
  unfold Server.put Server.io
  dsimp only
  rw [Function.update_self]

theorem cursorOp_settles {s : Server} {fd : Nat} (walk : OnWalk (s.io fd)) (op : CursorOp)
    (able : op.isWrite = true → Assignable s.vol) : Settles (s.io fd) ((op.apply fd s).io fd) := by
  have idle := Settles.refl walk
  cases op with
  | read =>
    unfold CursorOp.apply handleRead
    dsimp only
    split
    · exact idle
    split
    · exact idle
    split
    · exact idle
    · rw [Server.io_put]
      exact readLoop_settles _ _ walk
  | write =>
    unfold CursorOp.apply handleWrite
    dsimp only
    split
    · exact idle
    split
    · exact idle
    split
    · exact idle
    · rw [Server.io_put]
      exact writeBytes_settles walk (able rfl) _
  | seek _ whence offHi offLo =>
    unfold CursorOp.apply handleSeek
    dsimp only
    split
    · exact idle
    · rw [Server.io_put]
      exact seekFd_settles walk whence offHi offLo
  | place target =>
    unfold CursorOp.apply
    rw [Server.io_put]
    exact fdSeekCursor_settles walk target

theorem cursorRun_settles {fd : Nat} : ∀ (ops : List CursorOp) {s : Server},
    OnWalk (s.io fd) → ((∃ op ∈ ops, op.isWrite = true) → Assignable s.vol) →
    Settles (s.io fd) ((cursorRun fd s ops).io fd) := by
  intro ops
  induction ops with
  | nil => exact fun walk _ => Settles.refl walk
  | cons op _ ih =>
    intro s walk able
    have first := cursorOp_settles walk op (fun writes => able ⟨op, mem_cons_self, writes⟩)
    refine first.trans (ih first.walk ?_)
    rintro ⟨later, member, writes⟩
    exact (able ⟨later, mem_cons_of_mem _ member, writes⟩).of_shape first.shape

theorem opened_walk {flags : Flags} {entry : Found} (tidy : Tidy v)
    (chain : 2 ≤ entry.slot.cluster → ∃ steps, EndsIn v steps entry.slot.cluster) :
    OnWalk ⟨v, truncFd (openedFd f flags entry)⟩ := by
  have bare : ∀ point ∈ ([] : List (Nat × Nat)), ∀ first,
      clusterAt v.table first point.2 = some point.1 :=
    fun point impossible => nomatch impossible
  have nothing : ¬ 2 ≤ 0 := by decide
  have small : 0 < 2 := by decide
  unfold truncFd
  split
  · exact ⟨tidy, fun impossible => absurd impossible nothing,
      fun _ => ⟨small, rfl, rfl⟩, fun impossible => absurd impossible nothing,
      fun point member => bare point member _, fun known => absurd rfl known⟩
  · exact ⟨tidy, chain, fun small => ⟨small, rfl, rfl⟩, fun least => if_neg (Nat.not_lt.mpr least),
      fun point member => bare point member _, fun known => absurd rfl known⟩

/-- The cursor after a seek: it succeeds where the walk finds a cluster, and is
at that cluster then. -/
def Agrees (io : Io) (target : Nat) : Prop :=
  ((fdSeekCursor io target).1 = true ↔ (clusterAt io.vol.table io.fd.firstCluster target).isSome) ∧
    ∀ cluster, clusterAt io.vol.table io.fd.firstCluster target = some cluster →
      (fdSeekCursor io target).2.fd.curCluster = cluster ∧
        (fdSeekCursor io target).2.fd.curClusterIdx = target

instance (io : Io) (target : Nat) : Decidable (Agrees io target) :=
  match found : clusterAt io.vol.table io.fd.firstCluster target with
  | none => decidable_of_iff ((fdSeekCursor io target).1 = false) (by
      unfold Agrees
      rw [found]
      simp)
  | some cluster => decidable_of_iff ((fdSeekCursor io target).1 = true ∧
      (fdSeekCursor io target).2.fd.curCluster = cluster ∧
        (fdSeekCursor io target).2.fd.curClusterIdx = target) (by
      unfold Agrees
      rw [found]
      simp)

/-- After any seeks, reads and writes of an open file, `fd_seek_cursor` agrees
with a walk from the first cluster: on a chain that comes to an end and meets no
cluster of the gap, where the writes find none either. -/
theorem seek_cursor_agrees {s : Server} {fd : Nat} {f : Fd} {flags : Flags} {entry : Found}
    (opened : s.fds fd = truncFd (openedFd f flags entry)) (tidy : Tidy s.vol)
    (chain : 2 ≤ entry.slot.cluster → ∃ steps, EndsIn s.vol steps entry.slot.cluster)
    (ops : List CursorOp) (able : (∃ op ∈ ops, op.isWrite = true) → Assignable s.vol) (target : Nat)
    : Agrees ((cursorRun fd s ops).io fd) target := by
  have start : OnWalk (s.io fd) := by
    unfold Server.io
    rw [opened]
    exact opened_walk tidy chain
  have walk := (cursorRun_settles ops start able).walk
  unfold Agrees
  rcases fdSeekCursor_walk walk target with
    ⟨cluster, io', result, reached, _⟩ | ⟨ended, v, result, _⟩
  · rw [result, reached.here]
    refine ⟨by simp, ?_⟩
    intro cluster' same
    cases same
    exact reached.arrived
  · rw [result, ended]
    exact ⟨by simp, fun cluster impossible => nomatch impossible⟩

/-- A file of process 1 at a cluster. -/
def fileAt (first : Nat) : Found := ⟨⟨0x41, [], 0x20, first, 2048⟩, 2, 0⟩

/-- Process 1 has just opened a file for reading and writing. -/
def serverOf (v : Volume) (first : Nat) : Server where
  ctx := ⟨false, fun _ => false, fun _ => none⟩
  alive := fun _ => true
  vol := v
  fds := fun _ => truncFd (openedFd { Fd.zero with used := true, owner := 1 }
    ⟨true, true, false, false, false⟩ (fileAt first))

theorem serverOf_fds (v : Volume) (first fd : Nat) :
    (serverOf v first).fds fd = truncFd (openedFd { Fd.zero with used := true, owner := 1 }
        ⟨true, true, false, false, false⟩ (fileAt first)) := rfl

/-- A file of two clusters, which a write makes longer. -/
theorem seek_cursor_agrees_grown : Agrees ((cursorRun 3 (serverOf (volumeOf 1 100 fun cluster =>
        if cluster = 2 then 3 else if cluster = 3 then fat32Eoc else 0) 2)
      [.place 1, .seek 1 .fromEnd 0 0, .write 1 [1, 2, 3]]).io 3) 4 := by
  refine seek_cursor_agrees (serverOf_fds _ 2 3) (volumeOf_tidy ..) ?_ _ ?_ 4
  · exact fun _ => ⟨1, ⟨by unfold Volume.Gap; decide, by decide,
      by unfold Volume.Gap; decide, by decide⟩⟩
  refine fun _ => ⟨by decide, ?_⟩
  rintro cluster bound ⟨past, _⟩
  refine past ((Nat.div_lt_iff_lt_mul (by decide)).mpr ?_)
  have small : cluster < 102 := bound
  change cluster < 1 * 128
  omega

/-- The chain of cluster 5 ends at cluster 16584, which has no entry in a FAT of
129 sectors.  What `fat_read` finds there is left over from the first window. -/
theorem seek_cursor_fails :
    let table := fun cluster : Nat => if cluster = 5 then 16584 else if cluster = 200 then 7 else 0
    let server := serverOf (volumeOf 129 17000 table) 5
    Tidy server.vol ∧ fatIsEoc (server.vol.table (hop server.vol.table 5 1)) = true ∧
      clusterAt server.vol.table 5 2 = none ∧
      (fdSeekCursor (server.io 3) 2).1 = true ∧ (fdSeekCursor (server.io 3) 2).2.fd.curCluster = 7 ∧
      ¬ Agrees ((cursorRun 3 server []).io 3) 2 := by
  exact ⟨volumeOf_tidy .., by decide, by decide, by decide, by decide, by decide⟩

end MainDob.Fs.Fat
