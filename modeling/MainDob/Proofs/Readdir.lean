/-
Purpose: What a reply to READDIR says about the directory: every entry once, or
  that some are missing, exactly when all lines fit the buffer together (and, on
  an exFAT volume, there are at most 128 entries).
Trusted boundary: none beyond MainDob.Fs.Readdir
Main exports: dirVisit_shown, readdirLoop_spec, readdir_tells
-/
import MainDob.Fs.Readdir
import MainDob.Proofs.DirListing
import MainDob.Proofs.ShortNames

namespace MainDob.Fs.Fat

/-! ### What the callback gets -/

/-- An entry as a callback gets it. -/
def Shown.handed (entry : Shown) : Slot × Path := (entry.found.slot, entry.name)

/-- The entries a scan hands out from a state on, where it does not end. -/
def handedFrom (rest : List Found) : Option LfnState → List (Slot × Path)
  | none => []
  | some state => (listing rest state).map Shown.handed

theorem visitSlots_listing (isLast : Bool) (cluster : Nat) (rest : List Found) :
    ∀ (slots : List Slot) (index : Nat) (state : LfnState),
    (visitSlots isLast slots state).1 ++ handedFrom rest (visitSlots isLast slots state).2 =
        (listing (located cluster (if isLast then slots else patched slots) index
          ++ rest) state).map Shown.handed := by
  intro slots
  induction slots with
  | nil =>
    intro index state
    cases isLast <;> rfl
  | cons slot _ ih =>
    intro index state
    rw [visitSlots, listing_scanned]
    split
    · cases isLast with
      | true => rfl
      | false => exact ih (index + 1) state.idle
    split
    · exact ih (index + 1) state.idle
    split
    · exact ih (index + 1) (state.meet slot)
    split
    · exact ih (index + 1) state.idle
    · exact congrArg _ (ih (index + 1) state.idle)

theorem visitLoop_listing : ∀ (cs : List Nat) {fuel cluster : Nat} {v : Volume}
    (state : LfnState), FatSound v → Chain v.table v.limit (cluster :: cs) →
    cs.length < fuel →
    (visitLoop fuel v cluster state).1 =
      (listing (records v (cluster :: cs)) state).map Shown.handed
  | _, 0, _, _, _, _, _, enough => absurd enough (Nat.not_lt_zero _)
  | cs, fuel + 1, cluster, v, state, sound, chain, enough => by
    obtain ⟨value, seen, proper⟩ := chain.head_read sound
    rw [visitLoop, if_pos proper]
    dsimp only
    rw [value, seen.slots]
    cases cs with
    | nil =>
      have scan := visitSlots_listing true cluster [] (v.slots cluster) 0 state
      rw [if_pos rfl, List.append_nil] at scan
      rw [chain.last, records, ← scan]
      obtain ⟨here, finish⟩ := visitSlots true (v.slots cluster) state
      cases finish with
      | none => exact (List.append_nil here).symm
      | some state =>
        have stopped : (visitLoop fuel (fatRead v cluster).2 (v.table cluster) state).1 = [] := by
          cases fuel with
          | zero => rfl
          | succ => rw [visitLoop, chain.last, if_neg (fun more => Bool.noConfusion more.2)]
        exact congrArg (here ++ ·) stopped
    | cons next rest =>
      obtain ⟨follows, more, tail⟩ := chain.next
      have later := fun state => visitLoop_listing rest state (sound.of_seen seen)
        (tail.of_seen seen) (Nat.lt_of_succ_lt_succ enough : rest.length < fuel)
      rw [records_congr seen.slots] at later
      have scan := visitSlots_listing false cluster
        (records v (next :: rest)) (v.slots cluster) 0 state
      rw [if_neg Bool.false_ne_true] at scan
      rw [more, records, ← scan]
      obtain ⟨here, finish⟩ := visitSlots false (v.slots cluster) state
      cases finish with
      | none => exact (List.append_nil here).symm
      | some state =>
        rw [follows]
        exact congrArg (here ++ ·) (later state)

theorem dirVisit_shown {v : Volume} {dir : Nat} {cs : List Nat} (dirAt : DirAt v dir cs) :
    (dirVisit v dir).1 = (shown v cs).map Shown.handed := by
  obtain ⟨rest, rfl, enough⟩ := dirAt.head
  exact visitLoop_listing rest LfnState.start dirAt.sound dirAt.chain enough

end MainDob.Fs.Fat

namespace MainDob.Fs.Readdir

open List

/-! ### The lines -/

/-- The bytes of the lines of entries. -/
def total (entries : List Entry) : Nat :=
  (entries.flatMap Entry.line).length

theorem total_cons (entry : Entry) (rest : List Entry) :
    total (entry :: rest) = entry.line.length + total rest := by
  unfold total
  rw [flatMap_cons, length_append]

theorem line_pos (entry : Entry) : 0 < entry.line.length := by
  unfold Entry.line
  rw [length_append]
  exact Nat.succ_pos _

/-- The entries of a directory that a reply is to list. -/
def named (visited : List (Slot × Path)) : List Entry :=
  (visited.filter fun shown => !isDots shown.2).map entryOf

theorem named_cons (shown : Slot × Path) (rest : List (Slot × Path)) :
    named (shown :: rest) = if isDots shown.2 then named rest else entryOf shown :: named rest := by
  unfold named
  rw [filter_cons]
  cases isDots shown.2 <;> rfl

/-! ### The packing -/

theorem readdirCb_fits {max : Nat} :
    ∀ (visited : List (Slot × Path)) (buf : List Char), buf.length + total (named visited) < max →
      visited.foldl (readdirCb max) buf = buf ++ (named visited).flatMap Entry.line := by
  intro visited
  induction visited with
  | nil => exact fun buf _ => (append_nil buf).symm
  | cons shown _ ih =>
    intro buf fits
    rw [foldl_cons, named_cons, readdirCb]
    rw [named_cons] at fits
    by_cases dots : isDots shown.2 = true
    · rw [if_pos dots] at fits ⊢
      rw [if_pos dots]
      exact ih buf fits
    · rw [if_neg dots] at fits ⊢
      rw [total_cons] at fits
      rw [if_neg dots, if_pos (by omega), ih _ (by
        rw [length_append]
        omega), flatMap_cons, append_assoc]

theorem readdirCb_room {max : Nat} (visited : List (Slot × Path)) :
    ∀ (buf : List Char), buf.length < max → (visited.foldl (readdirCb max) buf).length < max := by
  induction visited with
  | nil => exact fun _ room => room
  | cons _ _ ih =>
    intro buf room
    refine ih _ ?_
    unfold readdirCb
    split
    · exact room
    split
    · rename_i fits
      rwa [length_append]
    · exact room

theorem packExfat_fits {size : Nat} :
    ∀ (entries : List Entry) (buf : List Char), buf.length + total entries < size →
      packExfat size entries buf = buf ++ entries.flatMap Entry.line := by
  intro entries
  induction entries with
  | nil => exact fun buf _ => (append_nil buf).symm
  | cons _ _ ih =>
    intro buf fits
    rw [total_cons] at fits
    rw [packExfat, if_neg (by omega), ih _ (by
      rw [length_append]
      omega), flatMap_cons, append_assoc]

theorem packExfat_room {size : Nat} : ∀ (entries : List Entry) (buf : List Char),
    buf.length < size → (packExfat size entries buf).length < size ∧
        (packExfat size entries buf).length ≤ buf.length + total entries := by
  intro entries
  induction entries with
  | nil => exact fun buf room => ⟨room, Nat.le_add_right _ _⟩
  | cons entry _ ih =>
    intro buf room
    rw [packExfat, total_cons]
    split
    · exact ⟨room, Nat.le_add_right _ _⟩
    obtain ⟨inside, less⟩ := ih (buf ++ entry.line) (by
      rw [length_append]
      omega)
    rw [length_append] at less
    exact ⟨inside, by omega⟩

/-! ### The files of an exFAT directory -/

/-- The files a cursor comes to up to the end of the directory. -/
inductive Files (rd : Exfat.Reader) :
    Exfat.Volume → Exfat.DirCur → List Exfat.FileInfo → Prop
  | finished {v v' : Exfat.Volume} {c c' : Exfat.DirCur}
      (next : Exfat.dirNextFile rd v c = (.finished, v', c')) : Files rd v c []
  | file {v v' : Exfat.Volume} {c c' : Exfat.DirCur} {info : Exfat.FileInfo}
      {rest : List Exfat.FileInfo}
      (next : Exfat.dirNextFile rd v c = (.file info, v', c'))
      (later : Files rd v' c' rest) : Files rd v c (info :: rest)

/-- A file as a reply lists it. -/
def entryOfFile (info : Exfat.FileInfo) : Entry :=
  ⟨nameOf info, info.isDir, info.size⟩

theorem readdirLoop_spec {rd : Exfat.Reader} {v : Exfat.Volume} {c : Exfat.DirCur}
    {infos : List Exfat.FileInfo} (files : Files rd v c infos) : ∀ (left : Nat) (out : List Entry),
    (readdirLoop rd left v c out).1 = some (out ++ (infos.take left).map entryOfFile) := by
  induction files with
  | finished next =>
    intro left out
    rw [take_nil, map_nil, append_nil]
    cases left with
    | zero => rfl
    | succ => rw [readdirLoop, next]
  | file next _ ih =>
    intro left out
    cases left with
    | zero =>
      rw [take_zero, map_nil, append_nil]
      rfl
    | succ left =>
      rw [readdirLoop, next, take_succ_cons, map_cons]
      exact (ih left _).trans (congrArg some (append_assoc _ _ _))

/-! ### Replies -/

/-- The directory at a path has the entries; it is read to its end. -/
inductive DirectoryAt : Mounted → Path → List Entry → Prop
  | fat {v : Volume} {path : Path} {found : Fat.Found} {cs : List Nat}
      (resolved : (Fat.resolveFullPath v path).1 = some found)
      (directory : Fat.Slot.directory found.slot = true)
      (dirAt : Fat.DirAt (Fat.resolveFullPath v path).2 found.slot.cluster cs) :
      DirectoryAt (.fat v) path (named
        ((Fat.shown (Fat.resolveFullPath v path).2 cs).map Fat.Shown.handed))
  | exfat {rd : Exfat.Reader} {v v' : Exfat.Volume} {path : Path}
      {dir : Exfat.FileInfo} {infos : List Exfat.FileInfo}
      (resolved : resolve rd v path = (.file dir, v'))
      (directory : dir.isDir = true)
      (files : Files rd v' (dirCursor v' dir) infos) :
      DirectoryAt (.exfat rd v) path (infos.map entryOfFile)

/-- The reply has every entry once, in some order, and no other. -/
def Lists (reply : Reply) (entries : List Entry) : Prop :=
  reply.status = .ok ∧
    ∃ order : List Entry, order.Perm entries ∧ reply.payload = order.flatMap Entry.line

/-- Something in the reply says that it is not the whole directory. -/
def Signals (reply : Reply) : Prop :=
  reply.status ≠ .ok ∨ reply.arg0 ≠ 0 ∨ reply.arg1 ≠ 0 ∨ reply.arg2 ≠ 0

/-- The reply lists the directory, or says that it does not. -/
def Tells (reply : Reply) (entries : List Entry) : Prop :=
  Lists reply entries ∨ Signals reply

/-- The entries fit a reply. -/
def Room : Mounted → List Entry → Prop
  | .fat _, entries => total entries < bufSize - 1
  | .exfat _ _, entries => entries.length ≤ maxEntries ∧ total entries < bufSize

theorem total_perm {one two : List Entry} (perm : one.Perm two) : total one = total two :=
  (perm.flatMap_right Entry.line).length_eq

theorem total_take {entries : List Entry} {count : Nat} (many : count < entries.length) :
    total (entries.take count) < total entries := by
  have whole : total entries = total (entries.take count) + total (entries.drop count) := by
    unfold total
    rw [← length_append, ← flatMap_append, take_append_drop]
  cases rest : entries.drop count with
  | nil => exact absurd (drop_eq_nil_iff.mp rest) (Nat.not_le_of_lt many)
  | cons entry =>
    rw [whole, rest, total_cons]
    have some := line_pos entry
    omega

section

variable {payload : List Char} {entries : List Entry}

theorem Tells.length (tells : Tells { status := .ok, payload := payload } entries) :
    payload.length = total entries := by
  rcases tells with ⟨-, order, perm, packed⟩ | signals
  · rw [← total_perm perm]
    exact congrArg List.length packed
  · rcases signals with bad | bad | bad | bad <;> exact absurd rfl bad

theorem Tells.of_lines (packed : payload = entries.flatMap Entry.line) :
    Tells { status := .ok, payload := payload } entries :=
  .inl ⟨rfl, entries, List.Perm.refl _, packed⟩

end

/-- A reply to READDIR has every entry of the directory exactly once, or signals
that entries are missing, if and only if the path is refused or the lines of all
entries fit the buffer of the reply. -/
theorem readdir_tells (ctx : Context) {mounted : Mounted} {payload : Path} {entries : List Entry}
    (holds : DirectoryAt mounted (ipcPath payload) entries) : Tells
    (handleReaddir ctx mounted payload).1 entries ↔ (validatePath ctx (ipcPath payload) = false ∨
        pathIsSafe (ipcPath payload) = false) ∨ Room mounted entries := by
  unfold handleReaddir
  dsimp only
  by_cases refused : validatePath ctx (ipcPath payload) = false ∨
      pathIsSafe (ipcPath payload) = false
  · rw [if_pos refused]
    exact iff_of_true (.inr (.inl Status.noConfusion)) (.inl refused)
  rw [if_neg refused, or_iff_right refused]
  cases holds with
  | @fat v _ found cs resolved directory dirAt =>
    dsimp only
    generalize Fat.resolveFullPath v (ipcPath payload) = result at resolved dirAt ⊢
    obtain ⟨result, v'⟩ := result
    obtain rfl : result = some found := resolved
    dsimp only at dirAt ⊢
    rw [if_pos directory]
    have visited := Fat.dirVisit_shown dirAt
    generalize Fat.dirVisit v' found.slot.cluster = handed at visited ⊢
    obtain ⟨handed, v''⟩ := handed
    obtain rfl : handed = _ := visited
    constructor
    · intro tells
      rw [Room, ← tells.length]
      exact readdirCb_room _ _ (by decide)
    · intro room
      exact .of_lines (readdirCb_fits _ _ (by simpa [Room] using room))
  | @exfat rd v v' _ dir infos resolved directory files =>
    have listed := readdirLoop_spec files maxEntries []
    dsimp only
    rw [exfatReaddir, resolved]
    dsimp only
    rw [if_neg (by rw [directory]; exact Bool.noConfusion)]
    generalize readdirLoop rd maxEntries v' (dirCursor v' dir) [] = result at listed ⊢
    obtain ⟨result, v''⟩ := result
    obtain rfl : result = _ := listed
    dsimp only
    rw [nil_append, map_take]
    constructor
    · intro tells
      obtain ⟨inside, less⟩ := packExfat_room ((infos.map entryOfFile).take maxEntries) []
        (by decide : [].length < bufSize)
      rw [tells.length] at inside less
      refine ⟨Nat.le_of_not_lt fun many => ?_, inside⟩
      exact absurd less (by
        have shorter := total_take many
        rw [length_nil]
        omega)
    · rintro ⟨few, room⟩
      rw [take_of_length_le few]
      exact .of_lines (packExfat_fits _ _ (by simpa using room))

/-! ### Two directories -/

/-- A server of a secondary mount that asks nothing about its clients. -/
def secondary : Context := ⟨true, fun _ => false, fun _ => none⟩

/-- A root directory with two files is listed. -/
theorem readdir_tells_sample :
    Tells (handleReaddir secondary
      (.fat (Fat.rootWith (Fat.filesOf ["NOTES   TXT", "README     "]))) ['/']).1
      [⟨"notes.txt".toList, false, 0⟩, ⟨"readme".toList, false, 0⟩] :=
  have root : DirectoryAt (.fat (Fat.rootWith (Fat.filesOf ["NOTES   TXT", "README     "])))
      (ipcPath ['/']) _ :=
    .fat rfl rfl (Fat.rootWith_dirAt (by decide))
  (readdir_tells secondary root).mpr (.inr (show total _ < bufSize - 1 by decide +kernel))

/-- The record of a large file with a number in its name. -/
def numberedFile (i : Nat) : Slot :=
  ⟨'F'.toNat, Nat.toDigits 10 (100 + i) ++ "ABCDTXT".toList, Fat.attrArchive, 0,
    2 ^ 32 - 1⟩

/-- A volume with clusters of 8 KiB whose root directory has 160 files. -/
def manyFiles : Volume :=
  { Fat.rootWith [] with
    sectorsPerCluster := 16
    slots := fun _ => (List.range 160).map numberedFile ++
      List.replicate 96 Slot.zero }

theorem numberedFiles_length :
    ((List.range 160).map numberedFile ++ List.replicate 96 Slot.zero).length = 16 * 512 / 32 := by
  rw [length_append, length_map, length_range, length_replicate]

theorem manyFiles_dirAt : Fat.DirAt manyFiles 2 [2] :=
  have root : Fat.DirAt (Fat.rootWith []) 2 [2] := Fat.rootWith_dirAt (by decide)
  { sound := { root.sound with coherent := { root.sound.coherent with } }
    chain := root.chain
    first := rfl
    filled := fun _ _ => numberedFiles_length }

theorem handleReaddir_root (v : Volume) :
    (handleReaddir secondary (.fat v) ['/']).1 =
      { status := .ok
        payload := (Fat.dirVisit v v.rootCluster).1.foldl (readdirCb (bufSize - 1)) [] } := by
  unfold handleReaddir
  dsimp only
  have found : Fat.resolveFullPath v (ipcPath ['/']) =
      (some ⟨Fat.madeUp v.rootCluster, v.rootCluster, 0⟩, v) := rfl
  have directory : Fat.Slot.directory (Fat.madeUp v.rootCluster) = true :=
    (by decide : Nat.testBit Fat.attrDirectory 4 = true)
  rw [if_neg (by decide), found]
  dsimp only
  rw [if_pos directory]
  rfl

/-- Three lines of a directory of 160 files are left out and nothing says so. -/
theorem readdir_tells_fails : ¬ ∀ (ctx : Context) (mounted : Mounted) (payload : Path)
      (entries : List Entry), DirectoryAt mounted (ipcPath payload) entries →
        Tells (handleReaddir ctx mounted payload).1 entries := by
  intro claim
  have tells := claim secondary (.fat manyFiles) ['/'] _ (.fat rfl rfl manyFiles_dirAt)
  rw [handleReaddir_root] at tells
  have room := readdirCb_room (Fat.dirVisit manyFiles manyFiles.rootCluster).1 []
    (by decide : [].length < bufSize - 1)
  rw [tells.length] at room
  have lines : total (named ((Fat.shown manyFiles [2]).map Fat.Shown.handed)) = 4160 := by
    decide +kernel
  exact absurd (lines ▸ room) (by decide)

end MainDob.Fs.Readdir
