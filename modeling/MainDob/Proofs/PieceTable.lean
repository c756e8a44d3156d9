/-
Purpose: The text of a piece table is that of a plain byte string under the same
  edits, as long as no 32-bit sum of a call wraps and no snapshot outlives the
  original it reads.
Main exports: window, Fits, document_text
-/
import MainDob.Doc.PieceTable
import MainDob.Lib.Segments
import Mathlib.Data.List.Forall2

namespace MainDob.Proofs.PieceTable

open Lib Lib.Segments Doc.PieceTable
open List Option

/-! ## Windows into the buffers -/

/-- The bytes a piece stands for. -/
def window (base : Source → List UInt8) (piece : Piece) : List UInt8 :=
  ((base piece.src).drop piece.off).take piece.len

/-- A piece that is not empty and lies inside its buffer. -/
def Fits (base : Source → List UInt8) (piece : Piece) : Prop :=
  0 < piece.len ∧ piece.off + piece.len ≤ (base piece.src).length

section Windows

variable {base wider : Source → List UInt8} {piece : Piece} {pc : List Piece}

section

variable (fits : Fits base piece)
include fits

theorem Fits.length_window : (window base piece).length = piece.len := by
  have inside := fits.2
  simp only [window, length_take, length_drop]
  omega

theorem Fits.grow (grows : ∃ more, wider piece.src = base piece.src ++ more) :
    Fits wider piece ∧ window wider piece = window base piece := by
  obtain ⟨more, same⟩ := grows
  have inside := fits.2
  refine ⟨⟨fits.1, ?_⟩, ?_⟩
  · rw [same, length_append]
    omega
  · simp only [window, same]
    rw [drop_append_of_le_length (by omega), take_append_of_le_length (by rw [length_drop]; omega)]

theorem Fits.left {within : Nat} (some : 0 < within) (inside : within < piece.len) :
    Fits base ⟨piece.src, piece.off, within⟩ ∧
    window base ⟨piece.src, piece.off, within⟩ = (window base piece).take within := by
  have bound := fits.2
  refine ⟨⟨some, ?_⟩, ?_⟩
  · change piece.off + within ≤ (base piece.src).length
    omega
  · simp only [window, take_take]
    rw [min_eq_left (le_of_lt inside)]

theorem Fits.right {within : Nat} (inside : within < piece.len) :
    Fits base ⟨piece.src, piece.off + within, piece.len - within⟩ ∧ window base
      ⟨piece.src, piece.off + within, piece.len - within⟩ = (window base piece).drop within := by
  have bound := fits.2
  refine ⟨⟨?_, ?_⟩, ?_⟩
  · change 0 < piece.len - within
    omega
  · change piece.off + within + (piece.len - within) ≤ (base piece.src).length
    omega
  · simp only [window, drop_take, drop_drop]

theorem Fits.extend {earlier data : List UInt8}
    (appended : base piece.src = earlier ++ data) (ends : piece.off + piece.len = earlier.length) :
    Fits base { piece with len := piece.len + data.length } ∧
      window base { piece with len := piece.len + data.length } = window base piece ++ data := by
  refine ⟨⟨lt_of_lt_of_le fits.1 (Nat.le_add_right _ _), ?_⟩, ?_⟩
  · change piece.off + (piece.len + data.length) ≤ (base piece.src).length
    rw [appended, length_append]
    omega
  simp only [window, appended]
  rw [drop_append_of_le_length (by omega), take_append, take_append, length_drop,
    take_of_length_le (by rw [length_drop]; omega), take_of_length_le (by omega), take_of_length_le
      (l := earlier.drop piece.off) (by rw [length_drop]; omega)]
  have nothing : piece.len - (earlier.length - piece.off) = 0 := by omega
  simp [nothing]

end

theorem findFrom_eq (fits : ∀ piece ∈ pc, Fits base piece) {pos acc : Nat} (i : Nat)
    (reached : acc ≤ pos) (small : acc + (pc.flatMap (window base)).length < word) :
    findFrom pos pc i acc = (i + (locate (window base) pc (pos - acc)).1,
      (locate (window base) pc (pos - acc)).2) := by
  induction pc generalizing i acc with
  | nil => rfl
  | cons piece _ ih =>
    have length := (fits piece mem_cons_self).length_window
    rw [flatMap_cons, length_append, length] at small
    have noWrap : (acc + piece.len) % word = acc + piece.len := Nat.mod_eq_of_lt (by omega)
    simp only [findFrom, locate, noWrap, length]
    by_cases here : pos < acc + piece.len
    · rw [if_pos here, if_pos (by omega)]
      rfl
    · rw [if_neg here, if_neg (by omega), ih (fun other member =>
          fits other (mem_cons_of_mem piece member)) (i + 1) (by omega)
          (by omega), Nat.sub_add_eq, add_assoc i 1, add_comm 1]

theorem find_eq (fits : ∀ piece ∈ pc, Fits base piece) (pos : Nat)
    (small : (pc.flatMap (window base)).length < word) :
    find pc pos = locate (window base) pc pos := by
  have found := findFrom_eq fits 0 (Nat.zero_le pos) (by rwa [Nat.zero_add])
  simpa [find] using found

end Windows

/-! ## Cutting the vector at a position -/

/-- The vector up to `within` bytes of the piece `i`. -/
def before (pc : List Piece) (i within : Nat) : List Piece :=
  pc.take i ++ pc[i]?.toList.flatMap fun piece =>
    if within > 0 then [⟨piece.src, piece.off, within⟩] else []

/-- The vector from there on. -/
def after (pc : List Piece) (i within : Nat) : List Piece :=
  (pc[i]?.toList.flatMap fun piece =>
    if within > 0 then
      [⟨piece.src, piece.off + within, piece.len - within⟩]
    else []) ++
  pc.drop (i + if within > 0 then 1 else 0)

section Cuts

variable {base : Source → List UInt8} {pc : List Piece}

section

variable (fits : ∀ piece ∈ pc, Fits base piece)
include fits

theorem locate_piece (pos : Nat) : (∃ piece, pc[(locate (window base) pc pos).1]? = some piece ∧
      Fits base piece ∧ (locate (window base) pc pos).2 < piece.len) ∨
    (locate (window base) pc pos = (pc.length, 0) ∧ (pc.flatMap (window base)).length ≤ pos) := by
  rcases @locate_cases _ _ (window base) pc pos with
    ⟨piece, there, inside, _⟩ | past
  · have fit := fits piece (mem_of_getElem? there)
    rw [fit.length_window] at inside
    exact .inl ⟨piece, there, fit, inside⟩
  · exact .inr past

theorem before_text (pos : Nat) : (∀ piece ∈ before pc (locate (window base) pc pos).1
      (locate (window base) pc pos).2, Fits base piece) ∧ (before pc (locate (window base) pc pos).1
      (locate (window base) pc pos).2).flatMap (window base) =
      (pc.flatMap (window base)).take pos := by
  rw [take_flatMap]
  rcases locate_piece fits pos with ⟨piece, there, fit, inside⟩ | ⟨past, _⟩
  · generalize locate (window base) pc pos = place at there inside ⊢
    by_cases boundary : place.2 = 0
    · refine ⟨fun other member => fits other ?_, ?_⟩
      · simp only [before, boundary, there, toList_some] at member
        exact mem_of_mem_take (by simpa using member)
      · simp [before, boundary, there]
    have left := fit.left (Nat.pos_of_ne_zero boundary) inside
    refine ⟨fun other member => ?_, ?_⟩
    · simp only [before, there, Nat.pos_of_ne_zero boundary, if_true,
        toList_some, flatMap_singleton] at member
      rcases mem_append.mp member with earlier | cut
      · exact fits other (mem_of_mem_take earlier)
      · rw [mem_singleton.mp cut]
        exact left.1
    · simp [before, there, Nat.pos_of_ne_zero boundary, left.2]
  · rw [past]
    refine ⟨fun other member => fits other ?_, ?_⟩
    · simpa [before] using member
    · simp [before]

theorem after_text (pos : Nat) : (∀ piece ∈ after pc (locate (window base) pc pos).1
      (locate (window base) pc pos).2, Fits base piece) ∧ (after pc (locate (window base) pc pos).1
      (locate (window base) pc pos).2).flatMap (window base) =
      (pc.flatMap (window base)).drop pos := by
  rw [drop_flatMap]
  rcases locate_piece fits pos with ⟨piece, there, fit, inside⟩ | ⟨past, _⟩
  · generalize locate (window base) pc pos = place at there inside ⊢
    obtain ⟨bound, isThere⟩ := List.getElem?_eq_some_iff.mp there
    by_cases boundary : place.2 = 0
    · refine ⟨fun other member => fits other ?_, ?_⟩
      · simp only [after, boundary, there, toList_some] at member
        exact mem_of_mem_drop (by simpa using member)
      · simp [after, boundary, there, drop_eq_getElem_cons bound, isThere]
    have right := fit.right inside
    refine ⟨fun other member => ?_, ?_⟩
    · simp only [after, there, Nat.pos_of_ne_zero boundary, if_true,
        toList_some, flatMap_singleton] at member
      rcases mem_append.mp member with cut | later
      · rw [mem_singleton.mp cut]
        exact right.1
      · exact fits other (mem_of_mem_drop later)
    · simp [after, there, Nat.pos_of_ne_zero boundary, right.2]
  · have nothing : after pc pc.length 0 = [] := by simp [after]
    rw [past, nothing]
    refine ⟨fun other member => absurd member not_mem_nil, ?_⟩
    simp [drop_of_length_le (Nat.le_succ pc.length)]

end

theorem length_spliced_le (pc : List Piece) (idx within : Nat) (newp : Piece) :
    (spliced pc idx within newp).length ≤ pc.length + 2 := by
  unfold spliced
  split
  case h_1 => simp
  case h_2 old there =>
      obtain ⟨bound, _⟩ := List.getElem?_eq_some_iff.mp there
      split
      all_goals
        simp only [length_append, length_take, length_cons, length_drop]
        omega

theorem spliced_eq (fits : ∀ piece ∈ pc, Fits base piece) (pos : Nat) (newp : Piece) :
    spliced pc (locate (window base) pc pos).1 (locate (window base) pc pos).2 newp =
    before pc (locate (window base) pc pos).1 (locate (window base) pc pos).2 ++
      newp :: after pc (locate (window base) pc pos).1 (locate (window base) pc pos).2 := by
  rcases locate_piece fits pos with ⟨piece, there, _, _⟩ | ⟨past, _⟩
  · generalize locate (window base) pc pos = place at there ⊢
    by_cases boundary : place.2 = 0
    · simp [spliced, before, after, there, boundary]
    · simp [spliced, before, after, there, boundary, Nat.pos_of_ne_zero boundary]
  · rw [past]
    simp [spliced, before, after]

theorem joined_eq (i0 w0 i1 w1 : Nat) :
    joined pc i0 w0 i1 w1 = before pc i0 w0 ++ after pc i1 w1 := by
  unfold joined before after
  cases pc[i0]? with
  | none | some => cases pc[i1]? <;> simp

end Cuts

/-! ## A table that holds a text -/

/-- A table whose pieces spell out `text`, with memory behind all it counts. -/
structure Holds (pt : Table) (text : List UInt8) : Prop where
  fits : ∀ piece ∈ pt.pc, Fits pt.base piece
  spells : pt.pc.flatMap (window pt.base) = text
  total : pt.total = text.length
  small : text.length < word
  stored : pt.pc.length ≤ pt.cap
  room : pt.room = pt.cap
  narrow : pt.cap * pieceSize < word
  added : pt.add.length ≤ pt.addCap
  addCap : pt.addCap = 0 ∨ ∃ k ≤ 31, pt.addCap = 2 ^ k

namespace Holds

variable {pt : Table} {text : List UInt8}

section

variable (holds : Holds pt text)
include holds

theorem entries : pt.entries = some pt.pc := by
  have stored := holds.stored
  rw [← holds.room] at stored
  exact if_pos stored

theorem find_eq (pos : Nat) : find pt.pc pos = locate (window pt.base) pt.pc pos := by
  refine PieceTable.find_eq holds.fits pos ?_
  rw [holds.spells]
  exact holds.small

theorem add_small : pt.add.length < word := by
  refine lt_of_le_of_lt holds.added ?_
  rcases holds.addCap with zero | ⟨k, small, power⟩
  · rw [zero]
    decide
  · rw [power]
    exact Nat.pow_lt_pow_right (by omega) (by omega)

theorem sum_len : (pt.pc.map (·.len)).sum = text.length := by
  rw [← holds.spells, length_flatMap]
  congr 1
  exact map_congr_left fun piece member => (holds.fits piece member).length_window.symm

theorem byteAt (pos : Nat) :
    byteAt pt pos = some (text[pos]?.elim (-1) fun byte => (byte.toNat : Int)) := by
  unfold Doc.PieceTable.byteAt
  by_cases past : pos ≥ pt.total
  · rw [if_pos past, List.getElem?_eq_none (by rw [← holds.total]; exact past)]
    rfl
  have here : text[pos]? = (text.drop pos)[0]? := by rw [List.getElem?_drop, add_zero]
  have ending := @drop_flatMap _ _ (window pt.base) pt.pc pos
  rw [if_neg past, here]
  simp only [holds.entries, holds.find_eq, bind_eq_bind, bind_some]
  rcases locate_piece holds.fits pos with
    ⟨piece, there, fit, inside⟩ | ⟨_, beyond⟩
  · have bound := fit.2
    obtain ⟨byte, isByte⟩ : ∃ byte, (pt.base piece.src)[piece.off +
        (locate (window pt.base) pt.pc pos).2]? = some byte :=
      ⟨_, List.getElem?_eq_getElem (by omega)⟩
    have first : (text.drop pos)[0]? = some byte := by
      rw [← holds.spells, ending, there, toList_some,
        flatMap_singleton, List.getElem?_append_left, window,
        List.getElem?_drop, add_zero, List.getElem?_take, if_pos inside, List.getElem?_drop, isByte]
      rw [length_drop, fit.length_window]
      omega
    rw [first]
    simp [there, isByte]
  · rw [holds.spells, ← holds.total] at beyond
    exact absurd beyond past

end

theorem copyFrom_eq {pieces : List Piece} (fits : ∀ piece ∈ pieces, Fits pt.base piece)
    {within : Nat} (inside : ∀ piece ∈ pieces.head?, within ≤ piece.len) (n : Nat) :
    copyFrom pt pieces within n =
      some (((pieces.flatMap (window pt.base)).drop within).take n) := by
  induction pieces generalizing within n with
  | nil => simp [copyFrom]
  | cons piece _ ih =>
    have fit := fits piece mem_cons_self
    have bound := fit.2
    have start : within ≤ piece.len := inside piece rfl
    by_cases nothing : n = 0
    · simp [copyFrom, nothing]
    have taken : (if piece.len - within < n then piece.len - within
        else n) = min (piece.len - within) n := by
      split <;> omega
    have more := ih (fun other member => fits other (mem_cons_of_mem piece member))
      (fun other _ => Nat.zero_le other.len) (n - min (piece.len - within) n)
    have bytes : bytesAt (pt.base piece.src) (piece.off + within) (min (piece.len - within) n) =
          some (((window pt.base piece).drop within).take n) := by
      rw [bytesAt, if_pos (by omega), window, drop_take, drop_drop, take_take, min_comm]
    simp only [copyFrom, nothing, if_false, taken, bytes, more,
      bind_eq_bind, bind_some, drop_zero, Option.pure_def, Option.some.injEq]
    rw [flatMap_cons, drop_append_of_le_length
      (by rw [fit.length_window]; exact start), take_append, length_drop, fit.length_window]
    congr 2
    omega

theorem getText (holds : Holds pt text) (pos n cap : Nat) :
    getText pt pos n cap = some ((text.drop pos).take (min n cap)) := by
  unfold Doc.PieceTable.getText
  by_cases past : pos > pt.total
  · rw [if_pos past, drop_of_length_le (by rw [← holds.total]; exact le_of_lt past)]
    simp
  have ending : ((pt.pc.drop (locate (window pt.base) pt.pc pos).1).flatMap
      (window pt.base)).drop (locate (window pt.base) pt.pc pos).2 = text.drop pos ∧
      ∀ piece ∈ (pt.pc.drop (locate (window pt.base) pt.pc pos).1).head?,
        (locate (window pt.base) pt.pc pos).2 ≤ piece.len := by
    have whole := @drop_flatMap _ _ (window pt.base) pt.pc pos
    rw [holds.spells] at whole
    rcases locate_piece holds.fits pos with
      ⟨piece, there, fit, inside⟩ | ⟨place, beyond⟩
    · obtain ⟨bound, isThere⟩ := List.getElem?_eq_some_iff.mp there
      rw [there, toList_some, flatMap_singleton] at whole
      rw [drop_eq_getElem_cons bound, isThere, flatMap_cons, drop_append_of_le_length
          (by rw [fit.length_window]; exact le_of_lt inside), whole]
      refine ⟨rfl, fun head isHead => ?_⟩
      cases isHead
      exact le_of_lt inside
    · rw [holds.spells] at beyond
      rw [place, drop_of_length_le beyond]
      simp
  have clipped : (text.drop pos).take (if (if (pos + n) % word > pt.total
      then pt.total - pos else n) > cap then cap
        else if (pos + n) % word > pt.total then pt.total - pos else n) =
      (text.drop pos).take (min n cap) := by
    have total := holds.total
    have wrapped : (pos + n) % word ≤ pos + n := Nat.mod_le _ _
    rw [take_eq_take_iff, length_drop]
    split <;> split <;> omega
  rw [if_neg past]
  simp only [holds.entries, holds.find_eq, bind_eq_bind, bind_some]
  rw [copyFrom_eq (fun piece member =>
    holds.fits piece (mem_of_mem_drop member)) ending.2, ending.1,
    clipped]

end Holds

/-! ## Getting more memory -/

theorem growTo_done {nc need : Nat} (fuel : Nat) (enough : need ≤ nc) :
    growTo (fuel + 1) nc need = some nc := by
  rw [growTo, if_neg (Nat.not_lt.mpr enough)]

theorem growTo_power {fuel k need : Nat} (start : k ≤ 31) (fuelled : 31 - k < fuel)
    (bound : need ≤ 2 ^ 31) : ∃ j ≤ 31, growTo fuel (2 ^ k) need = some (2 ^ j) ∧ need ≤ 2 ^ j := by
  induction fuel generalizing k with
  | zero => omega
  | succ fuel ih =>
    by_cases enough : 2 ^ k < need
    · have below : k < 31 := by
        by_contra last
        rw [show k = 31 by omega] at enough
        omega
      have doubled : 2 ^ k * 2 % word = 2 ^ (k + 1) := by
        rw [← Nat.pow_succ]
        exact Nat.mod_eq_of_lt (Nat.pow_lt_pow_right (by omega) (by omega))
      simp only [growTo, enough, if_true, doubled]
      exact ih (by omega) (by omega)
    · exact ⟨k, start, growTo_done fuel (by omega), by omega⟩

namespace Holds

variable {pt : Table} {text : List UInt8}

section

variable (holds : Holds pt text)
include holds

theorem appended (data : List UInt8) {cap : Nat}
    (added : pt.add.length + data.length ≤ cap) (power : cap = 0 ∨ ∃ k ≤ 31, cap = 2 ^ k) :
    Holds { pt with add := pt.add ++ data, addCap := cap } text := by
  have grown : ∀ piece ∈ pt.pc,
      Fits ({ pt with add := pt.add ++ data, addCap := cap } : Table).base piece ∧
      window ({ pt with add := pt.add ++ data, addCap := cap } : Table).base
        piece = window pt.base piece := by
    intro piece member
    refine (holds.fits piece member).grow ?_
    cases piece.src with
    | orig => exact ⟨[], (append_nil _).symm⟩
    | add => exact ⟨data, rfl⟩
  refine ⟨fun piece member => (grown piece member).1, ?_, holds.total,
    holds.small, holds.stored, holds.room, holds.narrow, ?_, power⟩
  · rw [← holds.spells]
    exact flatMap_congr fun piece member => (grown piece member).2
  · rwa [length_append]

theorem addAppend {data : List UInt8}
    (bound : pt.add.length + data.length ≤ 2 ^ 31) (allocated : Bool) :
    (addAppend pt data allocated = .noMem ∧ allocated = false) ∨
    ∃ cap, addAppend pt data allocated = .ok { pt with add := pt.add ++ data, addCap := cap } ∧
      Holds { pt with add := pt.add ++ data, addCap := cap } text := by
  have noWrap : (pt.add.length + data.length) % word = pt.add.length + data.length :=
    Nat.mod_eq_of_lt (lt_of_le_of_lt bound (by decide))
  simp only [Doc.PieceTable.addAppend, noWrap]
  by_cases grows : pt.add.length + data.length > pt.addCap
  · have power : ∃ k ≤ 31, (if pt.addCap ≠ 0 then pt.addCap * 2 % word else 256) = 2 ^ k := by
      rcases holds.addCap with zero | ⟨k, small, power⟩
      · exact ⟨8, by omega, by simp [zero]⟩
      have below : k < 31 := by
        by_contra last
        rw [power, show k = 31 by omega] at grows
        omega
      refine ⟨k + 1, below, ?_⟩
      rw [power, if_pos (ne_of_gt (Nat.two_pow_pos k)), ← Nat.pow_succ]
      exact Nat.mod_eq_of_lt (Nat.pow_lt_pow_right (by omega) (by omega))
    obtain ⟨k, small, isPower⟩ := power
    obtain ⟨j, smallToo, ends, enough⟩ :=
      @growTo_power rounds _ _ small (by unfold rounds; omega) bound
    rw [if_pos grows, isPower, ends]
    cases allocated with
    | false => exact .inl ⟨rfl, rfl⟩
    | true =>
      refine .inr ⟨2 ^ j, ?_, holds.appended data enough (.inr ⟨j, smallToo, rfl⟩)⟩
      simp [enough]
  · have fits : pt.add.length + data.length ≤ pt.addCap := by omega
    refine .inr ⟨pt.addCap, ?_, holds.appended data fits holds.addCap⟩
    rw [if_neg grows, if_pos fits]

theorem reserved {cap : Nat} (larger : pt.cap ≤ cap) (narrow : cap * pieceSize < word) :
    Holds { pt with cap := cap, room := cap } text where
  fits := holds.fits
  spells := holds.spells
  total := holds.total
  small := holds.small
  stored := le_trans holds.stored larger
  room := rfl
  narrow := narrow
  added := holds.added
  addCap := holds.addCap

theorem pcReserve {need : Nat} (few : need ≤ pt.cap + 2)
    (fits : need ≤ pt.cap ∨ pt.cap * 2 * pieceSize < word) (allocated : Bool) :
    (pcReserve pt need allocated = .noMem ∧ allocated = false) ∨
    ∃ cap, pcReserve pt need allocated = .ok { pt with cap := cap, room := cap } ∧
      need ≤ cap ∧ Holds { pt with cap := cap, room := cap } text := by
  by_cases enough : need ≤ pt.cap
  · refine .inr ⟨pt.cap, ?_, enough, holds.reserved (le_refl _) holds.narrow⟩
    rw [Doc.PieceTable.pcReserve, if_pos enough]
    have room := holds.room
    cases pt
    cases room
    rfl
  have narrow := fits.resolve_left enough
  -- one doubling is enough, two where the vector had one entry
  obtain ⟨cap, ends, larger, reached, short⟩ : ∃ cap,
      growTo rounds (if pt.cap ≠ 0 then pt.cap * 2 % word else 16) need =
        some cap ∧ pt.cap ≤ cap ∧ need ≤ cap ∧ cap * pieceSize < word := by
    have doubled : pt.cap * 2 % word = pt.cap * 2 :=
      Nat.mod_eq_of_lt (by unfold pieceSize at narrow; omega)
    rcases lt_or_ge pt.cap 2 with tiny | normal
    · have small : need ≤ 3 := by omega
      rcases lt_or_ge pt.cap 1 with none | one
      · refine ⟨16, ?_, by omega, by omega, by decide⟩
        rw [if_neg (by omega)]
        exact growTo_done 32 (by omega)
      have single : pt.cap = 1 := by omega
      rw [if_pos (by omega), doubled, single]
      by_cases three : need = 3
      · refine ⟨4, ?_, by omega, by omega, by decide⟩
        rw [three]
        rfl
      · exact ⟨2, growTo_done 32 (by omega), by omega, by omega,
          by decide⟩
    · refine ⟨pt.cap * 2, ?_, by omega, by omega, narrow⟩
      rw [if_pos (by omega), doubled]
      exact growTo_done 32 (by omega)
  unfold Doc.PieceTable.pcReserve
  rw [if_neg enough, ends]
  cases allocated with
  | false => exact .inl ⟨rfl, rfl⟩
  | true =>
    refine .inr ⟨cap, ?_, reached, holds.reserved larger short⟩
    have exact : cap * pieceSize % word / pieceSize = cap := by
      rw [Nat.mod_eq_of_lt short]
      exact Nat.mul_div_cancel cap (by decide)
    simp [exact]

end

end Holds

/-! ## The edits -/

theorem fastPath_some {pt : Table} {text : List UInt8} (holds : Holds pt text) {pos addOff i : Nat}
    (taken : fastPath pt pos (locate (window pt.base) pt.pc pos).1
      (locate (window pt.base) pt.pc pos).2 addOff = some i) :
    locate (window pt.base) pt.pc pos = (i + 1, 0) ∧
      ∃ piece, pt.pc[i]? = some piece ∧ piece.continues addOff := by
  unfold fastPath at taken
  split at taken
  case isTrue previous =>
      obtain ⟨later, boundary, continues⟩ := previous
      cases taken
      refine ⟨Prod.ext (by simp; omega) boundary, ?_⟩
      simpa [Option.any_eq_true] using continues
  case isFalse =>
      obtain ⟨⟨atEnd, some, continues⟩, same⟩ := ite_none_right_eq_some.mp taken
      cases same
      refine ⟨?_, by simpa [Option.any_eq_true] using continues⟩
      rcases @locate_cases _ _ (window pt.base) pt.pc pos with
        ⟨piece, there, inside, place⟩ | ⟨past, _⟩
      · -- a position inside a piece is before the end of the text
        have whole := congrArg List.length (@drop_flatMap _ _ (window pt.base) pt.pc pos)
        rw [there, holds.spells, toList_some, flatMap_singleton,
          length_drop, length_append, length_drop, ← holds.total] at whole
        omega
      · rw [past]
        exact Prod.ext (by simp; omega) rfl

namespace Holds

variable {pt : Table} {text : List UInt8}

theorem stores (holds : Holds pt text) {pc : List Piece} {edited : List UInt8} {total : Nat}
    (fits : ∀ piece ∈ pc, Fits pt.base piece) (spells : pc.flatMap (window pt.base) = edited)
    (counts : total = edited.length) (small : edited.length < word) (stored : pc.length ≤ pt.cap) :
    Holds { pt with pc := pc, total := total } edited where
  fits := fits
  spells := spells
  total := counts
  small := small
  stored := stored
  room := holds.room
  narrow := holds.narrow
  added := holds.added
  addCap := holds.addCap

/-- The part of `pt_insert` after the bytes `data` are at the end of the append
buffer. -/
theorem insertPiece (holds : Holds pt text) {pos : Nat} {earlier data : List UInt8}
    (added : pt.add = earlier ++ data) (some : 0 < data.length) (inside : pos ≤ text.length)
    (small : text.length + data.length < word)
    (fits : pt.pc.length + 2 ≤ pt.cap ∨ pt.cap * 2 * pieceSize < word) (allocated : Bool) :
    (insertPiece pt pos earlier.length data.length allocated =
        .some (.noMem, pt) ∧ allocated = false) ∨
    ∃ edited, insertPiece pt pos earlier.length data.length allocated = .some (.ok, edited) ∧
      edited.orig = pt.orig ∧ edited.add = pt.add ∧
      Holds edited (text.take pos ++ data ++ text.drop pos) := by
  have length : (text.take pos ++ data ++ text.drop pos).length = text.length + data.length := by
    simp only [length_append, length_take, length_drop]
    omega
  have total : (pt.total + data.length) % word =
      (text.take pos ++ data ++ text.drop pos).length := by
    rw [holds.total, length, Nat.mod_eq_of_lt small]
  have left := before_text holds.fits pos
  have right := after_text holds.fits pos
  rw [holds.spells] at left right
  simp only [Doc.PieceTable.insertPiece, holds.entries, holds.find_eq, bind_eq_bind, bind_some]
  cases path : fastPath pt pos (locate (window pt.base) pt.pc pos).1
      (locate (window pt.base) pt.pc pos).2 earlier.length with
  | some i =>
    obtain ⟨place, piece, there, continues⟩ := fastPath_some holds path
    obtain ⟨bound, isThere⟩ := List.getElem?_eq_some_iff.mp there
    have fit := holds.fits piece (mem_of_getElem? there)
    obtain ⟨isAdd, sameEnd⟩ : piece.src = .add ∧
        (piece.off + piece.len) % word = earlier.length := by
      simpa [Piece.continues] using continues
    have buffer : pt.base piece.src = earlier ++ data := by
      rw [isAdd]
      exact added
    have ends : piece.off + piece.len = earlier.length := by
      rw [← sameEnd, Nat.mod_eq_of_lt]
      have bounded := fit.2
      rw [isAdd] at bounded
      exact lt_of_le_of_lt bounded holds.add_small
    have extended := fit.extend buffer ends
    have parts : pt.pc.take (i + 1) = pt.pc.take i ++ [piece] := by
      rw [take_succ_eq_append_getElem bound, isThere]
    rw [place] at left right
    have leftText : (before pt.pc (i + 1) 0).flatMap (window pt.base) =
        (pt.pc.take i).flatMap (window pt.base) ++ window pt.base piece := by
      simp [before, parts]
    have rightText : after pt.pc (i + 1) 0 = pt.pc.drop (i + 1) := by simp [after]
    refine .inr ⟨_, rfl, rfl, rfl, holds.stores ?_ ?_ total (by rw [length]; exact small) ?_⟩
    · intro other member
      rw [modify_eq_take_cons_drop bound, isThere] at member
      rcases mem_append.mp member with earlierPiece | later
      · exact holds.fits other (mem_of_mem_take earlierPiece)
      rcases mem_cons.mp later with isNew | laterPiece
      · rw [isNew]
        exact extended.1
      · exact holds.fits other (mem_of_mem_drop laterPiece)
    · rw [modify_eq_take_cons_drop bound, isThere, ← left.2, leftText, ← right.2, rightText]
      simp [extended.2]
    · rw [length_modify]
      exact holds.stored
  | none =>
    have newFits : Fits pt.base ⟨.add, earlier.length, data.length⟩ ∧
        window pt.base ⟨.add, earlier.length, data.length⟩ = data := by
      refine ⟨⟨some, ?_⟩, ?_⟩
      · change earlier.length + data.length ≤ pt.add.length
        rw [added]
        exact le_of_eq length_append.symm
      · change (pt.add.drop earlier.length).take data.length = data
        rw [added, drop_left, take_length]
    have spliceEq := spliced_eq holds.fits pos ⟨.add, earlier.length, data.length⟩
    have few := length_spliced_le pt.pc (locate (window pt.base) pt.pc pos).1
      (locate (window pt.base) pt.pc pos).2 ⟨.add, earlier.length, data.length⟩
    have stored := holds.stored
    rcases holds.pcReserve (le_trans few (by omega)) (fits.imp_left (le_trans few)) allocated with
      ⟨fails, refused⟩ | ⟨cap, reserves, enough, larger⟩
    · rw [fails]
      exact .inl ⟨rfl, refused⟩
    rw [reserves]
    simp only [enough, if_true]
    refine .inr ⟨_, rfl, rfl, rfl, larger.stores ?_ ?_ total (by rw [length]; exact small) enough⟩
    · intro other member
      rw [spliceEq] at member
      rcases mem_append.mp member with first | later
      · exact left.1 other first
      rcases mem_cons.mp later with isNew | last
      · rw [isNew]
        exact newFits.1
      · exact right.1 other last
    · rw [spliceEq, flatMap_append, flatMap_cons]
      change _ ++ (window pt.base _ ++ _) = _
      rw [newFits.2, ← append_assoc]
      exact congrArg₂ _ (congrArg (· ++ data) left.2) right.2

end Holds

/-- What `pt_insert` needs: the append buffer and the text stay below what their
doubling and their 32-bit count reach, and so does the vector, where it has to
grow. -/
def InsertFits (pt : Table) (n : Nat) : Prop :=
  pt.add.length + n ≤ 2 ^ 31 ∧ pt.total + n < word ∧
    (pt.pc.length + 2 ≤ pt.cap ∨ pt.cap * 2 * pieceSize < word)

instance (pt : Table) (n : Nat) : Decidable (InsertFits pt n) :=
  inferInstanceAs (Decidable (_ ∧ _ ∧ (_ ∨ _)))

theorem Holds.insert {pt : Table} {text : List UInt8} (holds : Holds pt text) {pos : Nat}
    {data : List UInt8} (inside : pos ≤ text.length)
    (fits : data.length = 0 ∨ InsertFits pt data.length) (grown reserved : Bool) :
    ∃ result edited, insert pt pos data grown reserved = some (result, edited) ∧
      edited.orig = pt.orig ∧ (∃ more, edited.add = pt.add ++ more) ∧
      (result = .ok ∧ Holds edited (text.take pos ++ data ++ text.drop pos) ∨
        result = .noMem ∧ (grown && reserved) = false ∧ Holds edited text) := by
  have within : ¬ pos > pt.total := by
    rw [holds.total]
    omega
  unfold Doc.PieceTable.insert
  rw [if_neg within]
  by_cases nothing : data.length = 0
  · rw [if_pos nothing]
    have empty := eq_nil_of_length_eq_zero nothing
    refine ⟨.ok, pt, rfl, rfl, ⟨[], by simp⟩, .inl ⟨rfl, ?_⟩⟩
    simpa [empty] using holds
  obtain ⟨buffer, small, vector⟩ := fits.resolve_left nothing
  rw [if_neg nothing]
  rcases holds.addAppend buffer grown with
    ⟨fails, refused⟩ | ⟨cap, appends, larger⟩
  · rw [fails]
    exact ⟨.noMem, pt, rfl, rfl, ⟨[], by simp⟩, .inr ⟨rfl, by simp [refused], holds⟩⟩
  rw [appends]
  rw [holds.total] at small
  rcases @Holds.insertPiece _ _ larger pos pt.add data rfl
    (Nat.pos_of_ne_zero nothing) inside small vector reserved with
    ⟨fails, refused⟩ | ⟨edited, succeeds, sameOrig, sameAdd, spells⟩
  · exact ⟨.noMem, _, fails, rfl, ⟨data, rfl⟩, .inr ⟨rfl, by simp [refused], larger⟩⟩
  · exact ⟨.ok, edited, succeeds, sameOrig, ⟨data, sameAdd⟩, .inl ⟨rfl, spells⟩⟩

theorem length_before_le (pc : List Piece) (i within : Nat) :
    (before pc i within).length ≤ min i pc.length + 1 := by
  unfold before
  cases pc[i]? with
  | none => simp
  | some =>
    split <;> simp

theorem length_after_le (pc : List Piece) (i within : Nat) :
    (after pc i within).length ≤ pc.length - i := by
  unfold after
  rw [length_append, length_drop]
  cases there : pc[i]? with
  | none =>
    simp only [toList_none, flatMap_nil, length_nil]
    omega
  | some =>
    obtain ⟨bound, _⟩ := List.getElem?_eq_some_iff.mp there
    simp only [toList_some, flatMap_singleton]
    split
    · simp only [length_singleton]
      omega
    · simp

theorem length_joined_le (pc : List Piece) {i0 i1 : Nat} (ordered : i0 ≤ i1)
    (w0 w1 : Nat) : (joined pc i0 w0 i1 w1).length ≤ pc.length + 1 := by
  have left := length_before_le pc i0 w0
  have right := length_after_le pc i1 w1
  rw [joined_eq, length_append]
  omega

/-- What `pt_delete` needs: the end of the range and the size of the new vector
are below what 32 bits count. -/
def DeleteFits (pt : Table) (pos n : Nat) : Prop :=
  pos + n < word ∧ (pt.pc.length + 2) * pieceSize < word

instance (pt : Table) (pos n : Nat) : Decidable (DeleteFits pt pos n) :=
  inferInstanceAs (Decidable (_ ∧ _))

section

variable {pt : Table} {text : List UInt8} (holds : Holds pt text)
include holds

theorem Holds.delete {pos n : Nat}
    (inside : pos ≤ text.length) (fits : n = 0 ∨ DeleteFits pt pos n) (allocated : Bool) :
    ∃ result edited, delete pt pos n allocated = some (result, edited) ∧ edited.orig = pt.orig ∧
      edited.add = pt.add ∧ (result = .ok ∧ Holds edited (text.take pos ++ text.drop (pos + n)) ∨
        result = .noMem ∧ allocated = false ∧ Holds edited text) := by
  have within : ¬ pos > pt.total := by
    rw [holds.total]
    omega
  unfold Doc.PieceTable.delete
  rw [if_neg within]
  by_cases nothing : n = 0
  · rw [if_pos nothing]
    refine ⟨.ok, pt, rfl, rfl, rfl, .inl ⟨rfl, ?_⟩⟩
    simpa [nothing] using holds
  obtain ⟨narrow, vector⟩ := fits.resolve_left nothing
  have total := holds.total
  have small := holds.small
  have noWrap : (pos + n) % word = pos + n := Nat.mod_eq_of_lt narrow
  rw [if_neg nothing, noWrap]
  obtain ⟨cut, isCut, ending, shorter⟩ :
      ∃ cut, (if pos + n > pt.total then pt.total - pos else n) = cut ∧
      text.drop (pos + cut) = text.drop (pos + n) ∧ pos + cut ≤ text.length := by
    by_cases clipped : pos + n > pt.total
    · refine ⟨pt.total - pos, if_pos clipped, ?_, by omega⟩
      rw [drop_of_length_le (by omega), drop_of_length_le (by omega)]
    · exact ⟨n, if_neg clipped, rfl, by omega⟩
  have counted : (pt.total + word - cut) % word = text.length - cut := by
    rw [total, show text.length + word - cut = text.length - cut + word by omega, Nat.add_mod_right]
    exact Nat.mod_eq_of_lt (by omega)
  have length : (text.take pos ++ text.drop (pos + n)).length = text.length - cut := by
    rw [← ending, length_append, length_take, length_drop]
    omega
  have exactRoom : (pt.pc.length + 2) * pieceSize % word / pieceSize = pt.pc.length + 2 := by
    rw [Nat.mod_eq_of_lt vector]
    exact Nat.mul_div_cancel _ (by decide)
  have left := before_text holds.fits pos
  have right := after_text holds.fits (pos + cut)
  rw [holds.spells] at left right
  have short := length_joined_le pt.pc (@locate_mono _ _ (window pt.base) pt.pc _ _
      (Nat.le_add_right pos cut)) (locate (window pt.base) pt.pc pos).2
    (locate (window pt.base) pt.pc (pos + cut)).2
  simp only [isCut, holds.entries, holds.find_eq, bind_eq_bind, bind_some, exactRoom, counted,
    Nat.mod_eq_of_lt (lt_of_le_of_lt shorter small)]
  cases allocated with
  | false => exact ⟨.noMem, pt, rfl, rfl, rfl, .inr ⟨rfl, rfl, holds⟩⟩
  | true =>
    rw [if_pos rfl, if_pos (by omega)]
    refine ⟨.ok, _, rfl, rfl, rfl, .inl ⟨rfl, ?_⟩⟩
    rw [joined_eq] at short ⊢
    exact {
      fits := fun piece member => (mem_append.mp member).elim (left.1 piece) (right.1 piece)
      spells := by
        rw [flatMap_append, ← ending]
        exact congrArg₂ _ left.2 right.2
      total := length.symm
      small := by
        omega
      stored := Nat.le_succ_of_le short
      room := rfl
      narrow := vector
      added := holds.added
      addCap := holds.addCap }

theorem Holds.cleared (orig : List UInt8) :
    Holds { pt with orig := orig, pc := [], total := 0 } [] where
  fits := fun piece member => absurd member not_mem_nil
  spells := rfl
  total := rfl
  small := by decide
  stored := Nat.zero_le _
  room := holds.room
  narrow := holds.narrow
  added := holds.added
  addCap := holds.addCap

theorem Holds.setOriginal (data : Block) (copied reserved : Bool) :
    ∃ result edited, setOriginal pt data.val copied reserved = some (result, edited) ∧
      edited.add = pt.add ∧ (result = .ok ∧ Holds edited data.val ∨
        result = .noMem ∧ (copied && reserved) = false ∧ Holds edited []) := by
  unfold Doc.PieceTable.setOriginal
  by_cases nothing : data.val.length = 0
  · refine ⟨.ok, _, if_pos nothing, rfl, .inl ⟨rfl, ?_⟩⟩
    rw [eq_nil_of_length_eq_zero nothing]
    exact holds.cleared []
  rw [if_neg nothing]
  cases copied with
  | false => exact ⟨.noMem, _, rfl, rfl, .inr ⟨rfl, rfl, holds.cleared []⟩⟩
  | true =>
    have cleared := holds.cleared data.val
    rcases @Holds.pcReserve _ _ cleared 1 (Nat.le_add_left 1 (pt.cap + 1)) (by
        rcases Nat.eq_zero_or_pos pt.cap with zero | some
        · exact .inr (by simp [zero, word])
        · exact .inl some) reserved with
      ⟨fails, refused⟩ | ⟨cap, reserves, enough, larger⟩
    · simp only [if_true, fails]
      exact ⟨.noMem, _, rfl, rfl, .inr ⟨rfl, by simp [refused], cleared⟩⟩
    simp only [if_true, reserves, enough]
    refine ⟨.ok, _, rfl, rfl, .inl ⟨rfl, larger.stores ?_ ?_ rfl data.property enough⟩⟩
    · intro piece member
      rw [mem_singleton.mp member]
      refine ⟨Nat.pos_of_ne_zero nothing, ?_⟩
      simp [Table.base]
    · simp [window, Table.base]

end

/-! ## Snapshots -/

/-- The two buffers. -/
def buffers (orig add : List UInt8) : Source → List UInt8
  | .orig => orig
  | .add => add

theorem base_eq (pt : Table) : pt.base = buffers pt.orig pt.add := by
  funext src
  cases src <;> rfl

/-- A snapshot spells out `text` over the original it was taken with. -/
structure Kept (add : List UInt8) (snap : Snapshot) (text : List UInt8) :
    Prop where
  fits : ∀ piece ∈ snap.pc, Fits (buffers snap.orig add) piece
  spells : snap.pc.flatMap (window (buffers snap.orig add)) = text
  total : snap.total = text.length
  small : text.length < word
  narrow : snap.pc.length * pieceSize < word

theorem Kept.grow {add : List UInt8} {snap : Snapshot} {text : List UInt8}
    (kept : Kept add snap text) (more : List UInt8) : Kept (add ++ more) snap text := by
  have grown : ∀ piece ∈ snap.pc, Fits (buffers snap.orig (add ++ more)) piece ∧
      window (buffers snap.orig (add ++ more)) piece = window (buffers snap.orig add) piece := by
    intro piece member
    refine (kept.fits piece member).grow ?_
    cases piece.src with
    | orig => exact ⟨[], (append_nil _).symm⟩
    | add => exact ⟨more, rfl⟩
  refine ⟨fun piece member => (grown piece member).1, ?_, kept.total, kept.small, kept.narrow⟩
  rw [← kept.spells]
  exact flatMap_congr fun piece member => (grown piece member).2

theorem Holds.kept {pt : Table} {text : List UInt8} (holds : Holds pt text) :
    Kept pt.add ⟨pt.pc, pt.total, pt.orig⟩ text := by
  refine ⟨?_, ?_, holds.total, holds.small, ?_⟩
  · rw [← base_eq]
    exact holds.fits
  · rw [← base_eq]
    exact holds.spells
  · exact lt_of_le_of_lt (Nat.mul_le_mul_right _ holds.stored) holds.narrow

/-- The pieces of the original that a snapshot has read the same in the original
there is now. -/
def SameOriginal (pt : Table) (snap : Snapshot) : Prop :=
  ∀ piece ∈ snap.pc, piece.src = .orig →
    (pt.orig.drop piece.off).take piece.len = (snap.orig.drop piece.off).take piece.len

instance (pt : Table) (snap : Snapshot) : Decidable (SameOriginal pt snap) :=
  inferInstanceAs (Decidable (∀ piece ∈ snap.pc, _ → _))

theorem Holds.restore {pt : Table} {now text : List UInt8} {snap : Snapshot} (holds : Holds pt now)
    (kept : Kept pt.add snap text) (same : SameOriginal pt snap) {allocated : Bool}
    (memory : allocated ∨ snap.pc = []) : Holds (restore pt snap allocated) text := by
  have read : ∀ piece ∈ snap.pc, Fits pt.base piece ∧
      window pt.base piece = window (buffers snap.orig pt.add) piece := by
    intro piece member
    have fit := kept.fits piece member
    have length := fit.length_window
    obtain ⟨some, bound⟩ := fit
    cases which : piece.src with
    | add =>
      rw [which] at bound
      refine ⟨⟨some, ?_⟩, ?_⟩
      · rw [which]
        exact bound
      · simp only [window, which]
        rfl
    | orig =>
      have equal : window pt.base piece = window (buffers snap.orig pt.add) piece := by
        simp only [window, which]
        exact same piece member which
      refine ⟨⟨some, ?_⟩, equal⟩
      rw [← equal] at length
      simp only [window, length_take, length_drop] at length
      omega
  have room : (if allocated then
      snap.pc.length * pieceSize % word / pieceSize else 0) = snap.pc.length := by
    rw [Nat.mod_eq_of_lt kept.narrow, Nat.mul_div_cancel _ (by decide)]
    rcases memory with yes | empty
    · exact if_pos yes
    · simp [empty]
  exact {
    fits := fun piece member => (read piece member).1
    spells := by
      rw [← kept.spells]
      exact flatMap_congr fun piece member => (read piece member).2
    total := kept.total
    small := kept.small
    stored := le_refl _
    room := room
    narrow := kept.narrow
    added := holds.added
    addCap := holds.addCap }

/-! ## Whole sessions -/

/-- A plain byte string, and those its user has put aside. -/
structure Plain where
  text : List UInt8
  saved : List (List UInt8)
deriving DecidableEq

namespace Plain

/-- The same call on a plain byte string, when the table's call has come back
with `result`.  A deletion takes what there is. -/
def call (plain : Plain) (result : Result) : Call → Plain
  | .setOriginal data _ _ =>
    { plain with text := if result = .ok then data.val else [] }
  | .insert pos data _ _ =>
    if result = .ok then
      { plain with text := plain.text.take pos.toNat ++ data.val ++
          plain.text.drop pos.toNat }
    else plain
  | .delete pos n _ =>
    if result = .ok then
      { plain with text := plain.text.take pos.toNat ++
          plain.text.drop (pos.toNat + n.toNat) }
    else plain
  | .snapshot _ =>
    if result = .ok then { plain with saved := plain.saved ++ [plain.text] }
    else plain
  | .restore index _ =>
    { plain with text := plain.saved[index]?.getD plain.text }

/-- An edit at a position the text does not have. -/
def Refuses (plain : Plain) : Call → Prop
  | .insert pos _ _ _ => plain.text.length < pos.toNat
  | .delete pos _ _ => plain.text.length < pos.toNat
  | _ => False

end Plain

/-- The allocator has what the call may ask for. -/
def served : Call → Bool
  | .setOriginal _ copied reserved => copied && reserved
  | .insert _ _ grown reserved => grown && reserved
  | .delete _ _ allocated | .snapshot allocated | .restore _ allocated =>
    allocated

/-- No sum of the call wraps; a snapshot is restored where its original is still
there, and with memory for it. -/
def Guard (s : Session) : Call → Prop
  | .setOriginal _ _ _ => True
  | .insert pos data _ _ =>
    s.table.total < pos.toNat ∨ data.val.length = 0 ∨ InsertFits s.table data.val.length
  | .delete pos n _ =>
    s.table.total < pos.toNat ∨ n.toNat = 0 ∨ DeleteFits s.table pos.toNat n.toNat
  | .snapshot _ => True
  | .restore index allocated =>
    ∃ snap, s.snapshots[index]? = some snap ∧ SameOriginal s.table snap ∧ (allocated ∨ snap.pc = [])

/-- The table holds the plain text, and each snapshot the one put aside with
it. -/
structure Agrees (s : Session) (plain : Plain) : Prop where
  holds : Holds s.table plain.text
  kept : List.Forall₂ (Kept s.table.add) s.snapshots plain.saved

namespace Agrees

variable {s : Session} {plain : Plain}

theorem edit (agrees : Agrees s plain) {table : Table} {text : List UInt8}
    (holds : Holds table text) (grows : ∃ more, table.add = s.table.add ++ more) :
    Agrees { s with table := table } { plain with text := text } := by
  obtain ⟨more, same⟩ := grows
  refine ⟨holds, agrees.kept.imp fun snap saved kept => ?_⟩
  rw [same]
  exact kept.grow more

/-- A call within the guard comes back, and does what it does to a plain byte
string. -/
theorem call (agrees : Agrees s plain) {call : Call} (guard : Guard s call) :
    ∃ result after, exec s call = some (result, after) ∧ Agrees after (plain.call result call) ∧
      (result = .range ↔ plain.Refuses call) ∧ (served call → result ≠ .noMem) := by
  have total := agrees.holds.total
  cases call with
  | setOriginal data copied reserved =>
    obtain ⟨result, table, done, sameAdd, outcome⟩ := agrees.holds.setOriginal data copied reserved
    refine ⟨result, { s with table := table }, by simp [exec, done], ?_⟩
    have grows : ∃ more, table.add = s.table.add ++ more := ⟨[], by simp [sameAdd]⟩
    rcases outcome with ⟨rfl, holds⟩ | ⟨rfl, refused, holds⟩
    · exact ⟨agrees.edit holds grows, by simp [Plain.Refuses], by simp⟩
    · exact ⟨agrees.edit holds grows, by simp [Plain.Refuses],
        by simp [served, refused]⟩
  | insert pos _ grown reserved =>
    by_cases past : plain.text.length < pos.toNat
    · refine ⟨.range, s, ?_, agrees, by simp [Plain.Refuses, past], by simp⟩
      simp [exec, Doc.PieceTable.insert, total, past]
    have fits := guard.resolve_left (by omega)
    obtain ⟨result, table, done, _, grows, outcome⟩ :=
      agrees.holds.insert (Nat.not_lt.mp past) fits grown reserved
    refine ⟨result, { s with table := table }, by simp [exec, done], ?_⟩
    rcases outcome with ⟨rfl, holds⟩ | ⟨rfl, refused, holds⟩
    · exact ⟨agrees.edit holds grows, by simp [Plain.Refuses, past],
        by simp⟩
    · exact ⟨agrees.edit holds grows, by simp [Plain.Refuses, past],
        by simp [served, refused]⟩
  | delete pos _ allocated =>
    by_cases past : plain.text.length < pos.toNat
    · refine ⟨.range, s, ?_, agrees, by simp [Plain.Refuses, past], by simp⟩
      simp [exec, Doc.PieceTable.delete, total, past]
    have fits := guard.resolve_left (by omega)
    obtain ⟨result, table, done, _, sameAdd, outcome⟩ :=
      agrees.holds.delete (Nat.not_lt.mp past) fits allocated
    refine ⟨result, { s with table := table }, by simp [exec, done], ?_⟩
    have grows : ∃ more, table.add = s.table.add ++ more := ⟨[], by simp [sameAdd]⟩
    rcases outcome with ⟨rfl, holds⟩ | ⟨rfl, refused, holds⟩
    · exact ⟨agrees.edit holds grows, by simp [Plain.Refuses, past],
        by simp⟩
    · exact ⟨agrees.edit holds grows, by simp [Plain.Refuses, past],
        by simp [served, refused]⟩
  | snapshot allocated =>
    by_cases taken : s.table.pc.length = 0 ∨ allocated
    · refine ⟨.ok, { s with snapshots := s.snapshots ++
        [⟨s.table.pc, s.table.total, s.table.orig⟩] }, ?_,
        ⟨agrees.holds, ?_⟩, by simp [Plain.Refuses], by simp⟩
      · simp only [exec, snapshot, agrees.holds.entries, bind_eq_bind, bind_some, if_pos taken]
        rfl
      · exact rel_append agrees.kept (.cons agrees.holds.kept .nil)
    · refine ⟨.noMem, s, ?_, agrees, by simp [Plain.Refuses], ?_⟩
      · simp only [exec, snapshot, agrees.holds.entries, bind_eq_bind, bind_some, if_neg taken]
        simp
      · intro ok
        exact absurd (.inr ok) taken
  | restore index allocated =>
    obtain ⟨snap, taken, same, memory⟩ := guard
    obtain ⟨saved, aside, kept⟩ : ∃ saved, plain.saved[index]? = some saved ∧
        Kept s.table.add snap saved := by
      obtain ⟨sameLength, each⟩ := List.forall₂_iff_get.mp agrees.kept
      obtain ⟨bound, isThere⟩ := List.getElem?_eq_some_iff.mp taken
      have boundToo : index < plain.saved.length := sameLength ▸ bound
      refine ⟨_, List.getElem?_eq_getElem boundToo, ?_⟩
      rw [← isThere]
      exact each index bound boundToo
    refine ⟨.ok, { s with table := restore s.table snap allocated }, ?_, ?_,
      by simp [Plain.Refuses], by simp⟩
    · simp [exec, taken]
    · have edited := agrees.edit (agrees.holds.restore kept same memory) ⟨[], by simp [restore]⟩
      simpa [Plain.call, aside] using edited

end Agrees

/-- The table and the plain byte string side by side. -/
def advance (s : Session × Plain) (call : Call) : Option (Session × Plain) :=
  (exec s.1 call).map fun (result, after) => (after, s.2.call result call)

def step (s : Session × Plain) (call : Call) (s' : Session × Plain) : Prop :=
  advance s call = some s'

/-- A document that is just opened. -/
def opened : Session × Plain := (initial, ⟨[], []⟩)

theorem opened_agrees : Agrees opened.1 opened.2 where
  holds :=
    { fits := fun piece member => absurd member not_mem_nil
      spells := rfl
      total := rfl
      small := by decide
      stored := le_refl 0
      room := rfl
      narrow := by decide
      added := le_refl 0
      addCap := .inl rfl }
  kept := .nil

theorem agrees_of_run {calls : List Call} {s : Session × Plain}
    (run : Steps (Guarded step fun s call => Guard s.1 call) opened calls s) : Agrees s.1 s.2 := by
  refine @Steps.invariant _ _ _ (fun s => Agrees s.1 s.2) ?_ _ _ _ run opened_agrees
  rintro _ call _ agrees ⟨taken, guard⟩
  obtain ⟨_, _, done, next, _⟩ := agrees.call guard
  simp only [step, advance, done, map_some, Option.some.injEq] at taken
  rw [← taken]
  exact next

/-- What the user of a table sees of it is `text`, and the table is in order. -/
structure Reads (pt : Table) (text : List UInt8) : Prop where
  byteAt : ∀ pos : UInt32, byteAt pt pos.toNat =
    some (text[pos.toNat]?.elim (-1) fun byte => (byte.toNat : Int))
  getText : ∀ pos n cap : UInt32, getText pt pos.toNat n.toNat cap.toNat =
    some ((text.drop pos.toNat).take (min n.toNat cap.toNat))
  total : pt.total = text.length
  sum : pt.total = (pt.pc.map (·.len)).sum
  inside : ∀ piece ∈ pt.pc, Fits pt.base piece

theorem Holds.reads {pt : Table} {text : List UInt8} (holds : Holds pt text) : Reads pt text where
  byteAt := fun pos => holds.byteAt pos.toNat
  getText := fun pos n cap => holds.getText pos.toNat n.toNat cap.toNat
  total := holds.total
  sum := holds.total.trans holds.sum_len.symm
  inside := holds.fits

/-- In every run of guarded calls the table reads as the plain byte string under
the same calls; and the next guarded call comes back, refused exactly where its
position is past the end, and short of memory only where the allocator is. -/
theorem document_text (calls : List Call) (s : Session × Plain)
    (run : Steps (Guarded step fun s call => Guard s.1 call) opened calls s) :
    Reads s.1.table s.2.text ∧ ∀ call, Guard s.1 call → ∃ result after, exec s.1 call = some
    (result, after) ∧ (result = .range ↔ s.2.Refuses call) ∧ (served call → result ≠ .noMem) := by
  have agrees := agrees_of_run run
  refine ⟨agrees.holds.reads, fun call guard => ?_⟩
  obtain ⟨result, after, done, _, refused, memory⟩ := agrees.call guard
  exact ⟨result, after, done, refused, memory⟩

instance (s : Session) : DecidablePred (Guard s)
  | .setOriginal _ _ _ | .snapshot _ => .isTrue trivial
  | .insert pos data _ _ => inferInstanceAs (Decidable (_ < pos.toNat ∨
      data.val.length = 0 ∨ InsertFits s.table data.val.length))
  | .delete pos n _ => inferInstanceAs (Decidable (_ < pos.toNat ∨ n.toNat = 0 ∨
      DeleteFits s.table pos.toNat n.toNat))
  | .restore index allocated =>
    match taken : s.snapshots[index]? with
    | none => .isFalse (by simp [Guard, taken])
    | some snap => decidable_of_iff
        (SameOriginal s.table snap ∧ (allocated ∨ snap.pc = []))
        (by simp [Guard, taken])

/-- A text is opened and typed into twice at the same place, its end is deleted
with a length past the end, and the state before that is restored. -/
def typed : List Call :=
  [.setOriginal ⟨[97, 98, 99, 100], by decide⟩ true true,
    .insert 2 ⟨[120], by decide⟩ true true, .insert 3 ⟨[121], by decide⟩ true true,
    .snapshot true, .delete 3 4000000000 true, .restore 0 true]

/-- The text is the one with both bytes typed in. -/
theorem document_text_typed :
    ∃ s, Steps (Guarded step fun s call => Guard s.1 call) opened typed s ∧
      s.1.table.pc.length = 3 ∧ Reads s.1.table [97, 98, 120, 121, 99, 100] := by
  have followed : (followRun (checked advance fun s call => decide (Guard s.1 call))
      opened typed).map (fun s => (s.1.table.pc.length, s.2.text)) =
      some (3, [97, 98, 120, 121, 99, 100]) := by
    decide +kernel
  obtain ⟨s, run, seen⟩ := Steps.guarded_of_followed of_decide_eq_true followed
  simp only [Prod.mk.injEq] at seen
  have reads := (document_text typed s run).1
  rw [seen.2] at reads
  exact ⟨s, run, seen.1, reads⟩

/-- The end of a text of six bytes is deleted with a length whose sum with the
position wraps. -/
def wrapped : List Call :=
  [.setOriginal ⟨[97, 98, 99, 100, 101, 102], by decide⟩ true true, .delete 4 4294967294 true]

/-- A snapshot is restored after another text was opened. -/
def outlived : List Call :=
  [.setOriginal ⟨[97, 98, 99], by decide⟩ true true, .snapshot true,
    .setOriginal ⟨[120], by decide⟩ true true, .restore 0 true]

/-- The deletion makes the text longer; the snapshot reads outside the new
text. -/
theorem document_text_wrapped : (∃ s, Steps step opened wrapped s ∧ s.2.text = [97, 98, 99, 100] ∧
      getText s.1.table 0 100 100 = some [97, 98, 99, 100, 99, 100, 101, 102] ∧
      ¬ Reads s.1.table s.2.text) ∧ ∃ s, Steps step opened outlived s ∧
    s.2.text = [97, 98, 99] ∧ getText s.1.table 0 100 100 = none ∧ ¬ Reads s.1.table s.2.text := by
  have first : (followRun advance opened wrapped).map
      (fun s => (s.2.text, s.1.table.total, getText s.1.table 0 100 100)) =
      some ([97, 98, 99, 100], 8, some [97, 98, 99, 100, 99, 100, 101, 102]) := by
    decide +kernel
  have second : (followRun advance opened outlived).map
      (fun s => (s.2.text, getText s.1.table 0 100 100)) = some ([97, 98, 99], none) := by
    decide +kernel
  obtain ⟨s, run, seen⟩ := Steps.of_followed first
  obtain ⟨t, run', seen'⟩ := Steps.of_followed second
  simp only [Prod.mk.injEq] at seen seen'
  refine ⟨⟨s, run, seen.1, seen.2.2, fun reads => ?_⟩,
    t, run', seen'.1, seen'.2, fun reads => ?_⟩
  · have total := reads.total
    rw [seen.1, seen.2.1] at total
    cases total
  · have text := reads.getText 0 100 100
    rw [show getText t.1.table (0 : UInt32).toNat (100 : UInt32).toNat
      (100 : UInt32).toNat = none from seen'.2] at text
    cases text

end MainDob.Proofs.PieceTable
