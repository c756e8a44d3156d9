/-
Purpose: A range of addresses tiled by blocks, each of them a header of a fixed width and a
  payload behind it.
Main exports: Chunk, Tiled, Tiled.append_iff
-/
import Mathlib.Data.List.Nodup

namespace MainDob.Lib

open List

/-- A header at an address with a payload of some size. -/
structure Chunk where
  addr : Nat
  size : Nat
  used : Bool
deriving DecidableEq, Repr

/-- The blocks follow each other from `start` to `stop`. -/
def Tiled (width : Nat) : Nat → List Chunk → Nat → Prop
  | start, [], stop => start = stop
  | start, block :: rest, stop =>
    block.addr = start ∧ Tiled width (start + width + block.size) rest stop

namespace Tiled

variable {width start stop : Nat} {before after blocks : List Chunk} {block : Chunk}

theorem append_iff : ∀ {before : List Chunk} {start : Nat},
    Tiled width start (before ++ after) stop ↔
      ∃ middle, Tiled width start before middle ∧ Tiled width middle after stop
  | [], start => by
    constructor
    · exact fun tiled => ⟨start, rfl, tiled⟩
    · rintro ⟨_, rfl, tiled⟩
      exact tiled
  | block :: before, start => by
    constructor
    · rintro ⟨here, tiled⟩
      obtain ⟨middle, first, second⟩ := append_iff.mp tiled
      exact ⟨middle, ⟨here, first⟩, second⟩
    · rintro ⟨middle, ⟨here, first⟩, second⟩
      exact ⟨here, append_iff.mpr ⟨middle, first, second⟩⟩

theorem le : ∀ {blocks : List Chunk} {start : Nat}, Tiled width start blocks stop → start ≤ stop
  | [], _, tiled => Nat.le_of_eq tiled
  | block :: rest, start, tiled => by
    have later := le tiled.2
    omega

theorem bounds : ∀ {blocks : List Chunk} {start : Nat},
    Tiled width start blocks stop → block ∈ blocks →
    start ≤ block.addr ∧ block.addr + width + block.size ≤ stop
  | [], _, _, member => by cases member
  | first :: rest, start, tiled, member => by
    obtain ⟨here, tiled⟩ := tiled
    rcases mem_cons.mp member with rfl | later
    · have behind := le tiled
      omega
    · obtain ⟨low, high⟩ := bounds tiled later
      omega

theorem around (tiled : Tiled width start (before ++ block :: after) stop) :
    Tiled width start before block.addr ∧
      Tiled width (block.addr + width + block.size) after stop := by
  obtain ⟨_, first, here, second⟩ := append_iff.mp tiled
  subst here
  exact ⟨first, second⟩

theorem apart (tiled : Tiled width start blocks stop) {a b : Chunk}
    (first : a ∈ blocks) (second : b ∈ blocks) :
    a = b ∨ a.addr + width + a.size ≤ b.addr ∨ b.addr + width + b.size ≤ a.addr := by
  obtain ⟨_, _, rfl⟩ := append_of_mem first
  obtain ⟨left, right⟩ := around tiled
  rcases mem_append.mp second with member | member
  · exact Or.inr (Or.inr (bounds left member).2)
  rcases mem_cons.mp member with rfl | member
  · exact Or.inl rfl
  · exact Or.inr (Or.inl (bounds right member).1)

theorem unique (tiled : Tiled width start blocks stop) (header : 0 < width) {a b : Chunk}
    (first : a ∈ blocks) (second : b ∈ blocks) (same : a.addr = b.addr) : a = b := by
  rcases tiled.apart first second with equal | below | above
  · exact equal
  · omega
  · omega

theorem ordered : ∀ {blocks : List Chunk} {start : Nat}, Tiled width start blocks stop →
    blocks.Pairwise (fun a b => a.addr + width + a.size ≤ b.addr)
  | [], _, _ => List.Pairwise.nil
  | block :: rest, start, tiled => by
    obtain ⟨here, tiled⟩ := tiled
    refine pairwise_cons.mpr ⟨?_, ordered tiled⟩
    intro other member
    have low := (bounds tiled member).1
    omega

theorem addrs_nodup (header : 0 < width) : ∀ {blocks : List Chunk} {start : Nat},
    Tiled width start blocks stop → (blocks.map Chunk.addr).Nodup
  | [], _, _ => nodup_nil
  | block :: rest, start, tiled => by
    obtain ⟨here, tiled⟩ := tiled
    refine nodup_cons.mpr ⟨?_, addrs_nodup header tiled⟩
    intro member
    obtain ⟨other, there, same⟩ := mem_map.mp member
    have low := (bounds tiled there).1
    omega

section

variable (tiled : Tiled width start (before ++ block :: after) stop)
include tiled

theorem elsewhere (header : 0 < width)
    {other : Chunk} (member : other ∈ before ++ after) : other.addr ≠ block.addr := by
  intro equal
  have distinct := tiled.addrs_nodup header
  rw [map_append, map_cons] at distinct
  refine (nodup_cons.mp (nodup_middle.mp distinct)).1 ?_
  rw [← equal, ← map_append]
  exact mem_map.mpr ⟨other, member, rfl⟩

theorem behind (header : 0 < width) {other : Chunk} (member : other ∈ before ++ block :: after)
    (meets : other.addr = block.addr + width + block.size) : ∃ rest, after = other :: rest := by
  obtain ⟨left, right⟩ := around tiled
  cases after with
  | nil =>
    have high := (bounds tiled member).2
    have ends : block.addr + width + block.size = stop := right
    omega
  | cons next rest =>
    obtain ⟨here, _⟩ := right
    have same : other = next := tiled.unique header member (by simp) (by rw [meets, here])
    exact ⟨rest, by rw [same]⟩

theorem last (header : 0 < width) (ends : block.addr + width + block.size = stop) : after = [] := by
  obtain ⟨_, right⟩ := around tiled
  cases after with
  | nil => rfl
  | cons =>
    obtain ⟨_, high⟩ := bounds right (mem_cons_self)
    omega

/-! ### Changes -/

theorem mark (used : Bool) :
    Tiled width start (before ++ { block with used := used } :: after) stop := by
  obtain ⟨left, right⟩ := around tiled
  exact append_iff.mpr ⟨block.addr, left, rfl, right⟩

theorem split {size : Nat} (room : size + width ≤ block.size) (used used' : Bool) :
    Tiled width start (before ++ ⟨block.addr, size, used⟩ ::
      ⟨block.addr + width + size, block.size - size - width, used'⟩ :: after) stop := by
  obtain ⟨left, right⟩ := around tiled
  refine append_iff.mpr ⟨block.addr, left, rfl, rfl, ?_⟩
  have ends : block.addr + width + size + width + (block.size - size - width) =
      block.addr + width + block.size := by omega
  rw [ends]
  exact right

end

theorem join {next : Chunk} (tiled : Tiled width start (before ++ block :: next :: after) stop)
    (used : Bool) : Tiled width start (before ++
      ⟨block.addr, block.size + (width + next.size), used⟩ :: after) stop := by
  obtain ⟨left, here, right⟩ := around tiled
  refine append_iff.mpr ⟨block.addr, left, rfl, ?_⟩
  have ends : block.addr + width + (block.size + (width + next.size)) =
      block.addr + width + block.size + width + next.size := by omega
  rw [ends]
  exact right

theorem grow (tiled : Tiled width start blocks stop) (size : Nat) (used : Bool) :
    Tiled width start (blocks ++ [⟨stop, size, used⟩]) (stop + width + size) :=
  append_iff.mpr ⟨stop, tiled, rfl, rfl⟩

theorem trim (tiled : Tiled width start (before ++ [block]) stop) {less : Nat}
    (room : less ≤ block.size) (used : Bool) :
    Tiled width start (before ++ [⟨block.addr, block.size - less, used⟩]) (stop - less) := by
  obtain ⟨left, right⟩ := around tiled
  have ends : block.addr + width + block.size = stop := right
  refine append_iff.mpr ⟨block.addr, left, rfl, ?_⟩
  change block.addr + width + (block.size - less) = stop - less
  omega

end Tiled

end MainDob.Lib
