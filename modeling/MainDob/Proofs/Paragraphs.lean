/-
Purpose: The paragraphs of a text: which one a position lies in, where each one
  starts and ends, and that the loops of a document find this.
Main exports: paraOf, StartsAt, Bounds
-/
import MainDob.Doc.Document
import MainDob.Proofs.PieceTable

namespace MainDob.Proofs.Paragraphs

open Doc Doc.Document
open PieceTable (Holds)
open List Option

/-- The byte that ends a paragraph. -/
def lineFeed : UInt8 := 10

/-- The paragraph that a position lies in, by the line feeds before it. -/
def paraOf (text : List UInt8) (pos : Nat) : Nat := (text.take pos).count lineFeed

/-- Paragraph `k` starts at `s`: at the beginning, or behind a line feed. -/
structure StartsAt (text : List UInt8) (k s : Nat) : Prop where
  inside : s ≤ text.length
  edge : s = 0 ∨ text[s - 1]? = some lineFeed
  index : paraOf text s = k

/-- Paragraph `k` starts at `s`, and the next one, or the end, is at `e`. -/
structure Bounds (text : List UInt8) (k s e : Nat) : Prop where
  starts : StartsAt text k s
  ends : StartsAt text (k + 1) e ∨ e = text.length ∧ paraOf text text.length = k
  ordered : s ≤ e

variable {text : List UInt8} {j k s t : Nat}

theorem paraOf_succ {pos : Nat} (inside : pos < text.length) :
    paraOf text (pos + 1) = paraOf text pos + if text[pos]? = some lineFeed then 1 else 0 := by
  unfold paraOf
  rw [take_add_one, count_append, List.getElem?_eq_getElem inside]
  simp [count_singleton]

theorem paraOf_mono {pos later : Nat} (order : pos ≤ later) : paraOf text pos ≤ paraOf text later :=
  ((take_sublist_take_left order).count_le lineFeed)

theorem StartsAt.lt_iff (one : StartsAt text j s) (two : StartsAt text k t) : s < t ↔ j < k := by
  rw [← one.index, ← two.index]
  constructor
  · intro before
    have inside := two.inside
    have edge := two.edge.resolve_left (by omega)
    have last := @paraOf_succ text _ (show t - 1 < text.length by omega)
    have atMost := @paraOf_mono text _ _ (show s ≤ t - 1 by omega)
    rw [Nat.sub_add_cancel (by omega), if_pos edge] at last
    omega
  · intro fewer
    by_contra notBefore
    exact absurd (@paraOf_mono text _ _ (Nat.le_of_not_lt notBefore)) (Nat.not_le.mpr fewer)

theorem StartsAt.unique (one : StartsAt text k s) (two : StartsAt text k t) : s = t := by
  have notBefore := (one.lt_iff two).not.mpr (lt_irrefl k)
  have notAfter := (two.lt_iff one).not.mpr (lt_irrefl k)
  omega

theorem Bounds.lt_end {e : Nat} (bounds : Bounds text j s e)
    (starts : StartsAt text k t) (notEnd : t < text.length) : t < e ↔ k ≤ j := by
  rcases bounds.ends with next | ⟨rfl, last⟩
  · rw [starts.lt_iff next]
    omega
  · rw [← last, ← starts.index]
    exact ⟨fun _ => paraOf_mono starts.inside, fun _ => notEnd⟩

/-! ### The loops -/

variable {d : DfDoc}

section

variable (holds : Holds d.pt text)
include holds

theorem byteAt_newline (pos : Nat) : ∃ byte, PieceTable.byteAt d.pt pos = some byte ∧
      (byte = newline ↔ text[pos]? = some lineFeed) := by
  refine ⟨_, holds.byteAt pos, ?_⟩
  cases text[pos]? with
  | none => simp [newline]
  | some =>
    simp only [Option.elim, newline, lineFeed, Option.some.injEq]
    constructor
    · intro same
      exact UInt8.toNat_inj.mp (Int.ofNat_inj.mp same)
    · rintro rfl
      rfl

theorem paraAt_eq (pos : Nat) : paraAt d pos = some (paraOf text (min pos text.length)) := by
  have counts : ∀ count ≤ text.length, (List.range count).foldlM (fun nl i => do
        let byte ← PieceTable.byteAt d.pt i
        return if byte = newline then nl + 1 else nl) 0 =
      some (paraOf text count) := by
    intro count
    induction count with
    | zero => exact fun _ => rfl
    | succ count ih =>
      intro inside
      obtain ⟨byte, reads, isNewline⟩ := byteAt_newline holds count
      rw [range_succ, foldlM_append, ih (by omega), paraOf_succ (by omega)]
      simp only [bind_eq_bind, bind_some, foldlM_cons, foldlM_nil, reads, ← isNewline]
      split <;> rfl
  unfold Document.paraAt
  rw [holds.total]
  have clamped : (if pos > text.length then text.length else pos) = min pos text.length := by
    split <;> omega
  rw [clamped]
  exact counts _ (min_le_right ..)

theorem paraRangeFrom_spec (index : Nat) : ∀ left cur s, left ≤ text.length →
    s ≤ text.length - left → StartsAt text cur s → paraOf text (text.length - left) = cur →
      cur ≤ index → (∃ s' e, paraRangeFrom d index left cur s = some (some (s', e - s')) ∧
        Bounds text index s' e) ∨
      paraRangeFrom d index left cur s = some none ∧ paraOf text text.length < index := by
  intro left
  induction left with
  | zero =>
    intro cur s _ before starts count most
    rw [Nat.sub_zero] at before count
    unfold paraRangeFrom
    rw [holds.total]
    by_cases here : cur = index
    · subst here
      exact .inl ⟨s, text.length, by rw [if_pos rfl], starts, .inr ⟨rfl, count⟩, before⟩
    · rw [if_neg here]
      exact .inr ⟨rfl, by omega⟩
  | succ left ih =>
    intro cur s inside before starts count most
    obtain ⟨byte, reads, isNewline⟩ := byteAt_newline holds (text.length - (left + 1))
    have next := @paraOf_succ text _ (show text.length - (left + 1) < text.length by omega)
    rw [count, show text.length - (left + 1) + 1 = text.length - left by omega] at next
    unfold paraRangeFrom
    rw [holds.total]
    simp only [reads, bind_eq_bind, bind_some]
    by_cases isEnd : byte = newline
    · rw [if_pos (isNewline.mp isEnd)] at next
      have behind : StartsAt text (cur + 1) (text.length - left) :=
        ⟨Nat.sub_le .., .inr (by
          exact isNewline.mp isEnd), next⟩
      rw [if_pos isEnd, show text.length - (left + 1) + 1 = text.length - left by omega]
      by_cases here : cur = index
      · subst here
        exact .inl ⟨s, text.length - left, by rw [if_pos rfl], starts, .inl behind, by omega⟩
      · rw [if_neg here]
        exact ih _ _ (by omega) (le_refl _) behind next (by omega)
    · rw [if_neg (mt isNewline.mpr isEnd)] at next
      rw [if_neg isEnd]
      exact ih _ _ (by omega) (by omega) starts next most

theorem paraRange_spec (k : Nat) : (∃ s e, paraRange d k = some (some (s, e - s)) ∧
    Bounds text k s e) ∨ paraRange d k = some none ∧ paraOf text text.length < k := by
  have start : StartsAt text 0 0 := ⟨Nat.zero_le _, .inl rfl, rfl⟩
  unfold paraRange
  rw [holds.total]
  exact paraRangeFrom_spec holds k text.length 0 0 (Nat.le_refl _) (Nat.zero_le _)
    start (by rw [Nat.sub_self]; rfl) (Nat.zero_le k)

theorem paraRange_some (present : k ≤ paraOf text text.length) :
    ∃ s e, paraRange d k = some (some (s, e - s)) ∧ Bounds text k s e :=
  (paraRange_spec holds k).resolve_right fun ⟨_, absent⟩ => by omega

end

theorem StartsAt.present (starts : StartsAt text k s) : k ≤ paraOf text text.length := by
  rw [← starts.index]
  exact paraOf_mono starts.inside

/-! ### Inserted bytes -/

theorem StartsAt.insert {pos : Nat} {data : List UInt8} (inside : pos ≤ text.length)
    (plain : lineFeed ∉ data) (starts : StartsAt text k s) : StartsAt
    (text.take pos ++ data ++ text.drop pos) k (if s ≤ pos then s else s + data.length) := by
  have length : (text.take pos ++ data ++ text.drop pos).length = text.length + data.length := by
    simp only [length_append, length_take, length_drop]
    omega
  have isInside := starts.inside
  have front : (text.take pos).length = pos := by
    rw [length_take]
    omega
  by_cases before : s ≤ pos
  · rw [if_pos before]
    have same : (text.take pos ++ data ++ text.drop pos).take s = text.take s := by
      rw [append_assoc, take_append_of_le_length (by omega), take_take, min_eq_left before]
    refine ⟨by omega, ?_, ?_⟩
    · by_cases zero : s = 0
      · exact .inl zero
      refine .inr ?_
      rw [← List.getElem?_take_of_lt (show s - 1 < s by omega), same,
        List.getElem?_take_of_lt (by omega)]
      exact starts.edge.resolve_left zero
    · unfold paraOf
      rw [same]
      exact starts.index
  · rw [if_neg before]
    refine ⟨by omega, .inr ?_, ?_⟩
    · rw [List.getElem?_append_right (by simp only [length_append]; omega),
        List.getElem?_drop, length_append, front,
        show pos + (s + data.length - 1 - (pos + data.length)) = s - 1 by omega]
      exact starts.edge.resolve_left (by omega)
    have none := count_eq_zero_of_not_mem plain
    have parts : paraOf text s = (text.take pos).count lineFeed +
        ((text.drop pos).take (s - pos)).count lineFeed := by
      rw [← count_append, ← take_add, Nat.add_sub_cancel' (by omega)]
      rfl
    rw [← starts.index, parts]
    unfold paraOf
    rw [show s + data.length = pos + data.length + (s - pos) by omega,
      take_add, take_left' (by simp only [length_append, front]),
      drop_left' (by simp only [length_append, front]), count_append, count_append, none, add_zero]

end MainDob.Proofs.Paragraphs
