/-
Purpose: A piecewise copy is one move, whichever way the ranges overlap.
Main exports: up_eq, down_eq, memmove_moves
-/
import MainDob.Libc.MemMove

namespace MainDob.Libc.MemMove

variable {m : Memory} {dst src : Nat}

/-- No byte that is still to be read is overwritten upwards. -/
def Ascends (dst src n : Nat) : Prop := dst ≤ src ∨ src + n ≤ dst

theorem move_zero : move m dst src 0 = m := by
  funext a
  exact if_neg fun inside => Nat.not_lt_of_le inside.1 inside.2

theorem move_above {front back : Nat} (ascends : Ascends dst src (front + back)) :
    move (move m dst src front) (dst + front) (src + front) back = move m dst src (front + back) := by
  funext a
  unfold move
  unfold Ascends at ascends
  split
  · next inside =>
    have there : src + front + (a - (dst + front)) = src + (a - dst) := by omega
    rw [there, if_neg (by omega), if_pos (by omega)]
  · next outside =>
    by_cases here : dst ≤ a ∧ a < dst + front
    · rw [if_pos here, if_pos (by omega)]
    · rw [if_neg here, if_neg (by omega)]

theorem move_below {front back : Nat} (descends : src ≤ dst) :
    move (move m (dst + front) (src + front) back) dst src front = move m dst src (front + back) := by
  funext a
  unfold move
  split
  · next inside => rw [if_neg (by omega), if_pos (by omega)]
  · next outside =>
    by_cases here : dst + front ≤ a ∧ a < dst + front + back
    · have there : src + front + (a - (dst + front)) = src + (a - dst) := by omega
      rw [if_pos here, if_pos (by omega), there]
    · rw [if_neg here, if_neg (by omega)]

theorem up_eq {width count : Nat} (ascends : Ascends dst src (width * count)) :
    up width count m dst src = move m dst src (width * count) := by
  induction count generalizing m dst src with
  | zero => exact move_zero.symm
  | succ count ih =>
    rw [Nat.mul_succ, add_comm] at ascends
    rw [up, ih, move_above ascends, Nat.mul_succ, add_comm width]
    exact ascends.imp (Nat.add_le_add_right · width) fun apart => by omega

theorem down_eq {width count : Nat} (descends : src ≤ dst) :
    down width count m dst src = move m dst src (width * count) := by
  induction count generalizing m with
  | zero => exact move_zero.symm
  | succ count ih => rw [down, ih, move_below descends, Nat.mul_succ]

/-- Whatever the two ranges have in common, the destination gets what the source
held before, and every other byte stays. -/
theorem memmove_moves (m : Memory) (dst src n a : Nat) : memmove m dst src n a =
    if dst ≤ a ∧ a < dst + n then m (src + (a - dst)) else m a := by
  have whole : 4 * (n / 4) + 1 * (n % 4) = n := by omega
  suffices moves : memmove m dst src n = move m dst src n from congrFun moves a
  unfold memmove
  split
  · next forward =>
    have ascends : Ascends dst src n := forward.imp_left le_of_lt
    have rest : Ascends (dst + 4 * (n / 4)) (src + 4 * (n / 4)) (1 * (n % 4)) :=
      ascends.imp (Nat.add_le_add_right · _) fun apart => by omega
    rw [copyForward, up_eq (ascends.imp_right fun apart => by omega), up_eq rest, move_above, whole]
    rwa [whole]
  split
  · next backward =>
    have descends := le_of_lt backward
    rw [copyBackward, down_eq (Nat.add_le_add_right descends _), down_eq descends,
      move_below descends, whole]
  · next same =>
    obtain rfl : dst = src := by omega
    funext a
    unfold move
    split
    · next inside => rw [Nat.add_sub_cancel' inside.1]
    · rfl

end MainDob.Libc.MemMove
