/-
Purpose: Queues threaded through a successor field of their elements, with a head and a tail
  pointer: appending, unlinking one element, and taking out the first elements that satisfy a test
  onto a chain of their own.
Main exports: Seg, Queue, IsQueue
-/
import Mathlib.Data.List.Nodup
import Mathlib.Logic.Function.Basic

namespace MainDob.Lib

open Function (update)
open List Option Function

variable {α : Type}

/-- The elements of the list follow each other; the last one is followed by
`stop`. -/
def Seg (next : α → Option α) : List α → Option α → Prop
  | [], _ => True
  | a :: rest, stop => next a = rest.head?.or stop ∧ Seg next rest stop

namespace Seg

variable {next : α → Option α} {front back : List α} {stop : Option α}

theorem append_iff : Seg next (front ++ back) stop ↔
    Seg next front (back.head?.or stop) ∧ Seg next back stop := by
  induction front with
  | nil => simp [Seg]
  | cons _ rest ih =>
    simp only [cons_append, Seg, ih, and_assoc]
    cases rest <;> simp

theorem congr {next' : α → Option α} (segment : Seg next front stop)
    (same : ∀ a ∈ front, next' a = next a) : Seg next' front stop := by
  induction front with
  | nil => trivial
  | cons a _ ih =>
    refine ⟨?_, ih segment.2 fun b member => same b (mem_cons_of_mem a member)⟩
    rw [same a mem_cons_self]
    exact segment.1

theorem update_of_not_mem [DecidableEq α] {a : α} {value : Option α} (segment : Seg next front stop)
    (absent : a ∉ front) : Seg (update next a value) front stop := by
  refine segment.congr ?_
  intro b member
  refine update_of_ne ?_ _ _
  rintro rfl
  exact absent member

theorem redirect [DecidableEq α] {a : α} {value : Option α} (segment : Seg next (front ++ [a]) stop)
    (absent : a ∉ front) : Seg (update next a value) (front ++ [a]) value := by
  rw [append_iff] at segment ⊢
  refine ⟨segment.1.update_of_not_mem absent, ?_, trivial⟩
  simp

theorem last_next {last : α} (segment : Seg next front stop)
    (final : front.getLast? = some last) : next last = stop := by
  rcases front.eq_nil_or_concat' with rfl | ⟨init, other, rfl⟩
  · cases final
  rw [List.getLast?_concat] at final
  cases final
  exact (append_iff.mp segment).2.1

theorem splice {next' : α → Option α} {middle middle' : List α}
    (segment : Seg next (front ++ middle ++ back) none)
    (inner : ∀ a ∈ front.dropLast, next' a = next a) (edge : ∀ last, front.getLast? = some last →
    next' last = (middle' ++ back).head?) (fresh : Seg next' middle' back.head?)
    (outer : ∀ a ∈ back, next' a = next a) : Seg next' (front ++ middle' ++ back) none := by
  obtain ⟨before, behind⟩ := append_iff.mp segment
  obtain ⟨first, _⟩ := append_iff.mp before
  have rest : Seg next' (middle' ++ back) none := by
    refine append_iff.mpr ⟨?_, behind.congr outer⟩
    rw [or_none]
    exact fresh
  rw [append_assoc]
  refine append_iff.mpr ⟨?_, rest⟩
  rcases front.eq_nil_or_concat' with rfl | ⟨init, last, rfl⟩
  · trivial
  obtain ⟨init', _⟩ := append_iff.mp first
  rw [dropLast_concat] at inner
  refine append_iff.mpr ⟨init'.congr inner, ?_, trivial⟩
  rw [edge last List.getLast?_concat, or_none]
  rfl

end Seg

/-- The elements reached from a pointer, at most `fuel` of them. -/
def trail (next : α → Option α) : Nat → Option α → List α
  | 0, _ => []
  | _ + 1, none => []
  | fuel + 1, some a => a :: trail next fuel (next a)

variable {fuel : Nat}

theorem trail_of_seg {next : α → Option α} {list : List α} (segment : Seg next list none)
    (enough : list.length ≤ fuel) : trail next fuel list.head? = list := by
  induction list generalizing fuel with
  | nil => cases fuel <;> rfl
  | cons _ _ ih =>
    cases fuel with
    | zero => cases enough
    | succ =>
      have link := segment.1
      rw [or_none] at link
      rw [List.head?_cons, trail, link, ih segment.2 (Nat.le_of_succ_le_succ enough)]

/-- The pointers of a queue. -/
structure Queue (α : Type) where
  head : Option α
  tail : Option α
deriving DecidableEq, Repr

/-- The pointers and successors describe the list. -/
structure IsQueue (next : α → Option α) (queue : Queue α) (list : List α) :
    Prop where
  linked : Seg next list none
  head : queue.head = list.head?
  tail : queue.tail = list.getLast?

variable {pick : α → Bool}

section Operations

variable [DecidableEq α]

/-- Make an element the successor of the tail, or the head of an empty
queue. -/
def linkTail (next : α → Option α) (queue : Queue α) (a : α) : (α → Option α) × Queue α :=
  match queue.tail with
  | some last => (update next last (some a), ⟨queue.head, some a⟩)
  | none => (next, ⟨some a, some a⟩)

/-- Append an element at the tail. -/
def enqueueTail (next : α → Option α) (queue : Queue α) (a : α) : (α → Option α) × Queue α :=
  linkTail (update next a none) queue a

/-- Relink a queue around the element `a`, whose predecessor is `prev`. -/
def relink (next : α → Option α) (queue : Queue α) (prev : Option α) (a : α) :
    (α → Option α) × Queue α :=
  let after := next a
  let (next, head) :=
    match prev with
    | some p => (update next p after, queue.head)
    | none => (next, after)
  (update next a none, ⟨head, if queue.tail = some a then prev else queue.tail⟩)

/-- Look for `target` from `cur` on and unlink it.  The flag says whether it
was found; without fuel the walk has not come to an end. -/
def unlinkFrom (next : α → Option α) (queue : Queue α) (target : α) :
    Nat → Option α → Option α → Option ((α → Option α) × Queue α × Bool)
  | 0, _, _ => none
  | _ + 1, _, none => some (next, queue, false)
  | fuel + 1, prev, some cur =>
    if cur = target then
      let (next, queue) := relink next queue prev cur
      some (next, queue, true)
    else unlinkFrom next queue target fuel (some cur) (next cur)

/-- Unlink `target` from a queue. -/
def unlink (next : α → Option α) (queue : Queue α) (target : α)
    (fuel : Nat) : Option ((α → Option α) × Queue α × Bool) :=
  unlinkFrom next queue target fuel none queue.head

/-- Take the elements that pass the test, at most `count`, off the queue and
onto a chain; `taken` is how many were taken so far. -/
def extractFrom (pick : α → Bool) (count : Nat) : Nat → (α → Option α) → Queue α →
    Queue α → Nat → Option α → Option α → Option ((α → Option α) × Queue α × Queue α × Nat)
  | 0, _, _, _, _, _, _ => none
  | fuel + 1, next, queue, chain, taken, prev, cur =>
    match cur with
    | none => some (next, queue, chain, taken)
    | some a =>
      if count ≤ taken then some (next, queue, chain, taken)
      else
        let after := next a
        if pick a then
          let (next, queue) := relink next queue prev a
          let (next, chain) := linkTail next chain a
          extractFrom pick count fuel next queue chain (taken + 1) prev after
        else
          extractFrom pick count fuel next queue chain taken (some a) after

/-- Take elements out from the head on. -/
def extract (pick : α → Bool) (count fuel : Nat) (next : α → Option α)
    (queue : Queue α) : Option ((α → Option α) × Queue α × Queue α × Nat) :=
  extractFrom pick count fuel next queue ⟨none, none⟩ 0 none queue.head

/-! ### What the operations do to the list -/

variable {next : α → Option α} {queue : Queue α} {list front back : List α}

section

variable {a : α} (isQueue : IsQueue next queue list) (distinct : list.Nodup) (absent : a ∉ list)
include isQueue distinct absent

theorem linkTail_spec (loose : next a = none) :
    IsQueue (linkTail next queue a).1 (linkTail next queue a).2 (list ++ [a]) ∧
      ∀ b, b ∉ list → (linkTail next queue a).1 b = next b := by
  rcases list.eq_nil_or_concat' with rfl | ⟨front, last, rfl⟩
  · have tail : queue.tail = none := isQueue.tail
    simp only [linkTail, tail]
    exact ⟨⟨⟨by simpa using loose, trivial⟩, rfl, rfl⟩, fun _ _ => trivial⟩
  have tail : queue.tail = some last := by simpa using isQueue.tail
  have different : a ≠ last := by
    rintro rfl
    exact absent (by simp)
  have lastAbsent : last ∉ front := by
    intro member
    have apart := (nodup_append.mp distinct).2.2 last member last
    exact apart (by simp) rfl
  simp only [linkTail, tail]
  refine ⟨⟨?_, ?_, by simp⟩, ?_⟩
  · rw [Seg.append_iff]
    refine ⟨isQueue.linked.redirect lastAbsent, ?_, trivial⟩
    rw [update_of_ne different]
    simpa using loose
  · rw [isQueue.head]
    simp [List.head?_append]
  · intro b other
    refine update_of_ne ?_ _ _
    rintro rfl
    exact other (by simp)

theorem enqueueTail_spec : IsQueue (enqueueTail next queue a).1 (enqueueTail next queue a).2
    (list ++ [a]) ∧ ∀ b, b ∉ list → b ≠ a → (enqueueTail next queue a).1 b = next b := by
  have loosened : IsQueue (update next a none) queue list :=
    ⟨isQueue.linked.update_of_not_mem absent, isQueue.head, isQueue.tail⟩
  obtain ⟨appended, frame⟩ := linkTail_spec loosened distinct absent (update_self ..)
  refine ⟨appended, fun b other different => ?_⟩
  rw [enqueueTail, frame b other, update_of_ne different]

end

variable {prev : Option α}

theorem relink_spec {a : α} (isQueue : IsQueue next queue (front ++ a :: back))
    (distinct : (front ++ a :: back).Nodup) (before : prev = front.getLast?) :
    IsQueue (relink next queue prev a).1 (relink next queue prev a).2 (front ++ back) ∧
      (relink next queue prev a).1 a = none ∧
      ∀ b, b ∉ front → b ≠ a → (relink next queue prev a).1 b = next b := by
  obtain ⟨frontDistinct, rightDistinct, apart⟩ := nodup_append.mp distinct
  have aNotBack : a ∉ back := (nodup_cons.mp rightDistinct).1
  have aNotFront : a ∉ front := fun member => apart a member a (by simp) rfl
  have segment := isQueue.linked
  rw [Seg.append_iff] at segment
  obtain ⟨frontSeg, aLink, backSeg⟩ := segment
  rw [or_none] at aLink
  -- the tail moves back exactly when the element was the last one
  have newTail : (if queue.tail = some a then prev else queue.tail) = (front ++ back).getLast? := by
    rw [isQueue.tail, before]
    rcases back.eq_nil_or_concat' with rfl | ⟨init, last, rfl⟩
    · simp
    have other : last ≠ a := by
      rintro rfl
      exact aNotBack (by simp)
    have lastEq : (front ++ a :: (init ++ [last])).getLast? = some last := by
      rw [← cons_append, ← append_assoc, List.getLast?_concat]
    rw [lastEq, if_neg (by simpa using other), ← append_assoc, List.getLast?_concat]
  rcases front.eq_nil_or_concat' with rfl | ⟨init, last, rfl⟩
  · subst before
    refine ⟨⟨?_, ?_, newTail⟩, update_self .., ?_⟩
    · exact backSeg.update_of_not_mem aNotBack
    · exact aLink
    · intro b _ different
      exact update_of_ne different _ _
  have lastEq : (init ++ [last]).getLast? = some last := by simp
  have lastNotInit : last ∉ init := by
    intro member
    exact (nodup_append.mp frontDistinct).2.2 last member last (by simp) rfl
  have lastNotBack : last ∉ back := by
    intro member
    exact apart last (by simp) last (mem_cons_of_mem a member) rfl
  subst before
  simp only [relink, lastEq]
  rw [lastEq] at newTail
  refine ⟨⟨?_, ?_, newTail⟩, update_self .., ?_⟩
  · rw [Seg.append_iff]
    constructor
    · refine Seg.update_of_not_mem ?_ aNotFront
      rw [aLink, or_none]
      exact frontSeg.redirect lastNotInit
    · refine Seg.update_of_not_mem ?_ aNotBack
      exact backSeg.update_of_not_mem lastNotBack
  · rw [isQueue.head]
    simp [List.head?_append]
  · intro b other different
    rw [update_of_ne different, update_of_ne]
    rintro rfl
    exact other (by simp)

theorem unlinkFrom_spec {target : α}
    (isQueue : IsQueue next queue (front ++ back)) (distinct : (front ++ back).Nodup)
    (before : prev = front.getLast?) (passed : target ∉ front) (enough : back.length < fuel) :
    ∃ next' queue', unlinkFrom next queue target fuel prev back.head? = some (next', queue', decide
        (target ∈ back)) ∧ IsQueue next' queue' ((front ++ back).erase target) ∧
      (target ∈ back → next' target = none) ∧ ∀ b, b ∉ front ++ back → next' b = next b := by
  induction back generalizing front prev fuel with
  | nil =>
    cases fuel with
    | zero => cases enough
    | succ =>
      refine ⟨next, queue, rfl, ?_, fun member => (nomatch member), fun _ _ => rfl⟩
      rw [append_nil] at isQueue ⊢
      rwa [erase_of_not_mem passed]
  | cons cur rest ih =>
    cases fuel with
    | zero => cases enough
    | succ =>
      by_cases found : cur = target
      · subst found
        obtain ⟨relinked, loose, frame⟩ := relink_spec isQueue distinct before
        rw [← erase_cons_head cur rest, ← erase_append_right _ passed] at relinked
        refine ⟨_, _, ?_, relinked, fun _ => loose, ?_⟩
        · simp only [List.head?_cons, unlinkFrom, if_true, mem_cons_self, decide_true]
        intro b other
        refine frame b ?_ ?_
        · exact fun member => other (mem_append_left _ member)
        · rintro rfl
          exact other (by simp)
      · have link : next cur = rest.head? := by
          have segment := (Seg.append_iff.mp isQueue.linked).2.1
          rwa [or_none] at segment
        have reassoc : front ++ cur :: rest = (front ++ [cur]) ++ rest := by simp
        rw [reassoc] at isQueue distinct ⊢
        obtain ⟨next', queue', result, isQueue', loose, frame⟩ :=
          ih isQueue distinct (show some cur = (front ++ [cur]).getLast? by simp)
            (by simp [passed, Ne.symm found]) (Nat.lt_of_succ_lt_succ enough)
        refine ⟨next', queue', ?_, isQueue', ?_, frame⟩
        · simp only [List.head?_cons, unlinkFrom, if_neg found, link,
            result, mem_cons, Ne.symm found, false_or]
        · intro member
          exact loose ((mem_cons.mp member).resolve_left (Ne.symm found))

theorem unlink_spec (target : α) (isQueue : IsQueue next queue list) (distinct : list.Nodup)
    (enough : list.length < fuel) : ∃ next' queue', unlink next queue target fuel = some
    (next', queue', decide (target ∈ list)) ∧ IsQueue next' queue' (list.erase target) ∧
      (target ∈ list → next' target = none) ∧ ∀ b, b ∉ list → next' b = next b := by
  unfold unlink
  rw [isQueue.head]
  have whole : IsQueue next queue ([] ++ list) := isQueue
  exact unlinkFrom_spec whole distinct rfl not_mem_nil enough

/-- What stays in a queue when the first `count` elements that pass the test
leave it. -/
def keepRest (pick : α → Bool) : Nat → List α → List α
  | 0, list => list
  | _ + 1, [] => []
  | count + 1, a :: rest =>
    if pick a then keepRest pick count rest
    else a :: keepRest pick (count + 1) rest

/-- The walk that takes elements out, from a point of the queue on. -/
theorem extractFrom_spec {count taken : Nat}
    {chain : Queue α} {picked : List α} (isQueue : IsQueue next queue (front ++ back))
    (isChain : IsQueue next chain picked) (distinct : (front ++ back ++ picked).Nodup)
    (before : prev = front.getLast?) (counted : taken = picked.length) (enough : back.length < fuel)
    : ∃ next' queue' chain', extractFrom pick count fuel next queue chain taken prev back.head? =
        some (next', queue', chain', (picked ++ (back.filter pick).take (count - taken)).length) ∧
      IsQueue next' queue' (front ++ keepRest pick (count - taken) back) ∧
      IsQueue next' chain' (picked ++ (back.filter pick).take (count - taken)) ∧
      ∀ b, b ∉ front ++ back → b ∉ picked → next' b = next b := by
  induction back generalizing front picked prev fuel next queue chain taken with
  | nil =>
    cases fuel with
    | zero => cases enough
    | succ =>
      refine ⟨next, queue, chain, ?_, ?_, ?_, fun _ _ _ => rfl⟩
      · simp [extractFrom, counted]
      · cases count - taken <;> simpa [keepRest] using isQueue
      · simpa using isChain
  | cons a rest ih =>
    cases fuel with
    | zero => cases enough
    | succ =>
      have segment := isQueue.linked
      rw [Seg.append_iff] at segment
      have link : next a = rest.head? := by
        have here := segment.2.1
        rwa [or_none] at here
      have queueDistinct := (nodup_append.mp distinct).1
      by_cases full : count ≤ taken
      · have nothing : count - taken = 0 := Nat.sub_eq_zero_of_le full
        refine ⟨next, queue, chain, ?_, ?_, ?_, fun _ _ _ => rfl⟩
        · simp only [List.head?_cons, extractFrom, if_pos full, nothing,
            take_zero, append_nil, ← counted]
        · simpa [nothing, keepRest] using isQueue
        · simpa [nothing] using isChain
      obtain ⟨budget, budgetEq⟩ : ∃ budget, count - taken = budget + 1 :=
        ⟨count - taken - 1, by omega⟩
      by_cases hit : pick a
      · obtain ⟨relinked, loose, frame⟩ := relink_spec isQueue queueDistinct before
        have chainAway : ∀ b ∈ picked, b ∉ front ∧ b ≠ a := by
          intro b member
          have apart := (nodup_append.mp distinct).2.2
          constructor
          · intro inFront
            exact apart b (mem_append_left _ inFront) b member rfl
          · rintro rfl
            exact apart b (by simp) b member rfl
        have chainKept : IsQueue (relink next queue prev a).1 chain
            picked := by
          refine ⟨isChain.linked.congr ?_, isChain.head, isChain.tail⟩
          intro b member
          obtain ⟨notFront, different⟩ := chainAway b member
          exact frame b notFront different
        have aNotPicked : a ∉ picked := fun member => (chainAway a member).2 rfl
        have pickedDistinct := (nodup_append.mp distinct).2.1
        obtain ⟨chained, chainFrame⟩ := linkTail_spec chainKept pickedDistinct aNotPicked loose
        have queueKept : IsQueue (linkTail (relink next queue prev a).1 chain a).1
            (relink next queue prev a).2 (front ++ rest) := by
          refine ⟨relinked.linked.congr ?_, relinked.head, relinked.tail⟩
          intro b member
          refine chainFrame b fun inPicked => ?_
          refine (nodup_append.mp distinct).2.2 b ?_ b inPicked rfl
          rcases mem_append.mp member with inFront | inRest
          · exact mem_append_left _ inFront
          · exact mem_append_right _ (mem_cons_of_mem _ inRest)
        have moved : (front ++ rest ++ (picked ++ [a])).Nodup := by
          refine (List.Perm.nodup_iff ?_).mpr distinct
          grind
        obtain ⟨next', queue', chain', result, isQueue', isChain', frame'⟩ :=
          ih queueKept chained moved before (show taken + 1 = (picked ++ [a]).length by simp
            [counted]) (Nat.lt_of_succ_lt_succ enough)
        have budgetLeft : count - (taken + 1) = budget := by omega
        rw [budgetLeft] at result isQueue' isChain'
        have pickedEq : picked ++ (List.filter pick (a :: rest)).take (count - taken) =
            picked ++ [a] ++ (List.filter pick rest).take budget := by
          rw [budgetEq, filter_cons_of_pos hit, take_succ_cons]
          simp
        refine ⟨next', queue', chain', ?_, ?_, ?_, ?_⟩
        · rw [pickedEq, ← result, List.head?_cons]
          simp only [extractFrom, if_neg full, hit, if_true, link]
        · rw [budgetEq]
          simpa only [keepRest, hit, if_true] using isQueue'
        · rw [pickedEq]
          exact isChain'
        intro b notQueue notPicked
        have notFront : b ∉ front := fun member => notQueue (mem_append_left _ member)
        have notRest : b ∉ a :: rest := fun member => notQueue (mem_append_right _ member)
        have different : b ≠ a := fun same => notRest (same ▸ mem_cons_self)
        rw [frame' b (by grind) (by grind), chainFrame b notPicked, frame b notFront different]
      · have reassoc : front ++ a :: rest = (front ++ [a]) ++ rest := by simp
        rw [reassoc] at isQueue distinct
        obtain ⟨next', queue', chain', result, isQueue', isChain', frame'⟩ :=
          ih isQueue isChain distinct (show some a = (front ++ [a]).getLast? by simp) counted
            (Nat.lt_of_succ_lt_succ enough)
        have filterEq : List.filter pick (a :: rest) =
            List.filter pick rest := filter_cons_of_neg hit
        refine ⟨next', queue', chain', ?_, ?_, ?_, ?_⟩
        · rw [filterEq, ← result, List.head?_cons]
          simp only [extractFrom, if_neg full, hit, link]
          rfl
        · rw [budgetEq] at isQueue' ⊢
          simpa [keepRest, hit] using isQueue'
        · rw [filterEq]
          exact isChain'
        · rw [reassoc]
          exact frame'

theorem extract_spec (pick : α → Bool) (count : Nat)
    (isQueue : IsQueue next queue list) (distinct : list.Nodup) (enough : list.length < fuel) :
    ∃ next' queue' chain', extract pick count fuel next queue =
        some (next', queue', chain', ((list.filter pick).take count).length) ∧
      IsQueue next' queue' (keepRest pick count list) ∧
      IsQueue next' chain' ((list.filter pick).take count) ∧ ∀ b, b ∉ list → next' b = next b := by
  have whole : IsQueue next queue ([] ++ list) := isQueue
  have emptyChain : IsQueue next (⟨none, none⟩ : Queue α) [] := ⟨trivial, rfl, rfl⟩
  have wholeDistinct : ([] ++ list ++ []).Nodup := by simpa using distinct
  obtain ⟨next', queue', chain', result, isQueue', isChain', frame⟩ :=
    extractFrom_spec whole emptyChain wholeDistinct rfl rfl enough
  refine ⟨next', queue', chain', ?_, isQueue', isChain', ?_⟩
  · unfold extract
    rw [isQueue.head]
    exact result
  · intro b other
    exact frame b other not_mem_nil

end Operations

theorem mem_keepRest {a : α} :
    ∀ {count : Nat} {list : List α}, list.Nodup → (a ∈ keepRest pick count list ↔
        a ∈ list ∧ a ∉ (list.filter pick).take count)
  | 0, list, _ => by simp [keepRest]
  | count + 1, [], _ => by simp [keepRest]
  | count + 1, b :: rest, distinct => by
    obtain ⟨bAbsent, restDistinct⟩ := nodup_cons.mp distinct
    by_cases hit : pick b
    · rw [keepRest, if_pos hit, mem_keepRest restDistinct, filter_cons_of_pos hit, take_succ_cons]
      constructor
      · rintro ⟨member, notTaken⟩
        refine ⟨mem_cons_of_mem b member, ?_⟩
        rintro (_ | ⟨_, taken⟩)
        · exact bAbsent member
        · exact notTaken taken
      · rintro ⟨member, notTaken⟩
        rw [mem_cons, not_or] at notTaken
        exact ⟨(mem_cons.mp member).resolve_left notTaken.1, notTaken.2⟩
    · rw [keepRest, if_neg hit, mem_cons, mem_keepRest restDistinct, filter_cons_of_neg hit]
      constructor
      · rintro (rfl | ⟨member, notTaken⟩)
        · refine ⟨mem_cons_self, fun taken => bAbsent ?_⟩
          exact mem_of_mem_filter (mem_of_mem_take taken)
        · exact ⟨mem_cons_of_mem b member, notTaken⟩
      · rintro ⟨member, notTaken⟩
        rcases mem_cons.mp member with rfl | inRest
        · exact .inl rfl
        · exact .inr ⟨inRest, notTaken⟩

theorem keepRest_sublist :
    ∀ (count : Nat) (list : List α), (keepRest pick count list).Sublist list
  | 0, list => by rw [keepRest]
  | count + 1, [] => by rw [keepRest]
  | count + 1, b :: rest => by
    rw [keepRest]
    split
    · exact (keepRest_sublist count rest).cons b
    · exact (keepRest_sublist (count + 1) rest).cons_cons b

end MainDob.Lib
