/-
Purpose: The timers and the watchdogs of a process are out of the reach of the
  others in every run that gives an entry away only when nothing is under way on
  it, that arms a watchdog only when no expiry of it is being served, and whose
  events find their ports with room; they are not in every run.
Trusted boundary: none beyond Kernel.AsyncTimers
Main exports: entryOf, AtRest, timers_isolated
-/
import MainDob.Proofs.SlotLives
import MainDob.Proofs.TimerSections

namespace MainDob.Kernel.AsyncTimers

open Function (update update_of_ne update_self update_apply update_eq_self)
open Lib
open Post (portQueueMax)
open MsgEntry (ipcIrqPoolSize)
open List Option

/-! ### One entry of a state -/

/-- The entry a note is about. -/
def Note.timer : Note → Nat
  | .started t _ _ | .cancelled t _ | .posted t _ _ => t

/-- What a drain does with a timer. -/
def flightOf (s : State) (t cpu : Nat) : Option Flight :=
  match s.wheel.drains cpu with
  | some ⟨_, .popped u fireGen⟩ =>
    if u = t then some (.popped fireGen) else none
  | some ⟨_, .calling u⟩ =>
    if u = t then some (.calling (s.callbacks cpu)) else none
  | _ => none

/-- The call of a thread, where it is on the entry. -/
def callOf (s : State) (t thread : Nat) : Option Call :=
  (s.calls thread).filter fun call => call.pc.target == some t

/-- The notes about an entry. -/
def notesOf (s : State) (t : Nat) : List Note :=
  s.log.filter fun note => note.timer == t

/-- What concerns the entry `t`. -/
def entryOf (s : State) (t : Nat) : Entry where
  slot := s.slots t
  armed := s.wheel.armed t
  period := (s.wheel.timers t).period
  gen := (s.wheel.timers t).gen
  armedBy := s.armedBy t
  flights := flightOf s t
  calls := callOf s t
  notes := notesOf s t

/-- The timer of an entry is not armed, no drain holds it, and no call is under
way on the entry. -/
structure AtRest (s : State) (t : Nat) : Prop where
  unarmed : s.wheel.armed t = false
  drains : ∀ cpu, Timers.inFlight s.wheel.drains cpu t = false
  calls : ∀ thread call, s.calls thread = some call → call.pc.target ≠ some t

variable {cpu thread now : Nat} {call : Call} {flight : Option Flight}

section Entries

variable {s s' : State} {t u : Nat}

theorem flightOf_eq_none :
    flightOf s t cpu = none ↔ Timers.inFlight s.wheel.drains cpu t = false := by
  unfold flightOf Timers.inFlight
  rcases s.wheel.drains cpu with _ | ⟨now, phase⟩
  · simp
  · cases phase <;> simp [Timers.Phase.holds]

theorem AtRest.rest (rest : AtRest s t) : Rest (entryOf s t) where
  unarmed := rest.unarmed
  flights := fun cpu => flightOf_eq_none.mpr (rest.drains cpu)
  calls := by
    intro thread
    refine filter_eq_none_iff.mpr fun call isCall target => ?_
    exact rest.calls thread call isCall (beq_iff_eq.mp target)

theorem callOf_eq_some :
    callOf s t thread = some call ↔ s.calls thread = some call ∧ call.pc.target = some t := by
  simp [callOf, filter_eq_some_iff]

theorem flightOf_calling (found : s.wheel.drains cpu = some ⟨now, .calling t⟩) :
    flightOf s t cpu = some (.calling (s.callbacks cpu)) := by
  simp [flightOf, found]

theorem entryOf_congr (slot : s'.slots t = s.slots t) (alike : Timers.Alike s.wheel s'.wheel t)
    (armedBy : s'.armedBy t = s.armedBy t) (flights : flightOf s' t = flightOf s t)
    (calls : callOf s' t = callOf s t) (notes : notesOf s' t = notesOf s t) :
    entryOf s' t = entryOf s t := by
  unfold entryOf
  rw [slot, alike.armed, alike.period, alike.gen, armedBy, flights, calls, notes]

theorem Entry.setCall_same {e : Entry} {call : Option Call}
    (same : e.calls thread = call) : e.setCall thread call = e := by
  rw [← same, Entry.setCall, update_eq_self]

theorem Entry.setFlight_same {e : Entry} (same : e.flights cpu = flight) :
    e.setFlight cpu flight = e := by
  rw [← same, Entry.setFlight, update_eq_self]

theorem entryOf_setSlot (slot : Slot) :
    entryOf (s.setSlot t slot) t = { entryOf s t with slot := slot } := by
  simp only [entryOf, State.setSlot, update_self]
  rfl

theorem entryOf_setSlot_of_ne (other : t ≠ u) (slot : Slot) :
    entryOf (s.setSlot u slot) t = entryOf s t :=
  entryOf_congr (update_of_ne other _ _) ⟨rfl, rfl, rfl⟩ rfl rfl rfl rfl

theorem entryOf_free : entryOf (s.free t) t = (entryOf s t).free := entryOf_setSlot _

theorem entryOf_setCall (thread : Nat) (call : Option Call) :
    entryOf (s.setCall thread call) t = (entryOf s t).setCall thread
        (call.filter fun c => c.pc.target == some t) := by
  have calls : callOf (s.setCall thread call) t = update (callOf s t) thread
        (call.filter fun c => c.pc.target == some t) := by
    funext other
    by_cases same : other = thread <;> simp [callOf, State.setCall, same]
  unfold Entry.setCall entryOf
  rw [calls]
  rfl

theorem entryOf_note {note : Note} (here : note.timer = t) :
    entryOf (s.note note) t = { entryOf s t with notes := note :: (entryOf s t).notes } := by
  have notes : notesOf (s.note note) t = note :: notesOf s t :=
    filter_cons_of_pos (beq_iff_eq.mpr here)
  unfold entryOf
  rw [notes]
  rfl

theorem entryOf_note_of_ne {note : Note} (there : note.timer ≠ t) :
    entryOf (s.note note) t = entryOf s t :=
  entryOf_congr rfl ⟨rfl, rfl, rfl⟩ rfl rfl rfl (filter_cons_of_neg (by simpa using there))

theorem entryOf_setCallback (callback : Option Callback)
    (found : s.wheel.drains cpu = some ⟨now, .calling u⟩) : entryOf (s.setCallback cpu callback) t =
      if t = u then (entryOf s t).setFlight cpu (some (.calling callback)) else entryOf s t := by
  have flights : flightOf (s.setCallback cpu callback) t = if t = u then
        update (flightOf s t) cpu (some (.calling callback))
      else flightOf s t := by
    funext other
    by_cases same : other = cpu
    · subst same
      by_cases here : t = u
      · simp [flightOf, State.setCallback, found, here]
      · simp [flightOf, State.setCallback, found, here, Ne.symm here]
    · split <;> simp [flightOf, State.setCallback, same]
  split
  · next here =>
      rw [if_pos here] at flights
      unfold Entry.setFlight entryOf
      rw [flights]
      rfl
  · next there =>
      rw [if_neg there] at flights
      exact entryOf_congr rfl ⟨rfl, rfl, rfl⟩ rfl flights rfl rfl

theorem flightOf_congr (drains : s'.wheel.drains = s.wheel.drains)
    (callbacks : s'.callbacks = s.callbacks) : flightOf s' t = flightOf s t := by
  funext cpu
  unfold flightOf
  rw [drains, callbacks]

section

variable (taken : finish s cpu = some s') (found : s.wheel.drains cpu = some ⟨now, .calling u⟩)
include taken found

theorem finish_spec :
    s' = ({ s with
      wheel := (s.wheel.note (.fired cpu u)).setDrain cpu
        (some ⟨now, .returning u⟩) } : State).setCallback cpu none := by
  simp only [finish, Timers.exec, found, map_some, Option.some.injEq] at taken
  exact taken.symm

theorem entryOf_finish :
    entryOf s' t = if t = u then (entryOf s t).setFlight cpu none else entryOf s t := by
  obtain rfl := finish_spec taken found
  have flights : flightOf (({ s with
      wheel := (s.wheel.note (.fired cpu u)).setDrain cpu
        (some ⟨now, .returning u⟩) } : State).setCallback cpu none) t =
      if t = u then update (flightOf s t) cpu none
      else flightOf s t := by
    funext other
    by_cases same : other = cpu
    · subst same
      by_cases here : t = u
      · simp [flightOf, Timers.State.setDrain, State.setCallback, here]
      · simp [flightOf, Timers.State.setDrain, State.setCallback, here, found, Ne.symm here]
    · split <;>
        simp [flightOf, Timers.State.setDrain, Timers.State.note, State.setCallback, same]
  split
  · next here =>
      rw [if_pos here] at flights
      unfold Entry.setFlight entryOf
      rw [flights]
      rfl
  · next there =>
      rw [if_neg there] at flights
      exact entryOf_congr rfl ⟨rfl, rfl, rfl⟩ rfl flights rfl rfl

end

theorem entryOf_arm (ok : Timers.HeapOk s.wheel) (u stamp now delayMs : Nat) (once : Bool) :
    Timers.HeapOk (arm s u stamp now delayMs once).1.wheel ∧
      (arm s u stamp now delayMs once).1.wheel.drains = s.wheel.drains ∧
      (∃ gen, entryOf (arm s u stamp now delayMs once).1 u = { entryOf s u with
          armed := (arm s u stamp now delayMs once).2
          period := if once then 0 else msToNs delayMs
          gen := gen
          armedBy := stamp }) ∧
      ∀ t, t ≠ u → entryOf (arm s u stamp now delayMs once).1 t = entryOf s t := by
  obtain ⟨ok', isArmed, isPeriod, drains, others⟩ :=
    ok.arm u ((now + msToNs delayMs) % Timers.clockWord) (if once then 0 else msToNs delayMs)
  refine ⟨ok', drains, ⟨((arm s u stamp now delayMs once).1.wheel.timers u).gen,
    ?_⟩, fun t other => ?_⟩
  · have flights : flightOf (arm s u stamp now delayMs once).1 u =
        flightOf s u := flightOf_congr drains rfl
    unfold entryOf
    rw [flights]
    exact Entry.mk.injEq .. |>.mpr ⟨rfl, isArmed, isPeriod, rfl, update_self .., rfl, rfl, rfl⟩
  · exact entryOf_congr rfl (others t other) (update_of_ne other _ _)
      (flightOf_congr drains rfl) rfl rfl

theorem entryOf_detach (ok : Timers.HeapOk s.wheel) (u : Nat) :
    Timers.HeapOk (detach s u).wheel ∧ (detach s u).wheel.drains = s.wheel.drains ∧
      (∃ gen period, entryOf (detach s u) u = { entryOf s u with
        armed := false
        period := period
        gen := gen }) ∧
      ∀ t, t ≠ u → entryOf (detach s u) t = entryOf s t := by
  obtain ⟨ok', isArmed, drains, others⟩ := ok.cancel u
  refine ⟨ok', drains, ⟨((detach s u).wheel.timers u).gen,
    ((detach s u).wheel.timers u).period, ?_⟩, fun t other => ?_⟩
  · have flights : flightOf (detach s u) u = flightOf s u := flightOf_congr drains rfl
    unfold entryOf
    rw [flights]
    exact Entry.mk.injEq .. |>.mpr ⟨rfl, isArmed, rfl, rfl, rfl, rfl, rfl, rfl⟩
  · exact entryOf_congr rfl (others t other) rfl (flightOf_congr drains rfl) rfl rfl

end Entries

/-! ### Steps -/

/-- Who makes a step. -/
def actor (s : State) : Label → Actor
  | .timerSet _ pid _ _ _ | .timerCancel _ pid _ | .watchdogSet _ pid _
  | .cleanup _ pid => .process pid
  | .advance thread _ _ =>
    match s.calls thread with
    | some call => .process call.pid
    | none => .wheel
  | .callback _ => .callback
  | .wheel _ => .wheel
  | .ipc _ => .ipc

/-- The section of `ipc_post_kernel` that a callback comes to loses nothing: the
port is active, the pool of entries is not empty, the queue has room. -/
def Room (s : State) (t cpu : Nat) : Prop :=
  match s.callbacks cpu with
  | some .posting => s.ipc.ports (s.slots t).word ≠ none
  | some (.allocating _ _) => s.ipc.irqFree ≠ 0
  | some (.enqueuing port index) =>
    s.ipc.ports port = some index ∧ s.ipc.msgCount index < portQueueMax
  | _ => True

instance (s : State) (t cpu : Nat) : Decidable (Room s t cpu) := by
  unfold Room
  split <;> infer_instance

/-- The condition: an entry is given away when nothing is under way on it, a
watchdog is armed when no drain holds it, and the event of a one-shot timer that
its owner is not cancelling is posted where nothing is lost. -/
def Guard (s : State) : Label → Prop
  | .timerSet _ _ _ _ _ => ∀ t, freeSlot s 0 timerPoolMax = some t → AtRest s t
  | .watchdogSet _ pid timeoutMs => ownDog s pid = none → timeoutMs ≠ 0 →
      ∀ t, freeSlot s timerPoolMax watchdogMax = some t → AtRest s t
  | .advance thread _ _ => ∀ call t timeoutMs, s.calls thread = some call →
      call.pc = .dogArm t timeoutMs →
      ∀ cpu, Timers.inFlight s.wheel.drains cpu t = false
  | .callback cpu => ∀ now t, s.wheel.drains cpu = some ⟨now, .calling t⟩ →
      t < timerPoolMax → (s.wheel.timers t).period = 0 →
      .cancelled t (s.slots t).stamp ∉ s.log → Room s t cpu
  | _ => True

/-- Which pool the entry of a call is in. -/
def Pc.fits : Pc → Prop
  | .setArm t _ _ _ | .setFail t | .cancelDetach t | .cancelFree t
  | .scanFree t => t < timerPoolMax
  | .dogDetach t | .dogRefresh t _ | .dogArm t _ | .dogFail t =>
    timerPoolMax ≤ t
  | .scanDetach _ | .scan _ => True

/-- What the steps keep of the state as a whole. -/
structure Ok (s : State) : Prop where
  heap : Timers.HeapOk s.wheel
  callbacks : ∀ cpu callback, s.callbacks cpu = some callback →
    ∃ now t, t < pooled ∧ s.wheel.drains cpu = some ⟨now, .calling t⟩
  calls : ∀ thread call, s.calls thread = some call → call.pc.fits

/-- What a step does to every entry of the pools. -/
def Local (who : Actor) (s s' : State) : Prop :=
  ∀ t, t < pooled → entryOf s' t = entryOf s t ∨ Move t who (entryOf s t) (entryOf s' t)

variable {label : Label}

section Steps

variable {s s' : State}

theorem Ok.setCall (ok : Ok s) (thread : Nat) (call : Option Call)
    (fits : ∀ c ∈ call, c.pc.fits) : Ok (s.setCall thread call) where
  heap := ok.heap
  callbacks := ok.callbacks
  calls := by
    intro other c isCall
    by_cases same : other = thread
    · simp only [State.setCall, same, update_self] at isCall
      exact fits c isCall
    · simp only [State.setCall, update_of_ne same] at isCall
      exact ok.calls other c isCall

theorem Ok.setSlot (ok : Ok s) (t : Nat) (slot : Slot) : Ok (s.setSlot t slot) := { ok with }

theorem Ok.note (ok : Ok s) (note : Note) : Ok (s.note note) := { ok with }

variable {wheel : Timers.State}

theorem Ok.rewheel (ok : Ok s) {armedBy : Nat → Nat} (heap : Timers.HeapOk wheel)
    (drains : wheel.drains = s.wheel.drains) : Ok { s with wheel := wheel, armedBy := armedBy } :=
  ⟨heap, fun cpu callback isCallback => drains ▸ ok.callbacks cpu callback isCallback, ok.calls⟩

theorem callOf_of_target {t u : Nat} (isCall : s.calls thread = some call)
    (target : call.pc.target = some u ∨ call.pc.target = none) (other : t ≠ u) :
    callOf s t thread = none := by
  refine filter_eq_none_iff.mpr fun c found isTarget => ?_
  obtain rfl := Option.some.inj (isCall.symm.trans found)
  rw [beq_iff_eq] at isTarget
  rcases target with there | nowhere
  · exact other (Option.some.inj (isTarget.symm.trans there))
  · cases isTarget.symm.trans nowhere

theorem Local.refl (who : Actor) (s : State) : Local who s s := fun _ _ => .inl rfl

theorem Local.of_call {b : State} {u : Nat} {call : Option Call} {who : Actor}
    (others : ∀ t, t ≠ u → entryOf b t = entryOf s t)
    (elsewhere : ∀ t, t ≠ u → callOf s t thread = none) (target : ∀ c ∈ call, c.pc.target = some u ∨
    c.pc.target = none) (moved : Move u who (entryOf s u) ((entryOf b u).setCall thread
      (call.filter fun c => c.pc.target == some u))) : Local who s (b.setCall thread call) := by
  intro t _
  rw [entryOf_setCall]
  by_cases here : t = u
  · rw [here]
    exact .inr moved
  refine .inl ?_
  have off : (call.filter fun c => c.pc.target == some t) = none := by
    refine filter_eq_none_iff.mpr fun c isCall isTarget => ?_
    rw [beq_iff_eq] at isTarget
    rcases target c isCall with there | nowhere
    · exact here (Option.some.inj (isTarget.symm.trans there))
    · cases isTarget.symm.trans nowhere
  rw [off, others t here]
  exact Entry.setCall_same (elsewhere t here)

theorem callOf_of_idle {t : Nat} (idle : s.calls thread = none) : callOf s t thread = none := by
  simp [callOf, idle]

theorem freeSlot_spec {first count t : Nat} (found : freeSlot s first count = some t) :
    first ≤ t ∧ t < first + count ∧ (s.slots t).used = false := by
  have member := mem_of_find?_eq_some found
  have unused := List.find?_some found
  rw [mem_range'_1] at member
  exact ⟨member.1, member.2, by simpa using unused⟩

variable {pid : Nat}

theorem owns_iff {t : Nat} :
    s.owns pid t = true ↔ (s.slots t).used = true ∧ (s.slots t).ownerPid = pid := by
  simp [State.owns]

theorem ownDog_spec {t : Nat} (found : ownDog s pid = some t) :
    timerPoolMax ≤ t ∧ (s.slots t).used = true ∧ (s.slots t).ownerPid = pid := by
  have member := mem_of_find?_eq_some found
  rw [mem_range'_1] at member
  exact ⟨member.1, owns_iff.mp (List.find?_some found)⟩

theorem sysTimerSet_local (ok : Ok s) {port delayMs : Nat} {repeats : Bool}
    (idle : s.calls thread = none) (rests : ∀ t, freeSlot s 0 timerPoolMax = some t → AtRest s t) :
    Ok (sysTimerSet s thread pid port delayMs repeats) ∧
      Local (.process pid) s (sysTimerSet s thread pid port delayMs repeats) := by
  unfold sysTimerSet
  split
  · exact ⟨ok, .refl _ s⟩
  split
  · exact ⟨ok, .refl _ s⟩
  next t found =>
    obtain ⟨_, timer, unused⟩ := freeSlot_spec found
    refine ⟨(ok.setSlot t _).setCall thread _ ?_, .of_call
      (fun u other => entryOf_setSlot_of_ne other _) (fun _ _ => callOf_of_idle idle) ?_ ?_⟩
    · rintro _ ⟨⟩
      exact timer
    · rintro _ ⟨⟩
      exact .inl rfl
    · rw [State.take, entryOf_setSlot]
      simp only [State.setSlot, update_self, Pc.target, beq_self_eq_true, filter_some_pos]
      exact .take thread pid port _ (rests t found).rest unused (.inl ⟨timer, delayMs, _, rfl⟩)

theorem cancelling_local (ok : Ok s) {t : Nat} {pc : Pc} (nowhere : ∀ u, callOf s u thread = none)
    (timer : t < timerPoolMax) (owned : s.owns pid t = true) (target : pc.target = some t)
    (which : pc = .cancelDetach t ∨ pc = .scanDetach t) :
    Ok ((s.enter thread pid t pc).note (.cancelled t (s.slots t).stamp)) ∧
    Local (.process pid) s ((s.enter thread pid t pc).note (.cancelled t (s.slots t).stamp)) := by
  obtain ⟨used, owner⟩ := owns_iff.mp owned
  refine ⟨(ok.setCall thread _ ?_).note _, ?_⟩
  · rintro c ⟨⟩
    rcases which with rfl | rfl
    · exact timer
    · trivial
  have moved : Local (.process pid) s ((s.note (.cancelled t (s.slots t).stamp)).setCall thread
        (some ⟨pid, (s.slots t).stamp, pc⟩)) := by
    refine .of_call (u := t) (fun u other => ?_) (fun u _ => nowhere u) ?_ ?_
    · exact entryOf_note_of_ne (Ne.symm other)
    · rintro _ ⟨⟩
      exact .inl target
    · rw [entryOf_note (t := t) rfl]
      simp only [target, beq_self_eq_true, filter_some_pos]
      exact .cancelling thread pid pc used owner timer which
  exact moved

theorem sysTimerCancel_local (ok : Ok s) {t : Nat} (idle : s.calls thread = none) : Ok
    (sysTimerCancel s thread pid t) ∧ Local (.process pid) s (sysTimerCancel s thread pid t) := by
  unfold sysTimerCancel
  split
  · next mine =>
      exact cancelling_local ok (fun _ => callOf_of_idle idle) mine.1 mine.2 rfl (.inl rfl)
  · exact ⟨ok, .refl _ s⟩

theorem dog_local (ok : Ok s) {t : Nat} {pc : Pc} {slot : Slot}
    (nowhere : ∀ u, callOf s u thread = none) (watchdog : timerPoolMax ≤ t)
    (used : (s.slots t).used = true) (owner : (s.slots t).ownerPid = pid)
    (sameOwner : slot.ownerPid = pid) (sameStamp : slot.stamp = (s.slots t).stamp)
    (target : pc.target = some t) (fits : pc.fits) : Ok ((s.setSlot t slot).enter thread pid t pc) ∧
      Local (.process pid) s ((s.setSlot t slot).enter thread pid t pc) := by
  refine ⟨(ok.setSlot t slot).setCall thread _ ?_,
    .of_call (fun u other => entryOf_setSlot_of_ne other _) (fun u _ => nowhere u) ?_ ?_⟩
  · rintro _ ⟨⟩
    exact fits
  · rintro _ ⟨⟩
    exact .inl target
  · rw [entryOf_setSlot]
    simp only [State.setSlot, update_self, target, beq_self_eq_true, filter_some_pos]
    exact .dog thread pid pc slot used owner watchdog sameOwner sameStamp

theorem sysWatchdogSet_local (ok : Ok s) {timeoutMs : Nat} (idle : s.calls thread = none)
    (rests : ownDog s pid = none → timeoutMs ≠ 0 →
      ∀ t, freeSlot s timerPoolMax watchdogMax = some t → AtRest s t) :
    Ok (sysWatchdogSet s thread pid timeoutMs) ∧
      Local (.process pid) s (sysWatchdogSet s thread pid timeoutMs) := by
  have nowhere : ∀ u, callOf s u thread = none := fun _ => callOf_of_idle idle
  unfold sysWatchdogSet
  split
  · next t found =>
      obtain ⟨watchdog, used, owner⟩ := ownDog_spec found
      split <;> exact dog_local ok nowhere watchdog used owner owner rfl rfl watchdog
  next missing =>
    split
    · exact ⟨ok, .refl _ s⟩
    split
    · exact ⟨ok, .refl _ s⟩
    next enabled _ t found =>
      obtain ⟨watchdog, _, unused⟩ := freeSlot_spec found
      refine ⟨(ok.setSlot t _).setCall thread _ ?_,
        .of_call (fun u other => entryOf_setSlot_of_ne other _) (fun u _ => nowhere u) ?_ ?_⟩
      · rintro _ ⟨⟩
        exact watchdog
      · rintro _ ⟨⟩
        exact .inl rfl
      · rw [State.take, entryOf_setSlot]
        simp only [State.setSlot, update_self, Pc.target, beq_self_eq_true, filter_some_pos]
        exact .take thread pid timeoutMs _ (rests missing enabled t found).rest unused
          (.inr ⟨watchdog, rfl⟩)

theorem Local.of_idle {call : Option Call} (who : Actor) (nowhere : ∀ t, callOf s t thread = none)
    (target : ∀ c ∈ call, c.pc.target = none) : Local who s (s.setCall thread call) := by
  intro t _
  refine .inl ?_
  have off : (call.filter fun c => c.pc.target == some t) = none := by
    refine filter_eq_none_iff.mpr fun c isCall isTarget => ?_
    rw [beq_iff_eq] at isTarget
    cases isTarget.symm.trans (target c isCall)
  rw [entryOf_setCall, off]
  exact Entry.setCall_same (nowhere t)

theorem scan_local (ok : Ok s) {t : Nat} (nowhere : ∀ u, callOf s u thread = none) :
    Ok (scan s thread pid t) ∧ Local (.process pid) s (scan s thread pid t) := by
  unfold scan
  split
  · split
    · next owned =>
        split
        · next timer => exact cancelling_local ok nowhere timer owned rfl (.inr rfl)
        · next watchdog =>
            obtain ⟨used, owner⟩ := owns_iff.mp owned
            exact dog_local ok nowhere (Nat.le_of_not_lt watchdog) used owner owner rfl rfl trivial
    · refine ⟨ok.setCall thread _ ?_, .of_idle _ nowhere ?_⟩
      · rintro c ⟨⟩
        trivial
      · rintro _ ⟨⟩
        rfl
  · exact ⟨ok.setCall thread none nofun, .of_idle _ nowhere nofun⟩

theorem arm_spec (ok : Ok s) (t stamp now delayMs : Nat) (once : Bool) :
    Ok (arm s t stamp now delayMs once).1 ∧ (∃ gen, entryOf (arm s t stamp now delayMs once).1 t =
        { entryOf s t with
          armed := (arm s t stamp now delayMs once).2
          period := if once then 0 else msToNs delayMs
          gen := gen
          armedBy := stamp }) ∧
      ∀ u, u ≠ t → entryOf (arm s t stamp now delayMs once).1 u = entryOf s u := by
  obtain ⟨heap, drains, here, others⟩ := entryOf_arm ok.heap t stamp now delayMs once
  exact ⟨ok.rewheel heap drains, here, others⟩

theorem refused_local {b : State} {t period gen : Nat} {next : Pc}
    (isCall : s.calls thread = some call) (target : call.pc.target = some t)
    (nextTarget : next.target = some t) (here : entryOf b t = { entryOf s t with
      armed := false
      period := period
      gen := gen
      armedBy := call.stamp }) (others : ∀ u, u ≠ t → entryOf b u = entryOf s u)
    (which : t < timerPoolMax → (next = call.pc ∨ next = .setFail t) ∧ call.pc.arms = true) :
    Local (.process call.pid) s (b.setCall thread (some { call with pc := next })) := by
  refine .of_call others (fun _ => callOf_of_target isCall (.inl target)) ?_ ?_
  · rintro _ ⟨⟩
    exact .inl nextTarget
  · rw [here]
    simp only [nextTarget, beq_self_eq_true, filter_some_pos]
    exact .refused thread gen period call next (callOf_eq_some.mpr ⟨isCall, target⟩) which

theorem setCall_self {b : State} {call : Option Call}
    (same : b.calls thread = call) : b.setCall thread call = b := by
  rw [← same, State.setCall, update_eq_self]

theorem setArm_local (ok : Ok s) {t port delayMs : Nat} {once : Bool} {grown : Bool}
    (isCall : s.calls thread = some call) (isPc : call.pc = .setArm t port delayMs once) :
    Ok (advance s thread call now grown) ∧
      Local (.process call.pid) s (advance s thread call now grown) := by
  have timer : t < timerPoolMax := by
    have fits := ok.calls thread call isCall
    rwa [isPc] at fits
  have target : call.pc.target = some t := by rw [isPc]; rfl
  have arms : call.pc.arms = true := by rw [isPc]; rfl
  have kept : (arm s t call.stamp now delayMs once).1.calls = s.calls := rfl
  obtain ⟨okArm, ⟨gen, here⟩, others⟩ := arm_spec ok t call.stamp now delayMs once
  simp only [advance, isPc]
  generalize arm s t call.stamp now delayMs once = result at *
  obtain ⟨b, armed⟩ := result
  cases armed with
  | true =>
    have moved := Move.armed (t := t) (e := entryOf s t) thread gen
      (if once then 0 else msToNs delayMs) port once call (callOf_eq_some.mpr ⟨isCall, target⟩)
      (fun isOnce => by rw [isOnce]; rfl) (.inl ⟨timer, delayMs, isPc⟩)
    simp only [timer, true_and] at moved
    cases once with
    | true =>
      refine ⟨(okArm.setCall thread none nofun).note _, ?_⟩
      have noted : Local (.process call.pid) s
          ((b.note (.started t call.stamp port)).setCall thread none) := by
        refine .of_call (u := t) (fun u other => ?_)
          (fun _ => callOf_of_target isCall (.inl target)) nofun ?_
        · rw [entryOf_note_of_ne (Ne.symm other), others u other]
        · rw [entryOf_note (t := t) rfl, here]
          exact moved
      exact noted
    | false =>
      refine ⟨okArm.setCall thread none nofun,
        .of_call others (fun _ => callOf_of_target isCall (.inl target)) nofun ?_⟩
      rw [here]
      exact moved
  | false =>
    dsimp only
    rw [if_neg (by decide)]
    split
    · have again := refused_local isCall target target here others fun _ => ⟨.inl rfl, arms⟩
      rw [setCall_self (by rw [kept]; exact isCall)] at again
      exact ⟨okArm, again⟩
    · refine ⟨okArm.setCall thread _ ?_, refused_local isCall target rfl here
        others fun _ => ⟨.inr rfl, arms⟩⟩
      rintro _ ⟨⟩
      exact timer

theorem dogArm_local (ok : Ok s) {t timeoutMs : Nat} {grown : Bool}
    (isCall : s.calls thread = some call) (isPc : call.pc = .dogArm t timeoutMs)
    (idle : ∀ cpu, Timers.inFlight s.wheel.drains cpu t = false) :
    Ok (advance s thread call now grown) ∧
      Local (.process call.pid) s (advance s thread call now grown) := by
  have watchdog : timerPoolMax ≤ t := by
    have fits := ok.calls thread call isCall
    rwa [isPc] at fits
  have target : call.pc.target = some t := by rw [isPc]; rfl
  have kept : (arm s t call.stamp now timeoutMs true).1.calls = s.calls := rfl
  obtain ⟨okArm, ⟨gen, here⟩, others⟩ := arm_spec ok t call.stamp now timeoutMs true
  simp only [advance, isPc]
  generalize arm s t call.stamp now timeoutMs true = result at *
  obtain ⟨b, armed⟩ := result
  have off : ¬ t < timerPoolMax := Nat.not_lt.mpr watchdog
  cases armed with
  | true =>
    have moved := Move.armed (t := t) (e := entryOf s t) thread gen 0 0 true
      call (callOf_eq_some.mpr ⟨isCall, target⟩) (fun _ => rfl)
      (.inr ⟨watchdog, rfl, fun cpu => flightOf_eq_none.mpr (idle cpu)⟩)
    simp only [off, false_and] at moved
    refine ⟨okArm.setCall thread none nofun,
      .of_call others (fun _ => callOf_of_target isCall (.inl target)) nofun ?_⟩
    rw [here]
    exact moved
  | false =>
    dsimp only
    rw [if_neg (by decide)]
    split
    · have again := refused_local isCall target target here others fun timer => absurd timer off
      rw [setCall_self (by rw [kept]; exact isCall)] at again
      exact ⟨okArm, again⟩
    · refine ⟨okArm.setCall thread _ ?_, refused_local isCall target rfl here
        others fun timer => absurd timer off⟩
      rintro _ ⟨⟩
      exact watchdog

theorem detach_local (ok : Ok s) {t : Nat} {rest : Option Call} (next : Option Pc)
    (isCall : s.calls thread = some call) (target : call.pc.target = some t)
    (isRest : rest.filter (fun c => c.pc.target == some t) =
      next.map fun pc => { call with pc := pc })
    (rests : ∀ c ∈ rest, (c.pc.target = some t ∨ c.pc.target = none) ∧ c.pc.fits)
    (which : t < timerPoolMax → call.pc.ends = true ∧
      ∀ pc ∈ next, pc.ends = true ∧ pc.arms = false) :
    Ok ((detach s t).setCall thread rest) ∧
      Local (.process call.pid) s ((detach s t).setCall thread rest) := by
  obtain ⟨heap, drains, ⟨gen, period, here⟩, others⟩ := entryOf_detach ok.heap t
  have okDetach : Ok (detach s t) := ok.rewheel heap drains
  refine ⟨okDetach.setCall thread _ fun c isRest => (rests c isRest).2, .of_call others
    (fun _ => callOf_of_target isCall (.inl target)) (fun c isRest => (rests c isRest).1) ?_⟩
  rw [here, isRest]
  exact .detached thread gen period call next (callOf_eq_some.mpr ⟨isCall, target⟩) which

theorem free_local (ok : Ok s) {t : Nat} {rest : Option Call} (isCall : s.calls thread = some call)
    (target : call.pc.target = some t) (rests : ∀ c ∈ rest, c.pc.target = none ∧ c.pc.fits)
    (which : t < timerPoolMax → call.pc = .setFail t ∨ call.pc.ends = true) :
    Ok ((s.free t).setCall thread rest) ∧
      Local (.process call.pid) s ((s.free t).setCall thread rest) := by
  refine ⟨(ok.setSlot t _).setCall thread _ fun c isRest => (rests c isRest).2,
    .of_call (fun u other => entryOf_setSlot_of_ne other _)
      (fun _ => callOf_of_target isCall (.inl target)) (fun c isRest => .inr (rests c isRest).1) ?_⟩
  have off : (rest.filter fun c => c.pc.target == some t) = none := by
    refine filter_eq_none_iff.mpr fun c isRest isTarget => ?_
    rw [beq_iff_eq] at isTarget
    cases isTarget.symm.trans (rests c isRest).1
  rw [off, entryOf_free]
  exact .freed thread call (callOf_eq_some.mpr ⟨isCall, target⟩) which

theorem advance_local (ok : Ok s) {grown : Bool} (isCall : s.calls thread = some call)
    (calm : ∀ t timeoutMs, call.pc = .dogArm t timeoutMs →
      ∀ cpu, Timers.inFlight s.wheel.drains cpu t = false) : Ok (advance s thread call now grown) ∧
      Local (.process call.pid) s (advance s thread call now grown) := by
  have fits := ok.calls thread call isCall
  have here : ∀ {t : Nat} {c : Call}, c.pc.target = some t →
      (some c).filter (fun c => c.pc.target == some t) = some c :=
    fun target => filter_some_pos (beq_iff_eq.mpr target)
  cases isPc : call.pc with
  | setArm => exact setArm_local ok isCall isPc
  | dogArm t timeoutMs => exact dogArm_local ok isCall isPc (calm t timeoutMs isPc)
  | setFail =>
    simp only [advance, isPc]
    exact free_local ok isCall (by rw [isPc]; rfl) nofun fun _ => .inl isPc
  | cancelDetach t =>
    rw [isPc] at fits
    simp only [advance, isPc]
    refine detach_local ok (some (.cancelFree t)) isCall
      (by rw [isPc]; rfl) (here rfl) ?_ fun _ => ⟨by rw [isPc]; rfl, ?_⟩
    · rintro _ ⟨⟩
      exact ⟨.inl rfl, fits⟩
    · rintro _ ⟨⟩
      exact ⟨rfl, rfl⟩
  | cancelFree =>
    simp only [advance, isPc]
    exact free_local ok isCall (by rw [isPc]; rfl) nofun fun _ => .inr (by rw [isPc]; rfl)
  | dogDetach =>
    rw [isPc] at fits
    simp only [advance, isPc]
    exact detach_local ok none isCall (by rw [isPc]; rfl) rfl nofun
      fun timer => absurd timer (Nat.not_lt.mpr fits)
  | dogRefresh t timeoutMs =>
    rw [isPc] at fits
    simp only [advance, isPc]
    refine detach_local ok (some (.dogArm t timeoutMs)) isCall (by rw [isPc]; rfl) (here rfl) ?_
      fun timer => absurd timer (Nat.not_lt.mpr fits)
    rintro _ ⟨⟩
    exact ⟨.inl rfl, fits⟩
  | dogFail =>
    rw [isPc] at fits
    simp only [advance, isPc]
    exact free_local ok isCall (by rw [isPc]; rfl) nofun
      fun timer => absurd timer (Nat.not_lt.mpr fits)
  | scan =>
    simp only [advance, isPc]
    refine scan_local ok fun u => filter_eq_none_iff.mpr ?_
    intro c found isTarget
    obtain rfl := Option.some.inj (isCall.symm.trans found)
    rw [isPc] at isTarget
    cases beq_iff_eq.mp isTarget
  | scanDetach t =>
    simp only [advance, isPc]
    have target : call.pc.target = some t := by rw [isPc]; rfl
    have ends : call.pc.ends = true := by rw [isPc]; rfl
    split
    · next timer =>
        refine detach_local ok (some (.scanFree t)) isCall target (here rfl) ?_ fun _ => ⟨ends, ?_⟩
        · rintro _ ⟨⟩
          exact ⟨.inl rfl, timer⟩
        · rintro _ ⟨⟩
          exact ⟨rfl, rfl⟩
    · refine detach_local ok none isCall target rfl ?_ fun _ => ⟨ends, nofun⟩
      rintro c ⟨⟩
      exact ⟨.inr rfl, trivial⟩
  | scanFree =>
    simp only [advance, isPc]
    refine free_local ok isCall (by rw [isPc]; rfl) ?_ fun _ => .inr (by rw [isPc]; rfl)
    rintro c ⟨⟩
    exact ⟨rfl, trivial⟩

/-! ### Callbacks -/

theorem Local.of_callback {t : Nat} (others : ∀ u, u ≠ t → entryOf s' u = entryOf s u)
    (moved : Move t .callback (entryOf s t) (entryOf s' t)) : Local .callback s s' := by
  intro u _
  by_cases here : u = t
  · rw [here]
    exact .inr moved
  · exact .inl (others u here)

section

variable (ok : Ok s)
include ok

section

variable {t : Nat}

theorem Ok.setCallback (callback : Option Callback) (pool : t < pooled)
    (found : s.wheel.drains cpu = some ⟨now, .calling t⟩) : Ok (s.setCallback cpu callback) where
  heap := ok.heap
  calls := ok.calls
  callbacks := by
    intro other c isCallback
    by_cases same : other = cpu
    · exact ⟨now, t, pool, same ▸ found⟩
    · simp only [State.setCallback, update_of_ne same] at isCallback
      exact ok.callbacks other c isCallback

theorem Ok.finish (taken : finish s cpu = some s')
    (found : s.wheel.drains cpu = some ⟨now, .calling t⟩) : Ok s' := by
  obtain rfl := finish_spec taken found
  refine ⟨?_, fun other callback isCallback => ?_, ok.calls⟩
  · obtain ⟨indexed, ordered, members, room, least⟩ := ok.heap
    exact ⟨indexed, ordered, members, room, least⟩
  by_cases same : other = cpu
  · simp [State.setCallback, same] at isCallback
  simp only [State.setCallback, update_of_ne same] at isCallback ⊢
  simp only [Timers.State.setDrain, update_of_ne same]
  exact ok.callbacks other callback isCallback

theorem setCallback_local {callback : Callback} (pool : t < pooled)
    (found : s.wheel.drains cpu = some ⟨now, .calling t⟩) (moved : Move t .callback (entryOf s t)
      ((entryOf s t).setFlight cpu (some (.calling (some callback))))) : Ok (s.setCallback cpu
    (some callback)) ∧ Local .callback s (s.setCallback cpu (some callback)) := by
  refine ⟨ok.setCallback _ pool found, .of_callback (t := t) (fun u other => ?_) ?_⟩
  · rw [entryOf_setCallback _ found, if_neg other]
  · rw [entryOf_setCallback _ found, if_pos rfl]
    exact moved

theorem finish_local (taken : finish s cpu = some s')
    (found : s.wheel.drains cpu = some ⟨now, .calling t⟩) (moved : Move t .callback
    (entryOf s t) ((entryOf s t).setFlight cpu none)) : Ok s' ∧ Local .callback s s' := by
  refine ⟨ok.finish taken found, .of_callback (t := t) (fun u other => ?_) ?_⟩
  · rw [entryOf_finish taken found, if_neg other]
  · rw [entryOf_finish taken found, if_pos rfl]
    exact moved

theorem free_finish_local (taken : finish (s.free t) cpu = some s')
    (found : s.wheel.drains cpu = some ⟨now, .calling t⟩) (moved : Move t .callback
    (entryOf s t) ((entryOf s t).free.setFlight cpu none)) : Ok s' ∧ Local .callback s s' := by
  have freed : Ok (s.free t) := ok.setSlot t _
  refine ⟨freed.finish taken found, .of_callback (t := t) (fun u other => ?_) ?_⟩
  · rw [entryOf_finish taken found, if_neg other]
    exact entryOf_setSlot_of_ne other _
  · rw [entryOf_finish taken found, if_pos rfl, entryOf_free]
    exact moved

theorem drop_local {ipc : Ipc} (timer : t < timerPoolMax)
    (found : s.wheel.drains cpu = some ⟨now, .calling t⟩) {stage : Callback}
    (before : s.callbacks cpu = some stage)
    (lost : (s.wheel.timers t).period = 0 → .cancelled t (s.slots t).stamp ∈ s.log) :
    Ok (({ s with ipc := ipc } : State).setCallback cpu (some .freeing)) ∧
      Local .callback s (({ s with ipc := ipc } : State).setCallback cpu (some .freeing)) := by
  have reported : Ok { s with ipc := ipc } := { ok with }
  refine setCallback_local reported (Nat.lt_of_lt_of_le timer (by decide)) found ?_
  refine .drop cpu stage timer ((flightOf_calling found).trans (by rw [before])) fun once => ?_
  exact mem_filter.mpr ⟨lost once, beq_self_eq_true t⟩

theorem post_local {port index : Nat} (timer : t < timerPoolMax) (found : s.wheel.drains cpu = some
    ⟨now, .calling t⟩) (before : s.callbacks cpu = some (.enqueuing port index)) :
    Ok ((s.note (.posted t (s.slots t).stamp port)).setCallback cpu (some .freeing)) ∧
      Local .callback s
        ((s.note (.posted t (s.slots t).stamp port)).setCallback cpu (some .freeing)) := by
  refine ⟨(ok.note _).setCallback _ (Nat.lt_of_lt_of_le timer (by decide)) found,
    .of_callback (t := t) (fun u other => ?_) ?_⟩
  · rw [entryOf_setCallback (s := s.note _) _ found, if_neg other]
    exact entryOf_note_of_ne (Ne.symm other)
  · rw [entryOf_setCallback (s := s.note _) _ found, if_pos rfl, entryOf_note (t := t) rfl]
    exact .post cpu port index timer ((flightOf_calling found).trans (by rw [before]))

theorem enqueue_local {port index : Nat} (timer : t < timerPoolMax)
    (found : s.wheel.drains cpu = some ⟨now, .calling t⟩)
    (before : s.callbacks cpu = some (.enqueuing port index))
    (lost : s.ipc.ports port ≠ some index → (s.wheel.timers t).period = 0 → .cancelled t
      (s.slots t).stamp ∈ s.log) : Ok ((s.enqueue t port index).setCallback cpu (some .freeing)) ∧
      Local .callback s ((s.enqueue t port index).setCallback cpu (some .freeing)) := by
  unfold State.enqueue
  dsimp only
  split
  · have queued : Ok { s with ipc := { s.ipc with
        msgCount := update s.ipc.msgCount index (s.ipc.msgCount index + 1) } } := { ok with }
    exact post_local queued timer found before
  · next gone => exact drop_local ok timer found before (lost gone)

theorem asyncTimerFire_local (timer : t < timerPoolMax)
    (found : s.wheel.drains cpu = some ⟨now, .calling t⟩) (taken : asyncTimerFire s cpu t = some s')
    (room : (s.wheel.timers t).period = 0 → .cancelled t (s.slots t).stamp ∉ s.log →
      Room s t cpu) : Ok s' ∧ Local .callback s s' := by
  have pool : t < pooled := Nat.lt_of_lt_of_le timer (by decide)
  have flight : (entryOf s t).flights cpu = some (.calling (s.callbacks cpu)) :=
    flightOf_calling found
  have lost : ¬ Room s t cpu → (s.wheel.timers t).period = 0 →
      .cancelled t (s.slots t).stamp ∈ s.log := fun full once =>
    Classical.not_not.mp fun running => full (room once running)
  unfold asyncTimerFire at taken
  split at taken
  · next before =>
      rw [before] at flight
      have moved := Move.read (t := t) cpu timer flight
      split at taken
      · next used =>
          obtain rfl := Option.some.inj taken
          rw [if_pos (show (entryOf s t).slot.used = true from used)] at moved
          exact setCallback_local ok pool found moved
      · next unused =>
          rw [if_neg (show ¬ (entryOf s t).slot.used = true from unused)] at moved
          exact finish_local ok taken found moved
  · next before =>
      rw [before] at flight
      split at taken
      · obtain rfl := Option.some.inj taken
        exact setCallback_local ok pool found (.lookup cpu _ timer flight)
      · next gone =>
          obtain rfl := Option.some.inj taken
          exact drop_local ok timer found before (lost (by simp [Room, before, gone]))
  · next before =>
      rw [before] at flight
      split at taken
      · next empty =>
          obtain rfl := Option.some.inj taken
          exact drop_local ok timer found before (lost (by simp [Room, before, empty]))
      · obtain rfl := Option.some.inj taken
        have reported : Ok { s with ipc.irqFree := s.ipc.irqFree - 1 } := { ok with }
        exact setCallback_local reported pool found (.alloc cpu _ _ timer flight)
  · next port index before =>
      split at taken
      · next full =>
          obtain rfl := Option.some.inj taken
          exact drop_local ok timer found before (lost (by simp [Room, before, full]))
      · obtain rfl := Option.some.inj taken
        exact enqueue_local ok timer found before fun gone =>
          lost (by simp [Room, before, gone])
  · next before =>
      rw [before] at flight
      have moved := Move.freeing (t := t) cpu timer flight
      split at taken
      · next once =>
          obtain rfl := Option.some.inj taken
          rw [if_pos (show (entryOf s t).period = 0 from once)] at moved
          exact setCallback_local ok pool found moved
      · next periodic =>
          rw [if_neg (show ¬ (entryOf s t).period = 0 from periodic)] at moved
          exact finish_local ok taken found moved
  · next before =>
      rw [before] at flight
      exact free_finish_local ok taken found (.release cpu timer flight)
  · cases taken

theorem watchdogFire_local (watchdog : timerPoolMax ≤ t) (pool : t < pooled)
    (found : s.wheel.drains cpu = some ⟨now, .calling t⟩) (taken : watchdogFire s cpu t = some s') :
    Ok s' ∧ Local .callback s s' := by
  have flight : (entryOf s t).flights cpu = some (.calling (s.callbacks cpu)) :=
    flightOf_calling found
  unfold watchdogFire at taken
  split at taken
  · next before =>
      rw [before] at flight
      have moved := Move.bite (t := t) cpu watchdog flight
      split at taken
      · next used =>
          obtain rfl := Option.some.inj taken
          rw [if_pos (show (entryOf s t).slot.used = true from used)] at moved
          have freed : Ok (s.free t) := ok.setSlot t _
          refine ⟨freed.setCallback _ pool found, .of_callback (t := t) (fun u other => ?_) ?_⟩
          · rw [entryOf_setCallback (s := s.free t) _ found, if_neg other]
            exact entryOf_setSlot_of_ne other _
          · rw [entryOf_setCallback (s := s.free t) _ found, if_pos rfl, entryOf_free]
            exact moved
      · next unused =>
          rw [if_neg (show ¬ (entryOf s t).slot.used = true from unused)] at moved
          exact free_finish_local ok taken found moved
  · next pid before =>
      rw [before] at flight
      have told : Ok { s with killed := pid :: s.killed } := { ok with }
      exact finish_local (s := { s with killed := pid :: s.killed }) told taken
        found (.kill cpu pid watchdog flight)
  · cases taken

end

theorem callback_local (taken : callback s cpu = some s')
    (guard : Guard s (.callback cpu)) : Ok s' ∧ Local .callback s s' := by
  unfold callback at taken
  split at taken
  · next now t found =>
      split at taken
      · next timer => exact asyncTimerFire_local ok timer found taken (guard now t found timer)
      next watchdog =>
        split at taken
        · next pool => exact watchdogFire_local ok (Nat.le_of_not_lt watchdog) pool found taken
        · cases taken
  · cases taken

end

/-! ### The timer heap -/

/-- The entry is overwritten, or its timer is armed or cancelled. -/
def Touched (s s' : State) (t : Nat) : Prop :=
  s'.slots t ≠ s.slots t ∨ ¬ Timers.Alike s.wheel s'.wheel t

/-- A drain takes the armed timer, whose deadline is past. -/
def Expires (s s' : State) (t : Nat) : Prop :=
  ∃ cpu now fireGen, s'.wheel.drains cpu = some ⟨now, .popped t fireGen⟩ ∧
    s.wheel.armed t = true ∧ s.wheel.deadline t ≤ now

/-- What a section of the heap keeps, and that it touches timers of the pools
only when they expire. -/
def Sections (s s' : State) : Prop :=
  Ok s' ∧ Local .wheel s s' ∧ ∀ t, t < pooled → Touched s s' t → Expires s s' t

theorem Sections.of_alike (ok : Ok s) (heap : Timers.HeapOk wheel)
    (drains : wheel.drains = s.wheel.drains)
    (alike : ∀ t, t < pooled → Timers.Alike s.wheel wheel t) :
    Sections s { s with wheel := wheel } := by
  refine ⟨ok.rewheel heap drains, fun t pool => .inl ?_, fun t pool => ?_⟩
  · exact entryOf_congr rfl (alike t pool) rfl (flightOf_congr drains rfl) rfl rfl
  rintro (slot | unlike)
  · exact absurd rfl slot
  · exact absurd (alike t pool) unlike

variable {drain : Option Timers.Drain}

theorem Ok.redrain (ok : Ok s) (heap : Timers.HeapOk wheel)
    (drains : wheel.drains = update s.wheel.drains cpu drain)
    (quiet : s.callbacks cpu = none) : Ok { s with wheel := wheel } where
  heap := heap
  calls := ok.calls
  callbacks := by
    intro other callback isCallback
    have apart : other ≠ cpu := by
      rintro rfl
      cases quiet.symm.trans isCallback
    rw [drains, update_of_ne apart]
    exact ok.callbacks other callback isCallback

theorem Ok.quiet (ok : Ok s) (off : ∀ now t, t < pooled →
    s.wheel.drains cpu ≠ some ⟨now, .calling t⟩) : s.callbacks cpu = none := by
  refine eq_none_iff_forall_ne_some.mpr fun callback isCallback => ?_
  obtain ⟨now, t, pool, found⟩ := ok.callbacks cpu callback isCallback
  exact off now t pool found

section

variable {t : Nat} (drains : wheel.drains = update s.wheel.drains cpu drain)
  (here : flightOf { s with wheel := wheel } t cpu = flight)
include drains here

theorem flightOf_redrain :
    flightOf { s with wheel := wheel } t = update (flightOf s t) cpu flight := by
  funext other
  by_cases same : other = cpu
  · rw [same, update_self, here]
  · rw [update_of_ne same]
    simp only [flightOf, drains, update_of_ne same]

theorem entryOf_redrain :
    entryOf { s with wheel := wheel } t = { entryOf s t with
      armed := wheel.armed t
      period := (wheel.timers t).period
      gen := (wheel.timers t).gen }.setFlight cpu flight := by
  unfold Entry.setFlight entryOf
  rw [flightOf_redrain drains here]
  rfl

end

section

variable {t : Nat} (alike : Timers.Alike s.wheel wheel t)
  (drains : wheel.drains = update s.wheel.drains cpu drain)
include alike drains

theorem entryOf_alike (here : flightOf { s with wheel := wheel } t cpu = flight) :
    entryOf { s with wheel := wheel } t = (entryOf s t).setFlight cpu flight := by
  rw [entryOf_redrain drains here, alike.armed, alike.period, alike.gen]
  rfl

theorem entryOf_unmoved (before : flightOf s t cpu = none)
    (after : flightOf { s with wheel := wheel } t cpu = none) :
    entryOf { s with wheel := wheel } t = entryOf s t := by
  rw [entryOf_alike alike drains after]
  exact Entry.setFlight_same before

end

section

variable (ok : Ok s)
include ok

theorem Sections.of_drain (heap : Timers.HeapOk wheel) (alike : ∀ t, Timers.Alike s.wheel wheel t)
    (drains : wheel.drains = update s.wheel.drains cpu drain) (quiet : s.callbacks cpu = none)
    (moved : Local .wheel s { s with wheel := wheel }) : Sections s { s with wheel := wheel } := by
  refine ⟨ok.redrain heap drains quiet, moved, fun t _ touched => ?_⟩
  rcases touched with slot | unlike
  · exact absurd rfl slot
  · exact absurd (alike t) unlike

theorem Sections.of_check {t fireGen : Nat}
    (heap : Timers.HeapOk wheel) (alike : ∀ t, Timers.Alike s.wheel wheel t)
    (before : s.wheel.drains cpu = some ⟨now, .popped t fireGen⟩)
    (drains : wheel.drains = update s.wheel.drains cpu
      (some ⟨now, if (s.wheel.timers t).gen = fireGen then .calling t else .returning t⟩)) :
    Sections s { s with wheel := wheel } := by
  have quiet : s.callbacks cpu = none := ok.quiet fun _ _ _ found => by
    cases before.symm.trans found
  have after : ∀ u, flightOf { s with wheel := wheel } u cpu =
      if u = t ∧ (s.wheel.timers t).gen = fireGen then some (.calling none)
      else none := by
    intro u
    by_cases same : (s.wheel.timers t).gen = fireGen
    · rw [if_pos same] at drains
      simp [flightOf, drains, quiet, same, eq_comm]
    · rw [if_neg same] at drains
      simp [flightOf, drains, same]
  refine .of_drain ok heap alike drains quiet fun u _ => ?_
  by_cases here : u = t
  · subst here
    refine .inr ?_
    rw [entryOf_alike (alike u) drains (after u)]
    simp only [true_and]
    exact .check cpu fireGen (by simp [entryOf, flightOf, before])
  · refine .inl (entryOf_unmoved (alike u) drains ?_ ?_)
    · simp [flightOf, before, Ne.symm here]
    · rw [after u, if_neg fun both => here both.1]

theorem Sections.of_pop {t : Nat} (heap : Timers.HeapOk wheel)
    (before : ∀ u, Timers.inFlight s.wheel.drains cpu u = false) (wasArmed : s.wheel.armed t = true)
    (due : s.wheel.deadline t ≤ now)
    (isArmed : wheel.armed t = decide ((s.wheel.timers t).period ≠ 0))
    (period : (wheel.timers t).period = (s.wheel.timers t).period)
    (gen : (wheel.timers t).gen = (s.wheel.timers t).gen)
    (drains : wheel.drains = update s.wheel.drains cpu
      (some ⟨now, .popped t (s.wheel.timers t).gen⟩))
    (alike : ∀ u, u ≠ t → Timers.Alike s.wheel wheel u) : Sections s { s with wheel := wheel } := by
  have quiet : s.callbacks cpu = none := ok.quiet fun now' u _ found => by
    have off := before u
    simp [Timers.inFlight, found, Timers.Phase.holds] at off
  have after : ∀ u, flightOf { s with wheel := wheel } u cpu =
      if u = t then some (.popped (s.wheel.timers t).gen) else none := by
    intro u
    simp [flightOf, drains, eq_comm]
  refine ⟨ok.redrain heap drains quiet, fun u _ => ?_, fun u _ touched => ?_⟩
  · by_cases here : u = t
    · subst here
      refine .inr ?_
      rw [entryOf_redrain drains (after u), isArmed, period, gen, if_pos rfl]
      exact .pop cpu (flightOf_eq_none.mpr (before u)) wasArmed
    · refine .inl (entryOf_unmoved (alike u here) drains (flightOf_eq_none.mpr (before u)) ?_)
      rw [after u, if_neg here]
  · have here : u = t := by
      by_contra apart
      rcases touched with slot | unlike
      · exact absurd rfl slot
      · exact absurd (alike u apart) unlike
    rw [here]
    refine ⟨cpu, now, (s.wheel.timers t).gen, ?_, wasArmed, due⟩
    rw [drains, update_self]

theorem Sections.of_effect {label : Timers.Label}
    (isForeign : foreign s.wheel label = true) (heap : Timers.HeapOk wheel)
    (effect : Timers.Effect label s.wheel wheel) : Sections s { s with wheel := wheel } := by
  cases effect with
  | quiet alike drains => exact .of_alike ok heap drains fun t _ => alike t
  | idle _ _ alike drains before after =>
    refine .of_drain ok heap alike drains (ok.quiet fun now t _ found => ?_) fun t _ => .inl ?_
    · have off := before t
      simp [Timers.inFlight, found, Timers.Phase.holds] at off
    · exact entryOf_unmoved (alike t) drains (flightOf_eq_none.mpr (before t))
        (flightOf_eq_none.mpr (after t))
  | check _ _ _ _ alike before drains => exact .of_check ok heap alike before drains
  | call cpu _ t isCall alike before drains =>
    have far : pooled ≤ t := by
      rw [isCall, foreign, before] at isForeign
      exact of_decide_eq_true isForeign
    have quiet : s.callbacks cpu = none := ok.quiet fun now' u pool found => by
      cases before.symm.trans found
      exact absurd pool (Nat.not_lt.mpr far)
    refine .of_drain ok heap alike drains quiet fun u pool => .inl ?_
    have apart : t ≠ u := fun same => by omega
    refine entryOf_unmoved (alike u) drains ?_ ?_
    · simp [flightOf, before, apart]
    · simp [flightOf, drains]
  | pop _ _ _ before wasArmed due isArmed period gen drains alike =>
    exact .of_pop ok heap before wasArmed due isArmed period gen drains alike

theorem Sections.of_exec {label : Timers.Label} (isForeign : foreign s.wheel label = true)
    (taken : Timers.exec s.wheel label = some wheel) : Sections s { s with wheel := wheel } := by
  have plain : (∀ t d, label ≠ .armAt t d) → (∀ t now p, label ≠ .armPeriodic t now p) →
      (∀ t, label ≠ .cancel t) → Sections s { s with wheel := wheel } := by
    intro arms armsPeriodic cancels
    obtain ⟨heap, effect⟩ := ok.heap.section_ arms armsPeriodic cancels taken
    exact .of_effect ok isForeign heap effect
  cases label with
  | armAt t deadline =>
    obtain rfl := Option.some.inj taken
    obtain ⟨heap, _, _, drains, others⟩ := ok.heap.arm t deadline 0
    refine .of_alike ok heap drains fun u pool => others u ?_
    have far : pooled ≤ t := of_decide_eq_true isForeign
    omega
  | armPeriodic t now period =>
    obtain rfl := Option.some.inj taken
    obtain ⟨heap, _, _, drains, others⟩ := ok.heap.arm t ((now + period) % Timers.clockWord) period
    refine .of_alike ok heap drains fun u pool => others u ?_
    have far : pooled ≤ t := of_decide_eq_true isForeign
    omega
  | cancel t =>
    obtain rfl := Option.some.inj taken
    obtain ⟨heap, _, drains, others⟩ := ok.heap.cancel t
    refine .of_alike ok heap drains fun u pool => others u ?_
    have far : pooled ≤ t := of_decide_eq_true isForeign
    omega
  | _ => exact plain nofun nofun nofun

/-! ### Runs -/

theorem step_local (taken : step s label s') (guard : Guard s label) :
    Ok s' ∧ Local (actor s label) s s' := by
  cases label with
  | timerSet =>
    simp only [step, exec, ite_none_right_eq_some, Option.some.injEq] at taken
    rw [← taken.2]
    exact sysTimerSet_local ok taken.1 guard
  | timerCancel =>
    simp only [step, exec, ite_none_right_eq_some, Option.some.injEq] at taken
    rw [← taken.2]
    exact sysTimerCancel_local ok taken.1
  | watchdogSet =>
    simp only [step, exec, ite_none_right_eq_some, Option.some.injEq] at taken
    rw [← taken.2]
    refine sysWatchdogSet_local ok taken.1 fun missing enabled => ?_
    exact guard missing fun off => enabled (by rw [off]; rfl)
  | cleanup thread =>
    simp only [step, exec, ite_none_right_eq_some, Option.some.injEq] at taken
    rw [← taken.2]
    refine ⟨ok.setCall thread _ ?_, .of_idle _ (fun _ => callOf_of_idle taken.1) ?_⟩
    · rintro c ⟨⟩
      trivial
    · rintro _ ⟨⟩
      rfl
  | advance thread now grown =>
    obtain ⟨call, isCall, rfl⟩ := map_eq_some_iff.mp taken
    have who : actor s (.advance thread now grown) = .process call.pid := by
      simp only [actor, isCall]
    rw [who]
    exact advance_local ok isCall fun t timeoutMs isPc => guard call t timeoutMs isCall isPc
  | callback => exact callback_local ok taken guard
  | ipc =>
    obtain rfl := Option.some.inj taken
    exact ⟨{ ok with }, fun _ _ => .inl rfl⟩
  | wheel =>
    simp only [step, exec, ite_none_right_eq_some, map_eq_some_iff] at taken
    obtain ⟨isForeign, _, ran, rfl⟩ := taken
    obtain ⟨ok', moved, _⟩ := Sections.of_exec ok isForeign ran
    exact ⟨ok', moved⟩

end

/-- What every run keeps. -/
structure Lawful (s : State) : Prop where
  ok : Ok s
  sound : ∀ t, t < pooled → Sound t (entryOf s t)
  lives : ∀ t, t < timerPoolMax → Lives t (entryOf s t)

theorem Lawful.initial : Lawful initial where
  ok := {
    heap := .initial
    callbacks := nofun
    calls := nofun }
  sound := fun _ _ => {
    calls := nofun
    armedBy := fun _ => rfl
    dogs := nofun }
  lives := fun _ _ => {
    past := nofun
    kinds := nofun
    alone := nofun
    unborn := nofun
    arming := nofun
    ending := nofun
    lives := nofun }

theorem Lawful.preserved (lawful : Lawful s)
    (next : Guarded step Guard s label s') : Lawful s' := by
  obtain ⟨ok', moved⟩ := step_local lawful.ok next.1 next.2
  refine ⟨ok', fun t pool => ?_, fun t timer => ?_⟩
  · rcases moved t pool with same | move
    · exact same ▸ lawful.sound t pool
    · exact (lawful.sound t pool).move move
  · have pool : t < pooled := Nat.lt_of_lt_of_le timer (by decide)
    rcases moved t pool with same | move
    · exact same ▸ lawful.lives t timer
    · exact (lawful.lives t timer).move move (lawful.sound t pool) timer

/-- A step leaves the entries of others alone.  What happens to an entry in use
is done by its owner, by the timer heap, or by the callback of a timer that was
armed for the owner (`acts`); the heap takes a timer when it expires (`heap`);
an armed watchdog stays as it is until it expires or its owner changes it
(`watched`); and a drain that is over leaves no timer due (`drained`). -/
structure Isolated (s : State) (label : Label) (s' : State) : Prop where
  acts : ∀ t, t < pooled → (s.slots t).used = true →
    entryOf s' t ≠ entryOf s t → actor s label = .process (s.slots t).ownerPid ∨
    actor s label = .wheel ∨ actor s label = .callback ∧ s.armedBy t = (s.slots t).stamp
  heap : ∀ t, t < pooled → actor s label = .wheel → Touched s s' t → Expires s s' t
  watched : ∀ t, timerPoolMax ≤ t → t < pooled → (s.slots t).used = true → s.wheel.armed t = true →
    Touched s s' t → actor s label = .process (s.slots t).ownerPid ∨ Expires s s' t
  drained : ∀ cpu now, label = .wheel (.pop cpu) → s.wheel.drains cpu = some ⟨now, .ready⟩ →
    s'.wheel.drains cpu = none → ∀ t, s'.wheel.armed t = true → now < s'.wheel.deadline t

/-- The event of a one-shot timer that was started, and that its owner is not
cancelling, went to its port once; or it is to come: the entry is still that of
the owner, and the timer is armed or in the hands of a drain. -/
def Delivered (s : State) : Prop :=
  ∀ t n port, t < timerPoolMax → .started t n port ∈ s.log →
    .cancelled t n ∉ s.log → ports n (notesOf s t) = [port] ∨ ports n (notesOf s t) = [] ∧
      (s.slots t).used = true ∧ (s.slots t).stamp = n ∧ (s.slots t).word = port ∧
        (s.wheel.armed t = true ∨ ∃ cpu, Timers.inFlight s.wheel.drains cpu t = true)

theorem Touched.moved {t : Nat} (touched : Touched s s' t) : entryOf s' t ≠ entryOf s t := by
  intro same
  rcases touched with slot | unlike
  · exact slot (congrArg Entry.slot same)
  · exact unlike ⟨congrArg Entry.armed same, congrArg Entry.period same, congrArg Entry.gen same⟩

theorem Lawful.isolated (lawful : Lawful s)
    (next : Guarded step Guard s label s') : Isolated s label s' := by
  obtain ⟨ok', moved⟩ := step_local lawful.ok next.1 next.2
  have acts : ∀ t, t < pooled → (s.slots t).used = true →
      entryOf s' t ≠ entryOf s t → actor s label = .process (s.slots t).ownerPid ∨
      actor s label = .wheel ∨ actor s label = .callback ∧ s.armedBy t = (s.slots t).stamp :=
    fun t pool used changed => (lawful.sound t pool).acts ((moved t pool).resolve_left changed) used
  have heap : ∀ t, t < pooled → actor s label = .wheel → Touched s s' t → Expires s s' t := by
    intro t pool isWheel touched
    cases label with
    | wheel =>
      have taken := next.1
      simp only [step, exec, ite_none_right_eq_some, map_eq_some_iff] at taken
      obtain ⟨isForeign, _, ran, rfl⟩ := taken
      exact (Sections.of_exec lawful.ok isForeign ran).2.2 t pool touched
    | advance =>
      obtain ⟨_, isCall, _⟩ := map_eq_some_iff.mp next.1
      simp only [actor, isCall] at isWheel
      cases isWheel
    | timerSet | timerCancel | watchdogSet | cleanup | callback | ipc => cases isWheel
  refine ⟨acts, heap, ?_, ?_⟩
  · intro t watchdog pool used armed touched
    rcases acts t pool used touched.moved with owner | isWheel | ⟨called, _⟩
    · exact .inl owner
    · exact .inr (heap t pool isWheel touched)
    · exact absurd called ((lawful.sound t pool).watched
        ((moved t pool).resolve_left touched.moved) watchdog armed)
  rintro cpu now rfl ready finished t armed
  have taken := next.1
  simp only [step, exec, ite_none_right_eq_some, map_eq_some_iff] at taken
  obtain ⟨_, wheel, ran, rfl⟩ := taken
  simp only [Timers.exec, ready, Option.some.injEq] at ran
  obtain rfl := ran
  unfold Timers.drainNext at finished armed ⊢
  split at finished
  · obtain ⟨h, after, result, _⟩ := Timers.popDue_spec lawful.ok.heap cpu
      (show Timers.headDue s.wheel now = true from by assumption)
    rw [result] at finished
    simp at finished
  · next notDue =>
      rw [if_neg notDue] at armed ⊢
      exact lawful.ok.heap.none_due (by simpa using notDue) armed

theorem Lawful.delivered (lawful : Lawful s) : Delivered s := by
  intro t n port timer started running
  have lives := lawful.lives t timer
  have noted : ∀ {note : Note}, note.timer = t →
      (note ∈ s.log ↔ note ∈ (entryOf s t).notes) := fun here =>
    ⟨fun member => mem_filter.mpr ⟨member, beq_iff_eq.mpr here⟩,
      fun member => (mem_filter.mp member).1⟩
  obtain ⟨earlier, now⟩ := lives.lives n port ((noted rfl).mp started)
    fun cancelled => running ((noted rfl).mpr cancelled)
  have past := lives.past _ ((noted rfl).mp started)
  rcases Nat.lt_or_eq_of_le past with before | same
  · exact .inl (earlier before)
  have same : n = (s.slots t).stamp := same
  rcases now same with pending | done
  · refine .inr ⟨?_, pending.used, same.symm, pending.port, ?_⟩
    · rw [same]
      exact pending.unposted
    rcases pending.place with ⟨armed, _⟩ | ⟨_, cpu, flight, holds, _⟩
    · exact .inl armed
    refine .inr ⟨cpu, ?_⟩
    by_contra off
    have idle := flightOf_eq_none.mpr (Bool.eq_false_iff.mpr off)
    cases idle.symm.trans holds
  · refine .inl ?_
    rw [same]
    exact done.one

/-- In every run that gives an entry away only when nothing is under way on it,
and that arms a watchdog only when no drain holds it, the timers and the
watchdogs of a process are its own. -/
theorem timers_isolated {labels : List Label} (run : Steps (Guarded step Guard) initial labels s) :
    Delivered s ∧ ∀ label s', Guarded step Guard s label s' → Isolated s label s' := by
  have lawful : Lawful s := run.invariant (fun _ _ _ old next => old.preserved next) .initial
  exact ⟨lawful.delivered, fun _ _ next => lawful.isolated next⟩

end Steps

/-! ### Runs that meet the condition, and runs that do not -/

/-- Process 1 turns its watchdog off; process 2 is given the entry and arms it
before the timer is cancelled. -/
def takenDog : List Label :=
  [.watchdogSet 1 1 100, .advance 1 0 false, .advance 1 0 false,
    .watchdogSet 1 1 0, .watchdogSet 2 2 100, .advance 2 0 false, .advance 2 0 false]

/-- Port 7 is active, and `queued` messages wait in its queue. -/
def onePort (queued : Nat) : Ipc where
  ports := update (fun _ => none) 7 (some 0)
  msgCount _ := queued
  irqFree := ipcIrqPoolSize

/-- The timer of process 1 expires while it is being cancelled; process 2 is
given the entry and arms it before that. -/
def lateCancel : List Label :=
  [.ipc (onePort 0), .timerSet 1 1 7 5 false, .advance 1 0 false,
    .timerCancel 1 1 0, .wheel (.tick 0 5000000), .wheel (.check 0),
    .callback 0, .callback 0, .callback 0, .callback 0, .callback 0, .callback 0,
    .timerSet 2 2 9 5 false, .advance 2 5000000 false, .advance 1 0 false, .advance 1 0 false]

/-- The timer of process 1 expires while the queue of its port is full. -/
def fullQueue : List Label :=
  [.ipc (onePort 256), .timerSet 1 1 7 5 false, .advance 1 0 false, .wheel (.tick 0 5000000),
    .wheel (.check 0), .callback 0, .callback 0, .callback 0, .callback 0, .callback 0, .callback 0]

/-- A process turns the watchdog of another one off, a timer that its owner
does not cancel never fires, and the event of another one is lost. -/
theorem timers_isolated_fails :
    (∃ s s', Steps step initial takenDog s ∧ step s (.advance 1 0 false) s' ∧
      ¬ Isolated s (.advance 1 0 false) s') ∧ (∃ s, Steps step initial lateCancel s ∧
    ¬ Delivered s) ∧ ∃ s, Steps step initial fullQueue s ∧ ¬ Delivered s := by
  have dog : (followRun exec initial takenDog).map (fun s =>
      (s.slots 64, s.wheel.armed 64, s.calls 1,
        (advance s 1 ⟨1, 1, .dogDetach 64⟩ 0 false).wheel.armed 64)) =
      some (⟨true, 2, 100, 2⟩, true, some ⟨1, 1, .dogDetach 64⟩, false) := by
    decide +kernel
  have late : (followRun exec initial lateCancel).map (fun s =>
      (s.log, s.slots 0)) =
      some ([.started 0 2 9, .posted 0 1 7, .cancelled 0 1, .started 0 1 7], ⟨false, 2, 9, 2⟩) := by
    decide +kernel
  have full : (followRun exec initial fullQueue).map (fun s => (s.log, s.slots 0)) =
      some ([.started 0 1 7], ⟨false, 1, 7, 1⟩) := by
    decide +kernel
  have undelivered : ∀ {s : State} {n p : Nat}, .started 0 n p ∈ s.log → .cancelled 0 n ∉
      s.log → ports n (notesOf s 0) = [] → (s.slots 0).used = false → ¬ Delivered s := by
    intro s n p started running none freed delivered
    rcases delivered 0 n p (by decide) started running with one | ⟨_, used, _⟩
    · cases none.symm.trans one
    · exact absurd (freed.symm.trans used) (by decide)
  obtain ⟨s, run, seen⟩ := Steps.of_followed dog
  obtain ⟨t, run', seen'⟩ := Steps.of_followed late
  obtain ⟨u, run'', seen''⟩ := Steps.of_followed full
  simp only [Prod.mk.injEq] at seen seen' seen''
  obtain ⟨slot, armed, isCall, disarmed⟩ := seen
  refine ⟨⟨s, advance s 1 ⟨1, 1, .dogDetach 64⟩ 0 false, run, ?_, fun isolated => ?_⟩,
    ⟨t, run', ?_⟩, u, run'', ?_⟩
  · simp only [step, exec, isCall, map_some]
  · have acts := isolated.acts 64 (by decide) (by rw [slot]) fun same => by
      have kept : (advance s 1 ⟨1, 1, .dogDetach 64⟩ 0 false).wheel.armed 64 =
          s.wheel.armed 64 := congrArg Entry.armed same
      rw [armed, disarmed] at kept
      cases kept
    simp [actor, isCall, slot] at acts
  · obtain ⟨isLog, freed⟩ := seen'
    exact undelivered (n := 2) (p := 9) (by simp [isLog]) (by simp [isLog])
      (by rw [notesOf, isLog]; rfl) (by rw [freed])
  · obtain ⟨isLog, freed⟩ := seen''
    exact undelivered (n := 1) (p := 7) (by simp [isLog]) (by simp [isLog])
      (by rw [notesOf, isLog]; rfl) (by rw [freed])

/-- Two processes have taken an entry each. -/
def bothTaken : State :=
  sysWatchdogSet (sysTimerSet initial 1 1 7 5 false) 2 2 100

/-- The watchdog is about to be armed. -/
def dogCancelled : State :=
  advance bothTaken 2 ⟨2, 1, .dogRefresh 64 100⟩ 0 false

/-- The watchdog is armed. -/
def dogArmed : State :=
  advance dogCancelled 2 ⟨2, 1, .dogArm 64 100⟩ 0 false

/-- The timer of the other process is armed and expires. -/
def firing : List Label :=
  [.advance 1 0 false, .ipc (onePort 255), .wheel (.tick 0 5000000),
    .wheel (.check 0), .callback 0, .callback 0, .callback 0, .callback 0,
    .callback 0, .callback 0, .wheel (.ret 0), .wheel (.pop 0)]

theorem dogArmed_run : Steps (Guarded step Guard) initial [.timerSet 1 1 7 5 false,
    .watchdogSet 2 2 100, .advance 2 0 false, .advance 2 0 false] dogArmed := by
  have free : freeSlot (sysTimerSet initial 1 1 7 5 false) timerPoolMax watchdogMax = some 64 := by
    decide +kernel
  have refreshing : bothTaken.calls 2 = some ⟨2, 1, .dogRefresh 64 100⟩ := by decide +kernel
  have one : Guarded step Guard initial (.timerSet 1 1 7 5 false)
      (sysTimerSet initial 1 1 7 5 false) :=
    ⟨rfl, fun _ _ => ⟨rfl, fun _ => rfl, nofun⟩⟩
  have two : Guarded step Guard (sysTimerSet initial 1 1 7 5 false)
      (.watchdogSet 2 2 100) bothTaken := by
    refine ⟨rfl, fun _ _ t found => ?_⟩
    obtain rfl := Option.some.inj (free.symm.trans found)
    refine ⟨rfl, fun _ => rfl, fun thread call isCall target => ?_⟩
    have isCall : update initial.calls 1
        (some ⟨1, 1, .setArm 0 7 5 true⟩) thread = some call := isCall
    rw [update_apply] at isCall
    split at isCall
    · cases isCall
      cases target
    · cases isCall
  have three : Guarded step Guard bothTaken (.advance 2 0 false)
      dogCancelled := by
    refine ⟨rfl, fun call t timeoutMs isCall isArm => ?_⟩
    cases refreshing.symm.trans isCall
    cases isArm
  have four : Guarded step Guard dogCancelled (.advance 2 0 false) dogArmed :=
    ⟨rfl, fun _ _ _ _ _ _ => rfl⟩
  exact .cons one (.cons two (.cons three (.cons four (.nil _))))

/-- A test that is enough for the condition, for steps that take no entry and
arm no watchdog. -/
def guardCheck (s : State) : Label → Bool
  | .timerSet _ _ _ _ _ | .watchdogSet _ _ _ => false
  | .advance thread _ _ =>
    match s.calls thread with
    | some ⟨_, _, .dogArm _ _⟩ => false
    | _ => true
  | .callback cpu =>
    match s.wheel.drains cpu with
    | some ⟨_, .calling t⟩ => decide (Room s t cpu)
    | _ => true
  | _ => true

theorem guardCheck_sound {s : State} (passed : guardCheck s label = true) : Guard s label := by
  cases label with
  | timerSet | watchdogSet => cases passed
  | advance =>
    intro call t timeoutMs isCall isArm
    obtain ⟨_, _, pc⟩ := call
    obtain rfl : pc = .dogArm t timeoutMs := isArm
    simp [guardCheck, isCall] at passed
  | callback =>
    intro now t found _ _ _
    simpa [guardCheck, found] using passed
  | timerCancel | cleanup | wheel | ipc => trivial

/-- The event goes to port 7, and the watchdog of the other process stays
armed. -/
theorem timers_isolated_firing : ∃ s, Steps (Guarded step Guard) initial
      ([.timerSet 1 1 7 5 false, .watchdogSet 2 2 100, .advance 2 0 false,
        .advance 2 0 false] ++ firing) s ∧
    s.log = [.posted 0 1 7, .started 0 1 7] ∧ s.wheel.armed 64 = true ∧ (s.slots 0).used = false ∧
    Delivered s ∧ ∀ label s', Guarded step Guard s label s' → Isolated s label s' := by
  have followed : (followRun (checked exec guardCheck) dogArmed firing).map
      (fun s => (s.log, s.wheel.armed 64, (s.slots 0).used)) =
      some ([.posted 0 1 7, .started 0 1 7], true, false) := by
    decide +kernel
  obtain ⟨s, later, seen⟩ := Steps.guarded_of_followed guardCheck_sound followed
  simp only [Prod.mk.injEq] at seen
  have run := dogArmed_run.append later
  obtain ⟨delivered, isolated⟩ := timers_isolated run
  exact ⟨s, run, seen.1, seen.2.1, seen.2.2, delivered, isolated⟩

end MainDob.Kernel.AsyncTimers
