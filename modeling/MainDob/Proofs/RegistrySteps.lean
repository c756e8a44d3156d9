/-
Purpose: What one step of the service registry can do: to the table of names, to
  the two lists, to the frames of the calls and to the log.
Main exports: Shift, Install, Effect
-/
import MainDob.Lib.Logs
import MainDob.Kernel.Registry

namespace MainDob.Proofs.RegistrySteps

open Kernel.Registry
open Option

/-- A frame moves on and nothing else happens. -/
inductive Shift : Frame → Frame → Prop where
  /-- A wait sleeps or wakes up. -/
  | rest (record : Waiter) (queued : Bool) (timeoutMs : Nat)
      (verdict verdict' : WaitResult) (point point' : WaitPoint) :
      Shift (.waiting record timeoutMs verdict point)
        (.waiting { record with queued := queued } timeoutMs verdict' point')
  /-- A call does nothing. -/
  | refuse (code : Int) : Shift .idle (.returned code)
  /-- A request is started at once. -/
  | start : Shift .idle (.started true)
  /-- A drain whose batch was full goes round again, or the drain ends. -/
  | drainAgain (name : Name) (h : BitVec 32) :
      Shift (.drain name h (.waking [] [] true)) (.drain name h .collecting)
  | drained (name : Name) (h : BitVec 32) :
      Shift (.drain name h (.waking [] [] false)) (.returned 0)
  /-- A cleanup goes round again with the requests, or on to the entries. -/
  | freeAgain (owner : Pid) :
      Shift (.cleanup owner (.freeing [] true)) (.cleanup owner .requests)
  | freed (owner : Pid) :
      Shift (.cleanup owner (.freeing [] false)) (.cleanup owner .entries)
  /-- A cleanup goes round again with a name, or on to the next entry. -/
  | wakeAgain (owner : Pid) (name : Name) (h : BitVec 32) :
      Shift (.cleanup owner (.waking name h [] true)) (.cleanup owner (.collecting name h))
  | woken (owner : Pid) (name : Name) (h : BitVec 32) :
      Shift (.cleanup owner (.waking name h [] false)) (.cleanup owner .entries)
  /-- A cleanup ends. -/
  | cleaned (owner : Pid) :
      Shift (.cleanup owner .entries) (.returned 0)

/-- Where a registration writes its entry: over the one of that name, where its
owner may be replaced, or over one that is not active. -/
inductive Install (s : State) (name : Name) (port : Nat) (owner : Pid) :
    Nat → Nat → Entry → Prop where
  | renew (i : Nat) (found : entryFind s name (hashName name) = some i)
      (allowed : (s.entries i).ownerPid = owner ∨
        processGetByPid s (s.entries i).ownerPid = false) :
      Install s name port owner i s.count { s.entries i with portId := port, ownerPid := owner }
  | new (i count : Nat) (absent : entryFind s name (hashName name) = none)
      (free : entryAlloc s = some (i, count)) :
      Install s name port owner i count ⟨name, hashName name, port, owner, true⟩

/-- What a step of each kind does. -/
inductive Effect (s : State) : Label → State → Prop where
  /-- A frame moves on. -/
  | shift (label : Label) (call : CallId) (frame frame' : Frame)
      (here : s.frames call = frame) (moves : Shift frame frame') :
      Effect s label (s.setFrame call frame')
  /-- The process table changes. -/
  | process (pid : Pid) (alive : Bool) :
      Effect s (.process pid alive) ({ s with alive := Function.update s.alive pid alive }.record
          (.process pid alive))
  /-- A cleanup begins. -/
  | clean (call : CallId) (owner : Pid) (here : s.frames call = .idle) :
      Effect s (.cleanup call owner)
        ((s.setFrame call (.cleanup owner .requests)).record (.cleaning call owner))
  /-- A name is installed. -/
  | install (call : CallId) (name : Name) (port : Nat) (owner : Pid)
      (i count : Nat) (entry : Entry) (here : s.frames call = .idle)
      (writes : Install s name port owner i count entry) :
      Effect s (.register call name port owner)
        ((({ s with count := count }.setEntry i entry).setFrame call
          (.drain name (hashName name) .collecting)).record (.registered call name port owner))
  /-- A name is taken out by its owner, or with it. -/
  | withdraw (label : Label) (call : CallId) (owner : Pid) (i : Nat)
      (frame frame' : Frame) (here : s.frames call = frame)
      (inUse : i < s.count) (active : (s.entries i).active = true)
      (owns : (s.entries i).ownerPid = owner)
      (who : (frame = .idle ∧ frame' = .returned 0) ∨
        (frame = .cleanup owner .entries ∧ frame' = .cleanup owner
          (.collecting (s.entries i).name (s.entries i).nameHash))) :
      Effect s label (((s.setEntry i { s.entries i with active := false }).setFrame call
          frame').record (.withdrawn call (s.entries i).name owner))
  /-- A name is looked up. -/
  | look (label : Label) (call : CallId) (name : Name)
      (here : s.frames call = .idle) :
      Effect s label ((s.setFrame call (.found (portOf s name (hashName name)))).record
          (.looked call name (portOf s name (hashName name))))
  /-- A wait is listed. -/
  | enlist (call : CallId) (name : Name) (timeoutMs : Nat) (armed : Bool)
      (queued : Bool) (verdict : WaitResult) (here : s.frames call = .idle)
      (absent : entryFind s name (hashName name) = none) :
      Effect s (.wait call name timeoutMs armed)
        (({ s with waiters := s.waiters ++ [call] }.setFrame call
          (.waiting ⟨name, hashName name, queued⟩ timeoutMs verdict
            .asleep)).record (.enlisted call name none))
  /-- A request is parked. -/
  | park (call : CallId) (name : Name) (tid : Nat) (owner : Pid)
      (memory : Bool) (here : s.frames call = .idle)
      (absent : entryFind s name (hashName name) = none)
      (able : memory = true ∧ name.bytes ≠ []) :
      Effect s (.park call name tid owner memory)
        (({ s with parked := s.parked ++ [call] }.setFrame call
          (.parked ⟨name, hashName name, tid, owner⟩)).record (.enlisted call name (some owner)))
  /-- A wait makes its last section. -/
  | finish (call : CallId) (known : Bool) (record : Waiter) (timeoutMs : Nat)
      (verdict : WaitResult)
      (here : s.frames call = .waiting record timeoutMs verdict .awake) :
      Effect s (.go call known) (waitEnd s call record)
  /-- A drain takes its batches. -/
  | drain (call : CallId) (known : Bool) (name : Name) (h : BitVec 32)
      (here : s.frames call = .drain name h .collecting) :
      Effect s (.go call known) (drainStep s call name h known .collecting)
  /-- A cleanup takes requests. -/
  | dead (call : CallId) (known : Bool) (owner : Pid)
      (here : s.frames call = .cleanup owner .requests) :
      Effect s (.go call known) (cleanupStep s call owner .requests)
  /-- A cleanup takes waits. -/
  | collect (call : CallId) (known : Bool) (owner : Pid) (name : Name)
      (h : BitVec 32)
      (here : s.frames call = .cleanup owner (.collecting name h)) :
      Effect s (.go call known) (cleanupStep s call owner (.collecting name h))
  /-- A taker wakes the first wait of its batch. -/
  | wake (call : CallId) (known : Bool) (frame frame' : Frame) (c : CallId)
      (here : s.frames call = frame)
      (who : (∃ name h waits requests again,
          frame = .drain name h (.waking (c :: waits) requests again) ∧
          frame' = .drain name h (.waking waits requests again)) ∨
        ∃ owner name h waits again, frame = .cleanup owner (.waking name h (c :: waits) again) ∧
          frame' = .cleanup owner (.waking name h waits again)) :
      Effect s (.go call known)
        (((s.setFrame c (s.frames c).wake).setFrame call frame').record (.served c call))
  /-- A taker starts or frees the first request of its batch. -/
  | serve (call : CallId) (known : Bool) (frame frame' : Frame) (c : CallId)
      (outcome : Frame) (here : s.frames call = frame)
      (who : (∃ name h requests again, frame = .drain name h (.waking [] (c :: requests) again) ∧
          frame' = .drain name h (.waking [] requests again) ∧ outcome = .started known) ∨
        ∃ owner requests again, frame = .cleanup owner (.freeing (c :: requests) again) ∧
          frame' = .cleanup owner (.freeing requests again) ∧ outcome = .discarded) :
      Effect s (.go call known)
        (((s.setFrame c outcome).setFrame call frame').record (.served c call))

variable {s : State} {call : CallId}

theorem begin_some {s' after : State} (done : begin s call after = some s') :
    s.frames call = .idle ∧ s' = after := by
  simp only [begin, ite_none_right_eq_some, Option.some.injEq] at done
  exact ⟨done.1, done.2.symm⟩

variable {name : Name}

theorem entryFind_some {h : BitVec 32} {i : Nat} (found : entryFind s name h = some i) :
    i < s.count ∧
    (s.entries i).active = true ∧ (s.entries i).nameHash = h ∧ (s.entries i).name = name := by
  have test := List.find?_some found
  have range := List.mem_of_find?_eq_some found
  simp only [Bool.and_eq_true, beq_iff_eq] at test
  exact ⟨List.mem_range.mp range, test.1.1, test.1.2, test.2⟩

variable {owner : Pid}

section

variable (here : s.frames call = .idle)
include here

theorem register_effect {port : Nat} :
    Effect s (.register call name port owner) (registryRegister s call name port owner) := by
  simp only [registryRegister]
  split
  case isTrue empty => exact .shift _ call _ _ here (.refuse (-1))
  case isFalse text =>
  split
  case h_1 i found =>
    split
    case isTrue held => exact .shift _ call _ _ here (.refuse (-3))
    case isFalse free =>
      refine .install call name port owner i s.count _ here (.renew i found ?_)
      by_cases same : (s.entries i).ownerPid = owner
      · exact .inl same
      right
      by_contra alive
      exact free ⟨same, by simpa using alive⟩
  case h_2 absent =>
    split
    case h_1 full => exact .shift _ call _ _ here (.refuse (-2))
    case h_2 i count free =>
      exact .install call name port owner i count _ here (.new i count absent free)

theorem unregister_effect :
    Effect s (.unregister call name owner) (registryUnregister s call name owner) := by
  simp only [registryUnregister]
  split
  case h_1 i found =>
    obtain ⟨inUse, active, -, rfl⟩ := entryFind_some found
    split
    case isTrue owns =>
      exact .withdraw _ call owner i .idle _ here inUse active owns (.inl ⟨rfl, rfl⟩)
    case isFalse other => exact .shift _ call _ _ here (.refuse 0)
  case h_2 absent => exact .shift _ call _ _ here (.refuse 0)

theorem wait_effect {timeoutMs : Nat} {armed : Bool} :
    Effect s (.wait call name timeoutMs armed) (registryWait s call name timeoutMs armed) := by
  simp only [registryWait]
  split
  case h_1 i found =>
    have port : portOf s name (hashName name) = (s.entries i).portId := by simp only [portOf, found]
    rw [← port]
    exact .look _ call name here
  case h_2 absent => exact .enlist call name timeoutMs armed _ _ here absent

theorem park_effect {tid : Nat} {memory : Bool} : Effect s (.park call name tid owner memory)
      (registryParkOrStart s call name tid owner memory) := by
  simp only [registryParkOrStart]
  split
  case isTrue empty => exact .shift _ call _ _ here .start
  case isFalse text =>
  split
  case isTrue now => exact .shift _ call _ _ here .start
  case isFalse later =>
    simp only [not_or, Bool.not_eq_true, isSome_eq_false_iff,
      isNone_iff_eq_none, Bool.not_eq_false] at later
    exact .park call name tid owner memory here later.1 ⟨later.2, text⟩

end

theorem drainStep_effect (known : Bool) {h : BitVec 32} {point : DrainPoint}
    (here : s.frames call = .drain name h point) :
    Effect s (.go call known) (drainStep s call name h known point) := by
  cases point with
  | collecting => exact .drain call known name h here
  | waking waits requests again =>
    cases waits with
    | cons c waits =>
      exact .wake call known _ _ c here (.inl ⟨name, h, waits, requests, again, rfl, rfl⟩)
    | nil =>
      cases requests with
      | cons c requests =>
        exact .serve call known _ _ c _ here (.inl ⟨name, h, requests, again, rfl, rfl, rfl⟩)
      | nil =>
        cases again with
        | true => exact .shift _ call _ _ here (.drainAgain name h)
        | false => exact .shift _ call _ _ here (.drained name h)

theorem cleanupStep_effect (known : Bool) {point : CleanupPoint}
    (here : s.frames call = .cleanup owner point) :
    Effect s (.go call known) (cleanupStep s call owner point) := by
  cases point with
  | requests => exact .dead call known owner here
  | freeing dead again =>
    cases dead with
    | cons c dead => exact .serve call known _ _ c _ here (.inr ⟨owner, dead, again, rfl, rfl, rfl⟩)
    | nil =>
      cases again with
      | true => exact .shift _ call _ _ here (.freeAgain owner)
      | false => exact .shift _ call _ _ here (.freed owner)
  | entries =>
    simp only [cleanupStep]
    split
    case h_1 none_ => exact .shift _ call _ _ here (.cleaned owner)
    case h_2 i found =>
      have test := List.find?_some found
      have range := List.mem_of_find?_eq_some found
      simp only [Bool.and_eq_true, beq_iff_eq] at test
      exact .withdraw _ call owner i _ _ here (List.mem_range.mp range)
        test.1 test.2 (.inr ⟨rfl, rfl⟩)
  | collecting name h => exact .collect call known owner name h here
  | waking name h waits again =>
    cases waits with
    | cons c waits =>
      exact .wake call known _ _ c here (.inr ⟨owner, name, h, waits, again, rfl, rfl⟩)
    | nil =>
      cases again with
      | true => exact .shift _ call _ _ here (.wakeAgain owner name h)
      | false => exact .shift _ call _ _ here (.woken owner name h)

theorem exec_effect {s' : State} {label : Label} (done : step s label s') : Effect s label s' := by
  cases label with
  | register =>
    obtain ⟨here, rfl⟩ := begin_some done
    exact register_effect here
  | unregister =>
    obtain ⟨here, rfl⟩ := begin_some done
    exact unregister_effect here
  | find call name =>
    obtain ⟨here, rfl⟩ := begin_some done
    exact .look _ call name here
  | wait =>
    obtain ⟨here, rfl⟩ := begin_some done
    exact wait_effect here
  | park =>
    obtain ⟨here, rfl⟩ := begin_some done
    exact park_effect here
  | cleanup call owner =>
    obtain ⟨here, rfl⟩ := begin_some done
    exact .clean call owner here
  | go call known =>
    simp only [step, exec, goOn] at done
    split at done
    case h_1 record timeoutMs verdict point here =>
      cases point with
      | asleep =>
        simp only [waitStep] at done
        split at done <;> cases done
        exact .shift _ call _ _ here (.rest record record.queued timeoutMs
          verdict verdict .asleep .awake)
      | awake =>
        cases done
        exact .finish call known record timeoutMs verdict here
    case h_2 name h point here =>
      cases done
      exact drainStep_effect known here
    case h_3 owner point here =>
      cases done
      exact cleanupStep_effect known here
    case h_4 => cases done
  | fire call =>
    simp only [step, exec, timerFire] at done
    split at done
    case h_1 record timeoutMs verdict here =>
      simp only [ite_none_right_eq_some] at done
      cases done.2
      exact .shift _ call _ _ here (.rest record false timeoutMs verdict .timeout .asleep .asleep)
    case h_2 => cases done
  | stray call =>
    simp only [step, exec, strayWake] at done
    split at done
    case h_1 record timeoutMs verdict here =>
      cases done
      exact .shift _ call _ _ here (.rest record record.queued timeoutMs
        verdict verdict .asleep .awake)
    case h_2 => cases done
  | process pid alive =>
    cases done
    exact .process pid alive

end MainDob.Proofs.RegistrySteps
