import NestFastify.Outbox.RelaySafety

/-!
# The polling loop of a relay

`onApplicationBootstrap`, `scheduleNext`, the callback of its timeout and `onModuleDestroy`
(outbox-relay.service.ts), for each relay of the system of `RelaySystem`. A timeout that fires calls
`drainOnce`; when that settles, in whatever way, the callback logs an error and schedules the next
one. The process of a relay may crash at any time and be started again.

A relay polls with one timeout or one drain at a time (`Polling`), so a timeout that fires always
finds the relay idle, which is what `Deployment.start` asks for.
-/

namespace NestFastify.Outbox

open Transition (Reaches)

/-- A handle that `setTimeout` has returned, and the instant its callback is due. -/
structure Timeout where
  id : ℕ
  due : ℕ
deriving DecidableEq

/-- The fields of the service, the timeouts that are still to fire, and what has been logged. Noted
besides: whether the service has been bootstrapped, and when it has last scheduled a timeout. -/
structure RelayLoop where
  timer : Option Timeout
  stopped : Bool
  armed : List Timeout
  timeouts : ℕ
  logged : List String
  bootstrapped : Bool
  scheduledAt : ℕ

namespace RelayLoop

/-- The service of a process that starts. -/
def init : RelayLoop := ⟨none, false, [], 0, [], false, 0⟩

section Methods

variable (pollMs now : ℕ) (l : RelayLoop)

def scheduleNext : RelayLoop :=
  if l.stopped then l
  else
    let t : Timeout := ⟨l.timeouts, now + pollMs⟩
    { l with
      timer := some t, armed := l.armed ++ [t], timeouts := l.timeouts + 1, scheduledAt := now }

def onApplicationBootstrap : RelayLoop :=
  scheduleNext pollMs now { l with bootstrapped := true }

def onModuleDestroy : RelayLoop :=
  { l with
    stopped := true
    armed := match l.timer with
      | some t => l.armed.erase t
      | none => l.armed }

/-- The callback of the timeout, up to `await this.drainOnce()`. -/
def fire (t : Timeout) : RelayLoop := { l with armed := l.armed.erase t }

/-- The callback from there on: `catch` and `finally`. -/
def drained : Except JsError Unit → RelayLoop
  | .ok () => scheduleNext pollMs now l
  -- the loop goes on after a drain that has failed
  | .error e => scheduleNext pollMs now
    { l with logged := l.logged ++ ["outbox drain lỗi: " ++ e.errMsg] }

end Methods

end RelayLoop

/-! ## The system -/

/-- The relays with their loops. `clock` is that of the processes. -/
structure PollingState where
  clock : ℕ
  outbox : OutboxState
  loops : ℕ → RelayLoop

inductive PollingAction where
  | onApplicationBootstrap (i : ℕ)
  | onModuleDestroy (i : ℕ)
  | fire (i : ℕ) (t : Timeout)
  | settle (i : ℕ)
  | crash (i : ℕ)
  | outbox (a : RelayAction)
  | wait (ms : ℕ)

/-- The process of relay `i` dies. -/
def PollingAction.crashes (i : ℕ) : PollingAction → Bool
  | .crash j => decide (j = i)
  | _ => false

/-- What a step of the system leaves to the loops. -/
def RelayAction.polled : RelayAction → Bool
  | .start _ | .finish _ | .crash _ => true
  | .enqueue .. | .perform .. | .timeout _ | .tick _ => false

namespace PollingState

def init (n : ℕ) : PollingState := ⟨0, .init n, fun _ => .init⟩

def setLoop (s : PollingState) (i : ℕ) (l : RelayLoop) : PollingState :=
  { s with loops := Function.update s.loops i l }

end PollingState

namespace Deployment

variable (D : Deployment) (s : PollingState)

/-- The drain of relay `i` has settled, and its callback goes on. -/
def settle (i : ℕ) : Option PollingState :=
  match s.outbox.drain i with
  | none => none
  | some d =>
    match d.code.view with
    | .settled result => (s.outbox.finish i).map fun o =>
      { s.setLoop i ((s.loops i).drained (D.pollMs i) s.clock result) with outbox := o }
    | _ => none

/-- The service is bootstrapped once in a process. -/
def pollingStep : PollingAction → Option PollingState
  | .onApplicationBootstrap i =>
    if i < s.outbox.db.txns.length ∧ (s.loops i).bootstrapped = false then
      some (s.setLoop i ((s.loops i).onApplicationBootstrap (D.pollMs i) s.clock))
    else none
  | .onModuleDestroy i => some (s.setLoop i (s.loops i).onModuleDestroy)
  | .fire i t =>
    -- a timeout never fires early, but as late as the process lets it
    if t ∈ (s.loops i).armed ∧ t.due ≤ s.clock then
      (D.start s.outbox i).map fun o => { s.setLoop i ((s.loops i).fire t) with outbox := o }
    else none
  | .settle i => D.settle s i
  | .crash i => (D.step s.outbox (.crash i)).map fun o => { s.setLoop i .init with outbox := o }
  | .outbox a =>
    -- opening, settling and losing a drain is up to the loops
    if a.polled then none else (D.step s.outbox a).map fun o => { s with outbox := o }
  | .wait ms => some { s with clock := s.clock + ms }

end Deployment

/-! ## What a relay does -/

/-- Where the loop of a relay is: it has not been bootstrapped, it waits for its timeout, it
drains, or it has been stopped. -/
inductive Polling (pollMs : ℕ) (l : RelayLoop) (drain : Option Drain) : Prop
  | idle (hboot : l.bootstrapped = false) (harmed : l.armed = []) (htimer : l.timer = none)
    (hdrain : drain = none)
  | waiting (t : Timeout) (hboot : l.bootstrapped = true) (hstopped : l.stopped = false)
    (harmed : l.armed = [t]) (htimer : l.timer = some t) (hdue : t.due = l.scheduledAt + pollMs)
    (hdrain : drain = none)
  | draining (hboot : l.bootstrapped = true) (harmed : l.armed = []) (hdrain : drain.isSome = true)
  | ended (hstopped : l.stopped = true) (hboot : l.bootstrapped = true) (harmed : l.armed = [])
    (hdrain : drain = none)

section Loop

variable {pollMs now : ℕ} {l : RelayLoop} {drain drain' : Option Drain}

/-- The next timeout, or the end of a loop that has been stopped. -/
theorem Polling.scheduleNext (hboot : l.bootstrapped = true) (harmed : l.armed = []) :
    Polling pollMs (l.scheduleNext pollMs now) none := by
  by_cases hstopped : l.stopped = true
  · rw [RelayLoop.scheduleNext, if_pos hstopped]
    exact .ended hstopped hboot harmed rfl
  · rw [RelayLoop.scheduleNext, if_neg hstopped]
    refine .waiting ⟨l.timeouts, now + pollMs⟩ hboot (by simpa using hstopped) ?_ rfl rfl rfl
    show l.armed ++ [_] = [_]
    rw [harmed]
    rfl

theorem Polling.onApplicationBootstrap (h : Polling pollMs l drain)
    (hboot : l.bootstrapped = false) :
    Polling pollMs (l.onApplicationBootstrap pollMs now) drain := by
  match h with
  | .idle _ harmed _ hdrain =>
    rw [hdrain]
    exact Polling.scheduleNext rfl harmed
  | .waiting t hboot' _ _ _ _ _ => exact nomatch hboot.symm.trans hboot'
  | .draining hboot' _ _ => exact nomatch hboot.symm.trans hboot'
  | .ended _ hboot' _ _ => exact nomatch hboot.symm.trans hboot'

/-- Stopping clears the timeout that is armed, and leaves a drain to its end. -/
theorem Polling.onModuleDestroy (h : Polling pollMs l drain) :
    Polling pollMs l.onModuleDestroy drain := by
  have hnone : l.armed = [] → l.onModuleDestroy.armed = [] := by
    intro harmed
    show (match l.timer with | some t => l.armed.erase t | none => l.armed) = []
    rw [harmed]
    match l.timer with
    | some t => rfl
    | none => rfl
  match h with
  | .idle hboot harmed htimer hdrain => exact .idle hboot (hnone harmed) htimer hdrain
  | .waiting t hboot _ harmed htimer _ hdrain =>
    refine .ended rfl hboot ?_ hdrain
    show (match l.timer with | some t => l.armed.erase t | none => l.armed) = []
    rw [htimer, harmed]
    exact List.erase_cons_head ..
  | .draining hboot harmed hdrain => exact .draining hboot (hnone harmed) hdrain
  | .ended _ hboot harmed hdrain => exact .ended rfl hboot (hnone harmed) hdrain

/-- A timeout that fires is the only one, and finds the relay idle. -/
theorem Polling.fires (h : Polling pollMs l drain) {t : Timeout} (ht : t ∈ l.armed) :
    drain = none ∧ l.stopped = false ∧ l.bootstrapped = true ∧ l.armed = [t] ∧
      t.due = l.scheduledAt + pollMs := by
  match h with
  | .waiting t' hboot hstopped harmed _ hdue hdrain =>
    rw [harmed] at ht
    obtain rfl := List.mem_singleton.mp ht
    exact ⟨hdrain, hstopped, hboot, harmed, hdue⟩
  | .idle _ harmed _ _ | .draining _ harmed _ | .ended _ _ harmed _ =>
    rw [harmed] at ht
    exact absurd ht List.not_mem_nil

theorem Polling.fire (h : Polling pollMs l drain) {t : Timeout} (ht : t ∈ l.armed) (d : Drain) :
    Polling pollMs (l.fire t) (some d) := by
  obtain ⟨-, -, hboot, harmed, -⟩ := h.fires ht
  refine .draining hboot ?_ rfl
  show l.armed.erase t = []
  rw [harmed]
  exact List.erase_cons_head ..

/-- However the drain has settled, the loop goes on. -/
theorem Polling.drained (h : Polling pollMs l drain) (hdrain : drain.isSome = true)
    (result : Except JsError Unit) : Polling pollMs (l.drained pollMs now result) none := by
  match h with
  | .draining hboot harmed _ =>
    match result with
    | .ok () => exact Polling.scheduleNext hboot harmed
    | .error e => exact Polling.scheduleNext hboot harmed
  | .idle _ _ _ hnone | .waiting _ _ _ _ _ _ hnone | .ended _ _ _ hnone =>
    rw [hnone] at hdrain
    exact nomatch hdrain

theorem Polling.congr (h : Polling pollMs l drain) (hdrain : drain'.isSome = drain.isSome) :
    Polling pollMs l drain' := by
  have hnone : drain = none → drain' = none := by
    intro hnone
    rw [hnone] at hdrain
    exact Option.isNone_iff_eq_none.mp (by simpa using hdrain)
  match h with
  | .idle hboot harmed htimer hd => exact .idle hboot harmed htimer (hnone hd)
  | .waiting t hboot hstopped harmed htimer hdue hd =>
    exact .waiting t hboot hstopped harmed htimer hdue (hnone hd)
  | .draining hboot harmed hd => exact .draining hboot harmed (hdrain.trans hd)
  | .ended hstopped hboot harmed hd => exact .ended hstopped hboot harmed (hnone hd)

theorem polling_init : Polling pollMs .init none := .idle rfl rfl rfl rfl

end Loop

/-! ## Steps -/

section Steps

variable {D : Deployment} {q : ℕ → Prop} {s s' : PollingState} {o o' : OutboxState} {i : ℕ}

theorem settle_eq_some (h : D.settle s i = some s') : ∃ d result o, s.outbox.drain i = some d ∧
    s.outbox.finish i = some o ∧ s' =
      { s.setLoop i ((s.loops i).drained (D.pollMs i) s.clock result) with outbox := o } := by
  unfold Deployment.settle at h
  match hd : s.outbox.drain i with
  | none =>
    simp only [hd] at h
    exact nomatch h
  | some d =>
    simp only [hd] at h
    match hview : d.code.view with
    | .settled result =>
      simp only [hview] at h
      obtain ⟨o, ho, rfl⟩ := Option.map_eq_some_iff.mp h
      exact ⟨d, result, o, rfl, ho, rfl⟩
    | .awaits _ _ | .running =>
      simp only [hview] at h
      exact nomatch h

/-- The step of the relays that a step of the system is. -/
def PollingAction.relayAction : PollingAction → Option RelayAction
  | .fire i _ => some (.start i)
  | .settle i => some (.finish i)
  | .crash i => some (.crash i)
  | .outbox a => some a
  | .onApplicationBootstrap _ | .onModuleDestroy _ | .wait _ => none

/-- The system makes the steps of `Deployment.step`. -/
theorem outbox_of_step {a : PollingAction} (h : D.pollingStep s a = some s') :
    s'.outbox = s.outbox ∨ ∃ b, a.relayAction = some b ∧ D.step s.outbox b = some s'.outbox := by
  match a with
  | .onApplicationBootstrap i =>
    simp only [Deployment.pollingStep, Option.ite_none_right_eq_some] at h
    rw [← Option.some.inj h.2]
    exact Or.inl rfl
  | .onModuleDestroy i | .wait ms =>
    rw [← Option.some.inj h]
    exact Or.inl rfl
  | .fire i t =>
    simp only [Deployment.pollingStep, Option.ite_none_right_eq_some] at h
    obtain ⟨o, ho, rfl⟩ := Option.map_eq_some_iff.mp h.2
    exact Or.inr ⟨_, rfl, ho⟩
  | .settle i =>
    obtain ⟨d, result, o, -, ho, rfl⟩ := settle_eq_some h
    exact Or.inr ⟨_, rfl, ho⟩
  | .crash i =>
    rw [← Option.some.inj h]
    exact Or.inr ⟨_, rfl, rfl⟩
  | .outbox a =>
    simp only [Deployment.pollingStep] at h
    split at h
    · exact nomatch h
    · obtain ⟨o, ho, rfl⟩ := Option.map_eq_some_iff.mp h
      exact Or.inr ⟨a, rfl, ho⟩

/-- Who drains is decided by the loops alone. -/
theorem drain_of_step {a : RelayAction} (h : D.step o a = some o') (ha : a.polled = false) (i : ℕ) :
    (o'.drain i).isSome = (o.drain i).isSome := by
  match a with
  | .start _ | .finish _ | .crash _ => exact nomatch ha
  | .enqueue data id randomUUID createdAt =>
    obtain ⟨-, rfl⟩ := enqueue_eq_some h
    rfl
  | .timeout j | .tick ms =>
    rw [← Option.some.inj h]
  | .perform j outcome clock =>
    have hperform : D.perform o j outcome clock = some o' := h
    unfold Deployment.perform at hperform
    match hd : o.drain j with
    | none =>
      simp only [hd] at hperform
      exact nomatch hperform
    | some d =>
      simp only [hd] at hperform
      split at hperform
      · obtain ⟨r, -, rfl⟩ := Option.map_eq_some_iff.mp hperform
        show (Function.update o.drain j _ i).isSome = _
        by_cases hij : i = j
        · rw [hij, Function.update_self, hd]
          rfl
        · rw [Function.update_of_ne hij]
      · exact nomatch hperform

/-- Only its own `start` begins the drain of a relay. -/
theorem idle_of_step {b : RelayAction} (h : D.step o b = some o') (hb : b ≠ .start i)
    (hidle : o.drain i = none) : o'.drain i = none := by
  have hset : ∀ (j : ℕ) (d : Option Drain), (i = j → d = none) →
      Function.update o.drain j d i = none := by
    intro j d hd
    by_cases hij : i = j
    · rw [← hij, Function.update_self]
      exact hd hij
    · rw [Function.update_of_ne hij]
      exact hidle
  match b with
  | .start j =>
    obtain ⟨-, -, rfl⟩ := start_eq_some h
    exact hset j _ fun hij => absurd (by rw [hij]) hb
  | .finish j =>
    obtain ⟨-, rfl⟩ := finish_eq_some h
    exact hset j _ fun _ => rfl
  | .crash j =>
    rw [← Option.some.inj h]
    exact hset j _ fun _ => rfl
  | .enqueue .. | .perform .. | .timeout _ | .tick _ =>
    have hsame := drain_of_step h rfl i
    rw [hidle] at hsame
    exact Option.isNone_iff_eq_none.mp (by simpa using hsame)

/-- Every loop is at one of its places, and only the loops of the relays there are. -/
structure AllPolling (D : Deployment) (s : PollingState) : Prop where
  polling : ∀ i, Polling (D.pollMs i) (s.loops i) (s.outbox.drain i)
  relay : ∀ i, (s.loops i).bootstrapped = true → i < s.outbox.db.txns.length

/-- A step that moves one loop, and the drain of its relay with it. -/
theorem AllPolling.move (h : AllPolling D s) {l : RelayLoop} {drain' : Option Drain}
    (hlength : o'.db.txns.length = s.outbox.db.txns.length)
    (hdrain : o'.drain = Function.update s.outbox.drain i drain')
    (hloop : Polling (D.pollMs i) l drain')
    (hboot : l.bootstrapped = true → i < s.outbox.db.txns.length) :
    AllPolling D { s.setLoop i l with outbox := o' } := by
  refine ⟨fun j => ?_, fun j hj => ?_⟩
  · show Polling (D.pollMs j) (Function.update s.loops i l j) (o'.drain j)
    rw [hdrain]
    by_cases hij : j = i
    · rw [hij, Function.update_self, Function.update_self]
      exact hloop
    · rw [Function.update_of_ne hij, Function.update_of_ne hij]
      exact h.polling j
  · show j < o'.db.txns.length
    change (Function.update s.loops i l j).bootstrapped = true at hj
    rw [hlength]
    by_cases hij : j = i
    · rw [hij, Function.update_self] at hj
      exact hij ▸ hboot hj
    · rw [Function.update_of_ne hij] at hj
      exact h.relay j hj

theorem AllPolling.step (h : AllPolling D s) (hs : Inv D q s.outbox) {a : PollingAction}
    (hstep : D.pollingStep s a = some s') : AllPolling D s' := by
  have hsame : ∀ i, s.outbox.drain = Function.update s.outbox.drain i (s.outbox.drain i) :=
    fun i => (Function.update_eq_self i _).symm
  match a with
  | .onApplicationBootstrap i =>
    simp only [Deployment.pollingStep, Option.ite_none_right_eq_some] at hstep
    obtain ⟨⟨hlt, hboot⟩, heq⟩ := hstep
    rw [← Option.some.inj heq]
    exact h.move rfl (hsame i) ((h.polling i).onApplicationBootstrap hboot) fun _ => hlt
  | .onModuleDestroy i =>
    rw [← Option.some.inj hstep]
    exact h.move rfl (hsame i) (h.polling i).onModuleDestroy (h.relay i)
  | .fire i t =>
    simp only [Deployment.pollingStep, Option.ite_none_right_eq_some] at hstep
    obtain ⟨⟨ht, -⟩, hstart⟩ := hstep
    obtain ⟨o, ho, rfl⟩ := Option.map_eq_some_iff.mp hstart
    obtain ⟨hlt, -, rfl⟩ := start_eq_some ho
    exact h.move rfl rfl ((h.polling i).fire ht _) fun _ => hlt
  | .settle i =>
    obtain ⟨d, result, o, hd, ho, rfl⟩ := settle_eq_some hstep
    obtain ⟨-, rfl⟩ := finish_eq_some ho
    -- only a loop that drains has a drain that can settle
    have hboot : (s.loops i).bootstrapped = true := by
      match h.polling i with
      | .draining hboot _ _ => exact hboot
      | .idle _ _ _ hnone | .waiting _ _ _ _ _ _ hnone | .ended _ _ _ hnone =>
        exact nomatch hd.symm.trans hnone
    exact h.move rfl rfl ((h.polling i).drained (by rw [hd]; rfl) result) fun _ => h.relay i hboot
  | .crash i =>
    rw [← Option.some.inj hstep]
    exact h.move (List.length_set ..) rfl polling_init nofun
  | .outbox a =>
    simp only [Deployment.pollingStep] at hstep
    split at hstep
    · exact nomatch hstep
    · rename_i ha
      obtain ⟨o, ho, rfl⟩ := Option.map_eq_some_iff.mp hstep
      refine ⟨fun i => (h.polling i).congr (drain_of_step ho (by simpa using ha) i), fun i hi => ?_⟩
      show i < o.db.txns.length
      rw [(hs.rowsStep ho).2]
      exact h.relay i hi
  | .wait ms =>
    rw [← Option.some.inj hstep]
    exact ⟨h.polling, h.relay⟩

/-! ## Stopping -/

@[simp] theorem stopped_scheduleNext (l : RelayLoop) (pollMs now : ℕ) :
    (l.scheduleNext pollMs now).stopped = l.stopped := by
  unfold RelayLoop.scheduleNext
  split <;> rfl

@[simp] theorem stopped_drained (l : RelayLoop) (pollMs now : ℕ) (result : Except JsError Unit) :
    (l.drained pollMs now result).stopped = l.stopped := by
  match result with
  | .ok () => exact stopped_scheduleNext _ _ _
  | .error e => exact stopped_scheduleNext _ _ _

/-- A relay stays stopped until its process is started again. -/
theorem stopped_of_step {a : PollingAction} (h : D.pollingStep s a = some s') (ha : a.crashes i = false)
    (hstopped : (s.loops i).stopped = true) : (s'.loops i).stopped = true := by
  have hset : ∀ j l, (i = j → l.stopped = true) → ((s.setLoop j l).loops i).stopped = true := by
    intro j l hl
    show (Function.update s.loops j l i).stopped = true
    by_cases hij : i = j
    · rw [← hij, Function.update_self]
      exact hl hij
    · rw [Function.update_of_ne hij]
      exact hstopped
  match a with
  | .onApplicationBootstrap j =>
    simp only [Deployment.pollingStep, Option.ite_none_right_eq_some] at h
    rw [← Option.some.inj h.2]
    refine hset j _ fun hij => ?_
    subst hij
    exact (stopped_scheduleNext _ _ _).trans hstopped
  | .onModuleDestroy j =>
    rw [← Option.some.inj h]
    exact hset j _ fun _ => rfl
  | .fire j t =>
    simp only [Deployment.pollingStep, Option.ite_none_right_eq_some] at h
    obtain ⟨o, -, rfl⟩ := Option.map_eq_some_iff.mp h.2
    refine hset j _ fun hij => ?_
    subst hij
    exact hstopped
  | .settle j =>
    obtain ⟨d, result, o, -, -, rfl⟩ := settle_eq_some h
    refine hset j _ fun hij => ?_
    subst hij
    exact (stopped_drained _ _ _ _).trans hstopped
  -- only a new process forgets that it has been stopped
  | .crash j =>
    rw [← Option.some.inj h]
    exact hset j _ fun hij => absurd hij.symm (of_decide_eq_false ha)
  | .outbox a =>
    simp only [Deployment.pollingStep] at h
    split at h
    · exact nomatch h
    · obtain ⟨o, -, rfl⟩ := Option.map_eq_some_iff.mp h
      exact hstopped
  | .wait ms =>
    rw [← Option.some.inj h]
    exact hstopped

/-- The loop of a relay that has been stopped has no timeout left to fire. -/
theorem AllPolling.no_fire (h : AllPolling D s) (hstopped : (s.loops i).stopped = true)
    (t : Timeout) : D.pollingStep s (.fire i t) = none := by
  refine if_neg fun hfire => ?_
  have hrunning := ((h.polling i).fires hfire.1).2.1
  rw [hstopped] at hrunning
  exact nomatch hrunning

end Steps

/-! ## Runs -/

section Runs

variable {D : Deployment} {n : ℕ} {s t : PollingState} {i : ℕ}
  {ok : PollingState → PollingAction → Prop}

theorem outbox_of_polling (h : Reaches D.pollingStep ok s t) :
    Reaches D.step (fun _ _ => True) s.outbox t.outbox := by
  refine h.project fun u a v _ hstep => ?_
  exact (outbox_of_step hstep).imp_right fun ⟨b, _, hb⟩ => ⟨b, trivial, hb⟩

theorem allPolling_of_reaches (hmax : 1 ≤ D.maxAttempts)
    (h : Reaches D.pollingStep ok (.init n) s) : AllPolling D s := by
  have hinit : AllPolling D (.init n) := ⟨fun _ => polling_init, nofun⟩
  refine @Reaches.invariant_under _ _ _ _ _ _ (fun u => Inv D (fun _ => False) u.outbox)
    (AllPolling D) h (fun u hu => ?_) hinit fun u a v hu hall _ hstep => hall.step hu hstep
  exact inv_init.run hmax nofun (outbox_of_polling hu)

/-- The relays make a run of the system of relays. In each, a timeout and a drain exclude each
other; a loop that has been bootstrapped and not stopped always has one of them, however its
drains have ended, and leaves `pollMs` between the end of a drain and the next one; and a timeout
that is due can start its drain. -/
theorem relay_polls (hmax : 1 ≤ D.maxAttempts)
    (h : Reaches D.pollingStep (fun _ _ => True) (.init n) s) :
    Reaches D.step (fun _ _ => True) (.init n) s.outbox ∧
    ∀ i,
      ((s.outbox.drain i).isSome = true → (s.loops i).armed = []) ∧
      (s.loops i).armed.length ≤ 1 ∧
      ((s.loops i).bootstrapped = true → (s.loops i).stopped = false →
        (s.outbox.drain i).isSome = true ∨
        ∃ t, (s.loops i).armed = [t] ∧ t.due = (s.loops i).scheduledAt + D.pollMs i) ∧
      ∀ t ∈ (s.loops i).armed, t.due ≤ s.clock → (D.pollingStep s (.fire i t)).isSome = true := by
  have hall := allPolling_of_reaches hmax h
  refine ⟨outbox_of_polling h, fun i => ⟨fun hdrain => ?_, ?_, fun hboot hstopped => ?_,
    fun t ht hdue => ?_⟩⟩
  · match hall.polling i with
    | .draining _ harmed _ => exact harmed
    | .idle _ harmed _ _ | .ended _ _ harmed _ => exact harmed
    | .waiting _ _ _ _ _ _ hnone =>
      rw [hnone] at hdrain
      exact nomatch hdrain
  · match hall.polling i with
    | .waiting t _ _ harmed _ _ _ => exact harmed ▸ le_refl _
    | .idle _ harmed _ _ | .draining _ harmed _ | .ended _ _ harmed _ => exact harmed ▸ Nat.zero_le _
  · match hall.polling i with
    | .draining _ _ hdrain => exact Or.inl hdrain
    | .waiting t _ _ harmed _ hdue _ => exact Or.inr ⟨t, harmed, hdue⟩
    | .idle hnot _ _ _ => exact nomatch hboot.symm.trans hnot
    | .ended hstop _ _ _ => exact nomatch hstopped.symm.trans hstop
  · obtain ⟨hdrain, -, hboot, -, -⟩ := (hall.polling i).fires ht
    have hstart : D.start s.outbox i = some _ :=
      if_pos ⟨hall.relay i hboot, by rw [hdrain]; rfl⟩
    simp only [Deployment.pollingStep, if_pos (And.intro ht hdue), hstart]
    rfl

/-- A drain that cannot begin its transaction. -/
def failedDrain : List PollingAction :=
  [.onApplicationBootstrap 0, .wait 1000, .fire 0 ⟨0, 1000⟩,
    .outbox (.perform 0 (.rejects (.error "closed")) 0), .wait 20, .settle 0]

theorem relay_polls_failedDrain :
    ∃ s, Reaches twoAttempts.pollingStep (fun _ _ => True) (.init 1) s ∧
      (s.loops 0).logged = ["outbox drain lỗi: closed"] ∧
      ((s.outbox.drain 0).isSome = true ∨
        ∃ t, (s.loops 0).armed = [t] ∧ t.due = (s.loops 0).scheduledAt + 1000) := by
  have hrun : (Transition.run twoAttempts.pollingStep (fun _ _ => True) (.init 1)
      failedDrain).map (fun s => (s.loops 0).bootstrapped && !(s.loops 0).stopped &&
        decide ((s.loops 0).logged = ["outbox drain lỗi: closed"])) = some true := by
    decide +kernel
  obtain ⟨s, hs, htest⟩ := Transition.exists_reaches_of_run hrun
  obtain ⟨hrunning, hlogged⟩ := Bool.and_eq_true_iff.mp htest
  obtain ⟨hboot, hstopped⟩ := Bool.and_eq_true_iff.mp hrunning
  exact ⟨s, hs, of_decide_eq_true hlogged,
    ((relay_polls (by decide) hs).2 0).2.2.1 hboot (by simpa using hstopped)⟩

/-- Once its module has been destroyed, a relay starts no drain any more while its process lives:
the drain in flight, if there is one, is its last. -/
theorem relay_stops (hmax : 1 ≤ D.maxAttempts)
    (hs : Reaches D.pollingStep (fun _ _ => True) (.init n) s)
    (hstopped : (s.loops i).stopped = true)
    (ht : Reaches D.pollingStep (fun _ a => a.crashes i = false) s t) :
    (∀ timeout, D.pollingStep t (.fire i timeout) = none) ∧
      (s.outbox.drain i = none → t.outbox.drain i = none) := by
  have hreach : ∀ u, Reaches D.pollingStep (fun _ a => a.crashes i = false) s u → AllPolling D u :=
    fun u hu => allPolling_of_reaches hmax (hs.trans (hu.mono fun _ _ _ => trivial))
  have hstays : (t.loops i).stopped = true ∧
      (s.outbox.drain i = none → t.outbox.drain i = none) := by
    refine @Reaches.invariant_under _ _ _ _ _ _ (AllPolling D) (fun u => (u.loops i).stopped = true ∧
      (s.outbox.drain i = none → u.outbox.drain i = none)) ht hreach ⟨hstopped, id⟩ ?_
    intro u a v hu hstays ha hstep
    refine ⟨stopped_of_step hstep ha hstays.1, fun hidle => ?_⟩
    rcases outbox_of_step hstep with hsame | ⟨b, hb, hmove⟩
    · exact hsame ▸ hstays.2 hidle
    · refine idle_of_step hmove (fun hstart => ?_) (hstays.2 hidle)
      subst hstart
      -- a start of relay `i` is the firing of its timeout
      match a with
      | .fire j timeout =>
        obtain rfl : j = i := by simpa [PollingAction.relayAction] using hb
        exact nomatch hstep.symm.trans (hu.no_fire hstays.1 timeout)
      | .outbox a =>
        obtain rfl : a = .start i := Option.some.inj hb
        exact nomatch hstep
      | .onApplicationBootstrap _ | .onModuleDestroy _ | .settle _ | .crash _ | .wait _ =>
        exact nomatch hb
  exact ⟨fun timeout => (hreach t ht).no_fire hstays.1 timeout, hstays.2⟩

/-- The module is destroyed while a drain is in flight; the drain ends. -/
theorem relay_stops_draining :
    ∃ s t, Reaches twoAttempts.pollingStep (fun _ _ => True) (.init 1) s ∧
      (s.outbox.drain 0).isSome = true ∧ (s.loops 0).stopped = true ∧
      Reaches twoAttempts.pollingStep (fun _ a => a.crashes 0 = false) s t ∧
      t.outbox.drain 0 = none ∧ ∀ timeout, twoAttempts.pollingStep t (.fire 0 timeout) = none := by
  have hrun : ((Transition.run twoAttempts.pollingStep (fun _ _ => True) (.init 1)
      [.onApplicationBootstrap 0, .wait 1000, .fire 0 ⟨0, 1000⟩, .onModuleDestroy 0]).bind fun s =>
        (Transition.run twoAttempts.pollingStep (fun _ a => a.crashes 0 = false) s
          [.outbox (.perform 0 (.rejects (.error "closed")) 0), .settle 0, .wait 5000]).map
          fun t => (s.outbox.drain 0).isSome && (s.loops 0).stopped && (t.outbox.drain 0).isNone) =
        some true := by
    decide +kernel
  obtain ⟨s, t, hs, ht, htest⟩ := Transition.exists_reaches_of_runs hrun
  obtain ⟨hbefore, hidle⟩ := Bool.and_eq_true_iff.mp htest
  obtain ⟨hdrain, hstopped⟩ := Bool.and_eq_true_iff.mp hbefore
  have hstops := relay_stops (by decide) hs hstopped ht
  exact ⟨s, t, hs, hdrain, hstopped, ht, Option.isNone_iff_eq_none.mp hidle, hstops.1⟩

end Runs

end NestFastify.Outbox
