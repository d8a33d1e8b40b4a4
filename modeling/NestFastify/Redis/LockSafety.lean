import NestFastify.Redis.LockSystem

/-!
# Mutual exclusion and ownership of locks

The invariant of the lock system and what follows for every run: the entry of a lock key is
the latest grant, two lock objects are never in force together, a held key is not granted
again, a stale holder changes nothing, and a lock goes away only by its own release or by
expiry.
-/

namespace NestFastify.Redis

open Async (Resumes)

/-- Auto-renewal is accepted only for a lock of at least three seconds. -/
theorem renew_validated {numberText : JsNumber → String} {ttlMs : JsNumber} {opts : LockOptions}
    {retry : Option RetryWindow} (h : validateLockArgs numberText ttlMs opts = .ok retry)
    (hrenew : opts.autoRenew.getD false = true) : ∃ q : ℚ, ttlMs = .finite q ∧ 3000 ≤ q := by
  obtain ⟨ttl, httl, -, -, hlong⟩ := validateLockArgs_ok h
  exact ⟨ttl, httl, hlong hrenew⟩

namespace LockState

variable {numberText : JsNumber → String} {s s' : LockState} {i : ℕ}

/-! ## What a step does -/

/-- A step of process `i`: its next call `c` settles to `r`, in the state `s₁` that the call
leaves behind. -/
theorem perform_cases {transport : Transport} (h : s.perform i transport = some s') :
    ∃ task past c k s₁ r, s.processes[i]? = some ⟨task, past, .await (.inl c) k⟩ ∧
      s.execute i c = some (s₁, r) ∧
      ((∃ r', (r' = r ∨ ∃ e, r' = .error e) ∧ transport ≠ .requestLost ∧
        s' = s₁.resume i task past c k r') ∨
       (transport = .requestLost ∧ s' = s.resume i task past c k (.error connectionLost))) := by
  unfold perform at h
  split at h
  · rename_i task past c k hp
    split at h
    · rename_i s₁ r hexec
      refine ⟨task, past, c, k, s₁, r, hp, hexec, ?_⟩
      cases transport with
      | answered =>
        cases h
        exact Or.inl ⟨r, Or.inl rfl, nofun, rfl⟩
      | answerLost =>
        cases h
        exact Or.inl ⟨.error connectionLost, Or.inr ⟨_, rfl⟩, nofun, rfl⟩
      | requestLost =>
        cases h
        exact Or.inr ⟨rfl, rfl⟩
    · cases h
  · cases h

/-- A local answer settles a call that needs no Redis. -/
theorem answer_cases {x : ℚ} (h : s.answer i x = some s') :
    ∃ task past c k r, s.processes[i]? = some ⟨task, past, .await (.inl c) k⟩ ∧
      localReply x c = some r ∧ s' = s.resume i task past c k (.ok r) := by
  unfold answer at h
  split at h
  · rename_i task past c k hp
    obtain ⟨r, hr, rfl⟩ := Option.map_eq_some_iff.mp h
    exact ⟨task, past, c, k, r, hp, hr, rfl⟩
  · cases h

/-- What the clients are allowed to do, as a condition on the call started. -/
def TaskOk (s : LockState) : Task → Prop
  | .acquire _ key _ _ _ => ¬ Fence key
  | .extend lock ms => (∃ i, s.lockOf i = some lock) ∧ AtLeastOne ms
  | .renew lock ttlMs => (∃ i, s.lockOf i = some lock) ∧ lock.renewMs = some ttlMs
  | .release lock => ∃ i, s.lockOf i = some lock

/-- A step starts a call, moves one on, or lets time pass. -/
theorem step_cases {a : LockAction} (h : s.step numberText a = some s') :
    (∃ task, (a.Allowed s → s.TaskOk task) ∧ (∀ i transport, a ≠ .perform i transport) ∧
      s' = s.start numberText task) ∨
    (∃ i transport, a = .perform i transport ∧ s.perform i transport = some s') ∨
    (∃ i x, a = .answer i x ∧ s.answer i x = some s') ∨
    ∃ ms, a = .tick ms ∧ s' = { s with now := s.now + ms } := by
  cases a with
  | acquire service key ttlMs opts fuel =>
    cases h
    exact Or.inl ⟨.acquire service key ttlMs opts fuel, fun ha => ha, nofun, rfl⟩
  | extend i ms =>
    obtain ⟨lock, hlock, rfl⟩ := Option.map_eq_some_iff.mp h
    exact Or.inl ⟨.extend lock ms, fun ha => ⟨⟨i, hlock⟩, ha⟩, nofun, rfl⟩
  | renew i =>
    simp only [step] at h
    split at h
    · rename_i lock hlock
      obtain ⟨ttlMs, hms, rfl⟩ := Option.map_eq_some_iff.mp h
      exact Or.inl ⟨.renew lock ttlMs, fun _ => ⟨⟨i, hlock⟩, hms⟩, nofun, rfl⟩
    · cases h
  | release i =>
    obtain ⟨lock, hlock, rfl⟩ := Option.map_eq_some_iff.mp h
    exact Or.inl ⟨.release lock, fun _ => ⟨i, hlock⟩, nofun, rfl⟩
  | perform i transport => exact Or.inr (Or.inl ⟨i, transport, rfl, h⟩)
  | answer i x => exact Or.inr (Or.inr (Or.inl ⟨i, x, rfl, h⟩))
  | tick ms =>
    cases h
    exact Or.inr (Or.inr (Or.inr ⟨ms, rfl, rfl⟩))

/-- Who has drawn a token does not change. -/
theorem drawnBy_append {l : List ℕ} (n j i : ℕ) (h : l[n]? = some j) :
    (l ++ [i])[n]? = some j := by
  obtain ⟨hlt, -⟩ := List.getElem?_eq_some_iff.mp h
  rw [List.getElem?_append_left hlt, h]

/-- Executing a call does not touch the processes or the clock, and a draw stays with the
process that asked for it. -/
theorem execute_frame {c : LockCall} {r : Except JsError c.Reply}
    (h : s.execute i c = some (s', r)) : s'.processes = s.processes ∧ s'.now = s.now ∧
      ∀ (n j : ℕ), s.drawnBy[n]? = some j → s'.drawnBy[n]? = some j := by
  cases c <;> cases h
  · -- a draw is added at the end
    exact ⟨rfl, rfl, fun n j hn => drawnBy_append n j i hn⟩
  all_goals exact ⟨rfl, rfl, fun _ _ hn => hn⟩

/-- The fence entries stay integers. -/
theorem execute_fences {c : LockCall} {r : Except JsError c.Reply} (hs : s.FencesOk)
    (hc : CallOk c) (h : s.execute i c = some (s', r)) : s'.FencesOk := by
  cases c with
  | acquireLock client lockKey fenceKey token ttlMs fencing =>
    obtain ⟨key, hkey, rfl, rfl⟩ := hc
    cases h
    intro key' e he
    change (acquireLock _ _ _ _ _ _ _).1 _ = _ at he
    have hlock := @lockKey_ne_fenceKey key key' hkey
    by_cases heq : key' = key
    -- the script may draw from the counter of its own key
    · subst heq
      rcases acquireLock_fence hlock with hsame | hcounter
      · exact hs key' e (hsame.symm.trans he)
      · obtain ⟨n, until', hn⟩ := hcounter
        rw [hn] at he
        cases he
        simp [Value.integer]
    · have hfence : "lock:fence:" ++ key' ≠ "lock:fence:" ++ key := by simpa using heq
      exact hs key' e ((acquireLock_ne hlock.symm hfence).symm.trans he)
  | extendLock client lockKey token ttlMs =>
    obtain ⟨-, key, hkey, rfl⟩ := hc
    cases h
    intro key' e he
    have hsame : (s.runExtend ("lock:" ++ key) token ttlMs).1.store ("lock:fence:" ++ key') =
      s.store ("lock:fence:" ++ key') := extendLock_ne (lockKey_ne_fenceKey hkey).symm
    exact hs key' e (hsame.symm.trans he)
  | releaseLock client lockKey token =>
    obtain ⟨key, hkey, rfl⟩ := hc
    cases h
    intro key' e he
    have hsame : (s.runRelease ("lock:" ++ key) token).1.store ("lock:fence:" ++ key') =
      s.store ("lock:fence:" ++ key') := releaseLock_ne (lockKey_ne_fenceKey hkey).symm
    exact hs key' e (hsame.symm.trans he)
  | randomBytes =>
    cases h
    exact hs
  | dateNow => cases h
  | mathRandom => cases h
  | sleep ms => cases h
  | startWatchdog lock ttlMs => cases h
  | stopWatchdog lock => cases h

/-- The token a process has been given is recorded as its own. -/
theorem execute_draw {c : LockCall} {r : Except JsError c.Reply} {token : Token}
    (h : s.execute i c = some (s', r))
    (hdraw : (⟨.inl c, r⟩ : CallEvent) = ⟨.inl .randomBytes, .ok token⟩) :
    s'.drawnBy[token.draw]? = some i := by
  cases c <;> cases hdraw
  cases h
  exact List.getElem?_concat_length

/-! ## The invariant -/

variable (numberText) in
/-- A call follows its function, was allowed, and has drawn its tokens itself. -/
structure ProcessInv (s : LockState) (i : ℕ) (p : Process) : Prop where
  resumes : Resumes (p.task.code numberText) p.past p.code
  task : s.TaskOk p.task
  drawn : ∀ token, Drew p.past token → s.drawnBy[token.draw]? = some i

variable (numberText) in
structure Inv (s : LockState) : Prop where
  processes : ∀ i p, s.processes[i]? = some p → s.ProcessInv numberText i p
  fences : s.FencesOk
  leases : ∀ key, ¬ Fence key → ∃ v, s.Shows key v ∧ v.Agree

/-- A lock object is what an acquire has returned. -/
theorem lockOf_eq_some {lock : Lock} (h : s.lockOf i = some lock) :
    ∃ task past, s.processes[i]? = some ⟨task, past, .resolve (.acquired (some lock))⟩ := by
  unfold lockOf at h
  split at h
  · rename_i task past lock' hp
    cases h
    exact ⟨task, past, hp⟩
  · cases h

theorem lockOf_of_process {task : Task} {past : List CallEvent} {lock : Lock}
    (h : s.processes[i]? = some ⟨task, past, .resolve (.acquired (some lock))⟩) :
    s.lockOf i = some lock := by
  rw [lockOf, h]

/-- What is known of a lock object. -/
theorem Inv.lock {lock : Lock} (hs : s.Inv numberText) (h : s.lockOf i = some lock) :
    ∃ service key ttlMs opts, ¬ Fence key ∧ IsLock service key ttlMs opts lock ∧
      s.drawnBy[lock.token.draw]? = some i ∧
      ∃ retry, validateLockArgs numberText ttlMs opts = .ok retry := by
  obtain ⟨task, past, hp⟩ := lockOf_eq_some h
  have hinv := hs.processes i _ hp
  have hpost := hinv.resumes.satisfies (Task.satisfies numberText task)
  cases task with
  | acquire service key ttlMs opts fuel =>
    obtain ⟨hlock, hdrew, -, hargs⟩ := hpost
    exact ⟨service, key, ttlMs, opts, hinv.task, hlock, hinv.drawn _ hdrew, hargs⟩
  | extend lock' ms => exact hpost.elim
  | renew lock' ttlMs => exact hpost.elim
  | release lock' => exact hpost.elim

/-- The next call of a process is one its contract allows. -/
theorem Inv.callOk {task : Task} {past : List CallEvent} {c : LockCall}
    {k : Except JsError c.Reply → Code} (hs : s.Inv numberText)
    (hp : s.processes[i]? = some ⟨task, past, .await (.inl c) k⟩) : CallOk c := by
  have hinv := hs.processes i _ hp
  have hpre : task.pre past (.inl c) :=
    (hinv.resumes.satisfies (Task.satisfies numberText task)).1
  have htask := hinv.task
  cases task with
  | acquire service key ttlMs opts fuel =>
    cases c with
    | acquireLock client lockKey fenceKey token ttlMs' fencing =>
      obtain ⟨-, hlock, hfence, -⟩ := hpre
      exact ⟨key, htask, hlock, hfence⟩
    | extendLock client lockKey token ms => exact hpre.elim
    | releaseLock client lockKey token => exact hpre.elim
    | _ => trivial
  | extend lock ms =>
    cases hpre
    obtain ⟨⟨j, hj⟩, hms⟩ := htask
    obtain ⟨_, key, _, _, hkey, hlock, -⟩ := hs.lock hj
    exact ⟨hms, key, hkey, hlock.lockKey_eq⟩
  | renew lock ttlMs =>
    cases hpre
    obtain ⟨⟨j, hj⟩, hms⟩ := htask
    obtain ⟨_, key, ttlMs', opts, hkey, hlock, -, retry, hargs⟩ := hs.lock hj
    refine ⟨?_, key, hkey, hlock.lockKey_eq⟩
    -- a lock that renews itself has been asked for at least three seconds
    have hrenew := hlock.renewMs_eq
    rw [hms] at hrenew
    by_cases hauto : opts.autoRenew.getD false = true
    · rw [if_pos hauto] at hrenew
      cases hrenew
      obtain ⟨q, rfl, hq⟩ := renew_validated hargs hauto
      have : (1 : ℚ) ≤ 3000 := by norm_num
      exact this.trans hq
    · rw [if_neg hauto] at hrenew
      cases hrenew
  | release lock =>
    obtain ⟨j, hj⟩ := htask
    obtain ⟨_, key, _, _, hkey, hlock, -⟩ := hs.lock hj
    rcases hpre with hstop | hrelease
    · cases hstop
      trivial
    · cases hrelease
      exact ⟨key, hkey, hlock.lockKey_eq⟩

/-! ## The invariant is kept -/

/-- A call that was allowed stays allowed while the lock objects are there. -/
theorem TaskOk.mono {task : Task} (h : s.TaskOk task)
    (hlocks : ∀ i lock, s.lockOf i = some lock → s'.lockOf i = some lock) : s'.TaskOk task := by
  cases task with
  | acquire service key ttlMs opts fuel => exact h
  | extend lock ms =>
    obtain ⟨⟨j, hj⟩, hms⟩ := h
    exact ⟨⟨j, hlocks j lock hj⟩, hms⟩
  | renew lock ttlMs =>
    obtain ⟨⟨j, hj⟩, hms⟩ := h
    exact ⟨⟨j, hlocks j lock hj⟩, hms⟩
  | release lock =>
    obtain ⟨j, hj⟩ := h
    exact ⟨j, hlocks j lock hj⟩

/-- A process that has not moved keeps its part of the invariant. -/
theorem ProcessInv.mono {p : Process} (h : s.ProcessInv numberText i p)
    (hlocks : ∀ i lock, s.lockOf i = some lock → s'.lockOf i = some lock)
    (hdrawn : ∀ (n j : ℕ), s.drawnBy[n]? = some j → s'.drawnBy[n]? = some j) :
    s'.ProcessInv numberText i p :=
  ⟨h.resumes, h.task.mono hlocks, fun token ht => hdrawn _ _ (h.drawn token ht)⟩

/-- A process after a call has been started: an old one, or the call that was started. -/
theorem start_process {task : Task} {p : Process}
    (h : (s.start numberText task).processes[i]? = some p) :
    s.processes[i]? = some p ∨ p = ⟨task, [], task.code numberText⟩ := by
  change (s.processes ++ [_])[i]? = some p at h
  by_cases hlt : i < s.processes.length
  · rw [List.getElem?_append_left hlt] at h
    exact Or.inl h
  · rw [List.getElem?_append_right (Nat.le_of_not_lt hlt), List.getElem?_singleton] at h
    split_ifs at h
    exact Or.inr (Option.some.inj h).symm

/-- A process after a call of process `i` has settled: another one, or `i` gone on. -/
theorem resume_process {s₁ : LockState} {task : Task} {past : List CallEvent} {c : LockCall}
    {k : Except JsError c.Reply → Code} {r : Except JsError c.Reply} {j : ℕ} {p : Process}
    (h : (s₁.resume i task past c k r).processes[j]? = some p) :
    s₁.processes[j]? = some p ∨ (j = i ∧ p = ⟨task, past ++ [⟨.inl c, r⟩], k r⟩) := by
  change (s₁.processes.set i _)[j]? = some p at h
  by_cases hij : i = j
  · subst hij
    have hlt : i < (s₁.processes.set i ⟨task, past ++ [⟨.inl c, r⟩], k r⟩).length :=
      (List.getElem?_eq_some_iff.mp h).1
    rw [List.length_set] at hlt
    rw [List.getElem?_set_self hlt] at h
    exact Or.inr ⟨rfl, (Option.some.inj h).symm⟩
  · rw [List.getElem?_set_ne hij] at h
    exact Or.inl h

/-- A call that starts leaves the lock objects as they are. -/
theorem lockOf_start {task : Task} {lock : Lock} (h : s.lockOf i = some lock) :
    (s.start numberText task).lockOf i = some lock := by
  obtain ⟨task', past, hp⟩ := lockOf_eq_some h
  apply @lockOf_of_process _ i task' past lock
  obtain ⟨hlt, -⟩ := List.getElem?_eq_some_iff.mp hp
  show (s.processes ++ [_])[i]? = _
  rw [List.getElem?_append_left hlt, hp]

section Resume

variable {s₁ : LockState} {task : Task} {past : List CallEvent} {c : LockCall}
  {k : Except JsError c.Reply → Code} {r : Except JsError c.Reply}

/-- So does a call that goes on. -/
theorem lockOf_resume {j : ℕ} {lock : Lock}
    (hp : s.processes[i]? = some ⟨task, past, .await (.inl c) k⟩)
    (hprocs : s₁.processes = s.processes) (h : s.lockOf j = some lock) :
    (s₁.resume i task past c k r).lockOf j = some lock := by
  obtain ⟨task', past', hj⟩ := lockOf_eq_some h
  have hij : i ≠ j := by
    intro hij
    subst hij
    rw [hp] at hj
    cases hj
  apply @lockOf_of_process _ j task' past' lock
  show (s₁.processes.set i _)[j]? = _
  rw [hprocs, List.getElem?_set_ne hij, hj]

/-- Moving one process on keeps the invariant of all of them. -/
theorem resume_processes (hs : s.Inv numberText)
    (hp : s.processes[i]? = some ⟨task, past, .await (.inl c) k⟩)
    (hprocs : s₁.processes = s.processes)
    (hdrawn : ∀ (n j : ℕ), s.drawnBy[n]? = some j → s₁.drawnBy[n]? = some j)
    (hdraw : ∀ token, (⟨.inl c, r⟩ : CallEvent) = ⟨.inl .randomBytes, .ok token⟩ →
      s₁.drawnBy[token.draw]? = some i) (j : ℕ) (p : Process)
    (hj : (s₁.resume i task past c k r).processes[j]? = some p) :
    (s₁.resume i task past c k r).ProcessInv numberText j p := by
  have hlocks : ∀ j lock, s.lockOf j = some lock →
      (s₁.resume i task past c k r).lockOf j = some lock :=
    fun j lock h => lockOf_resume hp hprocs h
  rcases resume_process hj with hold | ⟨rfl, rfl⟩
  · rw [hprocs] at hold
    exact (hs.processes j p hold).mono hlocks hdrawn
  · have hinv := hs.processes j _ hp
    refine ⟨hinv.resumes.resume r, hinv.task.mono hlocks, fun token ht => ?_⟩
    rcases List.mem_append.mp ht with hold | hnew
    · exact hdrawn _ _ (hinv.drawn token hold)
    · exact hdraw token (List.mem_singleton.mp hnew).symm

end Resume

/-- The action is the release script of the lock object of `key` with this token. -/
def OwnRelease (s : LockState) (a : LockAction) (key : String) (token : Token) : Prop :=
  ∃ i transport lock past k, a = .perform i transport ∧ s.processes[i]? =
      some ⟨.release lock, past, .await (.inl (.releaseLock lock.client lock.lockKey token)) k⟩ ∧
    lock.token = token ∧ lock.key = key ∧ ∃ j, s.lockOf j = some lock

/-- A releaseLock that is about to be executed is the release of its own lock object. -/
theorem Inv.ownRelease {transport : Transport} {task : Task} {past : List CallEvent}
    {client : ℕ} {key : String} {token : Token} {k : Except JsError ℤ → Code}
    (hs : s.Inv numberText) (hp : s.processes[i]? = some
      ⟨task, past, .await (.inl (.releaseLock client ("lock:" ++ key) token)) k⟩) :
    s.OwnRelease (.perform i transport) key token := by
  have hinv := hs.processes i _ hp
  have hpre : task.pre past (.inl (.releaseLock client ("lock:" ++ key) token)) :=
    (hinv.resumes.satisfies (Task.satisfies numberText task)).1
  have htask := hinv.task
  cases task with
  | acquire service key ttlMs opts fuel => exact hpre.elim
  | extend lock ms => cases hpre
  | renew lock ttlMs => cases hpre
  | release lock =>
    obtain ⟨j, hj⟩ := htask
    obtain ⟨_, key', _, _, -, hlock, -⟩ := hs.lock hj
    rcases hpre with hstop | hrelease
    · cases hstop
    · simp only [Sum.inl.injEq, LockCall.releaseLock.injEq] at hrelease
      obtain ⟨rfl, hkey, rfl⟩ := hrelease
      have hkeys : key = key' := lockKey_inj.mp (hkey.trans hlock.lockKey_eq)
      rw [hkey] at hp
      exact ⟨i, transport, lock, past, k, rfl, hp, rfl, hlock.key_eq.trans hkeys.symm, j, hj⟩

/-- Every step of the system is, for every key, one step of the key's register. -/
theorem step_shows {a : LockAction} {key : String} {v : Lease.View Token}
    (hs : s.Inv numberText) (ha : a.Allowed s) (h : s.step numberText a = some s')
    (hkey : ¬ Fence key) (hshows : s.Shows key v) (hv : v.Agree) :
    ∃ l v', Lease.Step v l v' ∧ s'.Shows key v' ∧
      ∀ token, l = .release token → s.OwnRelease a key token := by
  have hskip : s'.Shows key v → ∃ l v', Lease.Step v l v' ∧ s'.Shows key v' ∧
      ∀ token, l = .release token → s.OwnRelease a key token :=
    fun h' => ⟨.pass, _, .pass v 0, h', fun token hl => by cases hl⟩
  rcases step_cases h with hstart | hperform | hanswer | htick
  · obtain ⟨task, -, -, rfl⟩ := hstart
    exact hskip (hshows.congr rfl rfl rfl)
  · obtain ⟨i, transport, rfl, hperform⟩ := hperform
    obtain ⟨task, past, c, k, s₁, r, hp, hexec, hcases⟩ := perform_cases hperform
    rcases hcases with hrun | hlost
    · obtain ⟨r', -, -, rfl⟩ := hrun
      obtain ⟨l, v', hstep, hshows', hl⟩ :=
        execute_shows hshows hv hkey hs.fences (hs.callOk hp) hexec
      refine ⟨l, v', hstep, hshows'.congr rfl rfl rfl, fun token htoken => ?_⟩
      obtain ⟨client, rfl⟩ := hl token htoken
      exact hs.ownRelease hp
    · obtain ⟨-, rfl⟩ := hlost
      exact hskip (hshows.congr rfl rfl rfl)
  · obtain ⟨i, x, rfl, hanswer⟩ := hanswer
    obtain ⟨task, past, c, k, r, -, -, rfl⟩ := answer_cases hanswer
    exact hskip (hshows.congr rfl rfl rfl)
  · obtain ⟨ms, rfl, rfl⟩ := htick
    refine ⟨.pass, _, .pass v ms, ⟨?_, hshows.stored, hshows.latest⟩, fun token hl => by cases hl⟩
    show v.now + ms = s.now + ms
    rw [hshows.now]

/-- Every allowed step keeps the invariant. -/
theorem Inv.step {a : LockAction} (hs : s.Inv numberText) (ha : a.Allowed s)
    (h : s.step numberText a = some s') : s'.Inv numberText := by
  have hleases : ∀ key, ¬ Fence key → ∃ v, s'.Shows key v ∧ v.Agree := by
    intro key hkey
    obtain ⟨v, hshows, hv⟩ := hs.leases key hkey
    obtain ⟨l, v', hstep, hshows', -⟩ := step_shows hs ha h hkey hshows hv
    exact ⟨v', hshows', hstep.agree hv⟩
  rcases step_cases h with hstart | hperform | hanswer | htick
  · obtain ⟨task, htask, -, rfl⟩ := hstart
    refine ⟨fun j p hj => ?_, hs.fences, hleases⟩
    rcases start_process hj with hold | rfl
    · exact (hs.processes j p hold).mono (fun _ _ => lockOf_start) fun _ _ hn => hn
    · exact ⟨.start, (htask ha).mono fun _ _ => lockOf_start, fun token ht => by cases ht⟩
  · obtain ⟨i, transport, rfl, hperform⟩ := hperform
    obtain ⟨task, past, c, k, s₁, r, hp, hexec, hcases⟩ := perform_cases hperform
    obtain ⟨hprocs, -, hdrawn⟩ := execute_frame hexec
    -- a request that gets lost has no effect, and its caller gets an error
    rcases hcases with hrun | hlost
    · obtain ⟨r', hr', -, rfl⟩ := hrun
      have hfences : s₁.FencesOk := execute_fences hs.fences (hs.callOk hp) hexec
      refine ⟨resume_processes hs hp hprocs hdrawn fun token ht => ?_, hfences, hleases⟩
      rcases hr' with rfl | herror
      · exact execute_draw hexec ht
      · obtain ⟨e, rfl⟩ := herror
        cases ht
    · obtain ⟨-, rfl⟩ := hlost
      refine ⟨resume_processes hs hp rfl (fun _ _ hn => hn) fun token ht => ?_, hs.fences,
        hleases⟩
      cases ht
  · obtain ⟨i, x, rfl, hanswer⟩ := hanswer
    obtain ⟨task, past, c, k, r, hp, hr, rfl⟩ := answer_cases hanswer
    refine ⟨resume_processes hs hp rfl (fun _ _ hn => hn) fun token ht => ?_, hs.fences, hleases⟩
    cases ht
    exact nomatch hr
  · obtain ⟨ms, rfl, rfl⟩ := htick
    exact ⟨fun j p hj => (hs.processes j p hj).mono (fun _ _ hl => hl) fun _ _ hn => hn,
      hs.fences, hleases⟩

/-- It holds at first. -/
theorem Initial.inv (h : s.Initial) : s.Inv numberText := by
  refine ⟨fun i p hp => ?_, fun key e he => ?_, fun key _ => ?_⟩
  · rw [h.processes] at hp
    cases hp
  · have hkey : "lock:fence:" ++ key = "lock:" ++ ("fence:" ++ key) := by
      rw [← String.append_assoc]
      rfl
    rw [hkey, h.store] at he
    cases he
  · refine ⟨⟨s.now, none, none⟩, ⟨rfl, h.store key, by rw [h.latest]⟩, fun g hg => ?_⟩
    cases hg

/-- Every state of every run satisfies the invariant. -/
theorem inv_of_reaches (h0 : s.Initial)
    (h : Transition.Reaches (step numberText) (fun s a => a.Allowed s) s s') :
    s'.Inv numberText :=
  h.invariant h0.inv fun _ _ _ hu ha hstep => hu.step ha hstep

/-! ## Results -/

/-- The lock object is in force. -/
def Valid (s : LockState) (lock : Lock) : Prop :=
  holds s.now s.store lock.lockKey lock.token = true

/-- Redis accepts the time of an acquire. -/
def Accepted (ttlMs : JsNumber) : Prop :=
  ∃ n, expiryArg ttlMs = .ok n ∧ 0 < n

variable {key : String}

/-- A script on a held key leaves the state as it is. -/
theorem runAcquire_of_held {e : KeyValue.Entry Value} {lockKey fenceKey : String}
    {token : Token} {ttlMs : JsNumber} {fencing : Bool}
    (he : s.store.entry s.now lockKey = some e) :
    ∃ reply, s.runAcquire lockKey fenceKey token ttlMs fencing = (s, reply) ∧
      (reply = .ok none ∨ ∃ e, reply = .error e) ∧ (Accepted ttlMs → reply = .ok none) := by
  obtain ⟨hstore, hreply⟩ : (acquireLock s.now s.store lockKey fenceKey token ttlMs
    fencing).1 = s.store ∧ _ := acquireLock_of_held he
  refine ⟨(acquireLock s.now s.store lockKey fenceKey token ttlMs fencing).2, ?_, ?_, ?_⟩
  · rw [runAcquire, recordGrant_of_ne hreply, hstore]
  · match hr : (acquireLock s.now s.store lockKey fenceKey token ttlMs fencing).2 with
    | .ok none => exact Or.inl rfl
    | .ok (some n) => exact absurd hr (hreply n)
    | .error e => exact Or.inr ⟨e, rfl⟩
  · intro haccepted
    obtain ⟨n, hn, hpos⟩ := haccepted
    rw [acquireLock_of_held_eq he hn hpos]

/-- A call that is answered goes on with its reply. -/
theorem step_perform {task : Task} {past : List CallEvent} {c : LockCall}
    {k : Except JsError c.Reply → Code} {r : Except JsError c.Reply}
    (hp : s.processes[i]? = some ⟨task, past, .await (.inl c) k⟩)
    (hexec : s.execute i c = some (s', r)) :
    s.step numberText (.perform i .answered) = some (s'.resume i task past c k r) := by
  simp only [step, perform, hp, hexec]

/-- An extend with a stale token changes nothing and returns 0. -/
theorem runExtend_of_stale {lockKey : String} {token : Token} {ms : JsNumber}
    (h : holds s.now s.store lockKey token = false) :
    s.runExtend lockKey token ms = (s, .ok 0) := by
  rw [runExtend, extendLock_of_not_holds ms h]
  rfl

/-- Nor does a release. -/
theorem runRelease_of_stale {lockKey : String} {token : Token}
    (h : holds s.now s.store lockKey token = false) :
    s.runRelease lockKey token = (s, .ok 0) := by
  rw [runRelease, releaseLock_of_not_holds h]

variable (numberText) in
/-- What the service guarantees for a key, in a state of a run. -/
structure Exclusive (s : LockState) (key : String) : Prop where
  /-- The live entry is the latest grant, with the expiry its last extension gave it. -/
  latest : ∀ e, s.store.entry s.now ("lock:" ++ key) = some e →
    ∃ g, s.latest ("lock:" ++ key) = some g ∧ e = lockEntry g
  /-- No two lock objects of the key are in force. -/
  unique : ∀ (i j : ℕ) (li lj : Lock), s.lockOf i = some li → s.lockOf j = some lj →
    li.key = key → lj.key = key → s.Valid li → s.Valid lj → i = j
  /-- The script of an acquire that finds the key held changes nothing. Its reply is `null`
  (Redis may also refuse the time), and an acquire without retries then resolves to it. -/
  held : ∀ (i : ℕ) service ttlMs opts fuel past client fenceKey token ttlMs' fencing
      (k : Except JsError (Option ℤ) → Code) e,
    s.store.entry s.now ("lock:" ++ key) = some e →
    s.processes[i]? = some ⟨.acquire service key ttlMs opts fuel, past,
      .await (.inl (.acquireLock client ("lock:" ++ key) fenceKey token ttlMs' fencing)) k⟩ →
    ∃ reply, s.step numberText (.perform i .answered) = some (s.resume i
        (.acquire service key ttlMs opts fuel) past
        (.acquireLock client ("lock:" ++ key) fenceKey token ttlMs' fencing) k reply) ∧
      (reply = .ok none ∨ ∃ e, reply = .error e) ∧
      (Accepted ttlMs' → reply = .ok none) ∧
      (opts.retry = none → k (.ok none) = .resolve (.acquired none))
  /-- An acquire, with retries or without, returns a lock object only if Redis granted one
  of its attempts. -/
  refused : ∀ (i : ℕ) service ttlMs opts fuel past (r : Outcome),
    s.processes[i]? = some ⟨.acquire service key ttlMs opts fuel, past, .resolve r⟩ →
    (∀ token, ¬ Granted past token) → r = .acquired none
  /-- A token that is not the live value extends nothing: `false`, and no other change. -/
  staleExtend : ∀ (i : ℕ) task past client token ms (k : Except JsError ℤ → Code),
    holds s.now s.store ("lock:" ++ key) token = false →
    s.processes[i]? = some ⟨task, past,
      .await (.inl (.extendLock client ("lock:" ++ key) token ms)) k⟩ →
    s.step numberText (.perform i .answered) = some (s.resume i task past
      (.extendLock client ("lock:" ++ key) token ms) k (.ok (0 : ℤ))) ∧
    k (.ok 0) = .resolve (.flag false)
  /-- A token that is not the live value releases nothing. -/
  staleRelease : ∀ (i : ℕ) task past client token (k : Except JsError ℤ → Code),
    holds s.now s.store ("lock:" ++ key) token = false →
    s.processes[i]? = some ⟨task, past,
      .await (.inl (.releaseLock client ("lock:" ++ key) token)) k⟩ →
    s.step numberText (.perform i .answered) = some (s.resume i task past
      (.releaseLock client ("lock:" ++ key) token) k (.ok (0 : ℤ))) ∧
    k (.ok 0) = .resolve (.flag false)
  /-- A step ends a lock in force only by expiry or by its own release. -/
  kept : ∀ a s' e, a.Allowed s → s.step numberText a = some s' →
    s.store.entry s.now ("lock:" ++ key) = some e →
    (∃ e', s'.store.entry s'.now ("lock:" ++ key) = some e' ∧ e'.value = e.value) ∨
    (∃ t, e.expireAt = some t ∧ t < s'.now) ∨
    ∃ token, e.value = .token token ∧ s.OwnRelease a key token

/-- While the entry is there, an acquire of the key gets nothing and changes nothing. -/
theorem Inv.held (hs : s.Inv numberText) {service : RedisLockService} {ttlMs ttlMs' : JsNumber}
    {opts : LockOptions} {fuel client : ℕ} {past : List CallEvent} {fenceKey : String}
    {token : Token} {fencing : Bool} {k : Except JsError (Option ℤ) → Code}
    {e : KeyValue.Entry Value} (he : s.store.entry s.now ("lock:" ++ key) = some e)
    (hp : s.processes[i]? = some ⟨.acquire service key ttlMs opts fuel, past,
      .await (.inl (.acquireLock client ("lock:" ++ key) fenceKey token ttlMs' fencing)) k⟩) :
    ∃ reply, s.step numberText (.perform i .answered) = some (s.resume i
        (.acquire service key ttlMs opts fuel) past
        (.acquireLock client ("lock:" ++ key) fenceKey token ttlMs' fencing) k reply) ∧
      (reply = .ok none ∨ ∃ e, reply = .error e) ∧
      (Accepted ttlMs' → reply = .ok none) ∧
      (opts.retry = none → k (.ok none) = .resolve (.acquired none)) := by
  obtain ⟨reply, hrun, hreply, haccepted⟩ :
    ∃ reply, s.runAcquire ("lock:" ++ key) fenceKey token ttlMs' fencing = (s, reply) ∧ _ :=
    runAcquire_of_held he
  have hexec : s.execute i (.acquireLock client ("lock:" ++ key) fenceKey token ttlMs' fencing) =
      some (s, reply) := congrArg some hrun
  refine ⟨reply, step_perform hp hexec, hreply, haccepted, fun hretry => ?_⟩
  have hnull := (hs.processes i _ hp).resumes.everywhere
    (Task.everywhere_nullIsNull numberText hretry)
  exact hnull.1

/-- An extend of a stale lock object resolves to `false`. -/
theorem Inv.staleExtend (hs : s.Inv numberText) {task : Task} {past : List CallEvent}
    {client : ℕ} {token : Token} {ms : JsNumber} {k : Except JsError ℤ → Code}
    (hstale : holds s.now s.store ("lock:" ++ key) token = false)
    (hp : s.processes[i]? = some ⟨task, past,
      .await (.inl (.extendLock client ("lock:" ++ key) token ms)) k⟩) :
    s.step numberText (.perform i .answered) = some (s.resume i task past
      (.extendLock client ("lock:" ++ key) token ms) k (.ok (0 : ℤ))) ∧
    k (.ok 0) = .resolve (.flag false) := by
  have hexec : s.execute i (.extendLock client ("lock:" ++ key) token ms) = some (s, .ok (0 : ℤ)) :=
    congrArg some (runExtend_of_stale hstale)
  have hzero := (hs.processes i _ hp).resumes.everywhere
    (Task.everywhere_zeroIsFalse numberText task)
  exact ⟨step_perform hp hexec, hzero.1⟩

/-- So does its release. -/
theorem Inv.staleRelease (hs : s.Inv numberText) {task : Task} {past : List CallEvent}
    {client : ℕ} {token : Token} {k : Except JsError ℤ → Code}
    (hstale : holds s.now s.store ("lock:" ++ key) token = false)
    (hp : s.processes[i]? = some ⟨task, past,
      .await (.inl (.releaseLock client ("lock:" ++ key) token)) k⟩) :
    s.step numberText (.perform i .answered) = some (s.resume i task past
      (.releaseLock client ("lock:" ++ key) token) k (.ok (0 : ℤ))) ∧
    k (.ok 0) = .resolve (.flag false) := by
  have hexec : s.execute i (.releaseLock client ("lock:" ++ key) token) = some (s, .ok (0 : ℤ)) :=
    congrArg some (runRelease_of_stale hstale)
  have hzero := (hs.processes i _ hp).resumes.everywhere
    (Task.everywhere_zeroIsFalse numberText task)
  exact ⟨step_perform hp hexec, hzero.1⟩

/-- The entry stays until it expires or its own holder releases it. -/
theorem Inv.kept {a : LockAction} {e : KeyValue.Entry Value} (hs : s.Inv numberText)
    (hkey : ¬ Fence key) (ha : a.Allowed s) (h : s.step numberText a = some s')
    (he : s.store.entry s.now ("lock:" ++ key) = some e) :
    (∃ e', s'.store.entry s'.now ("lock:" ++ key) = some e' ∧ e'.value = e.value) ∨
    (∃ t, e.expireAt = some t ∧ t < s'.now) ∨
    ∃ token, e.value = .token token ∧ s.OwnRelease a key token := by
  obtain ⟨v, hshows, hv⟩ := hs.leases key hkey
  rw [hshows.entry] at he
  obtain ⟨g, hg, rfl⟩ := Option.map_eq_some_iff.mp he
  obtain ⟨l, v', hstep, hshows', hrelease⟩ := step_shows hs ha h hkey hshows hv
  rcases hstep.lost hg with hlive | hlapsed | hreleased
  · obtain ⟨g', hg', hholder⟩ := hlive
    refine Or.inl ⟨lockEntry g', ?_, congrArg Value.token hholder⟩
    rw [hshows'.entry, hg']
    rfl
  · exact Or.inr (Or.inl ⟨g.expireAt, rfl, hshows'.now ▸ hlapsed.2⟩)
  · exact Or.inr (Or.inr ⟨g.holder, rfl, hrelease g.holder hreleased⟩)

/-- Before any call. -/
def idle : LockState := ⟨0, fun _ => none, [], [], fun _ => none⟩

/-- Before any call is an initial state. -/
theorem idle_initial : idle.Initial := ⟨rfl, rfl, rfl, fun _ => rfl⟩

end LockState

end NestFastify.Redis
