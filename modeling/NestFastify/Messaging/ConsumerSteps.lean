import NestFastify.Messaging.ConsumerSystem
import NestFastify.Messaging.OwnQueues

/-!
# What one step of the consumers can do

Inversion lemmas for the system over points: what each action finds and leaves, what a call
does to Redis and to the queues, and where the messages of a subscription with queues of its
own go. The invariants are derived from these alone.
-/

namespace NestFastify.Messaging

open Amqp
open Redis (Server Token)

/-- The copies that put letters into their queues. -/
def delivered (letters : List Letter) : List (Copy Point) := letters.map fun l => ⟨l, .ready⟩

/-- After a move a copy is an old one, the changed one, or a letter just put into a queue. -/
theorem mem_moved {copies : List (Copy Point)} {i : ℕ} {c x : Copy Point} {letters : List Letter}
    (hx : x ∈ copies.set i c ++ delivered letters) :
    x ∈ copies ∨ x = c ∨ ∃ l ∈ letters, x = ⟨l, .ready⟩ := by
  rcases List.mem_append.mp hx with hx | hx
  · rcases List.mem_or_eq_of_mem_set hx with hx | hx
    · exact Or.inl hx
    · exact Or.inr (Or.inl hx)
  · obtain ⟨l, hl, rfl⟩ := List.mem_map.mp hx
    exact Or.inr (Or.inr ⟨l, hl, rfl⟩)

namespace Deployment

variable {D : Deployment} {s s' s₁ : MessagingState Point} {i : ℕ} {l : Letter}
  {d : Delivery Point} {call : ConsumerCall} {outcome : Outcome}

theorem place_copies (s : MessagingState Point) (i : ℕ) (l : Letter) (pl : Place Point) :
    (place s i l pl).copies = s.copies.set i ⟨l, pl⟩ ++ delivered [] := (List.append_nil _).symm

/-- A copy that is dead-lettered is gone, and the letters it becomes are added. -/
theorem deadLetter_copies (s : MessagingState Point) (i : ℕ) (l : Letter) :
    (D.deadLetter s i l).copies = s.copies.set i ⟨l, .gone⟩ ++ delivered (D.deadLettered l) := rfl

/-! ## Looking up a copy -/

/-- A delivery is a copy that is unacknowledged. -/
theorem delivery?_eq_some {P : Type} {s : MessagingState P} {d : Delivery P} :
    delivery? s i = some (l, d) ↔ s.copies[i]? = some ⟨l, .unacked d⟩ := by
  unfold delivery?
  match s.copies[i]? with
  | none => simp
  | some ⟨l', .ready⟩ => simp
  | some ⟨l', .unacked d'⟩ => simp
  | some ⟨l', .gone⟩ => simp

/-- A copy can be delivered while it is ready. -/
theorem ready?_eq_some : ready? s i = some l ↔ s.copies[i]? = some ⟨l, .ready⟩ := by
  unfold ready?
  match s.copies[i]? with
  | none => simp
  | some ⟨l', .ready⟩ => simp
  | some ⟨l', .unacked d'⟩ => simp
  | some ⟨l', .gone⟩ => simp

/-! ## The effect of a call -/

section Effects

variable {r : Except JsError call.Reply}

/-- A call that resolves has been executed. A call that rejects may have been. -/
theorem settled_cases (h : D.settled s call outcome = some (s₁, r)) :
    (outcome = .resolves ∧ D.execute s call = some (s₁, r)) ∨
    ∃ e, r = .error e ∧ ((outcome = .rejects e false ∧ s₁ = s) ∨
      (outcome = .rejects e true ∧ ∃ r', D.execute s call = some (s₁, r'))) := by
  match outcome with
  | .resolves => exact Or.inl ⟨rfl, h⟩
  | .rejects e true =>
    obtain ⟨r', hr', heq⟩ := Option.map_eq_some_iff.mp h
    cases heq
    exact Or.inr ⟨e, rfl, Or.inr ⟨rfl, r'.2, hr'⟩⟩
  | .rejects e false =>
    cases h
    exact Or.inr ⟨e, rfl, Or.inl ⟨rfl, rfl⟩⟩

/-- A call leaves the clock, the publications and the log alone, and only adds copies. -/
theorem execute_frame (h : D.execute s call = some (s₁, r)) :
    s₁.now = s.now ∧ s₁.published = s.published ∧ s₁.log = s.log ∧
      ∃ letters, s₁.copies = s.copies ++ delivered letters ∧
        (letters = [] ∨ ∃ p, call = .publish p ∧ letters = D.routed p) := by
  match call with
  | .cacheGet key =>
    cases h
    exact ⟨rfl, rfl, rfl, [], by simp [delivered], Or.inl rfl⟩
  | .cacheSet key value ttlSeconds =>
    cases h
    exact ⟨rfl, rfl, rfl, [], by simp [delivered], Or.inl rfl⟩
  | .acquire key ttlMs =>
    obtain ⟨x, -, heq⟩ := Option.map_eq_some_iff.mp h
    cases heq
    exact ⟨rfl, rfl, rfl, [], by simp [delivered], Or.inl rfl⟩
  | .release lock =>
    obtain ⟨x, -, heq⟩ := Option.map_eq_some_iff.mp h
    cases heq
    exact ⟨rfl, rfl, rfl, [], by simp [delivered], Or.inl rfl⟩
  | .fn payload =>
    cases h
    exact ⟨rfl, rfl, rfl, [], by simp [delivered], Or.inl rfl⟩
  | .publish p =>
    cases h
    exact ⟨rfl, rfl, rfl, D.routed p, rfl, Or.inr ⟨p, rfl, rfl⟩⟩
  | .overlap p lock => cases h

/-- Publishes that nobody awaits are not touched by a call. -/
theorem execute_strays (h : D.execute s call = some (s₁, r)) : s₁.strays = s.strays := by
  match call with
  | .cacheGet _ | .cacheSet .. | .fn _ | .publish _ =>
    cases h
    rfl
  | .overlap .. => cases h
  | .acquire .. | .release _ =>
    obtain ⟨x, -, heq⟩ := Option.map_eq_some_iff.mp h
    cases heq
    rfl

/-- A call changes neither the clock nor what is on record; it only adds the letters that it
publishes. -/
theorem settled_frame (h : D.settled s call outcome = some (s₁, r)) :
    s₁.now = s.now ∧ s₁.published = s.published ∧ s₁.log = s.log ∧
      ∃ letters, s₁.copies = s.copies ++ delivered letters ∧
        (letters = [] ∨ ∃ p, call = .publish p ∧ letters = D.routed p) := by
  rcases settled_cases h with hok | hrej
  · exact execute_frame hok.2
  · obtain ⟨e, -, hno | heffect⟩ := hrej
    · obtain ⟨-, rfl⟩ := hno
      exact ⟨rfl, rfl, rfl, [], by simp [delivered], Or.inl rfl⟩
    · obtain ⟨-, r', hr'⟩ := heffect
      exact execute_frame hr'

/-- A call leaves the publishes under way as they are. -/
theorem settled_strays (h : D.settled s call outcome = some (s₁, r)) : s₁.strays = s.strays := by
  rcases settled_cases h with hok | hrej
  · exact execute_strays hok.2
  · obtain ⟨e, -, hno | heffect⟩ := hrej
    · rw [hno.2]
    · obtain ⟨-, r', hr'⟩ := heffect
      exact execute_strays hr'

end Effects

/-- A publish that resolves has put the message into every queue it is routed to. -/
theorem settled_publish {p : Publication} {r : Except JsError Unit}
    (h : D.settled s (.publish p) outcome = some (s₁, r)) :
    (r = .ok () ∧ s₁ = enqueue s (D.routed p)) ∨
    ∃ e, r = .error e ∧ ((outcome = .rejects e false ∧ s₁ = s) ∨
      (outcome = .rejects e true ∧ s₁ = enqueue s (D.routed p))) := by
  rcases settled_cases h with hok | hrej
  · obtain ⟨-, hexec⟩ := hok
    cases hexec
    exact Or.inl ⟨rfl, rfl⟩
  · obtain ⟨e, he, hno | heffect⟩ := hrej
    · exact Or.inr ⟨e, he, Or.inl hno⟩
    · obtain ⟨hout, r', hexec⟩ := heffect
      cases hexec
      exact Or.inr ⟨e, he, Or.inr ⟨hout, rfl⟩⟩

/-! ### Redis -/

/-- The cache and the locks share no key. -/
theorem cacheKey_ne_lockKey (x y : String) : Redis.RedisCacheService.key x ≠ "lock:" ++ y := by
  intro h
  have hhead := congrArg (fun name => name.toList.head?) h
  simp [Redis.RedisCacheService.key] at hhead

section Replies

variable {key : String}

/-- A `cache.get` changes nothing; it answers from the store or rejects. -/
theorem settled_cacheGet {r : Except JsError Json}
    (h : D.settled s (.cacheGet key) outcome = some (s₁, r)) :
    s₁ = s ∧ ((outcome = .resolves ∧ r = Redis.RedisCacheService.get s.now s.redis.store key) ∨
      ∃ e effect, outcome = .rejects e effect ∧ r = .error e) := by
  rcases settled_cases h with hok | hrej
  · obtain ⟨hout, hexec⟩ := hok
    cases hexec
    exact ⟨rfl, Or.inl ⟨hout, rfl⟩⟩
  · obtain ⟨e, he, hno | heffect⟩ := hrej
    · exact ⟨hno.2, Or.inr ⟨e, false, hno.1, he⟩⟩
    · obtain ⟨hout, r', hexec⟩ := heffect
      cases hexec
      exact ⟨rfl, Or.inr ⟨e, true, hout, he⟩⟩

/-- The handler leaves Redis and the broker alone. -/
theorem settled_fn {payload : EventPayload} {r : Except JsError Unit}
    (h : D.settled s (.fn payload) outcome = some (s₁, r)) : s₁ = s := by
  rcases settled_cases h with hok | hrej
  · obtain ⟨-, hexec⟩ := hok
    cases hexec
    rfl
  · obtain ⟨e, -, hno | heffect⟩ := hrej
    · exact hno.2
    · obtain ⟨-, r', hexec⟩ := heffect
      cases hexec
      rfl

/-- The state after `SET key value EX ttl`. -/
def cached (s : MessagingState Point) (key : String) (value : Json) (ttlSeconds : ℕ) :
    MessagingState Point :=
  { s with redis := ⟨s.redis.store.set (Redis.RedisCacheService.key key) (.json value)
    (some (s.now + 1000 * ttlSeconds)), s.redis.draws⟩ }

/-- A `cache.set` writes one entry, which expires after its TTL. -/
theorem cached_store (s : MessagingState Point) (key : String) (value : Json) (ttlSeconds : ℕ) :
    (cached s key value ttlSeconds).redis.store =
      s.redis.store.set (Redis.RedisCacheService.key key) (.json value)
        (some (s.now + 1000 * ttlSeconds)) := rfl

/-- A `cache.set` writes its entry; one that rejects may have written it all the same. -/
theorem settled_cacheSet {value : Json} {ttlSeconds : ℕ} {r : Except JsError Unit}
    (hpos : 0 < ttlSeconds)
    (h : D.settled s (.cacheSet key value ttlSeconds) outcome = some (s₁, r)) :
    (r = .ok () ∧ s₁ = cached s key value ttlSeconds) ∨
    ∃ e effect, outcome = .rejects e effect ∧ r = .error e ∧
      (s₁ = s ∨ s₁ = cached s key value ttlSeconds) := by
  have hexecute : ∀ x, D.execute s (.cacheSet key value ttlSeconds) = some x →
      x = (cached s key value ttlSeconds, .ok ()) := by
    intro x hx
    simp only [execute, Redis.RedisCacheService.set, if_pos hpos] at hx
    exact (Option.some.inj hx).symm
  rcases settled_cases h with hok | hrej
  · obtain ⟨-, hexec⟩ := hok
    cases hexecute _ hexec
    exact Or.inl ⟨rfl, rfl⟩
  · obtain ⟨e, he, hno | heffect⟩ := hrej
    · exact Or.inr ⟨e, false, hno.1, he, Or.inl hno.2⟩
    · obtain ⟨hout, r', hexec⟩ := heffect
      cases hexecute _ hexec
      exact Or.inr ⟨e, true, hout, he, Or.inr rfl⟩

/-- The state after an acquire that found the key held. -/
def drawn (s : MessagingState Point) : MessagingState Point :=
  { s with redis := ⟨s.redis.store, s.redis.draws + 1⟩ }

/-- The state after an acquire that took the lock. -/
def locked (s : MessagingState Point) (key : String) : MessagingState Point :=
  { s with redis := ⟨s.redis.store.set ("lock:" ++ key) (.token ⟨s.redis.draws⟩)
    (some (s.now + PROCESSING_LOCK_TTL_MS)), s.redis.draws + 1⟩ }

/-- A granted lock is one entry, which expires after the TTL of the processing lock. -/
theorem locked_store (s : MessagingState Point) (key : String) : (locked s key).redis.store =
    s.redis.store.set ("lock:" ++ key) (.token ⟨s.redis.draws⟩)
      (some (s.now + PROCESSING_LOCK_TTL_MS)) := rfl

/-- The lock is granted exactly when its entry is absent or expired. -/
theorem execute_acquire {x : MessagingState Point × Except JsError (Option Redis.Lock)}
    (h : D.execute s (.acquire key PROCESSING_LOCK_TTL_MS) = some x) :
    ((∃ e, s.redis.store.entry s.now ("lock:" ++ key) = some e) ∧ x = (drawn s, .ok none)) ∨
    (s.redis.store.entry s.now ("lock:" ++ key) = none ∧
      x = (locked s key, .ok (some (Server.plainLock key s.redis.draws)))) := by
  have hpos : 0 < PROCESSING_LOCK_TTL_MS := by decide
  have hbound : PROCESSING_LOCK_TTL_MS ≤ Redis.maxInteger.natAbs := by decide
  simp only [execute] at h
  cases hentry : s.redis.store.entry s.now ("lock:" ++ key) with
  | some e =>
    rw [Server.acquire_of_held hpos hbound hentry] at h
    exact Or.inl ⟨⟨e, rfl⟩, (Option.some.inj h).symm⟩
  | none =>
    rw [Server.acquire_of_free hpos hbound hentry] at h
    exact Or.inr ⟨rfl, (Option.some.inj h).symm⟩

/-- An acquire that rejects may have taken the lock all the same. -/
theorem settled_acquire {r : Except JsError (Option Redis.Lock)}
    (h : D.settled s (.acquire key PROCESSING_LOCK_TTL_MS) outcome = some (s₁, r)) :
    ((∃ e, s.redis.store.entry s.now ("lock:" ++ key) = some e) ∧ s₁ = drawn s ∧
      outcome = .resolves ∧ r = .ok none) ∨
    (s.redis.store.entry s.now ("lock:" ++ key) = none ∧ s₁ = locked s key ∧
      outcome = .resolves ∧ r = .ok (some (Server.plainLock key s.redis.draws))) ∨
    ∃ e effect, outcome = .rejects e effect ∧ r = .error e ∧ (s₁ = s ∨ s₁ = drawn s ∨
      (s.redis.store.entry s.now ("lock:" ++ key) = none ∧ s₁ = locked s key)) := by
  rcases settled_cases h with hok | hrej
  · obtain ⟨hout, hexec⟩ := hok
    rcases execute_acquire hexec with hheld | hfree
    · obtain ⟨hentry, heq⟩ := hheld
      cases heq
      exact Or.inl ⟨hentry, rfl, hout, rfl⟩
    · obtain ⟨hentry, heq⟩ := hfree
      cases heq
      exact Or.inr (Or.inl ⟨hentry, rfl, hout, rfl⟩)
  · obtain ⟨e, he, hno | heffect⟩ := hrej
    · exact Or.inr (Or.inr ⟨e, false, hno.1, he, Or.inl hno.2⟩)
    · obtain ⟨hout, r', hexec⟩ := heffect
      rcases execute_acquire hexec with hheld | hfree
      · obtain ⟨-, heq⟩ := hheld
        cases heq
        exact Or.inr (Or.inr ⟨e, true, hout, he, Or.inr (Or.inl rfl)⟩)
      · obtain ⟨hentry, heq⟩ := hfree
        cases heq
        exact Or.inr (Or.inr ⟨e, true, hout, he, Or.inr (Or.inr ⟨hentry, rfl⟩)⟩)

/-- The state after a release, which deletes the entry if the lock still holds it. -/
def released (s : MessagingState Point) (lock : Redis.Lock) : MessagingState Point :=
  { s with redis :=
    ⟨(Redis.releaseLock s.now s.redis.store lock.lockKey lock.token).1, s.redis.draws⟩ }

/-- A release that rejects may have given the lock back all the same. -/
theorem settled_release {lock : Redis.Lock} {r : Except JsError Bool}
    (h : D.settled s (.release lock) outcome = some (s₁, r)) :
    (outcome = .resolves ∧ s₁ = released s lock ∧ ∃ b, r = .ok b) ∨
    ∃ e effect, outcome = .rejects e effect ∧ r = .error e ∧
      (s₁ = s ∨ s₁ = released s lock) := by
  have hexecute : ∀ x, D.execute s (.release lock) = some x →
      x.1 = released s lock ∧ ∃ b, x.2 = .ok b := by
    intro x hx
    simp only [execute, Server.release_eq, Option.map_some] at hx
    rw [← Option.some.inj hx]
    refine ⟨rfl, ?_⟩
    unfold Redis.releaseLock
    split
    · exact ⟨_, rfl⟩
    · exact ⟨_, rfl⟩
  rcases settled_cases h with hok | hrej
  · exact Or.inl ⟨hok.1, (hexecute _ hok.2).1, (hexecute _ hok.2).2⟩
  · obtain ⟨e, he, hno | heffect⟩ := hrej
    · exact Or.inr ⟨e, false, hno.1, he, Or.inl hno.2⟩
    · obtain ⟨hout, r', hexec⟩ := heffect
      exact Or.inr ⟨e, true, hout, he, Or.inr (hexecute _ hexec).1⟩

end Replies

/-! ### The marker -/

/-- The marker of a message is there, and is not null. -/
def Marked {P : Type} (s : MessagingState P) (m : String) : Prop :=
  ∃ v, Redis.RedisCacheService.get s.now s.redis.store (doneKey m) = .ok v ∧ v.isNull = false

/-- Only the entry under the marker's key counts. -/
theorem Marked.congr {m : String} (hm : Marked s₁ m) (hnow : s₁.now = s.now)
    (hkey : s₁.redis.store (Redis.RedisCacheService.key (doneKey m)) =
      s.redis.store (Redis.RedisCacheService.key (doneKey m))) : Marked s m := by
  obtain ⟨v, hget, hv⟩ := hm
  refine ⟨v, ?_, hv⟩
  rw [← hget, Redis.RedisCacheService.get, Redis.RedisCacheService.get, KeyValue.get,
    KeyValue.get, KeyValue.entry_congr hkey, hnow]

/-- Time only takes markers away. -/
theorem Marked.of_tick {m : String} {ms : ℕ} (hm : Marked { s with now := s.now + ms } m) :
    Marked s m := by
  obtain ⟨v, hget, hv⟩ := hm
  refine ⟨v, ?_, hv⟩
  have hentry : ∀ e, s.redis.store.entry (s.now + ms)
      (Redis.RedisCacheService.key (doneKey m)) = some e →
      s.redis.store.entry s.now (Redis.RedisCacheService.key (doneKey m)) = some e := by
    intro e he
    obtain ⟨hkey, hlive⟩ := KeyValue.entry_eq_some.mp he
    refine KeyValue.entry_eq_some.mpr ⟨hkey, ?_⟩
    match e with
    | ⟨value, none⟩ => rfl
    | ⟨value, some t⟩ =>
      rw [KeyValue.live_some] at hlive ⊢
      omega
  unfold Redis.RedisCacheService.get KeyValue.get at hget ⊢
  match hlater : s.redis.store.entry (s.now + ms) (Redis.RedisCacheService.key (doneKey m)) with
  | none =>
    rw [hlater] at hget
    cases hget
    cases hv
  | some e =>
    rw [hlater] at hget
    rw [hentry e hlater]
    exact hget

/-- Without an entry there is no marker. -/
theorem not_marked_of_none {m : String}
    (hnone : s.redis.store (Redis.RedisCacheService.key (doneKey m)) = none) : ¬ Marked s m := by
  intro hm
  obtain ⟨v, hget, hv⟩ := hm
  unfold Redis.RedisCacheService.get KeyValue.get KeyValue.entry at hget
  rw [hnone] at hget
  cases hget
  cases hv

/-! ### The entries of Redis -/

/-- A publish leaves Redis as it is. -/
theorem redis_of_publish {q : Publication} {r : Except JsError Unit}
    (h : D.settled s (.publish q) outcome = some (s₁, r)) : s₁.redis = s.redis := by
  rcases settled_publish h with hok | hrej
  · rw [hok.2]
    rfl
  · obtain ⟨e, -, hno | heffect⟩ := hrej
    · rw [hno.2]
    · rw [heffect.2]
      rfl

/-- Taking a lock changes the entry of that lock alone, and only where it was free. -/
theorem locked_entry (name : String) {key : String}
    (hfree : s.redis.store.entry s.now ("lock:" ++ key) = none) :
    (locked s key).redis.store name = s.redis.store name ∨
      (name = "lock:" ++ key ∧ s.redis.store.entry s.now name = none ∧
        (locked s key).redis.store name =
          some ⟨.token ⟨s.redis.draws⟩, some (s.now + PROCESSING_LOCK_TTL_MS)⟩) := by
  rw [locked_store]
  by_cases hname : name = "lock:" ++ key
  · refine Or.inr ⟨hname, hname ▸ hfree, ?_⟩
    rw [hname]
    exact KeyValue.set_self
  · exact Or.inl (KeyValue.set_ne hname)

/-- An acquire changes at most the entry of its lock, and only when there is none. -/
theorem store_of_acquire {key : String} {r : Except JsError (Option Redis.Lock)}
    (h : D.settled s (.acquire key PROCESSING_LOCK_TTL_MS) outcome = some (s₁, r))
    (name : String) :
    s₁.redis.store name = s.redis.store name ∨
      (name = "lock:" ++ key ∧ s.redis.store.entry s.now name = none ∧ s₁.redis.store name =
        some ⟨.token ⟨s.redis.draws⟩, some (s.now + PROCESSING_LOCK_TTL_MS)⟩) := by
  rcases settled_acquire h with hheld | hfree | hrej
  · rw [hheld.2.1]
    exact Or.inl rfl
  · rw [hfree.2.1]
    exact locked_entry name hfree.1
  · obtain ⟨e, effect, -, -, heq | heq | ⟨hentry, heq⟩⟩ := hrej
    · exact Or.inl (by rw [heq])
    · exact Or.inl (by rw [heq, drawn])
    · rw [heq]
      exact locked_entry name hentry

/-- A `cache.set` changes the entry of its key alone. -/
theorem cached_entry (s : MessagingState Point) (name key : String) (value : Json) (ttl : ℕ) :
    (cached s key value ttl).redis.store name = s.redis.store name ∨
      (name = Redis.RedisCacheService.key key ∧ (cached s key value ttl).redis.store name =
        some ⟨.json value, some (s.now + 1000 * ttl)⟩) := by
  rw [cached_store]
  by_cases hname : name = Redis.RedisCacheService.key key
  · refine Or.inr ⟨hname, ?_⟩
    rw [hname]
    exact KeyValue.set_self
  · exact Or.inl (KeyValue.set_ne hname)

/-- The same of a `cache.set` with its outcome. -/
theorem store_of_cacheSet {key : String} {value : Json} {ttl : ℕ} {r : Except JsError Unit}
    (hpos : 0 < ttl) (h : D.settled s (.cacheSet key value ttl) outcome = some (s₁, r))
    (name : String) :
    s₁.redis.store name = s.redis.store name ∨
      (name = Redis.RedisCacheService.key key ∧ s₁.redis.store name =
        some ⟨.json value, some (s.now + 1000 * ttl)⟩) := by
  rcases settled_cacheSet hpos h with hok | hrej
  · rw [hok.2]
    exact cached_entry s name key value ttl
  · obtain ⟨e, effect, -, -, heq | heq⟩ := hrej
    · exact Or.inl (by rw [heq])
    · rw [heq]
      exact cached_entry s name key value ttl

/-- A release removes the entry of its lock at most. -/
theorem released_store (s : MessagingState Point) (lock : Redis.Lock) (key : String) :
    (released s lock).redis.store key = s.redis.store key ∨
      (key = lock.lockKey ∧ (released s lock).redis.store key = none) := by
  by_cases hholds : Redis.holds s.now s.redis.store lock.lockKey lock.token = true
  · have hstore : (released s lock).redis.store = s.redis.store.del lock.lockKey := by
      rw [released, Redis.releaseLock_of_holds hholds]
    rw [hstore]
    by_cases hkey : key = lock.lockKey
    · exact Or.inr ⟨hkey, by rw [hkey, KeyValue.del_self]⟩
    · exact Or.inl (KeyValue.del_ne hkey)
  · have hstore : (released s lock).redis.store = s.redis.store := by
      rw [released, Redis.releaseLock_of_not_holds (by simpa using hholds)]
    rw [hstore]
    exact Or.inl rfl

/-- The same of a release with its outcome. -/
theorem store_of_release {lock : Redis.Lock} {r : Except JsError Bool}
    (h : D.settled s (.release lock) outcome = some (s₁, r)) (name : String) :
    s₁.redis.store name = s.redis.store name ∨
      (name = lock.lockKey ∧ s₁.redis.store name = none) := by
  rcases settled_release h with hok | hrej
  · rw [hok.2.1]
    exact released_store s lock name
  · obtain ⟨e, effect, -, -, heq | heq⟩ := hrej
    · exact Or.inl (by rw [heq])
    · rw [heq]
      exact released_store s lock name

/-- What a delivery's call can do to an entry of Redis: nothing; or an acquire takes the lock
of its message, the marker of its message is set, a release deletes its lock. -/
theorem store_of_settled {p p' : Point} {r : Except JsError call.Reply}
    (hstep : Point.Step (D.context l d) p call r p')
    (h : D.settled s call outcome = some (s₁, r)) (key : String) :
    s₁.redis.store key = s.redis.store key ∨
    ((∃ payload, p = .acquire payload) ∧ key = "lock:" ++ lockKey l.messageId ∧
      s.redis.store.entry s.now key = none ∧ s₁.redis.store key =
        some ⟨.token ⟨s.redis.draws⟩, some (s.now + PROCESSING_LOCK_TTL_MS)⟩) ∨
    ((∃ payload lock, p = .mark payload lock) ∧
      key = Redis.RedisCacheService.key (doneKey l.messageId) ∧ s₁.redis.store key =
        some ⟨.json (.num 1), some (s.now + 1000 * D.consumer.idempotencyTtl)⟩) ∨
    ∃ lock, p.lock? = some lock ∧ call = .release lock ∧ key = lock.lockKey ∧
      s₁.redis.store key = none := by
  have httl : 0 < (D.context l d).consumer.idempotencyTtl := D.env.RABBITMQ_IDEMPOTENCY_TTL.pos
  cases hstep with
  | get_hit | get_miss | get_invalid | get_broken | get_fail =>
    exact Or.inl (by rw [(settled_cacheGet h).1])
  | reject_ok | reject_fail | republish_ok | republish_fail | confirm_ok | confirm_fail =>
    exact Or.inl (by rw [redis_of_publish h])
  | acquire_ok payload lock =>
    exact (store_of_acquire h key).imp_right fun htaken => Or.inl ⟨⟨payload, rfl⟩, htaken⟩
  | acquire_held payload =>
    exact (store_of_acquire h key).imp_right fun htaken => Or.inl ⟨⟨payload, rfl⟩, htaken⟩
  | acquire_fail payload e =>
    exact (store_of_acquire h key).imp_right fun htaken => Or.inl ⟨⟨payload, rfl⟩, htaken⟩
  | fn_ok | fn_fail => exact Or.inl (by rw [settled_fn h])
  | mark_ok payload lock =>
    exact (store_of_cacheSet httl h key).imp_right fun hmark =>
      Or.inr (Or.inl ⟨⟨payload, lock, rfl⟩, hmark⟩)
  | mark_fail payload lock e =>
    exact (store_of_cacheSet httl h key).imp_right fun hmark =>
      Or.inr (Or.inl ⟨⟨payload, lock, rfl⟩, hmark⟩)
  | release_ok lock | release_fail lock =>
    exact (store_of_release h key).imp_right fun hgone =>
      Or.inr (Or.inr ⟨lock, rfl, rfl, hgone⟩)
  | overtake_ok _ lock | overtake_fail _ lock =>
    exact (store_of_release h key).imp_right fun hgone =>
      Or.inr (Or.inr ⟨lock, rfl, rfl, hgone⟩)

/-- The cache is written only by a delivery that has run its handler, with its marker. -/
theorem cacheEntry_of_settled {p p' : Point} {r : Except JsError call.Reply}
    (hstep : Point.Step (D.context l d) p call r p')
    (h : D.settled s call outcome = some (s₁, r)) (key : String) :
    s₁.redis.store (Redis.RedisCacheService.key key) =
        s.redis.store (Redis.RedisCacheService.key key) ∨
      s₁.redis.store (Redis.RedisCacheService.key key) = none ∨
      (∃ payload lock, p = .mark payload lock) ∧ key = doneKey l.messageId ∧
        ∃ t, s₁.redis.store (Redis.RedisCacheService.key key) = some ⟨.json (.num 1), t⟩ := by
  rcases store_of_settled hstep h (Redis.RedisCacheService.key key) with
    hsame | ⟨-, hkey, -⟩ | ⟨hpoint, hkey, hstore⟩ | ⟨lock, -, -, -, hnone⟩
  · exact Or.inl hsame
  · exact absurd hkey (cacheKey_ne_lockKey _ _)
  · exact Or.inr (Or.inr ⟨hpoint, (String.append_right_inj "cache:").mp hkey, _, hstore⟩)
  · exact Or.inr (Or.inl hnone)

/-- A marker is set only by a delivery of the message that has run its handler. -/
theorem marked_of_settled {m : String} {p p' : Point} {r : Except JsError call.Reply}
    (hstep : Point.Step (D.context l d) p call r p')
    (h : D.settled s call outcome = some (s₁, r)) (hnow : s₁.now = s.now) (hm : Marked s₁ m) :
    Marked s m ∨ (∃ payload lock, p = .mark payload lock) ∧ l.messageId = m := by
  rcases cacheEntry_of_settled hstep h (doneKey m) with hsame | hnone | hmark
  · exact Or.inl (hm.congr hnow hsame)
  · exact absurd hm (not_marked_of_none hnone)
  · obtain ⟨hpoint, hkey, -⟩ := hmark
    exact Or.inr ⟨hpoint, (String.append_right_inj "messaging:done:" |>.mp hkey).symm⟩

/-- The cache holds nothing but JSON. -/
def CacheClean (s : MessagingState Point) : Prop :=
  ∀ key e, s.redis.store (Redis.RedisCacheService.key key) = some e → ∃ v, e.value = .json v

/-- No call of a delivery spoils the cache. -/
theorem CacheClean.settled (h : CacheClean s) {p p' : Point} {r : Except JsError call.Reply}
    (hstep : Point.Step (D.context l d) p call r p')
    (hsettled : D.settled s call outcome = some (s₁, r)) : CacheClean s₁ := by
  intro key e he
  rcases cacheEntry_of_settled hstep hsettled key with hsame | hnone | hmark
  · exact h key e (hsame ▸ he)
  · rw [hnone] at he
    cases he
  · obtain ⟨-, -, t, ht⟩ := hmark
    rw [ht] at he
    cases he
    exact ⟨_, rfl⟩

/-- A read of a clean cache does not fail. -/
theorem CacheClean.get (h : CacheClean s) (key : String) :
    ∃ v, Redis.RedisCacheService.get s.now s.redis.store key = .ok v := by
  unfold Redis.RedisCacheService.get KeyValue.get
  match hentry : s.redis.store.entry s.now (Redis.RedisCacheService.key key) with
  | none => exact ⟨.null, rfl⟩
  | some e =>
    obtain ⟨hkey, -⟩ := KeyValue.entry_eq_some.mp hentry
    obtain ⟨v, hv⟩ := h key e hkey
    exact ⟨v, by simp [hv]⟩

/-- On a clean cache, a call that resolves has an answer. -/
theorem CacheClean.answer (h : CacheClean s) {p p' : Point} {r : Except JsError call.Reply}
    (hstep : Point.Step (D.context l d) p call r p')
    (hsettled : D.settled s call .resolves = some (s₁, r)) : ∃ v, r = .ok v := by
  have httl : 0 < (D.context l d).consumer.idempotencyTtl := D.env.RABBITMQ_IDEMPOTENCY_TTL.pos
  -- a call that resolves has been executed, so only a read could still be an error
  have hresolved : ∀ e, r ≠ .error e := by
    intro e he
    subst he
    cases hstep with
    | get_fail =>
      rcases settled_cacheGet hsettled with ⟨-, hok | hrej⟩
      · obtain ⟨v, hv⟩ := h.get (doneKey (D.context l d).messageId)
        rw [hv] at hok
        cases hok.2
      · obtain ⟨e', effect, hout, -⟩ := hrej
        cases hout
    | reject_fail | republish_fail | confirm_fail | fn_fail => cases hsettled
    | acquire_fail =>
      rcases settled_acquire hsettled with hheld | hfree | hrej
      · cases hheld.2.2.2
      · cases hfree.2.2.2
      · obtain ⟨e', effect, hout, -⟩ := hrej
        cases hout
    | mark_fail =>
      rcases settled_cacheSet httl hsettled with hok | hrej
      · cases hok.1
      · obtain ⟨e', effect, hout, -⟩ := hrej
        cases hout
    | release_fail | overtake_fail =>
      rcases settled_release hsettled with hok | hrej
      · obtain ⟨-, -, b, hb⟩ := hok
        cases hb
      · obtain ⟨e', effect, hout, -⟩ := hrej
        cases hout
  match r with
  | .ok v => exact ⟨v, rfl⟩
  | .error e => exact absurd rfl (hresolved e)

/-! ## Inversion of the actions -/

/-- A publish passes its contract and is enqueued in every bound queue. -/
theorem publish_cases {event : String} {raw : Json} {messageId : String}
    {requestId : Option String} (h : D.publish s event raw messageId requestId = some s') :
    ∃ payload, parseEvent D.z event raw = .ok payload ∧
      s' = { enqueue s (D.routed ⟨D.ex.events, event, payload.toJson, some messageId,
          ⟨some 0, none, none, requestId⟩⟩) with
        published := s.published ++ [⟨messageId, event, payload⟩] } := by
  unfold publish EventPublisherService.publish at h
  match hparse : parseEvent D.z event raw with
  | .error e =>
    rw [hparse] at h
    cases h
  | .ok payload =>
    rw [hparse] at h
    cases h
    exact ⟨payload, rfl, rfl⟩

/-- A delivery starts on a ready copy of the work queue of its subscription. -/
theorem deliver_cases {sub : Subscription} {now : String}
    (h : D.deliver pointMachine s i sub now = some s') :
    ∃ l, s.copies[i]? = some ⟨l, .ready⟩ ∧ sub ∈ D.subscriptions ∧
      l.queue = workQueueName sub.subscriber sub.event ∧
      s' = place s i l (.unacked ⟨sub, now,
        Context.start ⟨D.z, D.consumer, sub, l.message, now⟩, none, false⟩) := by
  unfold deliver at h
  match hready : ready? s i with
  | none =>
    rw [hready] at h
    cases h
  | some l =>
    simp only [hready] at h
    by_cases hcond : sub ∈ D.subscriptions ∧ l.queue = workQueueName sub.subscriber sub.event
    · rw [if_pos hcond] at h
      cases h
      exact ⟨l, ready?_eq_some.mp hready, hcond.1, hcond.2, rfl⟩
    · rw [if_neg hcond] at h
      cases h

/-- A call settles as the point of the delivery prescribes, and the delivery goes on. -/
theorem perform_cases (h : D.perform pointMachine s i outcome = some s') :
    ∃ (l : Letter) (d : Delivery Point) (call : ConsumerCall) (r : Except JsError call.Reply)
      (p : Point) (s₁ : MessagingState Point),
      s.copies[i]? = some ⟨l, .unacked d⟩ ∧ Point.Step (D.context l d) d.code call r p ∧
      D.settled s call outcome = some (s₁, r) ∧ s' = D.resume pointMachine s₁ i l d call r p ∧
      D.callOf pointMachine s i = some call := by
  unfold perform at h
  match hdelivery : delivery? s i with
  | none =>
    rw [hdelivery] at h
    cases h
  | some (l, d) =>
    simp only [hdelivery] at h
    match hnext : (pointMachine.view d.code (D.context l d)).next with
    | none =>
      rw [hnext] at h
      cases h
    | some ⟨call, k⟩ =>
      simp only [hnext] at h
      obtain ⟨x, hsettled, heq⟩ := Option.map_eq_some_iff.mp h
      have hcall : D.callOf pointMachine s i = some call := by
        unfold callOf
        rw [hdelivery]
        simp only [hnext, Option.map_some]
      exact ⟨l, d, call, x.2, k x.2, x.1, delivery?_eq_some.mp hdelivery,
        Point.step_of_next hnext x.2, hsettled, heq.symm, hcall⟩

/-- What a delivery leaves behind is the publish it had under way. -/
def LeftBehind (D : Deployment) (l : Letter) (d : Delivery Point) (q : Publication) : Prop :=
  ∃ p, Point.Step (D.context l d) d.code (.publish q) (.ok ()) p

/-- The release overtakes the publish, which is left behind. -/
theorem overtake_cases (h : D.overtake pointMachine s i outcome = some s') :
    ∃ (l : Letter) (d : Delivery Point) (lock : Redis.Lock) (r : Except JsError Bool) (p : Point)
      (s₁ : MessagingState Point) (q : Publication),
      s.copies[i]? = some ⟨l, .unacked d⟩ ∧ Point.Step (D.context l d) d.code (.release lock) r p ∧
      D.settled s (.release lock) outcome = some (s₁, r) ∧
      s' = abandon (D.resume pointMachine s₁ i l d (.release lock) r p) i (leftBehind q r) ∧
      LeftBehind D l d q := by
  unfold overtake at h
  match hdelivery : delivery? s i with
  | none =>
    rw [hdelivery] at h
    cases h
  | some (l, d) =>
    simp only [hdelivery] at h
    match hbeside : (pointMachine.view d.code (D.context l d)).beside with
    | none =>
      rw [hbeside] at h
      cases h
    | some (q, lock, k) =>
      simp only [hbeside] at h
      obtain ⟨x, hsettled, heq⟩ := Option.map_eq_some_iff.mp h
      obtain ⟨hmove, hq⟩ := Point.step_of_beside hbeside x.2
      exact ⟨l, d, lock, x.2, k x.2, x.1, q, delivery?_eq_some.mp hdelivery, hmove, hsettled,
        heq.symm, Point.step_of_publication? hq (.ok ())⟩

theorem abandon_none (s : MessagingState Point) (i : ℕ) : abandon s i none = s := by
  simp [abandon]

/-- A call of a delivery settles, the one in front or the release beside it. -/
theorem call_cases {a : Action} (ha : a.call? = some (i, outcome))
    (hstep : D.step pointMachine s a = some s') :
    ∃ (l : Letter) (d : Delivery Point) (call : ConsumerCall) (r : Except JsError call.Reply)
      (p : Point) (s₁ : MessagingState Point) (left : Option Publication),
      s.copies[i]? = some ⟨l, .unacked d⟩ ∧ Point.Step (D.context l d) d.code call r p ∧
      D.settled s call outcome = some (s₁, r) ∧
      s' = abandon (D.resume pointMachine s₁ i l d call r p) i left ∧
      (∀ q, left = some q → LeftBehind D l d q) ∧
      ((a = .perform i outcome ∧ D.callOf pointMachine s i = some call) ∨
        (a = .overtake i outcome ∧ ∃ lock, call = .release lock)) := by
  match a with
  | .perform j outcome' =>
    obtain ⟨rfl, rfl⟩ := Prod.mk.inj (Option.some.inj ha)
    obtain ⟨l, d, call, r, p, s₁, hi, hmove, hsettled, rfl, hcall⟩ := perform_cases hstep
    exact ⟨l, d, call, r, p, s₁, none, hi, hmove, hsettled, (abandon_none _ _).symm, nofun,
      Or.inl ⟨rfl, hcall⟩⟩
  | .overtake j outcome' =>
    obtain ⟨rfl, rfl⟩ := Prod.mk.inj (Option.some.inj ha)
    obtain ⟨l, d, lock, r, p, s₁, q, hi, hmove, hsettled, rfl, hq⟩ := overtake_cases hstep
    refine ⟨l, d, .release lock, r, p, s₁, leftBehind q r, hi, hmove, hsettled, rfl,
      fun q' hq' => ?_, Or.inr ⟨rfl, lock, rfl⟩⟩
    match r with
    | .ok b => cases hq'
    | .error e =>
      cases hq'
      exact hq
  | .publish .. | .deliver .. | .settle _ | .crash _ | .stray .. | .expire _ | .tick _ => cases ha

/-- A delivery that has finished is acked, dead-lettered or returned, by its result. -/
theorem settle_cases (h : D.settle pointMachine s i = some s') :
    ∃ l d result, s.copies[i]? = some ⟨l, .unacked d⟩ ∧ d.code = .done result ∧
      ((result = .ok none ∧ s' = place s i l .gone) ∨
        (result = .ok (some ⟨false⟩) ∧ s' = D.deadLetter s i l) ∨
        (result ≠ .ok none ∧ s' = D.requeue s i l)) := by
  unfold settle at h
  match hdelivery : delivery? s i with
  | none =>
    rw [hdelivery] at h
    cases h
  | some (l, d) =>
    simp only [hdelivery] at h
    match hcode : d.code with
    | .done (.ok none) =>
      rw [hcode] at h
      cases h
      exact ⟨l, d, _, delivery?_eq_some.mp hdelivery, hcode, Or.inl ⟨rfl, rfl⟩⟩
    | .done (.ok (some ⟨true⟩)) =>
      rw [hcode] at h
      cases h
      exact ⟨l, d, _, delivery?_eq_some.mp hdelivery, hcode, Or.inr (Or.inr ⟨nofun, rfl⟩)⟩
    | .done (.ok (some ⟨false⟩)) =>
      rw [hcode] at h
      cases h
      exact ⟨l, d, _, delivery?_eq_some.mp hdelivery, hcode, Or.inr (Or.inl ⟨rfl, rfl⟩)⟩
    | .done (.error e) =>
      rw [hcode] at h
      cases h
      exact ⟨l, d, _, delivery?_eq_some.mp hdelivery, hcode, Or.inr (Or.inr ⟨nofun, rfl⟩)⟩
    | .get | .reject _ | .acquire _ | .fn _ _ | .mark _ _ | .republish _ _ _ | .release _ _
    | .confirm _ _ =>
      rw [hcode] at h
      cases h

/-- A crash returns the copy, and what the delivery was publishing is left behind. -/
theorem crash_cases (h : D.crash pointMachine s i = some s') :
    ∃ l d left, s.copies[i]? = some ⟨l, .unacked d⟩ ∧
      s' = abandon (D.requeue s i { l with crashes := l.crashes + 1 }) i left ∧
      ∀ q, left = some q → LeftBehind D l d q := by
  obtain ⟨r, hdelivery, rfl⟩ := Option.map_eq_some_iff.mp h
  exact ⟨r.1, r.2, _, delivery?_eq_some.mp hdelivery, rfl,
    fun q hq => Point.step_of_publication? hq (.ok ())⟩

/-- What was left behind arrives, or it is lost. -/
theorem stray_cases {j : ℕ} {arrives : Bool} (h : D.stray s j arrives = some s') :
    ∃ x letters, s.strays[j]? = some x ∧ (letters = [] ∨ letters = D.routed x.publication) ∧
      s' = { enqueue s letters with strays := s.strays.eraseIdx j } := by
  obtain ⟨x, hx, rfl⟩ := Option.map_eq_some_iff.mp h
  refine ⟨x, _, hx, ?_, rfl⟩
  match arrives with
  | true => exact Or.inr rfl
  | false => exact Or.inl rfl

/-- Only a queue with a TTL lets its messages expire. -/
theorem expire_cases (h : D.expire s i = some s') :
    ∃ l, s.copies[i]? = some ⟨l, .ready⟩ ∧
      ((D.topology.queue? l.queue).bind (·.arguments.messageTtl)).isSome = true ∧
      s' = D.deadLetter s i l := by
  unfold expire at h
  match hready : ready? s i with
  | none =>
    rw [hready] at h
    cases h
  | some l =>
    simp only [hready] at h
    by_cases httl : ((D.topology.queue? l.queue).bind (·.arguments.messageTtl)).isSome = true
    · rw [if_pos httl] at h
      cases h
      exact ⟨l, ready?_eq_some.mp hready, httl, rfl⟩
    · rw [if_neg httl] at h
      cases h

/-! ## What moves with a message -/

/-- Routing does not change the message. -/
theorem mem_routed {p : Publication} {x : Letter} (hx : x ∈ D.routed p) : x.message = p.message := by
  obtain ⟨queue, -, rfl⟩ := List.mem_map.mp hx
  rfl

/-- Dead-lettering does not change the message. -/
theorem mem_deadLettered {x : Letter} (hx : x ∈ D.deadLettered l) : x.message = l.message := by
  obtain ⟨queue, -, rfl⟩ := List.mem_map.mp hx
  rfl

/-- A delivery publishes copies of its own message. -/
theorem messageId_of_step {p : Publication} {pt pt' : Point} {r : Except JsError Unit}
    (hstep : Point.Step (D.context l d) pt (.publish p) r pt') :
    p.messageId = l.message.messageId := by
  have hfailure : ∀ payload err,
      ((D.context l d).failurePublication payload err).messageId = l.message.messageId := by
    intro payload err
    unfold Context.failurePublication
    by_cases h : (D.context l d).msg.attempt < (D.context l d).consumer.maxRetries
    · rw [if_pos h]
      rfl
    · rw [if_neg h]
      rfl
  cases hstep with
  | reject_ok | reject_fail => rfl
  | republish_ok payload lock err => exact hfailure payload err
  | republish_fail payload lock err e => exact hfailure payload err
  | confirm_ok payload err => exact hfailure payload err
  | confirm_fail payload err e => exact hfailure payload err

/-- A returned message is back in its queue, or dead-lettered at the delivery limit. -/
theorem requeue_eq (s : MessagingState Point) (i : ℕ) (l : Letter) :
    D.requeue s i l = place s i { l with deliveryCount := l.deliveryCount + 1 } .ready ∨
      D.requeue s i l = D.deadLetter s i l := by
  unfold requeue
  split
  · exact Or.inl rfl
  · split
    · exact Or.inr rfl
    · exact Or.inl rfl

theorem requeue_published (s : MessagingState Point) (i : ℕ) (l : Letter) :
    (D.requeue s i l).published = s.published := by
  rcases requeue_eq (D := D) s i l with heq | heq
  · rw [heq]
    rfl
  · rw [heq]
    rfl

/-- A return touches neither Redis, nor the log, nor the clock. -/
theorem requeue_frame (s : MessagingState Point) (i : ℕ) (l : Letter) :
    (D.requeue s i l).redis = s.redis ∧ (D.requeue s i l).log = s.log ∧
      (D.requeue s i l).now = s.now := by
  rcases requeue_eq (D := D) s i l with heq | heq
  · rw [heq]
    exact ⟨rfl, rfl, rfl⟩
  · rw [heq]
    exact ⟨rfl, rfl, rfl⟩

/-- Only a publish adds to what is published. -/
theorem published_of_step {a : Action} (hstep : D.step pointMachine s a = some s')
    (ha : ∀ event raw messageId requestId, a ≠ .publish event raw messageId requestId) :
    s'.published = s.published := by
  match a with
  | .publish event raw messageId requestId => exact absurd rfl (ha _ _ _ _)
  | .deliver i sub now =>
    obtain ⟨l, -, -, -, rfl⟩ := deliver_cases hstep
    rfl
  | .perform .. | .overtake .. =>
    obtain ⟨l, d, call, r, pt, s₁, left, -, -, hsettled, rfl, -⟩ := call_cases rfl hstep
    exact (settled_frame hsettled).2.1
  | .settle i =>
    obtain ⟨l, d, result, -, -, hack | hreject | hreturn⟩ := settle_cases hstep
    · obtain ⟨-, rfl⟩ := hack
      rfl
    · obtain ⟨-, rfl⟩ := hreject
      rfl
    · obtain ⟨-, rfl⟩ := hreturn
      exact requeue_published s i l
  | .crash i =>
    obtain ⟨l, d, left, -, rfl, -⟩ := crash_cases hstep
    exact requeue_published s i _
  | .stray j arrives =>
    obtain ⟨x, letters, -, -, rfl⟩ := stray_cases hstep
    rfl
  | .expire i =>
    obtain ⟨l, -, -, rfl⟩ := expire_cases hstep
    rfl
  | .tick ms =>
    cases hstep
    rfl

/-- What is published besides is a message that meets its contract. -/
theorem published_cases {a : Action} (hstep : D.step pointMachine s a = some s') :
    s'.published = s.published ∨ ∃ p raw, parseEvent D.z p.event raw = .ok p.payload ∧
      s'.published = s.published ++ [p] := by
  match a with
  | .publish event raw messageId requestId =>
    obtain ⟨payload, hparse, rfl⟩ := publish_cases hstep
    exact Or.inr ⟨⟨messageId, event, payload⟩, raw, hparse, rfl⟩
  | .deliver .. | .perform .. | .overtake .. | .settle _ | .crash _ | .stray .. | .expire _
  | .tick _ =>
    exact Or.inl (published_of_step hstep fun _ _ _ _ h => nomatch h)

/-- What has been published stays on record. -/
theorem published_subset {a : Action} (hstep : D.step pointMachine s a = some s') :
    s.published ⊆ s'.published := by
  rcases published_cases hstep with hsame | hnew
  · rw [hsame]
    exact List.Subset.refl _
  · obtain ⟨p, raw, -, hpub⟩ := hnew
    rw [hpub]
    exact List.subset_append_left _ _

/-- Only the calls of a delivery touch Redis and the log, and only a tick moves the clock. -/
theorem step_frame {a : Action} (ha : a.call? = none)
    (hstep : D.step pointMachine s a = some s') : s'.redis = s.redis ∧ s'.log = s.log ∧
      (s'.now = s.now ∨ ∃ ms, a = .tick ms ∧ s'.now = s.now + ms) := by
  match a with
  | .publish event raw messageId requestId =>
    obtain ⟨payload, -, rfl⟩ := publish_cases hstep
    exact ⟨rfl, rfl, Or.inl rfl⟩
  | .deliver i sub now =>
    obtain ⟨l, -, -, -, rfl⟩ := deliver_cases hstep
    exact ⟨rfl, rfl, Or.inl rfl⟩
  | .perform .. | .overtake .. => cases ha
  | .settle i =>
    obtain ⟨l, d, result, -, -, hack | hreject | hreturn⟩ := settle_cases hstep
    · obtain ⟨-, rfl⟩ := hack
      exact ⟨rfl, rfl, Or.inl rfl⟩
    · obtain ⟨-, rfl⟩ := hreject
      exact ⟨rfl, rfl, Or.inl rfl⟩
    · obtain ⟨-, rfl⟩ := hreturn
      obtain ⟨hredis, hlog, hnow⟩ := requeue_frame (D := D) s i l
      exact ⟨hredis, hlog, Or.inl hnow⟩
  | .crash i =>
    obtain ⟨l, d, left, -, rfl, -⟩ := crash_cases hstep
    obtain ⟨hredis, hlog, hnow⟩ := requeue_frame (D := D) s i { l with crashes := l.crashes + 1 }
    exact ⟨hredis, hlog, Or.inl hnow⟩
  | .stray j arrives =>
    obtain ⟨x, letters, -, -, rfl⟩ := stray_cases hstep
    exact ⟨rfl, rfl, Or.inl rfl⟩
  | .expire i =>
    obtain ⟨l, -, -, rfl⟩ := expire_cases hstep
    exact ⟨rfl, rfl, Or.inl rfl⟩
  | .tick ms =>
    rw [← Option.some.inj hstep]
    exact ⟨rfl, rfl, Or.inr ⟨ms, rfl, rfl⟩⟩

theorem requeue_strays (s : MessagingState Point) (i : ℕ) (l : Letter) :
    (D.requeue s i l).strays = s.strays := by
  rcases requeue_eq (D := D) s i l with heq | heq
  · rw [heq]
    rfl
  · rw [heq]
    rfl

/-- A delivery leaves at most one publish behind. -/
theorem mem_abandon {left : Option Publication} {x : Stray}
    (hx : x ∈ (abandon s i left).strays) :
    x ∈ s.strays ∨ ∃ q, left = some q ∧ x = ⟨i, q⟩ := by
  rcases List.mem_append.mp hx with hold | hnew
  · exact Or.inl hold
  · obtain ⟨q, hq, rfl⟩ := List.mem_map.mp hnew
    exact Or.inr ⟨q, Option.mem_toList.mp hq, rfl⟩

/-- A publish that nobody awaits any more was under way in its delivery until the step. -/
theorem strays_of_step {a : Action} (hstep : D.step pointMachine s a = some s') {x : Stray}
    (hx : x ∈ s'.strays) : x ∈ s.strays ∨
      ∃ l d, s.copies[x.copy]? = some ⟨l, .unacked d⟩ ∧ LeftBehind D l d x.publication := by
  match a with
  | .publish event raw messageId requestId =>
    obtain ⟨payload, -, rfl⟩ := publish_cases hstep
    exact Or.inl hx
  | .deliver i sub now =>
    obtain ⟨l, -, -, -, rfl⟩ := deliver_cases hstep
    exact Or.inl hx
  | .perform .. | .overtake .. =>
    obtain ⟨l, d, call, r, p, s₁, left, hi, -, hsettled, rfl, hleft, -⟩ := call_cases rfl hstep
    rcases mem_abandon hx with hold | ⟨q, hq, rfl⟩
    · exact Or.inl (settled_strays hsettled ▸ hold)
    · exact Or.inr ⟨l, d, hi, hleft q hq⟩
  | .settle i =>
    obtain ⟨l, d, result, -, -, ⟨-, rfl⟩ | ⟨-, rfl⟩ | ⟨-, rfl⟩⟩ := settle_cases hstep
    · exact Or.inl hx
    · exact Or.inl hx
    · exact Or.inl (requeue_strays s i l ▸ hx)
  | .crash i =>
    obtain ⟨l, d, left, hi, rfl, hleft⟩ := crash_cases hstep
    rcases mem_abandon hx with hold | ⟨q, hq, rfl⟩
    · exact Or.inl (requeue_strays s i _ ▸ hold)
    · exact Or.inr ⟨l, d, hi, hleft q hq⟩
  | .stray j arrives =>
    obtain ⟨y, letters, -, -, rfl⟩ := stray_cases hstep
    exact Or.inl (List.mem_of_mem_eraseIdx hx)
  | .expire i =>
    obtain ⟨l, -, -, rfl⟩ := expire_cases hstep
    exact Or.inl hx
  | .tick ms =>
    cases hstep
    exact Or.inl hx

/-- No step spoils the cache. -/
theorem CacheClean.step (h : CacheClean s) {a : Action}
    (hstep : D.step pointMachine s a = some s') : CacheClean s' := by
  cases ha : a.call? with
  | none =>
    intro key e he
    rw [(step_frame ha hstep).1] at he
    exact h key e he
  | some called =>
    obtain ⟨l, d, call, r, p, s₁, left, -, hmove, hsettled, rfl, -⟩ := call_cases ha hstep
    have hclean : CacheClean s₁ := h.settled hmove hsettled
    exact hclean

/-- The cache is clean in every state that is reached. -/
theorem cacheClean_of_reaches {ok : MessagingState Point → Action → Prop}
    (h : Transition.Reaches (D.step pointMachine) ok (.init Point) s) : CacheClean s := by
  induction h with
  | refl =>
    intro key e he
    cases he
  | tail _ hnext ih =>
    obtain ⟨a, -, hstep⟩ := hnext
    exact ih.step hstep

/-- Every event on record has a contract. -/
theorem hasContract_of_reaches {ok : MessagingState Code → Action → Prop}
    {t : MessagingState Code}
    (h : Transition.Reaches (D.step codeMachine) ok (.init Code) t) :
    ∀ p ∈ t.published, HasContract p.event := by
  obtain ⟨s, hs, rfl⟩ := reaches_points h
  show ∀ p ∈ s.published, HasContract p.event
  clear h
  induction hs with
  | refl => exact fun p hp => absurd hp List.not_mem_nil
  | tail _ hnext ih =>
    obtain ⟨a, -, hstep⟩ := hnext
    rcases published_cases hstep with hsame | hnew
    · rw [hsame]
      exact ih
    · obtain ⟨q, raw, hparse, hpub⟩ := hnew
      rw [hpub]
      intro p hp
      rcases List.mem_append.mp hp with hp | hp
      · exact ih p hp
      · rw [List.mem_singleton.mp hp]
        exact hasContract_of_parseEvent hparse

/-- Where a delivery goes on, one copy has changed and the letters of its call are added. -/
theorem copies_resume {letters : List Letter} {r : Except JsError call.Reply} {p : Point}
    (hi : s.copies[i]? = some ⟨l, .unacked d⟩)
    (hcopies : s₁.copies = s.copies ++ delivered letters) :
    (D.resume pointMachine s₁ i l d call r p).copies =
      s.copies.set i ⟨{ l with failedRepublishes := failedAfter l.failedRepublishes call r },
        .unacked { d with
          code := p
          lockedAt := lockedAfter s₁.now d.lockedAt call r
          republished := republishedAfter d.republished call r }⟩ ++ delivered letters := by
  have hlt : i < s.copies.length := (List.getElem?_eq_some_iff.mp hi).1
  simp only [resume, hcopies]
  rw [List.set_append_left _ _ hlt]

/-! ## The messages of a subscription with queues of its own -/

section Own

variable {S : Subscription} (hS : Apart D.subscriptions S)
include hS

/-- The work queue of the subscription has the delivery limit. -/
theorem limit_work : (D.topology.queue? (workQueueName S.subscriber S.event)).bind
    (·.arguments.deliveryLimit) = some D.deliveryLimit := by
  rw [topology, hS.queue?_work]
  rfl

/-- A returned message is ready again, or past the delivery limit and in the DLQ. -/
theorem requeue_cases (hqueue : l.queue = workQueueName S.subscriber S.event) :
    (l.deliveryCount + 1 ≤ D.deliveryLimit ∧
      D.requeue s i l = place s i { l with deliveryCount := l.deliveryCount + 1 } .ready) ∨
    (D.deliveryLimit < l.deliveryCount + 1 ∧ D.requeue s i l = D.deadLetter s i l) := by
  unfold requeue
  rw [hqueue, limit_work hS]
  by_cases hlimit : D.deliveryLimit < l.deliveryCount + 1
  · exact Or.inr ⟨hlimit, if_pos hlimit⟩
  · exact Or.inl ⟨Nat.le_of_not_lt hlimit, if_neg hlimit⟩

/-- The work queue dead-letters into the DLQ of the subscription. -/
theorem deadLettered_work (hqueue : l.queue = workQueueName S.subscriber S.event) :
    D.deadLettered l = [{ l with
      queue := dlqName S.subscriber S.event, routingKey := S.event, deliveryCount := 0 }] := by
  unfold deadLettered
  rw [hqueue, topology, hS.deadLetterRoute_work, hS.queue?_work]
  rfl

/-- A retry queue dead-letters into the work queue of the subscription. -/
theorem deadLettered_retry {tier : ℕ} (htier : tier < D.retryDelaysMs.length)
    (hqueue : l.queue = retryQueueName S.subscriber S.event tier) :
    D.deadLettered l = [{ l with
      queue := workQueueName S.subscriber S.event, routingKey := S.event, deliveryCount := 0 }] := by
  unfold deadLettered
  rw [hqueue, topology, hS.deadLetterRoute_retry htier,
    queue?_retryQueueName hS.distinct hS.mem htier]
  rfl

/-- A published event enters the work queue. -/
theorem routed_event (content : Json) (messageId : Option String) (headers : Headers) :
    D.routed ⟨D.ex.events, S.event, content, messageId, headers⟩ =
      [⟨workQueueName S.subscriber S.event, S.event, ⟨content, messageId, headers⟩, 0, 0, 0⟩] := by
  unfold routed
  rw [topology, ex, hS.route_events]
  rfl

/-- What goes to the dead-letter exchange enters the DLQ. -/
theorem routed_dlx (content : Json) (messageId : Option String) (headers : Headers) :
    D.routed ⟨D.ex.dlx, S.event, content, messageId, headers⟩ =
      [⟨dlqName S.subscriber S.event, S.event, ⟨content, messageId, headers⟩, 0, 0, 0⟩] := by
  unfold routed
  rw [topology, ex, hS.route_dlx]
  rfl

/-- A rejected message goes to the DLQ of the subscription. -/
theorem routed_reject (hsub : d.subscription = S) (reason : String) :
    ∃ headers : Headers, headers.attempt = l.message.headers.attempt ∧
      D.routed ((D.context l d).rejectPublication reason) =
        [⟨dlqName S.subscriber S.event, S.event,
          ⟨l.message.content, l.message.messageId, headers⟩, 0, 0, 0⟩] := by
  refine ⟨{ l.message.headers with error := some reason, failedAt := some d.now }, rfl, ?_⟩
  show D.routed ⟨D.ex.dlx, d.subscription.event, l.message.content, l.message.messageId, _⟩ = _
  rw [hsub]
  exact routed_dlx hS _ _ _

/-- Every tier of an accepted environment is declared, so a retry enters its queue. -/
theorem routed_failure (hsub : d.subscription = S) (payload : EventPayload) (err : JsError) :
    (l.message.attempt < D.consumer.maxRetries ∧ ∃ tier < D.retryDelaysMs.length,
      ∃ headers : Headers, headers.attempt = some (l.message.attempt + 1) ∧
        D.routed ((D.context l d).failurePublication payload err) =
          [⟨retryQueueName S.subscriber S.event tier, retryRoutingKey S.subscriber S.event tier,
            ⟨payload.toJson, l.message.messageId, headers⟩, 0, 0, 0⟩]) ∨
    (D.consumer.maxRetries ≤ l.message.attempt ∧
      ∃ headers : Headers, headers.attempt = l.message.headers.attempt ∧
        D.routed ((D.context l d).failurePublication payload err) =
          [⟨dlqName S.subscriber S.event, S.event,
            ⟨payload.toJson, l.message.messageId, headers⟩, 0, 0, 0⟩]) := by
  unfold Context.failurePublication
  by_cases hattempt : (D.context l d).msg.attempt < (D.context l d).consumer.maxRetries
  · rw [if_pos hattempt]
    -- `RABBITMQ_MAX_RETRIES` is at most the number of delays
    have hmax : D.consumer.maxRetries ≤ D.retryDelaysMs.length := by
      have htiers := D.env.retries_le_tiers
      simpa [Deployment.consumer, MessageConsumer.ofEnv, retryDelaysMs] using htiers
    have htier : D.consumer.retryTier l.message.attempt < D.retryDelaysMs.length := by
      have hlt : l.message.attempt < D.consumer.maxRetries := hattempt
      rw [MessageConsumer.retryTier_of_lt hlt]
      exact hlt.trans_le hmax
    refine Or.inl ⟨hattempt, _, htier, { l.message.headers with
      attempt := some (l.message.attempt + 1), error := some err.errMsg }, rfl, ?_⟩
    show D.routed ⟨D.ex.retry, retryRoutingKey d.subscription.subscriber d.subscription.event
      (D.consumer.retryTier l.message.attempt), payload.toJson, l.message.messageId, _⟩ = _
    rw [hsub]
    unfold routed
    rw [topology, ex, hS.route_retry htier]
    rfl
  · rw [if_neg hattempt]
    refine Or.inr ⟨Nat.le_of_not_lt hattempt, { l.message.headers with
      error := some err.errMsg, failedAt := some d.now }, rfl, ?_⟩
    show D.routed ⟨D.ex.dlx, d.subscription.event, payload.toJson, l.message.messageId, _⟩ = _
    rw [hsub]
    exact routed_dlx hS _ _ _

/-- Only the retry queues have a TTL. -/
theorem messageTtl_work : ((D.topology.queue? (workQueueName S.subscriber S.event)).bind
    (·.arguments.messageTtl)) = none := by
  rw [topology, hS.queue?_work]
  rfl

/-- Nothing expires in the DLQ. -/
theorem messageTtl_dlq : ((D.topology.queue? (dlqName S.subscriber S.event)).bind
    (·.arguments.messageTtl)) = none := by
  rw [topology, queue?_dlqName hS.distinct hS.mem]
  rfl

end Own

end Deployment

end NestFastify.Messaging
