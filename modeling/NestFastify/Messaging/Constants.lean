import Mathlib.Data.List.TakeWhile
import NestFastify.Foundation.Amqp

/-!
# Exchange, queue and routing-key names

The names of messaging.constants.ts, and what the topology proofs need of them: for
subscriber names without a dot, a name determines the subscriber, the event and the tier
it was built from, and names of different kinds differ.
-/

namespace NestFastify.Messaging

/-- The four exchanges. -/
structure Exchanges where
  events : String
  retry : String
  dlx : String
  unrouted : String

def exchangeNames (base : String) : Exchanges where
  events := base ++ ".events"
  retry := base ++ ".retry"
  dlx := base ++ ".dlx"
  unrouted := base ++ ".unrouted"

def workQueueName (subscriber event : String) : String := subscriber ++ "." ++ event ++ ".q"

def retryQueueName (subscriber event : String) (tier : ℕ) : String :=
  subscriber ++ "." ++ event ++ ".retry." ++ toString tier

def retryRoutingKey (subscriber event : String) (tier : ℕ) : String :=
  subscriber ++ "." ++ event ++ ".r" ++ toString tier

def dlqName (subscriber event : String) : String := subscriber ++ "." ++ event ++ ".dlq"

def unroutedQueueName (base : String) : String := base ++ ".unrouted.q"

/-! ## The first and the last segment of a name -/

/-- The text before the first dot. -/
def firstSegment (s : String) : List Char := s.toList.takeWhile (· ≠ '.')

/-- The text after the last dot. -/
def lastSegment (s : String) : List Char := (s.toList.reverse.takeWhile (· ≠ '.')).reverse

/-- The text before the first dot ends there. -/
theorem takeWhile_ne_dot {cs rest : List Char} (h : '.' ∉ cs) :
    (cs ++ '.' :: rest).takeWhile (· ≠ '.') = cs := by
  rw [List.takeWhile_append_of_pos]
  · simp
  · intro c hc
    have hne : c ≠ '.' := fun hdot => h (hdot ▸ hc)
    simpa using hne

/-- The first segment of a joined name is its first part. -/
theorem firstSegment_append {a : String} (ha : '.' ∉ a.toList) (b : String) :
    firstSegment (a ++ "." ++ b) = a.toList := by
  have hl : (a ++ "." ++ b).toList = a.toList ++ '.' :: b.toList := by simp
  rw [firstSegment, hl, takeWhile_ne_dot ha]

/-- Only what follows a dot counts for the last segment. -/
theorem lastSegment_append (a b : String) : lastSegment (a ++ "." ++ b) = lastSegment b := by
  have hl : (a ++ "." ++ b).toList.reverse = b.toList.reverse ++ '.' :: a.toList.reverse := by
    simp
  rw [lastSegment, lastSegment, hl, List.takeWhile_append]
  split
  · rename_i hall
    rw [List.takeWhile_cons_of_neg (by simp), List.append_nil,
      (List.takeWhile_prefix _).eq_of_length hall]
  · rfl

/-- A text without dots is its own last segment. -/
theorem lastSegment_eq_self {b : String} (hb : '.' ∉ b.toList) : lastSegment b = b.toList := by
  rw [lastSegment, List.takeWhile_eq_self_iff.mpr, List.reverse_reverse]
  intro c hc
  have hne : c ≠ '.' := fun hdot => hb (hdot ▸ by simpa using hc)
  simpa using hne

/-- Two dotted names with dot-free first segments agree segment by segment. -/
theorem append_dot_inj {a b x y : String} (ha : '.' ∉ a.toList) (hb : '.' ∉ b.toList) :
    a ++ "." ++ x = b ++ "." ++ y ↔ a = b ∧ x = y := by
  constructor
  · intro h
    have hab : a = b := by
      have hfirst := congrArg firstSegment h
      rw [firstSegment_append ha, firstSegment_append hb] at hfirst
      exact String.toList_inj.mp hfirst
    subst hab
    exact ⟨rfl, by simpa using h⟩
  · rintro ⟨rfl, rfl⟩
    rfl

/-- A tier number is written with digits only. -/
theorem notMem_repr {c : Char} (hc : c.isDigit = false) (n : ℕ) : c ∉ n.repr.toList := by
  rw [Nat.toList_repr]
  intro h
  rw [Nat.isDigit_of_mem_toDigits (by decide) (by decide) h] at hc
  cases hc

/-- Different numbers have different texts. -/
theorem repr_toList_inj {m n : ℕ} (h : m.repr.toList = n.repr.toList) : m = n := by
  rw [Nat.toList_repr, Nat.toList_repr] at h
  rw [← Nat.ofDigitChars_ten_toDigits (n := m), h, Nat.ofDigitChars_ten_toDigits]

/-! ## Names determine what they were built from -/

section Names

variable {s s' e e' base : String} {i j : ℕ}

/-- The last segments tell the kinds of queues apart. -/
theorem lastSegment_workQueueName : lastSegment (workQueueName s e) = ['q'] := by
  rw [show workQueueName s e = s ++ "." ++ e ++ "." ++ "q" by
    simp [workQueueName, String.append_assoc], lastSegment_append]
  rfl

theorem lastSegment_dlqName : lastSegment (dlqName s e) = ['d', 'l', 'q'] := by
  rw [show dlqName s e = s ++ "." ++ e ++ "." ++ "dlq" by
    simp [dlqName, String.append_assoc], lastSegment_append]
  rfl

theorem lastSegment_unroutedQueueName : lastSegment (unroutedQueueName base) = ['q'] := by
  rw [show unroutedQueueName base = base ++ ".unrouted" ++ "." ++ "q" by
    simp [unroutedQueueName, String.append_assoc], lastSegment_append]
  rfl

theorem lastSegment_retryQueueName : lastSegment (retryQueueName s e i) = i.repr.toList := by
  rw [show retryQueueName s e i = s ++ "." ++ e ++ ".retry" ++ "." ++ i.repr by
    simp [retryQueueName, String.append_assoc], lastSegment_append,
    lastSegment_eq_self (notMem_repr (by decide) i)]

/-- The tier is the last segment of a retry key. -/
theorem retryRoutingKey_eq : retryRoutingKey s e i = s ++ "." ++ e ++ "." ++ ("r" ++ i.repr) := by
  have hr : ".r" ++ i.repr = "." ++ ("r" ++ i.repr) := by
    rw [← String.append_assoc]
    rfl
  simp [retryRoutingKey, String.append_assoc, hr]

/-- A tier has no dot in its name. -/
theorem notMem_tier : '.' ∉ ("r" ++ i.repr).toList := by
  simpa using notMem_repr (by decide) i

theorem lastSegment_retryRoutingKey :
    lastSegment (retryRoutingKey s e i) = 'r' :: i.repr.toList := by
  rw [retryRoutingKey_eq, lastSegment_append, lastSegment_eq_self notMem_tier]
  simp

/-- No tier is called like the ending of a queue. -/
theorem q_ne_repr (n : ℕ) : ['q'] ≠ n.repr.toList := by
  intro h
  exact notMem_repr (c := 'q') (by decide) n (h ▸ by simp)

theorem dlq_ne_repr (n : ℕ) : ['d', 'l', 'q'] ≠ n.repr.toList := by
  intro h
  exact notMem_repr (c := 'q') (by decide) n (h ▸ by simp)

/-- Queues of different kinds have different names, whatever the subscribers and events. -/
theorem workQueueName_ne_dlqName : workQueueName s e ≠ dlqName s' e' := by
  intro h
  have := congrArg lastSegment h
  rw [lastSegment_workQueueName, lastSegment_dlqName] at this
  cases this

theorem workQueueName_ne_retryQueueName : workQueueName s e ≠ retryQueueName s' e' i := by
  intro h
  have := congrArg lastSegment h
  rw [lastSegment_workQueueName, lastSegment_retryQueueName] at this
  exact q_ne_repr i this

theorem dlqName_ne_retryQueueName : dlqName s e ≠ retryQueueName s' e' i := by
  intro h
  have := congrArg lastSegment h
  rw [lastSegment_dlqName, lastSegment_retryQueueName] at this
  exact dlq_ne_repr i this

theorem unroutedQueueName_ne_dlqName : unroutedQueueName base ≠ dlqName s e := by
  intro h
  have := congrArg lastSegment h
  rw [lastSegment_unroutedQueueName, lastSegment_dlqName] at this
  cases this

theorem unroutedQueueName_ne_retryQueueName :
    unroutedQueueName base ≠ retryQueueName s e i := by
  intro h
  have := congrArg lastSegment h
  rw [lastSegment_unroutedQueueName, lastSegment_retryQueueName] at this
  exact q_ne_repr i this

/-- A work queue takes the name of the unrouted queue only for an event whose last word is
`unrouted`. -/
theorem unroutedQueueName_ne_workQueueName (he : lastSegment e ≠ "unrouted".toList) :
    unroutedQueueName base ≠ workQueueName s e := by
  intro h
  have hcut : base ++ "." ++ "unrouted" = s ++ "." ++ e := by
    have : base ++ "." ++ "unrouted" ++ ".q" = s ++ "." ++ e ++ ".q" := by
      simpa [unroutedQueueName, workQueueName, String.append_assoc] using h
    simpa using this
  have := congrArg lastSegment hcut
  rw [lastSegment_append, lastSegment_append] at this
  exact he (this ▸ rfl)

/-! The names of the queues are the name of the subscription with something appended. -/

/-- Queues of one kind have the same name when subscriber and event make the same text. -/
theorem workQueueName_eq_iff :
    workQueueName s e = workQueueName s' e' ↔ s ++ "." ++ e = s' ++ "." ++ e' := by
  simp [workQueueName]

theorem dlqName_eq_iff : dlqName s e = dlqName s' e' ↔ s ++ "." ++ e = s' ++ "." ++ e' := by
  simp [dlqName]

/-- And, for retry queues, the tiers are the same. -/
theorem retryQueueName_eq_iff : retryQueueName s e i = retryQueueName s' e' j ↔
    s ++ "." ++ e = s' ++ "." ++ e' ∧ i = j := by
  constructor
  · intro h
    have hlast := congrArg lastSegment h
    rw [lastSegment_retryQueueName, lastSegment_retryQueueName] at hlast
    have hij : i = j := repr_toList_inj hlast
    subst hij
    exact ⟨by simpa [retryQueueName] using h, rfl⟩
  · intro h
    obtain ⟨htitle, rfl⟩ := h
    simp only [retryQueueName, htitle]

variable (hs : '.' ∉ s.toList) (hs' : '.' ∉ s'.toList)
include hs hs'

/-- The routing keys of the retry tiers are all different. -/
theorem retryRoutingKey_inj :
    retryRoutingKey s e i = retryRoutingKey s' e' j ↔ s = s' ∧ e = e' ∧ i = j := by
  constructor
  · intro h
    have hlast := congrArg lastSegment h
    rw [lastSegment_retryRoutingKey, lastSegment_retryRoutingKey, List.cons.injEq] at hlast
    have hij : i = j := repr_toList_inj hlast.2
    subst hij
    have htitle : s ++ "." ++ e = s' ++ "." ++ e' := by simpa [retryRoutingKey] using h
    obtain ⟨hss, hee⟩ := (append_dot_inj hs hs').mp htitle
    exact ⟨hss, hee, rfl⟩
  · intro h
    obtain ⟨rfl, rfl, rfl⟩ := h
    rfl

end Names

end NestFastify.Messaging
