import Mathlib.Data.List.Dedup
import Mathlib.Data.List.Infix
import Mathlib.Data.Nat.Notation

/-!
# AMQP exchanges, bindings and dead-lettering

The routing part of a broker, as data: exchanges of type topic or fanout with an optional
alternate exchange, and queues that each have one binding, an optional message TTL, an
optional dead-letter target and an optional delivery limit.

* `topicMatches` is topic matching: a pattern and a key are split at the dots, `*` stands
  for one word and `#` for any number of words. A pattern without wildcards matches only
  itself (`topicMatches_literal`).
* `Topology.route` lists the queues that a message published to an exchange enters.
-/

namespace Amqp

/-! ## Topic matching -/

/-- The words of a routing key; the empty key has none. -/
def words (key : String) : List (List Char) :=
  match key.toList with
  | [] => []
  | cs => cs.splitOn '.'

/-- Match the words of a binding pattern against the words of a key. -/
def matchWords : List (List Char) → List (List Char) → Bool
  | [], key => key.isEmpty
  | p :: ps, key =>
    if p = ['#'] then key.tails.any (matchWords ps)
    else match key with
      | [] => false
      | k :: ks => (p = ['*'] || p = k) && matchWords ps ks

/-- A topic binding with `pattern` lets `key` through. -/
def topicMatches (pattern key : String) : Bool := matchWords (words pattern) (words key)

/-- No word of the name is a wildcard: the name has no `*` and no `#`. -/
def Literal (name : String) : Prop := '*' ∉ name.toList ∧ '#' ∉ name.toList

instance (name : String) : Decidable (Literal name) :=
  inferInstanceAs (Decidable (_ ∧ _))

theorem matchWords_literal {ps key : List (List Char)} (h : ∀ p ∈ ps, p ≠ ['*'] ∧ p ≠ ['#']) :
    matchWords ps key = true ↔ ps = key := by
  induction ps generalizing key with
  | nil => cases key <;> simp [matchWords]
  | cons p ps ih =>
    obtain ⟨hstar, hhash⟩ := h p (by simp)
    have hps : ∀ q ∈ ps, q ≠ ['*'] ∧ q ≠ ['#'] := fun q hq => h q (by simp [hq])
    cases key with
    | nil => simp [matchWords, hhash]
    | cons k ks => simpa [matchWords, hhash, hstar] using fun _ => @ih ks hps

/-- A character of a word of the key is a character of the key. -/
theorem mem_of_mem_words {key : String} {w : List Char} {c : Char} (hw : w ∈ words key)
    (hc : c ∈ w) : c ∈ key.toList := by
  unfold words at hw
  split at hw
  · cases hw
  · obtain ⟨i, hi⟩ := List.mem_iff_getElem?.mp hw
    have hjoin : ['.'].intercalate (key.toList.splitOn '.') = key.toList :=
      List.intercalate_splitOn '.'
    have hmem : w ∈ (key.toList.splitOn '.').intersperse ['.'] := by
      apply List.mem_of_getElem? (i := 2 * i)
      rw [List.getElem?_intersperse_two_mul]
      exact hi
    rw [← hjoin]
    exact List.mem_flatten.mpr ⟨w, hmem, hc⟩

theorem words_injective {a b : String} (h : words a = words b) : a = b := by
  apply String.toList_injective
  have key : ∀ s : String, ['.'].intercalate (words s) = s.toList := by
    intro s
    unfold words
    split
    · rename_i hs
      rw [hs]
      rfl
    · exact List.intercalate_splitOn '.'
  rw [← key a, ← key b, h]

/-- A pattern without wildcards matches its own key and no other. -/
theorem topicMatches_literal {pattern key : String} (h : Literal pattern) :
    topicMatches pattern key = true ↔ pattern = key := by
  have hwords : ∀ w ∈ words pattern, w ≠ ['*'] ∧ w ≠ ['#'] := by
    intro w hw
    constructor
    · rintro rfl
      exact h.1 (mem_of_mem_words hw (by simp))
    · rintro rfl
      exact h.2 (mem_of_mem_words hw (by simp))
  rw [topicMatches, matchWords_literal hwords]
  exact ⟨words_injective, congrArg words⟩

theorem matchWords_self (ws : List (List Char)) : matchWords ws ws = true := by
  induction ws with
  | nil => rfl
  | cons w ws ih =>
    simp only [matchWords]
    split
    · rw [List.any_eq_true]
      exact ⟨ws, (List.mem_tails _ _).mpr (List.suffix_cons w ws), ih⟩
    · simp [ih]

/-- A pattern matches the key that is spelled like it, wildcards or not. -/
theorem topicMatches_self (key : String) : topicMatches key key = true :=
  matchWords_self (words key)

theorem words_append_dot (a : String) {b : String} (hb : '.' ∉ b.toList) :
    words (a ++ "." ++ b) = a.toList.splitOn '.' ++ [b.toList] := by
  have hlist : (a ++ "." ++ b).toList = a.toList ++ '.' :: b.toList := by simp
  have hne : a.toList ++ '.' :: b.toList ≠ [] := by simp
  unfold words
  rw [hlist]
  split
  · rename_i hnil
    exact absurd hnil hne
  · rw [List.splitOn_append_cons_self, List.splitOn_eq_singleton hb]

theorem matchWords_concat_nil {ps : List (List Char)} {w : List Char} (hhash : w ≠ ['#']) :
    matchWords (ps ++ [w]) [] = false := by
  induction ps with
  | nil => simp [matchWords, hhash]
  | cons p ps ih => simp [matchWords, ih]

/-- A last word of the pattern that is no wildcard stands for the last word of the key. -/
theorem matchWords_concat {ps key : List (List Char)} {w v : List Char} (hstar : w ≠ ['*'])
    (hhash : w ≠ ['#']) (h : matchWords (ps ++ [w]) (key ++ [v]) = true) :
    w = v ∧ matchWords ps key = true := by
  induction ps generalizing key with
  | nil =>
    match key with
    | [] => simpa [matchWords, hstar, hhash] using h
    | k :: ks => simp [matchWords, hhash] at h
  | cons p ps ih =>
    by_cases hp : p = ['#']
    · have hany : (key ++ [v]).tails.any (matchWords (ps ++ [w])) = true := by
        simpa [matchWords, hp] using h
      rw [List.any_eq_true] at hany
      obtain ⟨tail, htail, hmatch⟩ := hany
      rw [List.mem_tails] at htail
      -- the rest of the pattern needs a word, so the tail it takes ends in `v` too
      rcases List.suffix_concat_iff.mp htail with hnil | hsuffix
      · rw [hnil, matchWords_concat_nil hhash] at hmatch
        cases hmatch
      · obtain ⟨tail', rfl, hsuffix'⟩ := hsuffix
        obtain ⟨hlast, hrest⟩ := ih hmatch
        refine ⟨hlast, ?_⟩
        simp only [matchWords, if_pos hp, List.any_eq_true, List.mem_tails]
        exact ⟨tail', hsuffix', hrest⟩
    · match key with
      | [] =>
        have hrest : matchWords (ps ++ [w]) [] = true := by
          have hboth : (p = ['*'] ∨ p = v) ∧ matchWords (ps ++ [w]) [] = true := by
            simpa [matchWords, hp] using h
          exact hboth.2
        rw [matchWords_concat_nil hhash] at hrest
        cases hrest
      | k :: ks =>
        have hboth : (p = ['*'] ∨ p = k) ∧ matchWords (ps ++ [w]) (ks ++ [v]) = true := by
          simpa [matchWords, hp] using h
        obtain ⟨hlast, hrest⟩ := ih hboth.2
        refine ⟨hlast, ?_⟩
        simpa [matchWords, hp] using ⟨hboth.1, hrest⟩

/-- The same for names: a last segment without wildcards stands for the last segment. -/
theorem splitOn_of_topicMatches {a b c d : String} (hb : '.' ∉ b.toList) (hd : '.' ∉ d.toList)
    (hlit : Literal b) (h : topicMatches (a ++ "." ++ b) (c ++ "." ++ d) = true) :
    b = d ∧ matchWords (a.toList.splitOn '.') (c.toList.splitOn '.') = true := by
  have hstar : b.toList ≠ ['*'] := fun heq => hlit.1 (by simp [heq])
  have hhash : b.toList ≠ ['#'] := fun heq => hlit.2 (by simp [heq])
  rw [topicMatches, words_append_dot a hb, words_append_dot c hd] at h
  obtain ⟨hlast, hrest⟩ := matchWords_concat hstar hhash h
  exact ⟨String.toList_inj.mp hlast, hrest⟩

/-! ## Exchanges, queues and routing -/

inductive ExchangeType | topic | fanout
deriving DecidableEq

structure ExchangeConfig where
  name : String
  type : ExchangeType
  durable : Bool
  alternateExchange : Option String

structure QueueArguments where
  queueType : Option String
  messageTtl : Option ℕ
  deadLetterExchange : Option String
  deadLetterRoutingKey : Option String
  deliveryLimit : Option ℕ

/-- A queue with its one binding. -/
structure QueueConfig where
  name : String
  exchange : String
  routingKey : String
  createQueueIfNotExists : Bool
  durable : Bool
  arguments : QueueArguments

structure Topology where
  exchanges : List ExchangeConfig
  queues : List QueueConfig

namespace Topology

variable (t : Topology)

/-- The binding of `q` takes a message published to `x` under `key`. -/
def binds (x : ExchangeConfig) (key : String) (q : QueueConfig) : Bool :=
  q.exchange = x.name && match x.type with
    | .topic => topicMatches q.routingKey key
    | .fanout => true

/-- The queues bound to `x` that take `key`, each once. -/
def bound (x : ExchangeConfig) (key : String) : List String :=
  ((t.queues.filter (binds x key)).map QueueConfig.name).dedup

/-- Routing through at most `hops` exchanges: a message that no binding takes goes on to
the alternate exchange, if there is one, and is dropped otherwise. -/
def routeVia (key : String) : ℕ → String → List String
  | 0, _ => []
  | hops + 1, exchange =>
    match t.exchanges.find? (·.name = exchange) with
    | none => []
    | some x =>
      match t.bound x key, x.alternateExchange with
      | [], some alternate => routeVia key hops alternate
      | queues, _ => queues

/-- The queues that a message published to `exchange` under `key` enters. -/
def route (exchange key : String) : List String := t.routeVia key t.exchanges.length exchange

/-- The declaration of a queue; the first one counts. -/
def queue? (name : String) : Option QueueConfig := t.queues.find? (·.name = name)

/-- The queues a message with routing key `key` enters when `q` dead-letters it. -/
def deadLetterFrom (q : QueueConfig) (key : String) : List String :=
  match q.arguments.deadLetterExchange with
  | none => []
  | some exchange => t.route exchange (q.arguments.deadLetterRoutingKey.getD key)

/-- The same for the queue declared under `name`. -/
def deadLetterRoute (name key : String) : List String :=
  match t.queue? name with
  | none => []
  | some q => t.deadLetterFrom q key

variable {t}

theorem nodup_bound (x : ExchangeConfig) (key : String) : (t.bound x key).Nodup :=
  List.nodup_dedup _

theorem mem_bound {x : ExchangeConfig} {key name : String} :
    name ∈ t.bound x key ↔ ∃ q ∈ t.queues, binds x key q = true ∧ q.name = name := by
  simp [bound, and_assoc]

/-- A declaration whose name no other declaration has is the one found. -/
theorem queue?_eq_some {q : QueueConfig} (hq : q ∈ t.queues)
    (huniq : ∀ q' ∈ t.queues, q'.name = q.name → q' = q) : t.queue? q.name = some q := by
  have hsome : (t.queue? q.name).isSome := by
    rw [queue?, List.find?_isSome]
    exact ⟨q, hq, by simp⟩
  obtain ⟨q', hq'⟩ := Option.isSome_iff_exists.mp hsome
  have hname : q'.name = q.name := by simpa using List.find?_some hq'
  rw [hq', huniq q' (List.mem_of_find?_eq_some hq') hname]

/-- Once some binding takes the message, the alternate exchange plays no part. -/
theorem route_eq_bound {exchange key : String} {x : ExchangeConfig}
    (hx : t.exchanges.find? (·.name = exchange) = some x)
    (h : x.alternateExchange = none ∨ t.bound x key ≠ []) :
    t.route exchange key = t.bound x key := by
  have hlen : t.exchanges.length ≠ 0 := by
    intro h0
    rw [List.length_eq_zero_iff.mp h0] at hx
    cases hx
  obtain ⟨n, hn⟩ := Nat.exists_eq_succ_of_ne_zero hlen
  rw [route, hn, routeVia, hx]
  dsimp only
  split
  · rename_i hnil hsome
    rcases h with h | h
    · rw [h] at hsome
      cases hsome
    · exact absurd hnil h
  · rfl

end Topology

end Amqp
