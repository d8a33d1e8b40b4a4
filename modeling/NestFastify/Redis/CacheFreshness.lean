import NestFastify.Redis.CacheSharing

/-!
# A deletion that lasts

Deleting a key invalidates what has been cached under it, unless a call that has read the key before
goes on to write it. After a deletion that no such call is under way with, whatever is read comes
from calls that follow it (`Renewed`).
-/

namespace NestFastify.Redis.CacheAside

open Transition (Reaches)

/-- The call is about to write the key without reading it again: it awaits its `SET`, or the
factory whose value it will write. -/
def CacheClient.writing {V : Type} (u : CacheClient V) (key : String) : Bool :=
  match u.code.view with
  | .awaits (.set full _ _) _ => decide (full = RedisCacheService.key key)
  | .awaits .factory _ => decide (u.request.key = key)
  | _ => false

namespace RedisCacheService

variable {V : Type} {this : RedisCacheService V} {s s' t t' : SharedCache V} {i : ℕ}
  {u u' : CacheClient V} {key : String} {a : CacheAction V}

/-- Call `i` has been made after state `s`, or is a `getOrSet` that was not writing the key then and
whose factory had not resolved. -/
def After (s : SharedCache V) (key : String) (i : ℕ) : Prop :=
  ∀ u : CacheClient V, s.clients[i]? = some u →
    u.writing key = false ∧ u.made = none ∧ ∃ key ttlSeconds, u.request = .getOrSet key ttlSeconds

/-- A value of a key that a call after state `s` has sent. -/
def Newer (s t : SharedCache V) (key : String) (value : Option V) : Prop :=
  ∃ k w, After s key k ∧ t.clients[k]? = some w ∧ w.request.key = key ∧ Sends w value

/-- Calls go on, and others begin. -/
def Continues (s t : SharedCache V) : Prop :=
  ∀ (i : ℕ) (u : CacheClient V), s.clients[i]? = some u → ∃ v, t.clients[i]? = some v ∧ Goes u v

theorem Goes.trans {v : CacheClient V} (h : Goes u u') (h' : Goes u' v) : Goes u v :=
  ⟨h'.request.trans h.request, h'.seen.trans h.seen, h'.calledAt.trans h.calledAt,
    fun value hvalue => h'.made value (h.made value hvalue)⟩

theorem Continues.trans (h : Continues s t) (h' : Continues t s') : Continues s s' := by
  intro i u hu
  obtain ⟨v, hv, hgoes⟩ := h i u hu
  obtain ⟨w, hw, hgoes'⟩ := h' i v hv
  exact ⟨w, hw, hgoes.trans hgoes'⟩

theorem continues_set (hu : t.clients[i]? = some u) (hgoes : Goes u u')
    {store : KeyValue String String} {changes : List (Change V)} :
    Continues t { t with store := store, clients := t.clients.set i u', changes := changes } := by
  intro j v hv
  by_cases hij : j = i
  · subst hij
    obtain rfl := Option.some.inj (hu.symm.trans hv)
    exact ⟨u', List.getElem?_set_self (List.getElem?_eq_some_iff.mp hu).1, hgoes⟩
  · refine ⟨v, ?_, goes_code v v.code⟩
    show (t.clients.set i u')[j]? = some v
    rw [List.getElem?_set_ne (Ne.symm hij)]
    exact hv

theorem Newer.continues {value : Option V} (h : Newer s t key value) (ht : Continues t s') :
    Newer s s' key value := by
  obtain ⟨k, w, hafter, hw, hkey, hsends⟩ := h
  obtain ⟨w', hw', hgoes⟩ := ht k w hw
  exact ⟨k, w', hafter, hw', hgoes.request ▸ hkey, hgoes.sends hsends⟩

/-- What a read that has resolved after state `s` may have returned. -/
def Current (this : RedisCacheService V) (s t : SharedCache V) (key : String) (u : CacheClient V)
    (v : V) : Prop :=
  (u.request = .get key ∧ v = this.json.null) ∨ Newer s t key (some v)

/-- Call `i` has not resolved in state `s`. -/
def Open (s : SharedCache V) (i : ℕ) : Prop :=
  ∀ u : CacheClient V, s.clients[i]? = some u → ∀ value, u.code ≠ .resolve value

/-- After state `s` nothing older than it can be read under the key. -/
structure Renewed (this : RedisCacheService V) (s : SharedCache V) (key : String)
    (t : SharedCache V) : Prop where
  quiet : ∀ u ∈ s.clients, u.writing key = false
  continues : Continues s t
  last : ∀ c, lastChange t.changes (RedisCacheService.key key) = some c → c.lapse ≠ none →
    After s key c.caller
  writing : ∀ i u, t.clients[i]? = some u → u.writing key = true → After s key i
  read : ∀ i u v, t.clients[i]? = some u → Open s i → u.request.reads = true →
    u.request.key = key → u.code = .resolve (some v) → Current this s t key u v

/-- A call moves. -/
theorem Renewed.move (h : Renewed this s key t) (hu : t.clients[i]? = some u) (hgoes : Goes u u')
    {store : KeyValue String String} {changes : List (Change V)}
    (ht : t' = { t with store := store, clients := t.clients.set i u', changes := changes })
    (hlast : ∀ c, lastChange changes (RedisCacheService.key key) = some c → c.lapse ≠ none →
      After s key c.caller)
    (hwriting : u'.writing key = true → After s key i)
    (hread : ∀ v, u'.request.reads = true → u'.request.key = key → u'.code = .resolve (some v) →
      Current this s t' key u' v) : Renewed this s key t' := by
  have hcontinues : Continues t t' := ht ▸ continues_set hu hgoes
  subst ht
  refine ⟨h.quiet, h.continues.trans hcontinues, hlast, fun j v hv hw => ?_,
    fun j v x hv hopen hreads hkey hcode => ?_⟩
  · rcases clients_set hu hv with ⟨rfl, rfl⟩ | ⟨-, hv⟩
    · exact hwriting hw
    · exact h.writing j v hv hw
  · rcases clients_set hu hv with ⟨rfl, rfl⟩ | ⟨-, hv⟩
    · exact hread x hreads hkey hcode
    · exact (h.read j v x hv hopen hreads hkey hcode).imp_right fun hn => hn.continues hcontinues

theorem writing_ending (u : CacheClient V) (value : Option V) (reply : Except JsError Unit)
    (key : String) : CacheClient.writing { u with code := ending value reply } key = false := by
  match reply with
  | .ok () => rfl
  | .error e => rfl

/-- A `getOrSet` whose factory has not resolved yet comes after state `s`, or has found nothing
there before. -/
theorem Renewed.after_unmade (h : Renewed this s key t) (hu : t.clients[i]? = some u)
    (hmade : u.made = none) {key' : String} {ttlSeconds : JsNumber}
    (hrequest : u.request = .getOrSet key' ttlSeconds) : After s key i := by
  intro u₀ hu₀
  obtain ⟨v, hv, hgoes⟩ := h.continues i u₀ hu₀
  obtain rfl := Option.some.inj (hu.symm.trans hv)
  refine ⟨h.quiet u₀ (mem_of_client hu₀), ?_, key', ttlSeconds,
    hgoes.request.symm.trans hrequest⟩
  match hmade₀ : u₀.made with
  | none => rfl
  | some value => exact nomatch hmade.symm.trans (hgoes.made value hmade₀)

/-- A change of the key by a call that comes after state `s`. -/
theorem Renewed.last_concat (h : Renewed this s key t) {c : Change V}
    (hc : c.full = RedisCacheService.key key → c.lapse ≠ none → After s key c.caller)
    (c' : Change V)
    (hlast : lastChange (t.changes ++ [c]) (RedisCacheService.key key) = some c')
    (hlapse : c'.lapse ≠ none) : After s key c'.caller := by
  by_cases hfull : c.full = RedisCacheService.key key
  · rw [lastChange_concat_self hfull] at hlast
    obtain rfl := Option.some.inj hlast
    exact hc hfull hlapse
  · rw [lastChange_concat_ne hfull] at hlast
    exact h.last c' hlast hlapse

/-- A write comes from the call that made it. -/
theorem Sharing.writer {c : Change V} (h : Sharing this t) (hmem : c ∈ t.changes)
    (hlapse : c.lapse ≠ none) : ∃ w, t.clients[c.caller]? = some w ∧
      c.full = RedisCacheService.key w.request.key ∧ Sends w c.value := by
  obtain ⟨w, hw, hstems⟩ := h.stems c hmem
  cases hstems with
  | wrote ttlSeconds n hsends hfull httl hseconds _ => exact ⟨w, hw, hfull, hsends⟩
  | deleted key' hrequest hfull hnone => exact absurd hnone hlapse

theorem Renewed.moves (h : Renewed this s key t) (ht : Sharing this t)
    (hu : t.clients[i]? = some u) (hmoves : Moves this t i u t') : Renewed this s key t' := by
  match hmoves with
  | .rejects made e hmade =>
    refine h.move hu (?_ : Goes u _) rfl h.last (fun hw => by cases hw)
      fun v _ _ hcode => by cases hcode
    rcases hmade with hmade | rfl
    · exact goes_made hmade made _
    · exact goes_code u _
  | .finds c v hreads hcached hvalue =>
    refine h.move hu (goes_code u _) rfl h.last (fun hw => by cases hw)
      fun v' _ hkey hcode => ?_
    obtain rfl : v = v' := Option.some.inj (Async.resolve.inj hcode)
    obtain ⟨hlast, hlive⟩ := Option.filter_eq_some_iff.mp hcached
    have hlapse : c.lapse ≠ none := by
      intro hnone
      simp [Change.live, hnone] at hlive
    obtain ⟨hmem, hfull⟩ := lastChange_mem hlast
    obtain ⟨w, hw, hfull', hsends⟩ := ht.writer hmem hlapse
    -- the last change is a write, and its caller is one of those that wrote after the deletion
    refine Or.inr (Newer.continues ?_ (continues_set hu (goes_code u _)))
    have hsame : w.request.key = u.request.key := key_injective (hfull'.symm.trans hfull)
    have hkey' : u.request.key = key := hkey
    rw [hkey'] at hlast hsame
    exact ⟨c.caller, w, h.last c hlast hlapse, hw, hsame, hvalue ▸ hsends⟩
  | .misses key' hrequest hcached =>
    refine h.move hu (goes_code u _) rfl h.last (fun hw => by cases hw)
      fun v' _ hkey hcode => ?_
    obtain rfl := Option.some.inj (Async.resolve.inj hcode)
    have hkey' : u.request.key = key := hkey
    rw [hrequest] at hkey'
    exact Or.inl ⟨hkey' ▸ hrequest, rfl⟩
  | .makes key' ttlSeconds hrequest hmade hfresh hcached =>
    exact h.move hu (goes_code u _) rfl h.last (fun _ => h.after_unmade hu hmade hrequest)
      fun v _ _ hcode => by cases hcode
  | .fills key' ttlSeconds value p hrequest hcode hmade hfresh hmiss =>
    exact h.move hu (goes_made hmade _ _) rfl h.last (fun _ => h.after_unmade hu hmade hrequest)
      fun v _ _ hcode => by cases hcode
  | .sets key' value ttl? n reply hrequest hcode hfresh hn =>
    refine h.move hu (goes_code u (ending none reply)) rfl (h.last_concat fun hfull _ => ?_)
      (fun hw => absurd ((writing_ending u none reply key).symm.trans hw) Bool.false_ne_true)
      fun v hreads _ _ => ?_
    · refine h.writing i u hu ?_
      rw [CacheClient.writing, hcode, hrequest, serve_set]
      exact decide_eq_true hfull
    · change u.request.reads = true at hreads
      rw [hrequest] at hreads
      cases hreads
  | .filled key' ttlSeconds value p n reply hrequest hcode hmade hfresh hmiss hn =>
    -- whoever writes now was not writing when the deletion was executed
    have hafter : RedisCacheService.key key' = RedisCacheService.key key → After s key i := by
      intro hfull
      refine h.writing i u hu ?_
      rw [CacheClient.writing, hcode]
      exact decide_eq_true hfull
    refine h.move hu (goes_code u (ending value reply)) rfl
      (h.last_concat fun hfull _ => hafter hfull)
      (fun hw => absurd ((writing_ending u value reply key).symm.trans hw) Bool.false_ne_true)
      fun v _ hkey hcode' => ?_
    cases reply with
    | ok _ =>
      obtain rfl : value = some v := Async.resolve.inj hcode'
      change u.request.key = key at hkey
      rw [hrequest] at hkey
      have hkey' : key' = key := hkey
      subst hkey'
      refine Or.inr ⟨i, _, hafter rfl,
        List.getElem?_set_self (List.getElem?_eq_some_iff.mp hu).1, ?_, ?_⟩
      · show u.request.key = key'
        rw [hrequest]
        rfl
      · refine (goes_code u _).sends ?_
        rw [Sends, hrequest]
        exact hmade
    | error e => cases hcode'
  | .deletes key' reply hrequest hfresh =>
    refine h.move hu (goes_code u (ending none reply)) rfl
      (h.last_concat fun _ hlapse => absurd rfl hlapse)
      (fun hw => absurd ((writing_ending u none reply key).symm.trans hw) Bool.false_ne_true)
      fun v hreads _ _ => ?_
    change u.request.reads = true at hreads
    rw [hrequest] at hreads
    cases hreads

theorem Renewed.call (h : Renewed this s key t) (request : CacheRequest V) : Renewed this s key
    { t with
      clients := t.clients ++ [⟨request, t.changes.length, t.now, none, this.serve request⟩] } := by
  have hcontinues : Continues t { t with
      clients := t.clients ++ [⟨request, t.changes.length, t.now, none, this.serve request⟩] } := by
    intro j v hv
    refine ⟨v, ?_, goes_code v v.code⟩
    show (t.clients ++ _)[j]? = some v
    rw [List.getElem?_append_left (List.getElem?_eq_some_iff.mp hv).1]
    exact hv
  -- a client of the new state was there before, or is the call that begins
  have hclient : ∀ {j : ℕ} {v : CacheClient V},
      (t.clients ++ [⟨request, t.changes.length, t.now, none, this.serve request⟩])[j]? = some v →
      t.clients[j]? = some v ∨ t.clients.length ≤ j ∧ v.code = this.serve request := by
    intro j v hv
    by_cases hlt : j < t.clients.length
    · rw [List.getElem?_append_left hlt] at hv
      exact Or.inl hv
    · rw [List.getElem?_append_right (Nat.le_of_not_lt hlt), List.getElem?_singleton] at hv
      obtain rfl := Option.some.inj (Option.ite_none_right_eq_some.mp hv).2
      exact Or.inr ⟨Nat.le_of_not_lt hlt, rfl⟩
  refine ⟨h.quiet, h.continues.trans hcontinues, h.last, fun j v hv hw => ?_,
    fun j v x hv hopen hreads hkey hcode => ?_⟩
  · rcases hclient hv with hv | ⟨hj, -⟩
    · exact h.writing j v hv hw
    · intro u₀ hu₀
      obtain ⟨w, hw, -⟩ := h.continues j u₀ hu₀
      exact absurd (List.getElem?_eq_some_iff.mp hw).1 (Nat.not_lt.mpr hj)
  · rcases hclient hv with hv | ⟨-, hserve⟩
    · exact (h.read j v x hv hopen hreads hkey hcode).imp_right fun hn => hn.continues hcontinues
    · obtain ⟨c, k, hawait, -⟩ := this.serve_eq_await request
      exact nomatch hawait.symm.trans (hserve.symm.trans hcode)

theorem Renewed.step (h : Renewed this s key t) (ht : Sharing this t)
    (hstep : this.sharedStep t a = some t') : Renewed this s key t' := by
  rcases ht.cases hstep with ⟨request, rfl⟩ | ⟨i, u, hu, hmoves⟩ | ⟨ms, rfl⟩
  · exact h.call request
  · exact h.moves ht hu hmoves
  · exact ⟨h.quiet, h.continues, h.last, h.writing, h.read⟩

end RedisCacheService

end NestFastify.Redis.CacheAside
