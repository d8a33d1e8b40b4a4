import NestFastify.Messaging.ConsumerSteps

/-!
# No message is lost

A message published for a subscription with queues of its own stays in one of these queues
until its handler has resolved: whatever fails, some copy of it is still going to be
delivered or parked. The invariant is `Kept`; every step other than a publish changes one copy
and may put new ones into queues (`Kept.move`).
-/

namespace NestFastify.Messaging

open Transition (Reaches)

/-! ## What is claimed of a message -/

/-- The queues of a subscription: the work queue, the retry tiers, the DLQ. -/
def Home (D : Deployment) (S : Subscription) (queue : String) : Prop :=
  queue = workQueueName S.subscriber S.event ∨
  (∃ tier < D.retryDelaysMs.length, queue = retryQueueName S.subscriber S.event tier) ∨
  queue = dlqName S.subscriber S.event

/-- The handler of `S` has resolved for the message. -/
def Resolved {P : Type} (S : Subscription) (p : Published) (s : MessagingState P) : Prop :=
  .resolved ⟨S, p.messageId, p.payload⟩ ∈ s.log

/-- Some copy of the message is in a queue of `S`, ready or unacked. -/
def Present {P : Type} (D : Deployment) (S : Subscription) (p : Published)
    (s : MessagingState P) : Prop :=
  ∃ c ∈ s.copies, c.messageId = p.messageId ∧ Home D S c.queue ∧ c.place ≠ .gone

/-- The copy will be delivered again or parked, unless its handler resolves: it is ready, or
its delivery has not published another copy. -/
def Pending {P : Type} : Place P → Prop
  | .ready => True
  | .unacked d => d.republished = false
  | .gone => False

section Invariant

variable (D : Deployment) (S : Subscription) (p : Published)

/-- A letter that carries the message, in a queue of `S`. -/
structure Belongs (l : Letter) : Prop where
  parses : parseEvent D.z S.event l.message.content = .ok p.payload
  home : Home D S l.queue

/-- What holds where a delivery of the message is suspended: an ack needs a copy or a
resolved handler. -/
def PointOk (s : MessagingState Point) (republished : Bool) : Point → Prop
  | .acquire payload => payload = p.payload
  | .fn payload _ => payload = p.payload
  | .mark payload _ => payload = p.payload ∧ Resolved S p s
  | .republish payload _ _ => payload = p.payload
  | .confirm payload _ => payload = p.payload
  | .release _ none => republished = true ∨ Resolved S p s
  | .done (.ok none) => republished = true ∨ Resolved S p s
  | _ => True

structure Fits (s : MessagingState Point) (c : Copy Point) : Prop where
  belongs : Belongs D S p c.toLetter
  running : ∀ d, c.place = .unacked d →
    c.queue = workQueueName S.subscriber S.event ∧ d.subscription = S ∧
      PointOk S p s d.republished d.code

structure Kept (s : MessagingState Point) : Prop where
  marked : Deployment.Marked s p.messageId → Resolved S p s
  fits : ∀ c ∈ s.copies, c.messageId = p.messageId → Fits D S p s c
  covered : p ∈ s.published → Resolved S p s ∨
    ∃ (j : ℕ) (c : Copy Point), s.copies[j]? = some c ∧ c.messageId = p.messageId ∧
      Pending c.place

end Invariant

section Steps

variable {D : Deployment} {S : Subscription} {p : Published} {s s' s₁ : MessagingState Point}
  {i : ℕ} {c c' : Copy Point} {letters : List Letter}

theorem PointOk.mono {republished : Bool} {pt : Point} (h : PointOk S p s republished pt)
    (hlog : ∀ e ∈ s.log, e ∈ s'.log) : PointOk S p s' republished pt := by
  match pt with
  | .get | .reject _ | .release _ (some _) | .done (.error _) | .done (.ok (some _)) => trivial
  | .acquire _ | .fn _ _ | .republish _ _ _ | .confirm _ _ => exact h
  | .mark _ _ => exact ⟨h.1, hlog _ h.2⟩
  | .release _ none => exact h.imp_right (hlog _)
  | .done (.ok none) => exact h.imp_right (hlog _)

theorem Fits.mono (h : Fits D S p s c) (hlog : ∀ e ∈ s.log, e ∈ s'.log) : Fits D S p s' c where
  belongs := h.belongs
  running d hd := by
    obtain ⟨hqueue, hsub, hpoint⟩ := h.running d hd
    exact ⟨hqueue, hsub, hpoint.mono hlog⟩

/-- The handler of the message is called with its payload. -/
theorem Fits.fn_payload (h : Fits D S p s c) (hi : s.copies[i]? = some c) {payload : EventPayload}
    (hcall : D.callOf pointMachine s i = some (.fn payload)) : payload = p.payload := by
  unfold Deployment.callOf Deployment.delivery? at hcall
  rw [hi] at hcall
  match c, h with
  | ⟨l, .ready⟩, _ | ⟨l, .gone⟩, _ => cases hcall
  | ⟨l, .unacked ⟨sub, now, code, tag, republished⟩⟩, h =>
    have hok := (h.running _ rfl).2.2
    match code, hok with
    | .fn v lock, hok =>
      cases hcall
      exact hok
    | .get, _ | .reject _, _ | .acquire _, _ | .mark _ _, _ | .republish _ _ _, _ | .release _ _, _
      | .confirm _ _, _ | .done _, _ => cases hcall

theorem fits_ready {l : Letter} (h : Belongs D S p l) : Fits D S p s ⟨l, .ready⟩ where
  belongs := h
  running d hd := by cases hd

theorem fits_gone {l : Letter} (h : Belongs D S p l) : Fits D S p s ⟨l, .gone⟩ where
  belongs := h
  running d hd := by cases hd

/-- One copy changes and others are added: the invariant is kept if the change is right for
a copy of this message. -/
theorem Kept.move (h : Kept D S p s) (hi : s.copies[i]? = some c)
    (hcopies : s'.copies = s.copies.set i c' ++ delivered letters)
    (hpub : s'.published = s.published) (hlog : ∀ e ∈ s.log, e ∈ s'.log)
    (hid : c'.messageId = c.messageId)
    (hletters : ∀ l ∈ letters, l.messageId = c.messageId)
    (hmarked : Deployment.Marked s' p.messageId → Resolved S p s')
    (hlocal : c.messageId = p.messageId → Fits D S p s c → Fits D S p s' c' ∧
      (∀ l ∈ letters, Belongs D S p l) ∧
      (Pending c.place → Resolved S p s' ∨ Pending c'.place ∨ letters ≠ [])) :
    Kept D S p s' := by
  have hmem : c ∈ s.copies := List.mem_of_getElem? hi
  have hlt : i < s.copies.length := (List.getElem?_eq_some_iff.mp hi).1
  have hset : (s.copies.set i c' ++ delivered letters)[i]? = some c' := by
    rw [List.getElem?_append_left (by simpa using hlt), List.getElem?_set_self hlt]
  constructor
  · exact hmarked
  · intro x hx hxid
    rw [hcopies] at hx
    rcases mem_moved hx with hx | rfl | hletter
    · exact (h.fits x hx hxid).mono hlog
    · have hcid : c.messageId = p.messageId := hid ▸ hxid
      exact (hlocal hcid (h.fits c hmem hcid)).1
    · obtain ⟨l, hl, rfl⟩ := hletter
      have hcid : c.messageId = p.messageId := (hletters l hl) ▸ hxid
      exact fits_ready ((hlocal hcid (h.fits c hmem hcid)).2.1 l hl)
  · intro hp
    rw [hpub] at hp
    rw [hcopies]
    rcases h.covered hp with hres | hpending
    · exact Or.inl (hlog _ hres)
    -- the copy that covered the message is the one that changes, or it is still there
    · obtain ⟨j, x, hj, hxid, hx⟩ := hpending
      by_cases hij : i = j
      · subst hij
        rw [hi] at hj
        cases hj
        rcases (hlocal hxid (h.fits c hmem hxid)).2.2 hx with hres | hx' | hne
        · exact Or.inl hres
        · exact Or.inr ⟨i, c', hset, hid.trans hxid, hx'⟩
        · obtain ⟨l, hl⟩ := List.exists_mem_of_ne_nil letters hne
          have hready : (⟨l, .ready⟩ : Copy Point) ∈ s.copies.set i c' ++ delivered letters :=
            List.mem_append_right _ (List.mem_map.mpr ⟨l, hl, rfl⟩)
          obtain ⟨k, hk⟩ := List.mem_iff_getElem?.mp hready
          exact Or.inr ⟨k, _, hk, (hletters l hl).trans hxid, trivial⟩
      · refine Or.inr ⟨j, x, ?_, hxid, hx⟩
        have hjlt : j < s.copies.length := (List.getElem?_eq_some_iff.mp hj).1
        rw [List.getElem?_append_left (by simpa using hjlt), List.getElem?_set_ne hij]
        exact hj

/-! ### The calls of a delivery -/

section Perform

variable {l : Letter} {d : Delivery Point} {call : ConsumerCall} {outcome : Outcome}
  {r : Except JsError call.Reply} {pt pt' : Point}

/-- A move of a delivery of the message is right where it leads to. -/
theorem PointOk.step (hstep : Point.Step (D.context l d) pt call r pt')
    (hsettled : D.settled s call outcome = some (s₁, r)) (hid : l.messageId = p.messageId)
    (hsub : d.subscription = S) (hbelongs : Belongs D S p l)
    (hmarked : Deployment.Marked s p.messageId → Resolved S p s)
    (hlog : ∀ e ∈ s.log ++ Deployment.settledEntries l d call r, e ∈ s'.log)
    (h : PointOk S p s d.republished pt) :
    PointOk S p s' (Deployment.republishedAfter d.republished call r) pt' := by
  have hold : Resolved S p s → Resolved S p s' := fun hres =>
    hlog _ (List.mem_append_left _ hres)
  cases hstep with
  | get_hit v hv =>
    -- the marker is there, so the handler has resolved before
    obtain ⟨-, hok | hrej⟩ := Deployment.settled_cacheGet hsettled
    · refine Or.inr (hold (hmarked ⟨v, ?_, hv⟩))
      rw [← hid]
      exact hok.2.symm
    · obtain ⟨e, effect, -, he⟩ := hrej
      cases he
  | get_miss v hv payload hparse =>
    have hparse' : parseEvent D.z S.event l.message.content = .ok payload := hsub ▸ hparse
    rw [hbelongs.parses] at hparse'
    exact (Except.ok.inj hparse').symm
  | get_invalid | get_broken | get_fail => trivial
  | reject_ok | republish_ok | confirm_ok => exact Or.inl rfl
  | reject_fail | republish_fail | confirm_fail => trivial
  | overtake_ok => exact h
  | acquire_ok => exact h
  | acquire_held | acquire_fail => trivial
  | fn_ok payload lock =>
    refine ⟨h, hlog _ (List.mem_append_right _ (List.mem_singleton.mpr ?_))⟩
    show LogEntry.resolved ⟨S, p.messageId, p.payload⟩ =
      .resolved ⟨d.subscription, l.messageId, payload⟩
    rw [hsub, hid, show payload = p.payload from h]
  | fn_fail payload lock e => exact h
  | mark_ok => exact Or.inr (hold h.2)
  | mark_fail => exact h.1
  | release_ok lock result =>
    match result with
    | none => exact h.imp_right hold
    | some _ => trivial
  | release_fail | overtake_fail => trivial

/-- The copies a delivery of the message publishes stay in the queues of `S`. -/
theorem belongs_of_step (hS : Apart D.subscriptions S) {q : Publication}
    {r : Except JsError Unit} (hstep : Point.Step (D.context l d) pt (.publish q) r pt')
    (hsub : d.subscription = S) (hbelongs : Belongs D S p l)
    (h : PointOk S p s d.republished pt) :
    D.routed q ≠ [] ∧ ∀ x ∈ D.routed q, Belongs D S p x := by
  have hreject : ∀ reason, D.routed ((D.context l d).rejectPublication reason) ≠ [] ∧
      ∀ x ∈ D.routed ((D.context l d).rejectPublication reason), Belongs D S p x := by
    intro reason
    obtain ⟨headers, -, hrouted⟩ := Deployment.routed_reject hS hsub reason
    rw [hrouted]
    refine ⟨List.cons_ne_nil _ _, fun x hx => ?_⟩
    rw [List.mem_singleton.mp hx]
    exact ⟨hbelongs.parses, Or.inr (Or.inr rfl)⟩
  have hfailure : ∀ payload err, payload = p.payload →
      D.routed ((D.context l d).failurePublication payload err) ≠ [] ∧
      ∀ x ∈ D.routed ((D.context l d).failurePublication payload err), Belongs D S p x := by
    intro payload err hpayload
    have hparse := parseEvent_toJson hbelongs.parses
    rw [← hpayload] at hparse
    rcases Deployment.routed_failure hS hsub payload err with hretry | hdlq
    · obtain ⟨-, tier, htier, headers, -, hrouted⟩ := hretry
      rw [hrouted]
      refine ⟨List.cons_ne_nil _ _, fun x hx => ?_⟩
      rw [List.mem_singleton.mp hx]
      exact ⟨hpayload ▸ hparse, Or.inr (Or.inl ⟨tier, htier, rfl⟩)⟩
    · obtain ⟨-, headers, -, hrouted⟩ := hdlq
      rw [hrouted]
      refine ⟨List.cons_ne_nil _ _, fun x hx => ?_⟩
      rw [List.mem_singleton.mp hx]
      exact ⟨hpayload ▸ hparse, Or.inr (Or.inr rfl)⟩
  cases hstep with
  | reject_ok reason => exact hreject reason
  | reject_fail reason e => exact hreject reason
  | republish_ok payload lock err => exact hfailure payload err h
  | republish_fail payload lock err e => exact hfailure payload err h
  | confirm_ok payload err => exact hfailure payload err h
  | confirm_fail payload err e => exact hfailure payload err h

theorem Kept.resume (hS : Apart D.subscriptions S) (h : Kept D S p s)
    (hi : s.copies[i]? = some ⟨l, .unacked d⟩)
    (hstep : Point.Step (D.context l d) d.code call r pt')
    (hsettled : D.settled s call outcome = some (s₁, r)) :
    Kept D S p (D.resume pointMachine s₁ i l d call r pt') := by
  obtain ⟨hnow, hpub, hlog, letters, hcopies, hletters⟩ := Deployment.settled_frame hsettled
  have hmono : ∀ e ∈ s.log ++ Deployment.settledEntries l d call r,
      e ∈ (D.resume pointMachine s₁ i l d call r pt').log := by
    intro e he
    rw [← hlog] at he
    exact List.mem_append_left _ he
  have hmono' : ∀ e ∈ s.log, e ∈ (D.resume pointMachine s₁ i l d call r pt').log :=
    fun e he => hmono e (List.mem_append_left _ he)
  have hfits : l.messageId = p.messageId → Fits D S p s ⟨l, .unacked d⟩ :=
    fun hid => h.fits _ (List.mem_of_getElem? hi) hid
  refine h.move hi (Deployment.copies_resume hi hcopies) hpub hmono' rfl ?_ ?_ ?_
  -- a copy keeps the message id
  · intro x hx
    rcases hletters with hnil | hpublish
    · rw [hnil] at hx
      cases hx
    · obtain ⟨q, rfl, rfl⟩ := hpublish
      show x.message.messageId.getD "" = l.message.messageId.getD ""
      rw [Deployment.mem_routed hx]
      exact congrArg (Option.getD · "") (Deployment.messageId_of_step hstep)
  -- the marker is set only after the handler has resolved
  · intro hm
    rcases Deployment.marked_of_settled hstep hsettled hnow (hm.congr rfl rfl) with hbefore | hset
    · exact hmono' _ (h.marked hbefore)
    · obtain ⟨⟨payload, lock, hpoint⟩, hid⟩ := hset
      obtain ⟨-, -, hok⟩ := (hfits hid).running d rfl
      rw [hpoint] at hok
      exact hmono' _ hok.2
  · intro hid hfit
    obtain ⟨hqueue, hsub, hok⟩ := hfit.running d rfl
    have hbelongs : Belongs D S p l := hfit.belongs
    refine ⟨⟨⟨hbelongs.parses, hbelongs.home⟩, fun d' hd' => ?_⟩, ?_, fun hpending => ?_⟩
    · cases hd'
      exact ⟨hqueue, hsub, hok.step hstep hsettled hid hsub hbelongs h.marked hmono⟩
    · intro x hx
      rcases hletters with hnil | hpublish
      · rw [hnil] at hx
        cases hx
      · obtain ⟨q, rfl, rfl⟩ := hpublish
        exact (belongs_of_step hS hstep hsub hbelongs hok).2 x hx
    · -- only a publish that has resolved ends the copy's own claim to be delivered
      match call, r, hstep, hsettled with
      | .publish q, .ok (), hstep, hsettled =>
        rcases Deployment.settled_publish hsettled with hok' | hrej
        · have hrouted : delivered letters = delivered (D.routed q) := by
            have henqueue : s₁.copies = s.copies ++ delivered (D.routed q) := by rw [hok'.2]; rfl
            exact List.append_cancel_left (hcopies.symm.trans henqueue)
          refine Or.inr (Or.inr fun hnil => ?_)
          rw [hnil] at hrouted
          exact (belongs_of_step hS hstep hsub hbelongs hok).1
            (List.map_eq_nil_iff.mp hrouted.symm)
        · obtain ⟨e, he, -⟩ := hrej
          cases he
      | .publish q, .error e, _, _ => exact Or.inr (Or.inl hpending)
      | .cacheGet _, _, _, _ => exact Or.inr (Or.inl hpending)
      | .cacheSet .., _, _, _ => exact Or.inr (Or.inl hpending)
      | .acquire .., _, _, _ => exact Or.inr (Or.inl hpending)
      | .release _, _, _, _ => exact Or.inr (Or.inl hpending)
      | .fn _, _, _, _ => exact Or.inr (Or.inl hpending)
      | .overlap .., _, _, _ => exact Or.inr (Or.inl hpending)

end Perform

/-! ### Moves of the broker -/

section Moves

variable {l l' : Letter} (h : Kept D S p s) (hi : s.copies[i]? = some c)
include h hi

/-- A copy that changes its place only. -/
theorem Kept.place (pl : Place Point) (hmessage : l'.message = c.message)
    (hlocal : c.messageId = p.messageId → Fits D S p s c → Fits D S p s ⟨l', pl⟩ ∧
      (Pending c.place → Resolved S p s ∨ Pending pl)) :
    Kept D S p (Deployment.place s i l' pl) := by
  refine h.move hi (Deployment.place_copies s i l' pl) rfl (fun e he => he) ?_ nofun
    (fun hm => h.marked (hm.congr rfl rfl)) ?_
  · show l'.message.messageId.getD "" = c.message.messageId.getD ""
    rw [hmessage]
  · intro hid hfits
    obtain ⟨hfits', hpending⟩ := hlocal hid hfits
    exact ⟨⟨hfits'.belongs, hfits'.running⟩, nofun,
      fun hp => (hpending hp).imp_right Or.inl⟩

/-- A message that leaves its work queue or its retry queue for the next one. -/
theorem Kept.deadLetter (hS : Apart D.subscriptions S) (hmessage : l'.message = c.message)
    (hqueue : c.messageId = p.messageId → Fits D S p s c →
      l'.queue = workQueueName S.subscriber S.event ∨
      ∃ tier < D.retryDelaysMs.length, l'.queue = retryQueueName S.subscriber S.event tier) :
    Kept D S p (D.deadLetter s i l') := by
  have hid' : l'.messageId = c.messageId := by
    show l'.message.messageId.getD "" = c.message.messageId.getD ""
    rw [hmessage]
  refine h.move hi (Deployment.deadLetter_copies s i l') rfl (fun e he => he) hid' ?_
    (fun hm => h.marked (hm.congr rfl rfl)) ?_
  · intro x hx
    rw [← hid']
    show x.message.messageId.getD "" = l'.message.messageId.getD ""
    rw [Deployment.mem_deadLettered hx]
  · intro hid hfits
    have hparses : parseEvent D.z S.event l'.message.content = .ok p.payload := by
      rw [hmessage]
      exact hfits.belongs.parses
    rcases hqueue hid hfits with hwork | hretry
    · rw [Deployment.deadLettered_work hS hwork]
      refine ⟨fits_gone ⟨hparses, Or.inl hwork⟩, fun x hx => ?_,
        fun _ => Or.inr (Or.inr (List.cons_ne_nil _ _))⟩
      rw [List.mem_singleton.mp hx]
      exact ⟨hparses, Or.inr (Or.inr rfl)⟩
    · obtain ⟨tier, htier, hretry⟩ := hretry
      rw [Deployment.deadLettered_retry hS htier hretry]
      refine ⟨fits_gone ⟨hparses, Or.inr (Or.inl ⟨tier, htier, hretry⟩)⟩, fun x hx => ?_,
        fun _ => Or.inr (Or.inr (List.cons_ne_nil _ _))⟩
      rw [List.mem_singleton.mp hx]
      exact ⟨hparses, Or.inl rfl⟩

/-- A returned delivery. -/
theorem Kept.requeue (hS : Apart D.subscriptions S) {d : Delivery Point}
    (hplace : c.place = .unacked d) (hmessage : l'.message = c.message)
    (hqueue : l'.queue = c.queue) : Kept D S p (D.requeue s i l') := by
  rcases Deployment.requeue_eq s i l' with heq | heq
  · rw [heq]
    refine h.place hi .ready hmessage fun hid hfits => ⟨?_, fun _ => Or.inr trivial⟩
    refine fits_ready ⟨?_, ?_⟩
    · show parseEvent D.z S.event l'.message.content = .ok p.payload
      rw [hmessage]
      exact hfits.belongs.parses
    · show Home D S l'.queue
      rw [hqueue]
      exact hfits.belongs.home
  · rw [heq]
    refine h.deadLetter hi hS hmessage fun hid hfits => Or.inl ?_
    rw [hqueue]
    exact (hfits.running d hplace).1

end Moves

/-! ### Publishing -/

/-- The message id stands for this message in everything published so far. -/
def Unambiguous {P : Type} (p : Published) (s : MessagingState P) : Prop :=
  ∀ p' ∈ s.published, p'.messageId = p.messageId → p' = p

theorem Kept.publish (hS : Apart D.subscriptions S) (hevent : p.event = S.event)
    (h : Kept D S p s) {event : String} {raw : Json} {messageId : String}
    {requestId : Option String} (hstep : D.publish s event raw messageId requestId = some s')
    (hids : Unambiguous p s') : Kept D S p s' := by
  obtain ⟨payload, hparse, rfl⟩ := Deployment.publish_cases hstep
  by_cases hid : messageId = p.messageId
  · -- the message itself: it enters the work queue
    have hp : (⟨messageId, event, payload⟩ : Published) = p :=
      hids _ (List.mem_append_right _ (List.mem_singleton.mpr rfl)) hid
    have hevent' : event = S.event := by rw [← hevent, ← hp]
    have hpayload : payload = p.payload := by rw [← hp]
    subst hevent'
    have hrouted : ∃ x : Letter, D.routed ⟨D.ex.events, S.event, payload.toJson, some messageId,
        ⟨some 0, none, none, requestId⟩⟩ = [x] ∧ x.messageId = messageId ∧ Belongs D S p x :=
      ⟨_, Deployment.routed_event hS _ _ _, rfl, hpayload ▸ parseEvent_toJson hparse, Or.inl rfl⟩
    obtain ⟨x, hrouted, hxid, hbelongs⟩ := hrouted
    rw [hrouted]
    constructor
    · intro hm
      exact h.marked (hm.congr rfl rfl)
    · intro c hc hcid
      rcases List.mem_append.mp hc with hc | hc
      · exact (h.fits c hc hcid).mono fun e he => he
      · rw [List.mem_singleton.mp hc]
        exact fits_ready hbelongs
    · intro _
      exact Or.inr ⟨s.copies.length, ⟨x, .ready⟩, List.getElem?_concat_length, hxid.trans hid,
        trivial⟩
  · -- another message: its copies do not count
    constructor
    · intro hm
      exact h.marked (hm.congr rfl rfl)
    · intro c hc hcid
      rcases List.mem_append.mp hc with hc | hc
      · exact (h.fits c hc hcid).mono fun e he => he
      · obtain ⟨x, hx, rfl⟩ := List.mem_map.mp hc
        have hmid : x.message.messageId.getD "" = p.messageId := hcid
        rw [Deployment.mem_routed hx] at hmid
        exact absurd hmid hid
    · intro hp
      have hold : p ∈ s.published := by
        rcases List.mem_append.mp hp with hold | hnew
        · exact hold
        · exact absurd (by rw [List.mem_singleton.mp hnew]) hid
      rcases h.covered hold with hres | hpending
      · exact Or.inl hres
      · obtain ⟨j, c, hj, hcid, hc⟩ := hpending
        refine Or.inr ⟨j, c, ?_, hcid, hc⟩
        have hjlt : j < s.copies.length := (List.getElem?_eq_some_iff.mp hj).1
        exact (List.getElem?_append_left hjlt).trans hj

/-! ### What comes late -/

theorem Kept.withStrays (h : Kept D S p s) (strays : List Stray) :
    Kept D S p { s with strays := strays } where
  marked := h.marked
  fits c hc hid := (h.fits c hc hid).mono fun _ he => he
  covered := h.covered

/-- A publish of the message that nobody awaits any more would put it into the queues of `S`. -/
def StraysBelong (D : Deployment) (S : Subscription) (p : Published)
    (s : MessagingState Point) : Prop :=
  ∀ x ∈ s.strays, ∀ y ∈ D.routed x.publication, y.messageId = p.messageId → Belongs D S p y

theorem messageId_of_leftBehind {l y : Letter} {d : Delivery Point} {q : Publication}
    (hq : D.LeftBehind l d q) (hy : y ∈ D.routed q) : y.messageId = l.messageId := by
  obtain ⟨pt, hstep⟩ := hq
  show y.message.messageId.getD "" = l.message.messageId.getD ""
  rw [Deployment.mem_routed hy]
  exact congrArg (Option.getD · "") (Deployment.messageId_of_step hstep)

theorem StraysBelong.step (hS : Apart D.subscriptions S) (hkept : Kept D S p s)
    (h : StraysBelong D S p s) {a : Action} (hstep : D.step pointMachine s a = some s') :
    StraysBelong D S p s' := by
  intro x hx y hy hid
  rcases Deployment.strays_of_step hstep hx with hold | ⟨l, d, hi, hleft⟩
  · exact h x hold y hy hid
  -- the delivery that has left it behind was one of the message
  · have hlid : l.messageId = p.messageId := (messageId_of_leftBehind hleft hy).symm.trans hid
    have hfits : Fits D S p s ⟨l, .unacked d⟩ := hkept.fits _ (List.mem_of_getElem? hi) hlid
    obtain ⟨-, hsub, hok⟩ := hfits.running d rfl
    obtain ⟨pt, hpublish⟩ := hleft
    exact (belongs_of_step hS hpublish hsub hfits.belongs hok).2 y hy

/-- Copies are added that are right if they are copies of this message. -/
theorem Kept.arrive (h : Kept D S p s)
    (hletters : ∀ y ∈ letters, y.messageId = p.messageId → Belongs D S p y) :
    Kept D S p (Deployment.enqueue s letters) := by
  refine ⟨fun hm => h.marked (hm.congr rfl rfl), fun c hc hid => ?_, fun hp => ?_⟩
  · rcases List.mem_append.mp hc with hold | hnew
    · exact (h.fits c hold hid).mono fun e he => he
    · obtain ⟨y, hy, rfl⟩ := List.mem_map.mp hnew
      exact fits_ready (hletters y hy hid)
  · refine (h.covered hp).imp_right fun ⟨j, c, hj, hid, hc⟩ => ⟨j, c, ?_, hid, hc⟩
    have hlt : j < s.copies.length := (List.getElem?_eq_some_iff.mp hj).1
    exact (List.getElem?_append_left hlt).trans hj

theorem Kept.stray (h : Kept D S p s) (hstrays : StraysBelong D S p s) {j : ℕ} {arrives : Bool}
    (hstep : D.stray s j arrives = some s') : Kept D S p s' := by
  obtain ⟨x, letters, hx, hletters, rfl⟩ := Deployment.stray_cases hstep
  apply Kept.withStrays
  apply h.arrive
  rcases hletters with rfl | rfl
  · exact fun y hy => absurd hy List.not_mem_nil
  · exact hstrays x (List.mem_of_getElem? hx)

/-- Every step keeps the message. -/
theorem Kept.step (hS : Apart D.subscriptions S) (hevent : p.event = S.event) (h : Kept D S p s)
    (hstrays : StraysBelong D S p s) {a : Action} (hstep : D.step pointMachine s a = some s')
    (hids : Unambiguous p s') :
    Kept D S p s' := by
  match a with
  | .publish event raw messageId requestId => exact h.publish hS hevent hstep hids
  | .deliver i sub now =>
    obtain ⟨l, hi, hsub, hqueue, rfl⟩ := Deployment.deliver_cases hstep
    refine h.place hi _ rfl fun hid hfits => ⟨⟨hfits.belongs, fun d hd => ?_⟩, fun _ => Or.inr rfl⟩
    cases hd
    have hhome : Home D S l.queue := hfits.belongs.home
    -- only the work queue of `S` has the name of a work queue
    have hwork : l.queue = workQueueName S.subscriber S.event := by
      rcases hhome with hwork | hretry | hdlq
      · exact hwork
      · obtain ⟨tier, -, hretry⟩ := hretry
        exact absurd (hqueue.symm.trans hretry) workQueueName_ne_retryQueueName
      · exact absurd (hqueue.symm.trans hdlq) workQueueName_ne_dlqName
    refine ⟨hwork, hS.eq_of_workQueueName hsub (hqueue.symm.trans hwork), ?_⟩
    unfold Context.start
    split
    · trivial
    · trivial
  | .perform .. | .overtake .. =>
    obtain ⟨l, d, call, r, pt, s₁, left, hi, hmove, hsettled, rfl, -⟩ :=
      Deployment.call_cases rfl hstep
    exact (h.resume hS hi hmove hsettled).withStrays _
  | .settle i =>
    obtain ⟨l, d, result, hi, hcode, hack | hreject | hreturn⟩ := Deployment.settle_cases hstep
    · obtain ⟨rfl, rfl⟩ := hack
      refine h.place hi .gone rfl fun hid hfits => ⟨fits_gone hfits.belongs, fun hpending => ?_⟩
      obtain ⟨-, -, hok⟩ := hfits.running d rfl
      rw [hcode] at hok
      rcases hok with hrepublished | hres
      · rw [show d.republished = false from hpending] at hrepublished
        cases hrepublished
      · exact Or.inl hres
    · obtain ⟨-, rfl⟩ := hreject
      exact h.deadLetter hi hS rfl fun hid hfits => Or.inl (hfits.running d rfl).1
    · obtain ⟨-, rfl⟩ := hreturn
      exact h.requeue hi hS rfl rfl rfl
  | .crash i =>
    obtain ⟨l, d, left, hi, rfl, -⟩ := Deployment.crash_cases hstep
    apply Kept.withStrays
    exact h.requeue hi hS rfl rfl rfl
  | .stray j arrives => exact h.stray hstrays hstep
  | .expire i =>
    obtain ⟨l, hi, httl, rfl⟩ := Deployment.expire_cases hstep
    refine h.deadLetter hi hS rfl fun hid hfits => ?_
    have hhome : Home D S l.queue := hfits.belongs.home
    rcases hhome with hwork | hretry | hdlq
    · exact Or.inl hwork
    · exact Or.inr hretry
    · rw [hdlq, Deployment.messageTtl_dlq hS] at httl
      cases httl
  | .tick ms =>
    cases hstep
    exact ⟨fun hm => h.marked hm.of_tick, fun c hc hid => (h.fits c hc hid).mono fun e he => he,
      h.covered⟩

theorem Kept.init : Kept D S p (.init Point) where
  marked hm := by
    obtain ⟨v, hget, hv⟩ := hm
    cases hget
    cases hv
  fits c hc := absurd hc List.not_mem_nil
  covered hp := absurd hp List.not_mem_nil

theorem kept_strays_of_reaches (hS : Apart D.subscriptions S) (hevent : p.event = S.event)
    {ok : MessagingState Point → Action → Prop}
    (h : Reaches (D.step pointMachine) ok (.init Point) s) (hids : Unambiguous p s) :
    Kept D S p s ∧ StraysBelong D S p s := by
  induction h with
  | refl => exact ⟨Kept.init, fun x hx => absurd hx List.not_mem_nil⟩
  | tail _ hnext ih =>
    obtain ⟨a, -, hstep⟩ := hnext
    obtain ⟨hkept, hstrays⟩ := ih fun p' hp' => hids p' (Deployment.published_subset hstep hp')
    exact ⟨hkept.step hS hevent hstrays hstep hids, hstrays.step hS hkept hstep⟩

/-- In every state of every run the message is kept. -/
theorem kept_of_reaches (hS : Apart D.subscriptions S) (hevent : p.event = S.event)
    {ok : MessagingState Point → Action → Prop}
    (h : Reaches (D.step pointMachine) ok (.init Point) s) (hids : Unambiguous p s) :
    Kept D S p s := (kept_strays_of_reaches hS hevent h hids).1

end Steps

/-! ## Runs of the system -/

section Runs

variable {D : Deployment} {S : Subscription} {p : Published} {s : MessagingState Point}
  {t : MessagingState Code}

theorem Kept.present (h : Kept D S p s) (hp : p ∈ s.published) :
    Present D S p (s.toCode D) ∨ Resolved S p (s.toCode D) := by
  rcases h.covered hp with hres | hpending
  · exact Or.inr hres
  · obtain ⟨j, c, hj, hid, hpl⟩ := hpending
    have hmem : c ∈ s.copies := List.mem_of_getElem? hj
    refine Or.inl ⟨c.toCode D, List.mem_map_of_mem hmem, hid, (h.fits c hmem hid).belongs.home, ?_⟩
    intro hgone
    rw [Place.toCode_eq_gone D hgone] at hpl
    exact hpl

theorem kept_of_reaches_code (hS : Apart D.subscriptions S) (hevent : p.event = S.event)
    {ok : MessagingState Code → Action → Prop}
    (h : Reaches (D.step codeMachine) ok (.init Code) t) (hids : Unambiguous p t) :
    ∃ s, Kept D S p s ∧ s.toCode D = t := by
  obtain ⟨s, hs, rfl⟩ := Deployment.reaches_points h
  exact ⟨s, kept_of_reaches hS hevent hs hids, rfl⟩

/-- Whatever fails, and in whatever order deliveries, returns, expiries and crashes come: a
message published for a subscription is in one of its queues, or its handler has resolved. -/
theorem present_or_resolved (hwn : WellNamed D.subscriptions)
    (hunshared : (D.subscriptions.map Subscription.event).Nodup)
    (h : Reaches (D.step codeMachine) (fun _ _ => True) (.init Code) t)
    (hids : (t.published.map Published.messageId).Nodup) (hp : p ∈ t.published)
    (hS : S ∈ D.subscriptions) (hevent : S.event = p.event) :
    Present D S p t ∨ Resolved S p t := by
  have hcontract : HasContract S.event := by
    rw [hevent]
    exact Deployment.hasContract_of_reaches h p hp
  have hapart : Apart D.subscriptions S := by
    refine Apart.of_wellNamed (fun sub hsub heq => ?_) hS hwn hcontract
    exact List.inj_on_of_nodup_map hunshared hsub hS heq
  have hunambiguous : Unambiguous p t := fun p' hp' hid =>
    List.inj_on_of_nodup_map hids hp' hp hid
  obtain ⟨s, hkept, rfl⟩ := kept_of_reaches_code hapart hevent.symm h hunambiguous
  exact hkept.present hp

end Runs

/-- After its handler has failed, a message is there twice: unacked and in its retry queue. -/
theorem present_or_resolved_retried :
    ∃ t, Reaches ((defaultDeployment SUBSCRIPTIONS).step codeMachine) (fun _ _ => True)
        (.init Code) t ∧ createdNotification "m1" ∈ t.published ∧
      (Present (defaultDeployment SUBSCRIPTIONS) notifications (createdNotification "m1") t ∨
        Resolved notifications (createdNotification "m1") t) := by
  have hrun : (Transition.run ((defaultDeployment SUBSCRIPTIONS).step codeMachine)
      (fun _ _ => True) (.init Code)
      ([(createdNotification "m1").action, .deliver 0 notifications "2026-06-06T00:00:00Z"] ++
        resolving 0 2 ++ [.perform 0 (.rejects (.error "boom") false)] ++ resolving 0 1)).map
      (fun t => decide (t.published = [createdNotification "m1"])) = some true := by
    decide +kernel
  obtain ⟨t, ht, hpub⟩ := Transition.exists_reaches_of_run hrun
  have hpub' : t.published = [createdNotification "m1"] := of_decide_eq_true hpub
  have hmem : createdNotification "m1" ∈ t.published := by
    rw [hpub']
    exact List.mem_singleton.mpr rfl
  refine ⟨t, ht, hmem, present_or_resolved (by decide) (by decide) ht ?_ hmem (by decide) rfl⟩
  rw [hpub']
  exact List.nodup_singleton _

end NestFastify.Messaging
