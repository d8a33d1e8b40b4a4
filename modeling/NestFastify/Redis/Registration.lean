import NestFastify.Redis.PubSub

/-!
# Sound registration

What holds of the handlers of a channel and the connection in every state of an orderly run. The
first handler in a list is the one whose call has sent SUBSCRIBE; the others have joined it.
-/

namespace NestFastify.Redis

namespace PubSub

section Invariant

variable {H : Type} {s s' : PubSub H} {i : ℕ} {channel : String} {handler : H} {c : PubSubCall H}
  {r : RedisPubSubService.Handlers (Registration H) × Bool}

/-- The call `j` waits for a command on the channel. -/
def Awaits (s : PubSub H) (channel : String) (j : ℕ) : Prop :=
  j ∈ s.commands ∧ (s.op j).map PubSubCall.channel = some channel

/-- The SUBSCRIBE of the first handler is the last command of its channel: it is on the way, or
no other is, and it has been accepted or refused. -/
inductive First (s : PubSub H) (channel : String) (i : ℕ) : Prop
  | sent (h : s.progress i = some .sent) (hlast : ∀ j, s.Awaits channel j → j ≤ i)
  | accepted (h : s.progress i = some (.executed (.ok ())) ∨
        s.progress i = some (.settled (.ok ())))
      (hsub : channel ∈ s.subscribed) (hquiet : ∀ j, ¬ s.Awaits channel j)
  | refused (e : JsError) (h : s.progress i = some (.executed (.error e)))
      (hquiet : ∀ j, ¬ s.Awaits channel j)

structure Inv (s : PubSub H) : Prop where
  sorted : s.commands.Pairwise (· < ·)
  sent : ∀ i ∈ s.commands, s.progress i = some .sent
  registered : ∀ {channel r}, r ∈ s.list channel ↔ s.Registered r.call channel r.handler
  nonempty : ∀ channel, s.handlers.get channel ≠ some []
  first : ∀ {channel r rest}, s.handlers.get channel = some (r :: rest) → s.First channel r.call
  joined : ∀ {channel r rest}, s.handlers.get channel = some (r :: rest) → ∀ q ∈ rest,
    s.progress q.call = some (.settled (.ok ())) ∧ channel ∈ s.subscribed
  due : ∀ m, .message m ∈ s.incoming → ∀ r ∈ m.due,
    s.op r.call = some (.subscribe m.channel r.handler)
  delivered : ∀ m ∈ s.lost, m.due = []
  dispatched : ∀ d ∈ s.dispatched, ∀ r ∈ d.1.due,
    s.op r.call = some (.subscribe d.1.channel r.handler) ∧
      (r ∈ d.2 ∨ s.UnsubscribedAfter r.call d.1.channel)

theorem Inv.init : Inv (PubSub.init : PubSub H) where
  sorted := List.Pairwise.nil
  sent := nofun
  registered := by
    intro channel r
    constructor
    · nofun
    · intro h
      exact absurd (lt_of_op h.1) (Nat.not_lt_zero _)
  nonempty := nofun
  first := nofun
  joined := nofun
  due := nofun
  delivered := nofun
  dispatched := nofun

/-- The list of a channel is what the map holds for it. -/
theorem list_of_get {l : List (Registration H)} (h : s.handlers.get channel = some l) :
    s.list channel = l := by
  rw [list, h, Option.getD_some]

theorem list_of_get_none (h : s.handlers.get channel = none) : s.list channel = [] := by
  rw [list, h, Option.getD_none]

/-- A registered handler is the first of its channel or has joined it. -/
theorem Inv.cases (h : s.Inv) (hreg : s.Registered i channel handler) :
    s.First channel i ∨
      s.progress i = some (.settled (.ok ())) ∧ channel ∈ s.subscribed := by
  have hmem : ⟨i, handler⟩ ∈ s.list channel := h.registered.mpr hreg
  cases hget : s.handlers.get channel with
  | none =>
    rw [list_of_get_none hget] at hmem
    cases hmem
  | some l =>
    rw [list_of_get hget] at hmem
    cases l with
    | nil => cases hmem
    | cons r rest =>
      rcases List.mem_cons.mp hmem with hfirst | hrest
      · have hcall : r.call = i := by rw [← hfirst]
        exact Or.inl (hcall ▸ h.first hget)
      · exact Or.inr (h.joined hget _ hrest)

/-- Once the first SUBSCRIBE has settled the connection is on the channel. -/
theorem First.subscribed (h : s.First channel i) (hi : s.progress i = some (.settled (.ok ()))) :
    channel ∈ s.subscribed := by
  cases h with
  | sent hsent =>
    rw [hi] at hsent
    cases hsent
  | accepted _ hsub _ => exact hsub
  | refused e hrefused =>
    rw [hi] at hrefused
    cases hrefused

/-- The call of a first handler that is in the map has not rejected. -/
theorem First.not_rejected (h : s.First channel i) (e : JsError) :
    s.progress i ≠ some (.settled (.error e)) := by
  intro hi
  cases h with
  | sent hsent =>
    rw [hi] at hsent
    cases hsent
  | accepted haccepted =>
    rw [hi] at haccepted
    rcases haccepted with haccepted | haccepted <;> cases haccepted
  | refused e hrefused =>
    rw [hi] at hrefused
    cases hrefused

/-- The invariant is enough for what the callers are promised. -/
theorem Inv.sound (h : s.Inv) : s.Sound where
  reached := by
    intro i channel handler hstands
    refine ⟨?_, h.registered.mpr hstands.1⟩
    rcases h.cases hstands.1 with hfirst | hjoined
    · exact hfirst.subscribed hstands.2
    · exact hjoined.2
  rejected := by
    intro i channel handler e _ hrejected hmem
    rcases h.cases (h.registered.mp hmem) with hfirst | hjoined
    · exact hfirst.not_rejected e hrejected
    · rw [hjoined.1] at hrejected
      cases hrejected
  delivered := h.delivered
  dispatched := fun d hd r hr => (h.dispatched d hd r hr).2

/-! ## Calls -/

/-- A call waits when its command has been sent. -/
theorem awaits_issue (hsent : ∀ i ∈ s.commands, s.progress i = some .sent) {j : ℕ} :
    (s.issue c r).Awaits channel j ↔
      s.Awaits channel j ∨ r.2 = true ∧ j = s.calls.length ∧ c.channel = channel := by
  have hold : j ∈ s.commands → (s.issue c r).op j = s.op j := fun hj =>
    op_issue (lt_of_progress (hsent j hj))
  have hnew : j ∈ (s.issue c r).commands ↔ j ∈ s.commands ∨ r.2 = true ∧ j = s.calls.length := by
    rw [issue]
    by_cases hr : r.2 = true
    · simp [hr]
    · simp [hr]
  unfold Awaits
  rw [hnew]
  constructor
  · rintro ⟨hj | ⟨hr, rfl⟩, hchannel⟩
    · exact Or.inl ⟨hj, hold hj ▸ hchannel⟩
    · rw [op_issue_self, Option.map_some, Option.some.injEq] at hchannel
      exact Or.inr ⟨hr, rfl, hchannel⟩
  · rintro (⟨hj, hchannel⟩ | ⟨hr, rfl, hchannel⟩)
    · exact ⟨Or.inl hj, (hold hj).symm ▸ hchannel⟩
    · refine ⟨Or.inr ⟨hr, rfl⟩, ?_⟩
      rw [op_issue_self, Option.map_some, hchannel]

/-- A call on another channel, or one without a command, leaves the first handler where it is. -/
theorem First.issue (h : s.First channel i) (hsent : ∀ i ∈ s.commands, s.progress i = some .sent)
    (hne : r.2 = true → c.channel ≠ channel) : (s.issue c r).First channel i := by
  have hawaits : ∀ j, (s.issue c r).Awaits channel j → s.Awaits channel j := by
    intro j hj
    rcases (awaits_issue hsent).mp hj with hold | ⟨hr, -, hchannel⟩
    · exact hold
    · exact absurd hchannel (hne hr)
  cases h with
  | sent h hlast =>
    refine .sent ?_ fun j hj => hlast j (hawaits j hj)
    rw [progress_issue (lt_of_progress h), h]
  | accepted h hsub hquiet =>
    refine .accepted ?_ hsub fun j hj => hquiet j (hawaits j hj)
    have hi : i < s.calls.length := by rcases h with h | h <;> exact lt_of_progress h
    rwa [progress_issue hi]
  | refused e h hquiet =>
    refine .refused e ?_ fun j hj => hquiet j (hawaits j hj)
    rw [progress_issue (lt_of_progress h), h]

/-- A call keeps the invariant if it does so on its own channel and leaves the others alone. -/
theorem Inv.issue (h : s.Inv)
    (hne : ∀ {channel}, channel ≠ c.channel → r.1.get channel = s.handlers.get channel)
    (hreg : ∀ q, q ∈ (r.1.get c.channel).getD [] ↔
      (s.issue c r).Registered q.call c.channel q.handler)
    (hnil : r.1.get c.channel ≠ some [])
    (hfirst : ∀ q rest, r.1.get c.channel = some (q :: rest) →
      (s.issue c r).First c.channel q.call ∧ ∀ p ∈ rest,
        (s.issue c r).progress p.call = some (.settled (.ok ())) ∧ c.channel ∈ s.subscribed) :
    (s.issue c r).Inv where
  sorted := by
    rw [PubSub.issue]
    by_cases hr : r.2 = true
    · simp only [hr, if_true]
      rw [List.pairwise_append]
      refine ⟨h.sorted, List.pairwise_singleton _ _, fun i hi j hj => ?_⟩
      rw [List.mem_singleton.mp hj]
      exact lt_of_progress (h.sent i hi)
    · simpa [hr] using h.sorted
  sent := by
    intro i hi
    by_cases hold : i ∈ s.commands
    · rw [progress_issue (lt_of_progress (h.sent i hold)), h.sent i hold]
    · by_cases hr : r.2 = true
      · have hnew : i = s.calls.length := by simpa [PubSub.issue, hr, hold] using hi
        rw [hnew, progress_issue_self, if_pos hr]
      · exact absurd (by simpa [PubSub.issue, hr] using hi) hold
  registered := by
    intro channel q
    by_cases hc : channel = c.channel
    · rw [hc]
      exact hreg q
    · have hlist : (s.issue c r).list channel = s.list channel := by
        rw [list, list, ← hne hc]
        rfl
      rw [hlist, h.registered, registered_issue]
      constructor
      · intro hq
        refine Or.inl ⟨hq, fun hcall => hc ?_⟩
        rw [hcall, PubSubCall.channel]
      · rintro (⟨hq, -⟩ | ⟨-, hcall⟩)
        · exact hq
        · refine absurd ?_ hc
          rw [hcall, PubSubCall.channel]
  nonempty := by
    intro channel
    by_cases hc : channel = c.channel
    · rw [hc]
      exact hnil
    · exact fun hget => h.nonempty channel ((hne hc).symm.trans hget)
  first := by
    intro channel q rest hget
    by_cases hc : channel = c.channel
    · rw [hc] at hget ⊢
      exact (hfirst q rest hget).1
    · exact (h.first ((hne hc).symm.trans hget)).issue h.sent fun _ => Ne.symm hc
  joined := by
    -- a call that has settled stays settled
    intro channel q rest hget p hp
    by_cases hc : channel = c.channel
    · rw [hc] at hget ⊢
      exact (hfirst q rest hget).2 p hp
    · have hjoined := h.joined ((hne hc).symm.trans hget) p hp
      rw [progress_issue (lt_of_progress hjoined.1)]
      exact hjoined
  due := by
    intro m hm q hq
    have hop := h.due m hm q hq
    rw [op_issue (lt_of_op hop), hop]
  delivered := h.delivered
  dispatched := by
    intro d hd q hq
    obtain ⟨hop, hreached⟩ := h.dispatched d hd q hq
    have hlt := lt_of_op hop
    rw [op_issue hlt, unsubscribedAfter_issue hlt]
    exact ⟨hop, hreached.imp_right Or.inl⟩

/-- Pushing a handler to the list of its channel, or opening the list, registers the call. -/
theorem mem_concat_iff_registered (h : s.Inv) {l : List (Registration H)}
    (hl : s.list channel = l) (q : Registration H) :
    q ∈ l ++ [⟨s.calls.length, handler⟩] ↔
      (s.issue (.subscribe channel handler) r).Registered q.call channel q.handler := by
  rw [registered_issue, ← h.registered, hl, List.mem_append, List.mem_singleton]
  constructor
  · rintro (hq | rfl)
    · exact Or.inl ⟨hq, nofun⟩
    · exact Or.inr ⟨rfl, rfl⟩
  · rintro (⟨hq, -⟩ | ⟨hcall, hop⟩)
    · exact Or.inl hq
    · obtain ⟨call, handler'⟩ := q
      cases hcall
      cases hop
      exact Or.inr rfl

/-- A `subscribe` keeps the invariant unless it joins a channel that is not subscribed to. -/
theorem Inv.subscribe (h : s.Inv)
    (hjoin : (s.handlers.get channel).isSome → channel ∈ s.subscribed) :
    (s.call (.subscribe channel handler)).Inv := by
  rcases RedisPubSubService.subscribe_cases s.handlers channel ⟨s.calls.length, handler⟩
    with ⟨l, hold, hnew, hsends⟩ | ⟨hold, hnew, hsends⟩
  · refine h.issue (fun hne => RedisPubSubService.subscribe_ne hne) (fun q => ?_) ?_ ?_
    · rw [PubSubCall.channel, hnew]
      exact mem_concat_iff_registered h (list_of_get hold) q
    · rw [PubSubCall.channel, hnew]
      simp
    · intro q rest hget
      rw [PubSubCall.channel, hnew, Option.some.injEq] at hget
      cases l with
      | nil => exact absurd hold (h.nonempty channel)
      | cons q' rest' =>
        rw [List.cons_append, List.cons.injEq] at hget
        obtain ⟨rfl, rfl⟩ := hget
        refine ⟨(h.first hold).issue h.sent (by rw [hsends]; nofun), fun p hp => ?_⟩
        refine ⟨?_, hjoin (by rw [hold]; rfl)⟩
        rcases List.mem_append.mp hp with hp | hp
        · have hjoined := (h.joined hold p hp).1
          rw [progress_issue (lt_of_progress hjoined), hjoined]
        · rw [List.mem_singleton.mp hp, progress_issue_self, hsends]
          rfl
  · refine h.issue (fun hne => RedisPubSubService.subscribe_ne hne) (fun q => ?_) ?_ ?_
    · rw [PubSubCall.channel, hnew]
      exact mem_concat_iff_registered h (list_of_get_none hold) q
    · rw [PubSubCall.channel, hnew]
      simp
    · intro q rest hget
      rw [PubSubCall.channel, hnew, Option.some.injEq, List.cons.injEq] at hget
      obtain ⟨rfl, rfl⟩ := hget
      refine ⟨.sent ?_ fun j hj => ?_, nofun⟩
      · rw [progress_issue_self, hsends]
        rfl
      · rcases (awaits_issue h.sent).mp hj with hj | hj
        · exact Nat.le_of_lt (lt_of_progress (h.sent j hj.1))
        · exact Nat.le_of_eq hj.2.1

/-- An `unsubscribe` keeps the invariant. -/
theorem Inv.unsubscribe (h : s.Inv) : (s.call (.unsubscribe channel)).Inv := by
  have hnone : (RedisPubSubService.unsubscribe s.handlers channel).1.get channel = none :=
    ArrayMap.get_delete_self
  refine h.issue (fun hne => ArrayMap.get_delete_ne hne) (fun q => ?_) ?_ fun q rest hget => ?_
  · rw [PubSubCall.channel, hnone, registered_issue]
    constructor
    · nofun
    · rintro (⟨-, hne⟩ | ⟨-, hop⟩)
      · exact absurd rfl hne
      · cases hop
  · rw [PubSubCall.channel, hnone]
    nofun
  · rw [PubSubCall.channel, hnone] at hget
    cases hget

/-! ## Commands and replies -/

/-- Redis has executed the command of `i`. -/
def executed (s : PubSub H) (i : ℕ) (rest : List ℕ) (reply : Except JsError Unit) : PubSub H :=
  { s with
    commands := rest
    calls := s.calls.modify i fun issued => { issued with progress := .executed reply }
    subscribed := if reply.isOk then effect s.subscribed (s.op i) else s.subscribed
    incoming := s.incoming ++ [.reply i] }

/-- Redis executes the commands in the order in which they were sent. -/
theorem execute_eq_some {reply : Except JsError Unit} (h : s.execute reply = some s') :
    ∃ i rest, s.commands = i :: rest ∧ s' = s.executed i rest reply := by
  unfold execute at h
  cases hcommands : s.commands with
  | nil =>
    rw [hcommands] at h
    cases h
  | cons i rest =>
    rw [hcommands] at h
    exact ⟨i, rest, rfl, (Option.some.inj h).symm⟩

variable {rest : List ℕ} {reply : Except JsError Unit} {j : ℕ}

/-- The calls stay what they were. -/
theorem map_call_executed : (s.executed i rest reply).calls.map Issued.call =
    s.calls.map Issued.call :=
  map_call_modify (f := fun issued => { issued with progress := .executed reply })
    (fun _ => rfl) s.calls

/-- The call whose command is executed has its reply on the way. -/
theorem progress_executed_self (hi : s.progress i = some .sent) :
    (s.executed i rest reply).progress i = some (.executed reply) := by
  obtain ⟨issued, hissued, -⟩ := Option.map_eq_some_iff.mp hi
  exact progress_modify_self hissued

/-- The other calls are where they were. -/
theorem progress_executed_ne (hne : j ≠ i) :
    (s.executed i rest reply).progress j = s.progress j := progress_modify_ne hne

/-- A channel stays subscribed to unless its UNSUBSCRIBE succeeds. -/
theorem mem_subscribed_executed (hsub : channel ∈ s.subscribed)
    (hop : reply.isOk = true → s.op i ≠ some (.unsubscribe channel)) :
    channel ∈ (s.executed i rest reply).subscribed := by
  rw [executed]
  by_cases hok : reply.isOk = true
  · simp only [if_pos hok]
    cases hi : s.op i with
    | none => exact hsub
    | some c =>
      cases c with
      | subscribe channel' handler => exact Finset.mem_insert_of_mem hsub
      | unsubscribe channel' =>
        refine Finset.mem_erase.mpr ⟨fun heq => hop hok ?_, hsub⟩
        rw [hi, heq]
  · simpa only [if_neg hok] using hsub

/-- What still waits comes after the command that is executed. -/
theorem Inv.awaits_executed (h : s.Inv) (hcommands : s.commands = i :: rest)
    (hj : (s.executed i rest reply).Awaits channel j) : s.Awaits channel j ∧ i < j := by
  have hsorted := h.sorted
  rw [hcommands, List.pairwise_cons] at hsorted
  have hop : (s.executed i rest reply).op j = s.op j := op_congr map_call_executed
  refine ⟨⟨?_, hop ▸ hj.2⟩, hsorted.1 j hj.1⟩
  rw [hcommands]
  exact List.mem_cons_of_mem i hj.1

/-- An executed command moves its own call on, and no other first handler. -/
theorem Inv.first_executed (h : s.Inv) (hcommands : s.commands = i :: rest)
    (hreg : s.Registered j channel handler) (hfirst : s.First channel j) :
    (s.executed i rest reply).First channel j := by
  have hmem : i ∈ s.commands := hcommands ▸ List.mem_cons_self
  have hi := h.sent i hmem
  have hquiet : (∀ k, ¬ s.Awaits channel k) →
      ∀ k, ¬ (s.executed i rest reply).Awaits channel k := fun hquiet k hk =>
    hquiet k (h.awaits_executed hcommands hk).1
  cases hfirst with
  | sent hsent hlast =>
    by_cases hij : j = i
    · rw [hij] at hreg hlast ⊢
      -- the last command of the channel has been executed
      have hquiet' : ∀ k, ¬ (s.executed i rest reply).Awaits channel k := by
        intro k hk
        obtain ⟨hawaits, hlt⟩ := h.awaits_executed hcommands hk
        exact absurd (hlast k hawaits) (Nat.not_le_of_lt hlt)
      have hprogress : (s.executed i rest reply).progress i = some (.executed reply) :=
        progress_executed_self hi
      cases reply with
      | error e => exact .refused e hprogress hquiet'
      | ok _ =>
        refine .accepted (Or.inl hprogress) ?_ hquiet'
        have hsubscribed : (s.executed i rest (.ok ())).subscribed =
            effect s.subscribed (s.op i) := rfl
        rw [hsubscribed, hreg.1]
        exact Finset.mem_insert_self channel _
    · refine .sent ((progress_executed_ne hij).trans hsent) fun k hk => ?_
      exact hlast k (h.awaits_executed hcommands hk).1
  | accepted haccepted hsub hq =>
    have hij : j ≠ i := by
      rintro rfl
      rw [hi] at haccepted
      rcases haccepted with haccepted | haccepted <;> cases haccepted
    refine .accepted ?_ (mem_subscribed_executed hsub fun _ hop => ?_) (hquiet hq)
    · rwa [progress_executed_ne hij]
    · exact hq i ⟨hmem, by rw [hop]; rfl⟩
  | refused e hrefused hq =>
    have hij : j ≠ i := by
      rintro rfl
      rw [hi] at hrefused
      cases hrefused
    exact .refused e ((progress_executed_ne hij).trans hrefused) (hquiet hq)

/-- A command keeps the invariant unless it takes the channel from handlers that have joined since.
-/
theorem Inv.execute (h : s.Inv) (hcommands : s.commands = i :: rest)
    (hdropping : reply.isOk = true → ¬ s.Dropping i) : (s.executed i rest reply).Inv where
  sorted := by
    have hsorted := h.sorted
    rw [hcommands] at hsorted
    exact hsorted.tail
  sent := by
    intro j hj
    have hsorted := h.sorted
    rw [hcommands, List.pairwise_cons] at hsorted
    rw [progress_executed_ne (Nat.ne_of_gt (hsorted.1 j hj))]
    exact h.sent j (hcommands ▸ List.mem_cons_of_mem i hj)
  registered := by
    intro channel q
    rw [registered_congr map_call_executed]
    exact h.registered
  nonempty := h.nonempty
  first := by
    intro channel q l hget
    have hold : s.handlers.get channel = some (q :: l) := hget
    have hmem : q ∈ s.list channel := by
      rw [list_of_get hold]
      exact List.mem_cons_self
    exact h.first_executed hcommands (h.registered.mp hmem) (h.first hold)
  joined := by
    intro channel q l hget p hp
    have hold : s.handlers.get channel = some (q :: l) := hget
    obtain ⟨hsettled, hsub⟩ := h.joined hold p hp
    have hpi : p.call ≠ i := by
      rintro rfl
      have hsent := h.sent p.call (hcommands ▸ List.mem_cons_self)
      rw [hsettled] at hsent
      cases hsent
    -- an UNSUBSCRIBE of this channel would drop the second handler
    refine ⟨(progress_executed_ne hpi).trans hsettled, mem_subscribed_executed hsub ?_⟩
    intro hok hop
    refine hdropping hok ?_
    have hlist := list_of_get hold
    have hpos := List.length_pos_of_mem hp
    rw [Dropping, hop]
    show 1 < (s.list channel).length
    rw [hlist, List.length_cons]
    omega
  due := by
    intro m hm q hq
    rw [op_congr map_call_executed]
    refine h.due m ?_ q hq
    rcases List.mem_append.mp hm with hm | hm
    · exact hm
    · cases List.mem_singleton.mp hm
  delivered := h.delivered
  dispatched := by
    intro d hd q hq
    rw [op_congr map_call_executed, unsubscribedAfter_congr map_call_executed]
    exact h.dispatched d hd q hq

/-- The reply of `i` has come in. -/
def replied (s : PubSub H) (i : ℕ) (rest : List (Incoming H)) : PubSub H :=
  { s with incoming := rest, calls := s.calls.modify i settle }

/-- The listener has gone through a message. -/
def handed (s : PubSub H) (m : Message H) (rest : List (Incoming H)) : PubSub H :=
  { s with incoming := rest, dispatched := s.dispatched ++ [(m, s.list m.channel)] }

/-- The connection takes a reply or a message. -/
theorem receive_eq_some (h : s.receive = some s') :
    (∃ i rest, s.incoming = .reply i :: rest ∧ s' = s.replied i rest) ∨
    ∃ m rest, s.incoming = .message m :: rest ∧ s' = s.handed m rest := by
  unfold receive at h
  cases hincoming : s.incoming with
  | nil =>
    rw [hincoming] at h
    cases h
  | cons head rest =>
    rw [hincoming] at h
    cases head with
    | reply i => exact Or.inl ⟨i, rest, rfl, (Option.some.inj h).symm⟩
    | message m => exact Or.inr ⟨m, rest, rfl, (Option.some.inj h).symm⟩

variable {replies : List (Incoming H)}

/-- A reply does not change the call. -/
theorem settle_call (issued : Issued H) : (settle issued).call = issued.call := by
  unfold settle
  cases issued.progress <;> rfl

/-- The calls stay what they were. -/
theorem map_call_replied :
    (s.replied i replies).calls.map Issued.call = s.calls.map Issued.call :=
  map_call_modify settle_call s.calls

/-- The other calls are where they were. -/
theorem progress_replied_ne (hne : j ≠ i) : (s.replied i replies).progress j = s.progress j :=
  progress_modify_ne hne

/-- A call that waits for no reply stays where it is. -/
theorem progress_replied_of {p : Progress} (h : s.progress j = some p)
    (hp : ∀ reply, p ≠ .executed reply) : (s.replied i replies).progress j = some p := by
  by_cases hij : j = i
  · rw [hij] at h ⊢
    obtain ⟨issued, hissued, hprogress⟩ := Option.map_eq_some_iff.mp h
    refine (progress_modify_self hissued).trans ?_
    rw [settle, hprogress]
    cases p with
    | sent => rw [hprogress]
    | executed reply => exact absurd rfl (hp reply)
    | settled outcome => rw [hprogress]
  · rw [progress_replied_ne hij, h]

/-- The call whose reply has come in has settled. -/
theorem progress_replied_self (h : s.progress i = some (.executed reply)) :
    (s.replied i replies).progress i = some (.settled reply) := by
  obtain ⟨issued, hissued, hprogress⟩ := Option.map_eq_some_iff.mp h
  refine (progress_modify_self hissued).trans ?_
  rw [settle, hprogress]

/-- A refused SUBSCRIBE strands its handler, unless an `unsubscribe` has come after it. -/
theorem stranded_of (hop : s.op i = some (.subscribe channel handler)) {e : JsError}
    (hrefused : s.progress i = some (.executed (.error e)))
    (hafter : ¬ s.UnsubscribedAfter i channel) : s.Stranded i := by
  obtain ⟨issued, hissued, hcall⟩ := Option.map_eq_some_iff.mp hop
  rw [progress, hissued, Option.map_some, Option.some.injEq] at hrefused
  obtain ⟨call, progress⟩ := issued
  cases hcall
  cases hrefused
  rw [Stranded, hissued]
  exact hafter

/-- A call is stranded when its handler is registered and its SUBSCRIBE is refused. -/
theorem stranded_iff : s.Stranded i ↔ ∃ channel handler e,
    s.Registered i channel handler ∧ s.progress i = some (.executed (.error e)) := by
  constructor
  · intro h
    unfold Stranded at h
    split at h
    · rename_i channel handler e hissued
      refine ⟨channel, handler, e, ⟨?_, h⟩, ?_⟩
      · rw [op, hissued, Option.map_some]
      · rw [progress, hissued, Option.map_some]
    · exact h.elim
  · rintro ⟨channel, handler, e, ⟨hop, hafter⟩, hrefused⟩
    exact stranded_of hop hrefused hafter

/-- A reply that strands no handler leaves the first SUBSCRIBE as it was. -/
theorem First.replied (hfirst : s.First channel j) (hstranded : ¬ s.Stranded i)
    (hreg : s.Registered j channel handler) : (s.replied i replies).First channel j := by
  have hawaits : ∀ {k}, (s.replied i replies).Awaits channel k ↔ s.Awaits channel k := by
    intro k
    rw [Awaits, Awaits, op_congr map_call_replied]
    rfl
  cases hfirst with
  | sent hsent hlast =>
    exact .sent (progress_replied_of hsent nofun) fun k hk => hlast k (hawaits.mp hk)
  | accepted haccepted hsub hquiet =>
    refine .accepted ?_ hsub fun k hk => hquiet k (hawaits.mp hk)
    rcases haccepted with hexecuted | hsettled
    · by_cases hij : j = i
      · rw [hij] at hexecuted ⊢
        exact Or.inr (progress_replied_self hexecuted)
      · exact Or.inl ((progress_replied_ne hij).trans hexecuted)
    · exact Or.inr (progress_replied_of hsettled nofun)
  | refused e hrefused hquiet =>
    have hij : j ≠ i := by
      rintro rfl
      exact hstranded (stranded_iff.mpr ⟨channel, handler, e, hreg, hrefused⟩)
    refine .refused e ((progress_replied_ne hij).trans hrefused) fun k hk => ?_
    exact hquiet k (hawaits.mp hk)

/-- A reply keeps the invariant unless it strands a handler. -/
theorem Inv.replied (h : s.Inv) (hincoming : s.incoming = .reply i :: replies)
    (hstranded : ¬ s.Stranded i) : (s.replied i replies).Inv where
  sorted := h.sorted
  sent := fun j hj => progress_replied_of (h.sent j hj) nofun
  registered := by
    intro channel q
    rw [registered_congr map_call_replied]
    exact h.registered
  nonempty := h.nonempty
  first := by
    intro channel q l hget
    have hold : s.handlers.get channel = some (q :: l) := hget
    have hmem : q ∈ s.list channel := by
      rw [list_of_get hold]
      exact List.mem_cons_self
    exact (h.first hold).replied hstranded (h.registered.mp hmem)
  joined := by
    intro channel q l hget p hp
    have hold : s.handlers.get channel = some (q :: l) := hget
    obtain ⟨hsettled, hsub⟩ := h.joined hold p hp
    exact ⟨progress_replied_of hsettled nofun, hsub⟩
  due := by
    intro m hm q hq
    rw [op_congr map_call_replied]
    exact h.due m (hincoming ▸ List.mem_cons_of_mem _ hm) q hq
  delivered := h.delivered
  dispatched := by
    intro d hd q hq
    rw [op_congr map_call_replied, unsubscribedAfter_congr map_call_replied]
    exact h.dispatched d hd q hq

/-! ## Messages -/

/-- A first handler stays where it is as long as neither calls nor commands change. -/
theorem First.congr (h : s.First channel i) (hcalls : s'.calls = s.calls)
    (hcommands : s'.commands = s.commands) (hsubscribed : s'.subscribed = s.subscribed) :
    s'.First channel i := by
  have hprogress : s'.progress i = s.progress i := by rw [progress, progress, hcalls]
  have hawaits : ∀ {k}, s'.Awaits channel k → s.Awaits channel k := by
    intro k hk
    rwa [Awaits, op, hcalls, hcommands] at hk
  cases h with
  | sent h hlast => exact .sent (hprogress.trans h) fun k hk => hlast k (hawaits hk)
  | accepted h hsub hquiet =>
    exact .accepted (hprogress ▸ h) (hsubscribed ▸ hsub) fun k hk => hquiet k (hawaits hk)
  | refused e h hquiet => exact .refused e (hprogress.trans h) fun k hk => hquiet k (hawaits hk)

/-- A message keeps the invariant. -/
theorem Inv.handed (h : s.Inv) {m : Message H} (hincoming : s.incoming = .message m :: replies) :
    (s.handed m replies).Inv :=
  { h with
    first := fun hget => (h.first hget).congr rfl rfl rfl
    due := fun m' hm' => h.due m' (hincoming ▸ List.mem_cons_of_mem _ hm')
    dispatched := by
      intro d hd q hq
      rcases List.mem_append.mp hd with hd | hd
      · exact h.dispatched d hd q hq
      · have hop := h.due m (hincoming ▸ List.mem_cons_self) q
        rw [List.mem_singleton] at hd
        rw [hd] at hq ⊢
        refine ⟨hop hq, ?_⟩
        by_cases hafter : s.UnsubscribedAfter q.call m.channel
        · exact Or.inr hafter
        · exact Or.inl (h.registered.mpr ⟨hop hq, hafter⟩) }

/-- A publish keeps the invariant. -/
theorem Inv.publish [DecidableEq H] (h : s.Inv) (channel payload : String) :
    (s.publish channel payload).Inv := by
  unfold PubSub.publish
  by_cases hsub : channel ∈ s.subscribed
  · rw [if_pos hsub]
    refine { h with first := fun hget => (h.first hget).congr rfl rfl rfl, due := ?_ }
    intro m hm q hq
    rcases List.mem_append.mp hm with hm | hm
    · exact h.due m hm q hq
    · cases List.mem_singleton.mp hm
      exact (mem_standing.mp hq).1.1
  · rw [if_neg hsub]
    refine { h with first := fun hget => (h.first hget).congr rfl rfl rfl, delivered := ?_ }
    intro m hm
    rcases List.mem_append.mp hm with hm | hm
    · exact h.delivered m hm
    · rw [List.mem_singleton.mp hm, List.eq_nil_iff_forall_not_mem]
      -- a subscription that stands keeps its channel subscribed to
      intro q hq
      exact hsub (h.sound.reached (mem_standing.mp hq)).1

/-! ## Runs -/

variable {a : PubSubAction H}

/-- Every orderly step keeps the invariant. -/
theorem Inv.step [DecidableEq H] (h : s.Inv) (hok : s.Orderly a) (hs : step s a = some s') :
    s'.Inv := by
  cases a with
  | call c =>
    cases hs
    cases c with
    | subscribe channel handler => exact h.subscribe hok
    | unsubscribe channel => exact h.unsubscribe
  | execute reply =>
    obtain ⟨i, rest, hcommands, rfl⟩ := execute_eq_some hs
    refine h.execute hcommands fun hreply => ?_
    cases reply with
    | error e => cases hreply
    | ok _ => exact hok i (by rw [hcommands]; rfl)
  | publish channel payload =>
    cases hs
    exact h.publish channel payload
  | receive =>
    rcases receive_eq_some hs with ⟨i, rest, hincoming, rfl⟩ | ⟨m, rest, hincoming, rfl⟩
    · refine h.replied hincoming ?_
      rw [Orderly, hincoming] at hok
      exact hok
    · exact h.handed hincoming

/-- An UNSUBSCRIBE that succeeds leaves the handlers that have joined since without messages. -/
theorem Inv.not_dropping_of_sound (h : s.Inv) {rest : List ℕ}
    (hcommands : s.commands = i :: rest) (hsound : (s.executed i rest (.ok ())).Sound) :
    ¬ s.Dropping i := by
  intro hdropping
  unfold Dropping at hdropping
  split at hdropping
  · rename_i channel hop
    cases hget : s.handlers.get channel with
    | none =>
      rw [list_of_get_none hget] at hdropping
      cases hdropping
    | some l =>
      rw [list_of_get hget] at hdropping
      -- the second handler of the list has joined it, so its call has resolved
      obtain ⟨q, p, l, rfl⟩ : ∃ q p l', l = q :: p :: l' := by
        cases l with
        | nil => cases hdropping
        | cons q l =>
          cases l with
          | nil => exact absurd hdropping (Nat.lt_irrefl 1)
          | cons p l => exact ⟨q, p, l, rfl⟩
      have hsettled := (h.joined hget p List.mem_cons_self).1
      have hreg : s.Registered p.call channel p.handler := by
        rw [← h.registered, list_of_get hget]
        exact List.mem_cons_of_mem q List.mem_cons_self
      have hpi : p.call ≠ i := by
        rintro rfl
        have hsent := h.sent p.call (hcommands ▸ List.mem_cons_self)
        rw [hsettled] at hsent
        cases hsent
      have hsub := (hsound.reached ⟨(registered_congr map_call_executed).mpr hreg,
        (progress_executed_ne hpi).trans hsettled⟩).1
      have hsubscribed : (s.executed i rest (.ok ())).subscribed =
          effect s.subscribed (s.op i) := rfl
      rw [hsubscribed, hop] at hsub
      exact (Finset.mem_erase.mp hsub).1 rfl
  · exact hdropping

/-- A step that leads to a sound state was orderly. -/
theorem Inv.orderly_of_sound [DecidableEq H] (h : s.Inv) (hs : PubSub.step s a = some s')
    (hsound : s'.Sound) : s.Orderly a := by
  cases a with
  | call c =>
    cases hs
    cases c with
    | unsubscribe channel => trivial
    | subscribe channel handler =>
      intro hsome
      rcases RedisPubSubService.subscribe_cases s.handlers channel ⟨s.calls.length, handler⟩
        with ⟨l, hold, hnew, hsends⟩ | ⟨hold, -, -⟩
      · -- the call joins the list and has resolved
        have hreg : (s.call (.subscribe channel handler)).Registered s.calls.length channel
            handler := registered_issue.mpr (Or.inr ⟨rfl, rfl⟩)
        refine (hsound.reached ⟨hreg, ?_⟩).1
        rw [PubSub.call, progress_issue_self, hsends]
        rfl
      · rw [hold] at hsome
        cases hsome
  | execute reply =>
    obtain ⟨i, rest, hcommands, rfl⟩ := execute_eq_some hs
    cases reply with
    | error e => trivial
    | ok _ =>
      intro j hj
      rw [hcommands] at hj
      cases hj
      exact h.not_dropping_of_sound hcommands hsound
  | publish channel payload => trivial
  | receive =>
    rw [Orderly]
    rcases receive_eq_some hs with ⟨i, rest, hincoming, rfl⟩ | ⟨m, rest, hincoming, rfl⟩
    · rw [hincoming]
      intro hstranded
      obtain ⟨channel, handler, e, hreg, hrefused⟩ := stranded_iff.mp hstranded
      exact hsound.rejected ((op_congr map_call_replied).trans hreg.1)
        (progress_replied_self hrefused) (h.registered.mpr hreg)
    · rw [hincoming]
      trivial

/-- As long as every step is orderly registration stays sound, and the first step that is not
breaks it. -/
theorem registration_sound [DecidableEq H] (h : Transition.Reaches PubSub.step Orderly init s) :
    s.Sound ∧ ∀ a s', PubSub.step s a = some s' → (s'.Sound ↔ s.Orderly a) := by
  have hinv : s.Inv := h.invariant Inv.init fun u a v hu hok hv => hu.step hok hv
  refine ⟨hinv.sound, fun a s' hs => ⟨hinv.orderly_of_sound hs, fun hok => ?_⟩⟩
  exact (hinv.step hok hs).sound

end Invariant

/-! ## Two subscribers of one channel -/

/-- A SUBSCRIBE is accepted, a second handler joins, and a message comes in. -/
def joining : List (PubSubAction String) :=
  [.call (.subscribe "events" "first"), .execute (.ok ()), .receive,
    .call (.subscribe "events" "second"), .publish "events" "{}", .receive]

/-- A second handler joins a channel that the connection is on. -/
theorem registration_sound_joined : ∃ s : PubSub String,
    Transition.Reaches step Orderly init s ∧
      (s.Sound ∧ ∀ a s', step s a = some s' → (s'.Sound ↔ s.Orderly a)) ∧
      s.dispatched.map Prod.snd = [[⟨0, "first"⟩, ⟨1, "second"⟩]] := by
  have hrun : (Transition.run step Orderly init joining).map (fun s =>
      decide (s.dispatched.map Prod.snd = [[⟨0, "first"⟩, ⟨1, "second"⟩]])) = some true := by
    decide
  obtain ⟨s, hreaches, hp⟩ := Transition.exists_reaches_of_run hrun
  exact ⟨s, hreaches, registration_sound hreaches, of_decide_eq_true hp⟩

/-- Redis refuses the SUBSCRIBE of the first handler before a second one subscribes. -/
def refusing : List (PubSubAction String) :=
  [.call (.subscribe "events" "first"), .execute (.error (.error "NOPERM")), .receive,
    .call (.subscribe "events" "second")]

/-- The first call rejects and leaves its handler behind; the second one then resolves without
a command. -/
theorem registration_unsound : ¬ ∀ s : PubSub String,
    Transition.Reaches step (fun _ _ => True) init s → s.Sound := by
  have hrun : (Transition.run step (fun _ _ => True) init refusing).map (fun s =>
      decide (s.op 1 = some (.subscribe "events" "second") ∧ ¬ s.UnsubscribedAfter 1 "events" ∧
        s.progress 1 = some (.settled (.ok ())) ∧ "events" ∉ s.subscribed)) = some true := by
    decide
  obtain ⟨s, hreaches, hp⟩ := Transition.exists_reaches_of_run hrun
  obtain ⟨hop, hafter, hsettled, hsub⟩ := of_decide_eq_true hp
  intro hsound
  exact hsub ((hsound s hreaches).reached ⟨⟨hop, hafter⟩, hsettled⟩).1

end PubSub

end NestFastify.Redis
