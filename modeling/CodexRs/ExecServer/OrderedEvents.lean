import CodexRs.ExecServer.Client

/-!
# Remote events are delivered once and in order

The log of a session has been given the events from number one up to the first that has not
arrived.
-/
namespace CodexRs.ExecServer
open Reorder List Sessions

/-- A closing has arrived together with all that is numbered before it. -/
def closedReached (notifications : List ExecNotification) : Bool :=
  notifications.any fun n =>
    n.isClosed && 1 ≤ n.seq &&
      (List.range' 1 n.seq).all fun k => notifications.any fun n' => n'.seq = k

/-- The notifications up to the one that completes the row of the closing. -/
def routed (notifications : List ExecNotification) : List ExecNotification :=
  notifications.foldl (fun kept n => if closedReached kept then kept else kept ++ [n]) []

/-- The log has the row of the events that arrived, and the closing in it has ended the route. -/
def DeliversInOrder (arrived : List ExecNotification) (log : List ExecProcessEvent)
    (route : Option SessionRef) : Prop :=
  ∃ m, IsGreatest {m | ∀ k, 1 ≤ k → k ≤ m → ∃ n ∈ arrived, n.seq = k} m ∧
    log.map ExecProcessEvent.seq = (List.range' 1 m).map some ∧
    (∀ event ∈ log, ∃ n ∈ arrived, n.event = event) ∧
    (route = none ↔ ∃ event ∈ log, event.isClosed = true)

def Sessions.deliver (sessions : Sessions) (processId : ProcessId)
    (notifications : List ExecNotification) : Sessions :=
  notifications.foldl (·.handleServerNotification processId) sessions

/-- Notifications with one number are one notification. -/
def Consistent (notifications : List ExecNotification) : Prop :=
  ∀ n ∈ notifications, ∀ n' ∈ notifications, n.seq = n'.seq → n = n'

instance (notifications : List ExecNotification) : Decidable (Consistent notifications) :=
  List.decidableBAll _ notifications

def arrivals (notifications : List ExecNotification) : List (ℕ × ExecProcessEvent) :=
  notifications.map fun n => (n.seq, n.event)

variable {notifications : List ExecNotification} {event : ExecProcessEvent}

theorem mem_arrivals {k : ℕ} : (k, event) ∈ arrivals notifications ↔
      ∃ n ∈ notifications, n.seq = k ∧ n.event = event := by
  simp [arrivals]

theorem complete_arrivals {m : ℕ} : Complete (arrivals notifications) m ↔
      ∀ k, 1 ≤ k → k ≤ m → ∃ n ∈ notifications, n.seq = k := by
  unfold Complete
  simp only [mem_arrivals]
  apply forall₃_congr
  intro k _ _
  constructor
  · rintro ⟨event, n, hn, hk, -⟩
    exact ⟨n, hn, hk⟩
  · rintro ⟨n, hn, hk⟩
    exact ⟨n.event, n, hn, hk, rfl⟩

theorem closedReached_iff :
    closedReached notifications = true ↔ ∃ n ∈ notifications, n.isClosed = true ∧ 1 ≤ n.seq ∧
        Complete (arrivals notifications) n.seq := by
  simp only [closedReached, any_eq_true, Bool.and_eq_true, decide_eq_true_eq,
    all_eq_true, mem_range'_1, complete_arrivals]
  apply exists_congr
  intro n
  constructor
  · rintro ⟨hn, ⟨hclosed, hpos⟩, hall⟩
    exact ⟨hn, hclosed, hpos, fun k hk hle => hall k ⟨hk, by omega⟩⟩
  · rintro ⟨hn, hclosed, hpos, hall⟩
    exact ⟨hn, ⟨hclosed, hpos⟩, fun k hk => hall k hk.1 (by omega)⟩

theorem routed_concat (notifications : List ExecNotification) (n : ExecNotification) :
    routed (notifications ++ [n]) =
      if closedReached (routed notifications) then routed notifications
      else routed notifications ++ [n] := by
  rw [routed, foldl_append]
  rfl

theorem routed_subset (notifications : List ExecNotification) :
    ∀ n ∈ routed notifications, n ∈ notifications := by
  induction notifications using reverseRecOn with
  | nil => simp [routed]
  | append_singleton notifications last ih =>
    intro n hn
    rw [routed_concat] at hn
    split_ifs at hn
    · exact mem_append_left _ (ih n hn)
    · rcases mem_append.mp hn with hn | hn
      · exact mem_append_left _ (ih n hn)
      · exact mem_append_right _ hn

section
variable {kept : List ExecNotification} {log : List ExecProcessEvent}
  {ordered : OrderedSessionEvents}

variable (h : Holds (arrivals kept) log ordered)
include h

theorem seq_log : log.map ExecProcessEvent.seq = (range' 1 log.length).map some := by
  apply ext_getElem
  · simp
  · intro i hi _
    have hlog : i < log.length := by simpa using hi
    obtain ⟨n, -, hseq, hevent⟩ := mem_arrivals.mp (h.getElem hlog)
    rw [getElem_map, getElem_map, getElem_range', ← hevent, n.event_seq]
    congr 1
    omega

theorem mem_log (hevent : event ∈ log) :
    ∃ n ∈ kept, n.event = event ∧ 1 ≤ n.seq ∧ n.seq ≤ log.length := by
  obtain ⟨i, hi, rfl⟩ := mem_iff_getElem.mp hevent
  obtain ⟨n, hn, hseq, hevent⟩ := mem_arrivals.mp (h.getElem hi)
  exact ⟨n, hn, hevent, by omega, by omega⟩

/-- The closing is in the log as soon as it has arrived with all that is before it. -/
theorem any_isClosed_iff (hsettled : Settled ordered)
    (hkept : Consistent kept) : log.any (·.isClosed) = true ↔ closedReached kept = true := by
  have hgreatest := h.isGreatest hsettled
  rw [closedReached_iff, any_eq_true]
  constructor
  · rintro ⟨event, hevent, hclosed⟩
    obtain ⟨n, hn, rfl, hpos, hle⟩ := mem_log h hevent
    refine ⟨n, hn, by rwa [← n.event_isClosed], hpos, ?_⟩
    intro k hk hkn
    exact hgreatest.1 k hk (hkn.trans hle)
  · rintro ⟨n, hn, hclosed, hpos, hcomplete⟩
    have hle : n.seq ≤ log.length := hgreatest.2 hcomplete
    have hlt : n.seq - 1 < log.length := by omega
    obtain ⟨n', hn', hseq, hevent⟩ := mem_arrivals.mp (h.getElem hlt)
    -- The event that was released under this number is the closing itself.
    obtain rfl := hkept n' hn' n hn (by omega)
    refine ⟨n'.event, ?_, by rw [n'.event_isClosed, hclosed]⟩
    rw [hevent]
    exact getElem_mem _

end

section
variable {sessions : Sessions} {processId : ProcessId} {session : SessionRef}

theorem publishOrderedEvent_eq (state : SessionState) (n : ExecNotification) :
    (state.noteChange n.seq).publishOrderedEvent n.event =
      let r := state.orderedEvents.accept n.seq n.event
      ({ state with
          wake := max state.wake n.seq
          events := r.1.foldl ExecProcessEventLog.publish state.events
          orderedEvents := r.2 }, r.1.any (·.isClosed)) := by
  rw [SessionState.publishOrderedEvent, n.event_seq]
  rfl

theorem handleServerNotification_of_route (hroute : sessions.getSession processId = some session)
    (n : ExecNotification) :
    let r := (sessions.state session).orderedEvents.accept n.seq n.event
    let after := sessions.handleServerNotification processId n
    (after.state session).events.live = (sessions.state session).events.live ++ r.1 ∧
      (after.state session).orderedEvents = r.2 ∧
      after.getSession processId = if r.1.any (·.isClosed) then none else some session := by
  rw [handleServerNotification, hroute]
  dsimp only
  rw [publishOrderedEvent_eq]
  rw [getSession] at hroute
  split_ifs <;>
    simp [update, removeSession, getSession, hroute, ExecProcessEventLog.foldl_publish_live]

theorem handleServerNotification_of_none (hroute : sessions.getSession processId = none)
    (n : ExecNotification) : sessions.handleServerNotification processId n = sessions := by
  rw [handleServerNotification, hroute]

/-- The session of a process behind the notifications that found its route. -/
structure Delivered (kept : List ExecNotification) (processId : ProcessId) (session : SessionRef)
    (sessions : Sessions) : Prop where
  holds : Holds (arrivals kept) (sessions.state session).events.live
    (sessions.state session).orderedEvents
  settled : Settled (sessions.state session).orderedEvents
  route : sessions.getSession processId = if closedReached kept then none else some session

theorem Delivered.concat {kept : List ExecNotification}
    (h : Delivered kept processId session sessions) {n : ExecNotification}
    (hopen : closedReached kept = false) (hsame : Consistent (kept ++ [n])) :
    Delivered (kept ++ [n]) processId session (sessions.handleServerNotification processId n) := by
  have hkept : Consistent kept := fun a ha b hb =>
    hsame a (mem_append_left _ ha) b (mem_append_left _ hb)
  have hroute := h.route
  rw [hopen] at hroute
  obtain ⟨hlive, hordered, hafter⟩ := handleServerNotification_of_route hroute n
  have haccept := h.holds.accept h.settled n.seq n.event
  have harrivals : arrivals kept ++ [(n.seq, n.event)] = arrivals (kept ++ [n]) := by
    simp [arrivals]
  rw [harrivals] at haccept
  have hlog : (sessions.state session).events.live.any (·.isClosed) = false := by
    rw [← Bool.not_eq_true, any_isClosed_iff h.holds h.settled hkept, hopen]
    exact Bool.false_ne_true
  refine ⟨?_, ?_, ?_⟩
  · rw [hlive, hordered]
    exact haccept.1
  · rw [hordered]
    exact haccept.2
  · have hclosed := any_isClosed_iff haccept.1 haccept.2 hsame
    rw [any_append, hlog, Bool.false_or] at hclosed
    simp only [hafter, hclosed]

theorem delivered_deliver {notifications : List ExecNotification}
    (hroute : sessions.getSession processId = some session)
    (hnew : sessions.state session = .new) (hsame : Consistent notifications) :
    Delivered (routed notifications) processId session
      (sessions.deliver processId notifications) := by
  induction notifications using reverseRecOn with
  | nil =>
    refine ⟨?_, ?_, ?_⟩
    · rw [deliver, foldl_nil, hnew]
      exact Holds.empty
    · rw [deliver, foldl_nil, hnew]
      exact settled_empty
    · exact hroute
  | append_singleton notifications n ih =>
    have hbefore := ih fun a ha b hb =>
      hsame a (mem_append_left _ ha) b (mem_append_left _ hb)
    have hdeliver : sessions.deliver processId (notifications ++ [n]) =
        (sessions.deliver processId notifications).handleServerNotification processId n := by
      rw [deliver, foldl_append]
      rfl
    rw [routed_concat, hdeliver]
    by_cases hclosed : closedReached (routed notifications) = true
    · have hgone := hbefore.route
      rw [if_pos hclosed] at hgone
      rw [if_pos hclosed, handleServerNotification_of_none hgone]
      exact hbefore
    · rw [if_neg hclosed]
      refine hbefore.concat (Bool.not_eq_true _ ▸ hclosed) ?_
      have hmem : ∀ a ∈ routed notifications ++ [n], a ∈ notifications ++ [n] := by
        intro a ha
        rcases mem_append.mp ha with ha | ha
        · exact mem_append_left _ (routed_subset notifications a ha)
        · exact mem_append_right _ ha
      exact fun a ha b hb => hsame a (hmem a ha) b (hmem b hb)

end

/-- Events are delivered once and in order until the closing is delivered; what arrives later
finds no route. -/
theorem remote_events_in_order (sessions : Sessions) (processId : ProcessId)
    (session : SessionRef) (hroute : sessions.getSession processId = some session)
    (hnew : sessions.state session = .new) (notifications : List ExecNotification)
    (hsame : Consistent notifications) :
    let after := sessions.deliver processId notifications
    DeliversInOrder (routed notifications) (after.state session).events.live
      (after.getSession processId) := by
  intro after
  have h := delivered_deliver hroute hnew hsame
  have hkept : Consistent (routed notifications) := fun a ha b hb =>
    hsame a (routed_subset notifications a ha) b (routed_subset notifications b hb)
  have hclosed := any_isClosed_iff h.holds h.settled hkept
  refine ⟨(after.state session).events.live.length, ?_, seq_log h.holds, ?_, ?_⟩
  · simpa only [complete_arrivals] using h.holds.isGreatest h.settled
  · intro event hevent
    obtain ⟨n, hn, hevent, -⟩ := mem_log h.holds hevent
    exact ⟨n, hn, hevent⟩
  · rw [h.route, ← any_eq_true, hclosed]
    split_ifs with hreached <;> simp [hreached]

/-- One process is registered, and nothing has arrived for it. -/
def oneRoute : Sessions where
  table := (∅ : AList fun _ : ProcessId => SessionRef).insert "p".toList 0
  state _ := .new

theorem remote_events_in_order_earlyClosing :
    let notifications := [.closed 2, .outputDelta 1 .stdout [104], .outputDelta 1 .stdout [104]]
    let after := oneRoute.deliver "p".toList notifications
    Consistent notifications ∧ DeliversInOrder (routed notifications) (after.state 0).events.live
        (after.getSession "p".toList) :=
  ⟨by decide, remote_events_in_order oneRoute "p".toList 0 (by decide) rfl _ (by decide)⟩

/-- What is numbered behind the closing is dropped if it arrives after the route has ended. -/
theorem remote_events_behind_closing :
    let notifications := [.closed 1, .outputDelta 2 .stdout [104]]
    let after := oneRoute.deliver "p".toList notifications
    Consistent notifications ∧ ¬ DeliversInOrder notifications (after.state 0).events.live
        (after.getSession "p".toList) := by
  refine ⟨by decide, ?_⟩
  rintro ⟨m, hgreatest, hseq, -⟩
  have hlive : ((oneRoute.deliver "p".toList
      [.closed 1, .outputDelta 2 .stdout [104]]).state 0).events.live = [.closed 1] := by
    decide
  rw [hlive] at hseq
  have hm : m = 1 := by simpa using (congrArg length hseq).symm
  have htwo : 2 ≤ m := by
    apply hgreatest.2
    intro k hk hle
    interval_cases k <;> simp [ExecNotification.seq]
  omega

end CodexRs.ExecServer
