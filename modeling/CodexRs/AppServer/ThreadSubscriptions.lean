import Mathlib.Data.Finset.Basic

/-!
# Subscriptions of connections to threads

The state of a thread beside its subscribers is left out, and the listener with it.
-/
namespace CodexRs.AppServer
open Function

variable {ι γ : Type*} [DecidableEq ι] [DecidableEq γ]

structure ThreadEntry (γ : Type*) where
  connectionIds : Finset γ
  hasConnections : Bool

namespace ThreadEntry

@[simp] def default : ThreadEntry γ := ⟨∅, false⟩

variable (entry : ThreadEntry γ)

@[simp] def updateHasConnections : ThreadEntry γ :=
  { entry with hasConnections := entry.connectionIds ≠ ∅ }

@[simp] def insert (entry : ThreadEntry γ) (id : γ) : ThreadEntry γ :=
  { entry with connectionIds := Insert.insert id entry.connectionIds }.updateHasConnections

@[simp] def remove (id : γ) : ThreadEntry γ :=
  { entry with connectionIds := entry.connectionIds.erase id }.updateHasConnections

end ThreadEntry

variable (threadIds : Finset ι)

/-- What stays of the set of a connection: a set that is empty is dropped. -/
def retained : Option (Finset ι) :=
  if threadIds = ∅ then none else some threadIds

@[simp] theorem getD_retained : (retained threadIds).getD ∅ = threadIds := by
  grind [retained]

@[simp] theorem retained_eq_some {threadIds kept : Finset ι} :
    retained threadIds = some kept ↔ threadIds = kept ∧ kept ≠ ∅ := by
  grind [retained]

structure ThreadStateManager (ι γ : Type*) where
  liveConnections : Finset γ
  threads : ι → Option (ThreadEntry γ)
  threadIdsByConnection : γ → Option (Finset ι)

namespace ThreadStateManager

def new : ThreadStateManager ι γ := ⟨∅, fun _ => none, fun _ => none⟩

variable (m : ThreadStateManager ι γ) (threadId : ι) (connectionId : γ)

def connectionInitialized : ThreadStateManager ι γ :=
  { m with liveConnections := insert connectionId m.liveConnections }

def threadState : ThreadStateManager ι γ :=
  { m with threads := update m.threads threadId (some ((m.threads threadId).getD .default)) }

def removeThreadState : ThreadStateManager ι γ :=
  { m with
    threads := update m.threads threadId none
    threadIdsByConnection := fun c =>
      (m.threadIdsByConnection c).bind fun threadIds => retained (threadIds.erase threadId) }

def unsubscribeConnectionFromThread : ThreadStateManager ι γ × Bool :=
  match m.threads threadId, m.threadIdsByConnection connectionId with
  | some entry, some threadIds =>
    if threadId ∈ threadIds then
      ({ m with
        threadIdsByConnection := update m.threadIdsByConnection connectionId
          (retained (threadIds.erase threadId))
        threads := update m.threads threadId (some (entry.remove connectionId)) }, true)
    else (m, false)
  | _, _ => (m, false)

def tryAddConnectionToThread : ThreadStateManager ι γ × Bool :=
  if connectionId ∈ m.liveConnections then
    ({ m with
      threadIdsByConnection := update m.threadIdsByConnection connectionId
        (some (insert threadId ((m.threadIdsByConnection connectionId).getD ∅)))
      threads := update m.threads threadId
        (some (((m.threads threadId).getD .default).insert connectionId)) }, true)
  else (m, false)

/-- The same, with the state of the thread for the caller. -/
def tryEnsureConnectionSubscribed : ThreadStateManager ι γ × Bool :=
  m.tryAddConnectionToThread threadId connectionId

def removeConnection : ThreadStateManager ι γ × Finset ι :=
  let threadIds := (m.threadIdsByConnection connectionId).getD ∅
  let threads := fun t =>
    if t ∈ threadIds then (m.threads t).map (·.remove connectionId) else m.threads t
  (⟨m.liveConnections.erase connectionId, threads,
      update m.threadIdsByConnection connectionId none⟩,
    threadIds.filter fun t => (threads t).any (·.connectionIds = ∅))

end ThreadStateManager

inductive SubscriptionCall (ι γ : Type*)
  | connectionInitialized (connectionId : γ)
  | tryEnsureConnectionSubscribed (threadId : ι) (connectionId : γ)
  | tryAddConnectionToThread (threadId : ι) (connectionId : γ)
  | unsubscribeConnectionFromThread (threadId : ι) (connectionId : γ)
  | threadState (threadId : ι)
  | removeThreadState (threadId : ι)
  | removeConnection (connectionId : γ)

namespace ThreadStateManager

def call (m : ThreadStateManager ι γ) : SubscriptionCall ι γ → ThreadStateManager ι γ
  | .connectionInitialized c => m.connectionInitialized c
  | .tryEnsureConnectionSubscribed t c => (m.tryEnsureConnectionSubscribed t c).1
  | .tryAddConnectionToThread t c => (m.tryAddConnectionToThread t c).1
  | .unsubscribeConnectionFromThread t c => (m.unsubscribeConnectionFromThread t c).1
  | .threadState t => m.threadState t
  | .removeThreadState t => m.removeThreadState t
  | .removeConnection c => (m.removeConnection c).1

variable (m : ThreadStateManager ι γ)

@[simp] def subscribedConnectionIds (t : ι) : Finset γ := (m.threads t).elim ∅ (·.connectionIds)

@[simp] def subscribedThreadIds (c : γ) : Finset ι := (m.threadIdsByConnection c).getD ∅

@[mk_iff]
structure Consistent (t : ι) (c : γ) : Prop where
  twoWay : c ∈ m.subscribedConnectionIds t ↔ t ∈ m.subscribedThreadIds c
  live : c ∈ m.subscribedConnectionIds t → c ∈ m.liveConnections
  nonempty : m.threadIdsByConnection c ≠ some ∅
  watched : ∀ entry ∈ m.threads t, entry.hasConnections = (entry.connectionIds ≠ ∅ : Bool)

variable {m : ThreadStateManager ι γ} {t : ι} {c : γ}

variable (h : m.Consistent t c)
include h

variable (t' : ι)

theorem consistent_threadState : (m.threadState t').Consistent t c := by
  unfold threadState
  rcases ne_or_eq t t' with ht | rfl
  · simpa [consistent_iff, ht] using h
  · cases hentry : m.threads t <;> simpa [consistent_iff, hentry] using h

theorem consistent_removeThreadState : (m.removeThreadState t').Consistent t c := by
  unfold removeThreadState
  have hkept := And.intro h.twoWay (And.intro h.live h.watched)
  rcases ne_or_eq t t' with ht | rfl
  · cases hids : m.threadIdsByConnection c <;> simpa [consistent_iff, hids, ht] using hkept
  · cases hids : m.threadIdsByConnection c <;> simp [consistent_iff, hids]

theorem consistent_subscribe (c' : γ) : (m.tryAddConnectionToThread t' c').1.Consistent t c := by
  unfold tryAddConnectionToThread
  split_ifs with hlive
  · rcases ne_or_eq t t' with ht | rfl
    · rcases ne_or_eq c c' with hc | rfl
      · simpa [consistent_iff, ht, hc] using h
      · have hkept := And.intro h.twoWay (And.intro h.live h.watched)
        simpa [consistent_iff, ht] using hkept
    · rcases ne_or_eq c c' with hc | rfl
      · have hkept := And.intro h.twoWay (And.intro h.live h.nonempty)
        cases hentry : m.threads t <;> simpa [consistent_iff, hc, hentry] using hkept
      · simpa [consistent_iff]
  · exact h

theorem consistent_unsubscribe (c' : γ) :
    (m.unsubscribeConnectionFromThread t' c').1.Consistent t c := by
  unfold unsubscribeConnectionFromThread
  split
  next entry threadIds hentry hids =>
    split
    · rcases ne_or_eq t t' with ht | rfl
      · rcases ne_or_eq c c' with hc | rfl
        · simpa [consistent_iff, ht, hc] using h
        · have hkept := And.intro h.twoWay (And.intro h.live h.watched)
          simpa [consistent_iff, ht, hids] using hkept
      · rcases ne_or_eq c c' with hc | rfl
        · have hkept := And.intro h.twoWay (And.intro h.live h.nonempty)
          simpa [consistent_iff, hc, hentry] using hkept
        · simp [consistent_iff]
    · exact h
  next => exact h

theorem consistent_removeConnection (c' : γ) : (m.removeConnection c').1.Consistent t c := by
  unfold removeConnection
  by_cases ht : t ∈ (m.threadIdsByConnection c').getD ∅
  · rcases ne_or_eq c c' with hc | rfl
    · have hkept := And.intro h.twoWay (And.intro h.live h.nonempty)
      cases hentry : m.threads t <;> simpa [consistent_iff, ht, hc, hentry] using hkept
    · cases hentry : m.threads t <;> simp [consistent_iff, ht, hentry]
  · rcases ne_or_eq c c' with hc | rfl
    · simpa [consistent_iff, ht, hc] using h
    · have hnot := mt h.twoWay.mp ht
      simp only [subscribedConnectionIds] at hnot
      simpa [consistent_iff, ht, hnot] using h.watched

theorem mem_removeConnection :
    t ∈ (m.removeConnection c).2 ↔ m.subscribedConnectionIds t = {c} := by
  have htwo := h.twoWay
  cases hentry : m.threads t <;> simp_all [removeConnection, Finset.erase_eq_empty_iff]
  rw [← htwo]
  constructor
  · rintro ⟨hc, hempty | hsingle⟩
    · simp [hempty] at hc
    · exact hsingle
  · intro hsingle
    simp [hsingle]

theorem consistent_call (call : SubscriptionCall ι γ) : (m.call call).Consistent t c := by
  cases call with
  | connectionInitialized =>
    exact ⟨h.twoWay, fun hc => Finset.mem_insert_of_mem (h.live hc), h.nonempty, h.watched⟩
  | tryEnsureConnectionSubscribed => exact consistent_subscribe h ..
  | tryAddConnectionToThread => exact consistent_subscribe h ..
  | unsubscribeConnectionFromThread => exact consistent_unsubscribe h ..
  | threadState => exact consistent_threadState h _
  | removeThreadState => exact consistent_removeThreadState h _
  | removeConnection => exact consistent_removeConnection h _

end ThreadStateManager
open ThreadStateManager

/-- The two indexes and the watch agree after every sequence of calls, and the removal of a
connection returns the threads with no other subscriber. -/
theorem subscriptions_consistent (calls : List (SubscriptionCall ι γ)) (t : ι) (c : γ) :
    let m := calls.foldl call .new
    m.Consistent t c ∧ (t ∈ (m.removeConnection c).2 ↔ m.subscribedConnectionIds t = {c}) := by
  have hnew : (new : ThreadStateManager ι γ).Consistent t c :=
    ⟨by simp [new], nofun, nofun, nofun⟩
  have h := calls.foldlRecOn (motive := fun m => Consistent m t c) _ hnew
    fun _ h call _ => consistent_call h call
  exact ⟨h, mem_removeConnection h⟩

end CodexRs.AppServer
