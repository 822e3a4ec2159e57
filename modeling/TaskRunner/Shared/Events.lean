import TaskRunner.Base.Buffers
import TaskRunner.Base.Dict
import TaskRunner.Base.Machine

/-!
`EventBus` of `shared/events.py`: publishers, and the generators of `subscribe`. A critical section is one step and
the release of the lock another, so that other coroutines may be seen waiting for it; the puts of `publish` belong to
its release. A step that cannot happen in a state leaves it as it is.
-/

namespace TaskRunner
open Base

variable {ε : Type}

/-- A generator of `subscribe` past its critical section, with the rest of the history it copied. -/
structure Subscription (ε : Type) where
  queue : List ε := []
  history : List ε
  /-- It was closed and is on its way through `finally`. -/
  closed : Bool := false

/-- What a coroutine that holds `_lock` does once it releases it. -/
inductive Lock (ε : Type) where
  | free
  | held
  | publishing (event : ε) (subscribers : List ℕ)
  deriving DecidableEq

structure EventBus (ε : Type) where
  replaySize : ℕ := 1000
  replay : List ε := []
  subscribers : Finset ℕ := ∅
  subscriptions : Dict ℕ (Subscription ε) := Dict.empty
  lock : Lock ε := .free

/-- `publish` names the order in which `list` reads the set of subscribers. -/
inductive BusStep (ε : Type) where
  | publish (event : ε) (subscribers : List ℕ)
  | putAll
  | subscribe (id : ℕ) (replay : Bool)
  | release
  | consume (id : ℕ)
  | close (id : ℕ)
  | discard (id : ℕ)
  deriving DecidableEq

/-- The `maxsize` of a subscriber's queue. -/
def subscriberQueueSize : ℕ := 1000

namespace Subscription

/-- What the generator yields next: the copied history first, then the queue. -/
def next (subscription : Subscription ε) : Option (ε × Subscription ε) :=
  if subscription.closed then none
  else
    match subscription.history, subscription.queue with
    | event :: history, _ => some (event, { subscription with history })
    | [], event :: queue => some (event, { subscription with queue })
    | [], [] => none

/-- `put_nowait` with `QueueFull` suppressed. -/
def put (subscription : Subscription ε) (event : ε) : Subscription ε :=
  { subscription with
    queue := (putNowait subscriberQueueSize subscription.queue event).getD subscription.queue }

end Subscription

namespace EventBus

def init (replaySize : ℕ) : EventBus ε := { replaySize }

/-- The loop of `publish` after its critical section. -/
def putAll (bus : EventBus ε) (event : ε) : List ℕ → EventBus ε
  | [] => bus
  | id :: rest =>
    match bus.subscriptions.get? id with
    | none => putAll bus event rest
    | some subscription =>
      putAll { bus with subscriptions := bus.subscriptions.set id (subscription.put event) } event rest

def step (bus : EventBus ε) : BusStep ε → EventBus ε
  | .publish event subscribers =>
    match bus.lock with
    | .free =>
      if subscribers.Nodup ∧ subscribers.toFinset = bus.subscribers then
        { bus with
          replay := dequeAppend bus.replaySize bus.replay event
          lock := .publishing event subscribers }
      else bus
    | _ => bus
  | .putAll =>
    match bus.lock with
    | .publishing event subscribers => { bus with lock := .free }.putAll event subscribers
    | _ => bus
  | .subscribe id replay =>
    match bus.lock with
    | .free =>
      if id ∈ bus.subscriptions then bus
      else
        { bus with
          subscribers := insert id bus.subscribers
          subscriptions := bus.subscriptions.set id { history := if replay then bus.replay else [] }
          lock := .held }
    | _ => bus
  | .release =>
    match bus.lock with
    | .held => { bus with lock := .free }
    | _ => bus
  | .consume id =>
    match (bus.subscriptions.get? id).bind Subscription.next with
    | some (_, subscription) => { bus with subscriptions := bus.subscriptions.set id subscription }
    | none => bus
  | .close id =>
    match bus.subscriptions.get? id with
    | some subscription =>
      { bus with subscriptions := bus.subscriptions.set id { subscription with closed := true } }
    | none => bus
  | .discard id =>
    match bus.lock, bus.subscriptions.get? id with
    | .free, some { closed := true, .. } =>
      { bus with subscribers := bus.subscribers.erase id, lock := .held }
    | _, _ => bus

/-- The event whose publication the step is, at the moment it enters the replay buffer. -/
def publishes (bus : EventBus ε) : BusStep ε → List ε
  | .publish event subscribers =>
    match bus.lock with
    | .free => if subscribers.Nodup ∧ subscribers.toFinset = bus.subscribers then [event] else []
    | _ => []
  | _ => []

/-- The event that a subscriber receives in the step. -/
def yields (id : ℕ) (bus : EventBus ε) : BusStep ε → List ε
  | .consume consumer =>
    if consumer = id then (((bus.subscriptions.get? id).bind Subscription.next).map Prod.fst).toList else []
  | _ => []

/-- The event that a publisher is about to put into a subscriber's queue. -/
def inFlight (bus : EventBus ε) (id : ℕ) : List ε :=
  match bus.lock with
  | .publishing event subscribers => if id ∈ subscribers then [event] else []
  | _ => []

/-- What a subscriber has still to receive, in the order it will. -/
def pending (bus : EventBus ε) (id : ℕ) : List ε :=
  ((bus.subscriptions.get? id).map fun subscription => subscription.history ++ subscription.queue).getD [] ++
    bus.inFlight id

/-- A put into the queue of this subscriber finds room. -/
def HasRoom (id : ℕ) (bus : EventBus ε) : BusStep ε → Prop
  | .putAll => bus.inFlight id ≠ [] →
      ∀ subscription ∈ bus.subscriptions.get? id, subscription.queue.length < subscriberQueueSize
  | _ => True

/-! ### One subscriber -/

end EventBus

namespace Subscription

theorem next_some {subscription later : Subscription ε} {event : ε} (yielded : subscription.next = some (event, later)) :
    later.closed = subscription.closed ∧
      subscription.history ++ subscription.queue = event :: (later.history ++ later.queue) := by
  obtain ⟨queue, history, closed⟩ := subscription
  unfold next at yielded
  split at yielded
  · cases yielded
  · cases history with
    | cons event' history =>
      cases yielded
      exact ⟨rfl, rfl⟩
    | nil =>
      cases queue with
      | cons event' queue =>
        cases yielded
        exact ⟨rfl, rfl⟩
      | nil => cases yielded

theorem next_none {subscription : Subscription ε} (open_ : subscription.closed = false)
    (waits : subscription.next = none) : subscription.history ++ subscription.queue = [] := by
  obtain ⟨queue, history, closed⟩ := subscription
  subst open_
  unfold next at waits
  cases history with
  | cons event history => cases waits
  | nil =>
    cases queue with
    | cons event queue => cases waits
    | nil => rfl

theorem put_of_room {subscription : Subscription ε} (room : subscription.queue.length < subscriberQueueSize) (event : ε) :
    subscription.put event = { subscription with queue := subscription.queue ++ [event] } := by
  unfold put
  rw [putNowait_of_room room]
  rfl

end Subscription

namespace EventBus

@[simp] theorem putAll_subscribers (bus : EventBus ε) (event : ε) (listed : List ℕ) :
    (bus.putAll event listed).subscribers = bus.subscribers := by
  induction listed generalizing bus with
  | nil => rfl
  | cons id rest ih =>
    unfold putAll
    split <;> exact ih _

@[simp] theorem putAll_lock (bus : EventBus ε) (event : ε) (listed : List ℕ) :
    (bus.putAll event listed).lock = bus.lock := by
  induction listed generalizing bus with
  | nil => rfl
  | cons id rest ih =>
    unfold putAll
    split <;> exact ih _

@[simp] theorem putAll_replay (bus : EventBus ε) (event : ε) (listed : List ℕ) :
    (bus.putAll event listed).replay = bus.replay ∧ (bus.putAll event listed).replaySize = bus.replaySize := by
  induction listed generalizing bus with
  | nil => exact ⟨rfl, rfl⟩
  | cons id rest ih =>
    unfold putAll
    split <;> exact ih _

/-- A listing without repetitions puts the event once into the queue of everyone on it. -/
theorem putAll_get? (bus : EventBus ε) (event : ε) {listed : List ℕ} (nodup : listed.Nodup) (id : ℕ) :
    (bus.putAll event listed).subscriptions.get? id =
      (bus.subscriptions.get? id).map fun subscription =>
        if id ∈ listed then subscription.put event else subscription := by
  induction listed generalizing bus with
  | nil => simp [putAll]
  | cons first rest ih =>
    obtain ⟨absent, nodup⟩ := List.nodup_cons.mp nodup
    unfold putAll
    split
    · rename_i unknown
      rw [ih _ nodup]
      by_cases same : id = first
      · rw [same, unknown]
        rfl
      · simp [same]
    · rename_i subscription found
      rw [ih _ nodup, Dict.get?_set]
      by_cases same : id = first
      · subst same
        simp [found, absent]
      · simp [same]

/-- The subscriber has joined and not left, and a publication under way reaches it. -/
structure Live (id : ℕ) (bus : EventBus ε) : Prop where
  subscription : ∃ subscription, bus.subscriptions.get? id = some subscription ∧ subscription.closed = false
  registered : id ∈ bus.subscribers
  listed : ∀ event listed, bus.lock = .publishing event listed → listed.Nodup ∧ id ∈ listed

theorem pending_eq {bus : EventBus ε} {id : ℕ} {subscription : Subscription ε}
    (found : bus.subscriptions.get? id = some subscription) :
    bus.pending id = subscription.history ++ subscription.queue ++ bus.inFlight id := by
  rw [pending, found]
  rfl

theorem inFlight_of_quiet {bus : EventBus ε} (quiet : ∀ event listed, bus.lock ≠ .publishing event listed) (id : ℕ) :
    bus.inFlight id = [] := by
  unfold inFlight
  split
  · rename_i event listed held
    exact (quiet event listed held).elim
  · rfl

/-- A step that leaves the subscriber, its registration and what is on its way to it alone. -/
theorem Live.untouched {id : ℕ} {bus bus' : EventBus ε} (live : Live id bus)
    (subscription : bus'.subscriptions.get? id = bus.subscriptions.get? id) (registered : id ∈ bus'.subscribers)
    (lock : ∀ event listed, bus'.lock = .publishing event listed → bus.lock = .publishing event listed)
    (flying : bus'.inFlight id = bus.inFlight id) : Live id bus' ∧ bus.pending id = bus'.pending id := by
  refine ⟨⟨?_, registered, fun event listed held => live.listed event listed (lock event listed held)⟩, ?_⟩
  · rw [subscription]
    exact live.subscription
  · rw [pending, pending, subscription, flying]

section Step

variable {id : ℕ} {bus : EventBus ε} (live : Live id bus)
include live

theorem step_publish (event : ε) (listed : List ℕ) :
    Live id (bus.step (.publish event listed)) ∧
      bus.pending id ++ bus.publishes (.publish event listed) = (bus.step (.publish event listed)).pending id := by
  obtain ⟨subscription, found, _⟩ := live.subscription
  simp only [step, publishes]
  cases lock : bus.lock with
  | free =>
    dsimp only
    split
    · rename_i listing
      obtain ⟨nodup, everyone⟩ := listing
      have member : id ∈ listed := by
        rw [← List.mem_toFinset, everyone]
        exact live.registered
      refine ⟨⟨live.subscription, live.registered, fun _ _ held => ?_⟩, ?_⟩
      · cases held
        exact ⟨nodup, member⟩
      · have before : bus.inFlight id = [] := by simp [inFlight, lock]
        have flying : inFlight { bus with
            replay := dequeAppend bus.replaySize bus.replay event
            lock := .publishing event listed } id = [event] := by
          simp [inFlight, member]
        simp only [pending, before, flying, List.append_nil]
    · exact ⟨live, List.append_nil _⟩
  | held => exact ⟨live, List.append_nil _⟩
  | publishing => exact ⟨live, List.append_nil _⟩

/-- The event in flight arrives behind what waits already. -/
theorem step_putAll (room : bus.HasRoom id .putAll) :
    Live id (bus.step .putAll) ∧ bus.pending id = (bus.step .putAll).pending id := by
  obtain ⟨subscription, found, open_⟩ := live.subscription
  simp only [step]
  cases lock : bus.lock with
  | free => exact ⟨live, rfl⟩
  | held => exact ⟨live, rfl⟩
  | publishing event listed =>
    obtain ⟨nodup, member⟩ := live.listed event listed lock
    have flying : bus.inFlight id = [event] := by simp [inFlight, lock, member]
    have fits : subscription.queue.length < subscriberQueueSize := by
      refine room ?_ subscription found
      rw [flying]
      exact List.cons_ne_nil event []
    have arrived : (({ bus with lock := .free } : EventBus ε).putAll event listed).subscriptions.get? id =
        some { subscription with queue := subscription.queue ++ [event] } := by
      rw [putAll_get? _ event nodup id]
      show (bus.subscriptions.get? id).map _ = _
      rw [found, Option.map_some, if_pos member, Subscription.put_of_room fits]
    refine ⟨⟨⟨_, arrived, open_⟩, ?_, ?_⟩, ?_⟩
    · rw [putAll_subscribers]
      exact live.registered
    · intro event' listed' held
      rw [putAll_lock] at held
      cases held
    · rw [pending_eq found, pending_eq arrived, flying, inFlight_of_quiet]
      · simp
      · intro event' listed' held
        rw [putAll_lock] at held
        cases held

/-- What the subscriber receives is what waited longest. -/
theorem step_consume (consumer : ℕ) :
    Live id (bus.step (.consume consumer)) ∧
      bus.pending id = bus.yields id (.consume consumer) ++ (bus.step (.consume consumer)).pending id := by
  obtain ⟨subscription, found, open_⟩ := live.subscription
  simp only [step, yields]
  cases taken : (bus.subscriptions.get? consumer).bind Subscription.next with
  | none =>
    refine ⟨live, ?_⟩
    split
    · rename_i same
      subst same
      rw [taken]
      rfl
    · rfl
  | some pair =>
    obtain ⟨event, later⟩ := pair
    dsimp only
    split
    · rename_i same
      subst same
      rw [found] at taken
      obtain ⟨still, order⟩ := Subscription.next_some taken
      rw [found, taken]
      refine ⟨⟨⟨later, Dict.get?_set_self .., still.trans open_⟩, live.registered, live.listed⟩, ?_⟩
      have after := pending_eq (show
        ({ bus with subscriptions := bus.subscriptions.set consumer later } : EventBus ε).subscriptions.get? consumer =
          some later from Dict.get?_set_self ..)
      rw [pending_eq found, order, after]
      rfl
    · rename_i different
      have untouched : (bus.subscriptions.set consumer later).get? id = bus.subscriptions.get? id :=
        Dict.get?_set_ne _ (Ne.symm different) _
      exact live.untouched untouched live.registered (fun _ _ held => held) rfl

theorem step_subscribe (joining : ℕ) (replay : Bool) :
    Live id (bus.step (.subscribe joining replay)) ∧ bus.pending id = (bus.step (.subscribe joining replay)).pending id := by
  obtain ⟨subscription, found, _⟩ := live.subscription
  simp only [step]
  cases lock : bus.lock with
  | free =>
    dsimp only
    split
    · exact ⟨live, rfl⟩
    · rename_i new
      have different : id ≠ joining := by
        rintro rfl
        exact new (Dict.mem_of_get? found)
      refine live.untouched (Dict.get?_set_ne _ different _) (Finset.mem_insert_of_mem live.registered) ?_ ?_
      · intro event listed held
        cases held
      · simp [inFlight, lock]
  | held => exact ⟨live, rfl⟩
  | publishing => exact ⟨live, rfl⟩

theorem step_release : Live id (bus.step .release) ∧ bus.pending id = (bus.step .release).pending id := by
  simp only [step]
  cases lock : bus.lock with
  | free => exact ⟨live, rfl⟩
  | held =>
    refine live.untouched rfl live.registered ?_ ?_
    · intro event listed held
      cases held
    · simp [inFlight, lock]
  | publishing => exact ⟨live, rfl⟩

theorem step_close {closing : ℕ} (different : closing ≠ id) :
    Live id (bus.step (.close closing)) ∧ bus.pending id = (bus.step (.close closing)).pending id := by
  simp only [step]
  split
  · exact live.untouched (Dict.get?_set_ne _ (Ne.symm different) _) live.registered (fun _ _ held => held) rfl
  · exact ⟨live, rfl⟩

/-- Only a generator that was closed discards its queue. -/
theorem step_discard (leaving : ℕ) :
    Live id (bus.step (.discard leaving)) ∧ bus.pending id = (bus.step (.discard leaving)).pending id := by
  obtain ⟨subscription, found, open_⟩ := live.subscription
  simp only [step]
  split
  · rename_i lock gone
    have different : id ≠ leaving := by
      rintro rfl
      obtain rfl := Option.some.inj (found.symm.trans gone)
      cases open_
    refine live.untouched rfl (Finset.mem_erase.mpr ⟨different, live.registered⟩) ?_ ?_
    · intro event listed held
      cases held
    · simp [inFlight, lock]
  · exact ⟨live, rfl⟩

/-- Whatever is published goes behind what waits, and whatever is received comes from its front. -/
theorem step_conserves {event : BusStep ε} (room : bus.HasRoom id event) (stays : event ≠ .close id) :
    Live id (bus.step event) ∧
      bus.pending id ++ bus.publishes event = bus.yields id event ++ (bus.step event).pending id := by
  have silent : ∀ bus' : EventBus ε, Live id bus' ∧ bus.pending id = bus'.pending id →
      Live id bus' ∧ bus.pending id ++ [] = [] ++ bus'.pending id := by
    intro bus' kept
    rw [List.append_nil, List.nil_append]
    exact kept
  cases event with
  | publish event listed => exact step_publish live event listed
  | putAll => exact silent _ (step_putAll live room)
  | subscribe joining replay => exact silent _ (step_subscribe live joining replay)
  | release => exact silent _ (step_release live)
  | consume consumer =>
    obtain ⟨kept, order⟩ := step_consume live consumer
    exact ⟨kept, (List.append_nil _).trans order⟩
  | close closing =>
    refine silent _ (step_close live ?_)
    rintro rfl
    exact stays rfl
  | discard leaving => exact silent _ (step_discard live leaving)

end Step

/-! ### Whole runs -/

theorem publishes_one {bus : EventBus ε} {event : BusStep ε} {first : ε} {others : List ε}
    (entered : bus.publishes event = first :: others) : others = [] := by
  unfold publishes at entered
  split at entered
  · split at entered
    · split at entered <;> cases entered
      rfl
    · cases entered
  · cases entered

/-- The events published in a run, in order. -/
def published (bus : EventBus ε) (steps : List (BusStep ε)) : List ε := Machine.collect step publishes bus steps

/-- The events a subscriber receives in a run, in order. -/
def received (id : ℕ) (bus : EventBus ε) (steps : List (BusStep ε)) : List ε :=
  Machine.collect step (yields id) bus steps

/-- Only the critical section of `publish` touches the replay buffer. -/
theorem step_replay (bus : EventBus ε) (event : BusStep ε) :
    (bus.step event).replaySize = bus.replaySize ∧
      (bus.step event).replay = (bus.publishes event).foldl (dequeAppend bus.replaySize) bus.replay := by
  cases event with
  | publish event listed =>
    simp only [step, publishes]
    cases bus.lock with
    | free =>
      dsimp only
      split <;> exact ⟨rfl, rfl⟩
    | held => exact ⟨rfl, rfl⟩
    | publishing => exact ⟨rfl, rfl⟩
  | putAll =>
    simp only [step]
    split
    · rename_i event listed _
      obtain ⟨replay, size⟩ := putAll_replay { bus with lock := .free } event listed
      exact ⟨size, replay⟩
    · exact ⟨rfl, rfl⟩
  | subscribe id replay =>
    simp only [step]
    cases bus.lock with
    | free =>
      dsimp only
      split <;> exact ⟨rfl, rfl⟩
    | held => exact ⟨rfl, rfl⟩
    | publishing => exact ⟨rfl, rfl⟩
  | release | consume | close | discard =>
    simp only [step]
    split <;> exact ⟨rfl, rfl⟩

/-- The replay buffer holds the last events of all that were published. -/
theorem replay_eq (replaySize : ℕ) (steps : List (BusStep ε)) :
    (Machine.run step (init replaySize) steps).replay = (published (init replaySize) steps).rtake replaySize := by
  let J : List ε → EventBus ε → Prop := fun past bus => bus.replaySize = replaySize ∧ bus.replay = past.rtake replaySize
  have whole : J ([] ++ published (init replaySize) steps) (Machine.run step (init replaySize) steps) := by
    refine Machine.history_invariant (J := J) ?_ ⟨rfl, (List.rtake_nil replaySize).symm⟩ steps
    intro past bus event given
    obtain ⟨size, replay⟩ := given
    obtain ⟨size', replay'⟩ := step_replay bus event
    refine ⟨size'.trans size, ?_⟩
    rw [replay', replay, size]
    cases entered : bus.publishes event with
    | nil => simp
    | cons first others =>
      have one : others = [] := publishes_one entered
      subst one
      exact dequeAppend_rtake replaySize past first
  exact whole.2

/-- A subscriber that goes on consuming while nothing is put receives all that waits for it. -/
theorem drains {id : ℕ} {bus : EventBus ε} (live : Live id bus) (landed : bus.inFlight id = []) :
    received id bus (List.replicate (bus.pending id).length (.consume id)) = bus.pending id := by
  induction waiting : (bus.pending id).length generalizing bus with
  | zero =>
    rw [List.length_eq_zero_iff.mp waiting]
    rfl
  | succ n ih =>
    obtain ⟨subscription, found, open_⟩ := live.subscription
    obtain ⟨kept, order⟩ := step_consume live id
    cases taken : subscription.next with
    | none =>
      rw [pending_eq found, Subscription.next_none open_ taken, landed] at waiting
      cases waiting
    | some pair =>
      have yielded : bus.yields id (.consume id) = [pair.1] := by
        simp [yields, found, taken]
      have landed' : (bus.step (.consume id)).inFlight id = [] := by
        simp only [step]
        split <;> exact landed
      rw [order, yielded] at waiting ⊢
      have later := ih kept landed' (Nat.succ.inj waiting)
      rw [received, List.replicate_succ, Machine.collect, yielded]
      exact congrArg (pair.1 :: ·) later

/-- Whoever joins starts with a copy of the replay buffer to receive. -/
theorem joins {bus : EventBus ε} {id : ℕ} (free : bus.lock = .free) (new : id ∉ bus.subscriptions) :
    Live id (bus.step (.subscribe id true)) ∧ (bus.step (.subscribe id true)).pending id = bus.replay := by
  simp only [step, free, if_neg new, if_true]
  refine ⟨⟨⟨_, Dict.get?_set_self .., rfl⟩, Finset.mem_insert_self .., ?_⟩, ?_⟩
  · intro event listed held
    cases held
  · simp [pending, inFlight]

/-- Nothing published while a subscriber stays is lost to it, repeated or out of place. -/
theorem run_conserves {id : ℕ} {bus : EventBus ε} (live : Live id bus) {steps : List (BusStep ε)}
    (room : Machine.Along step (HasRoom id) bus steps) (stays : .close id ∉ steps) :
    Live id (Machine.run step bus steps) ∧
      bus.pending id ++ published bus steps = received id bus steps ++ (Machine.run step bus steps).pending id := by
  have present : Machine.Along step (fun _ event => event ≠ .close id) bus steps := by
    refine Machine.along_of_forall ?_ bus
    rintro event member rfl
    exact stays member
  have met := room.and present
  have each : ∀ (bus : EventBus ε) event, Live id bus → bus.HasRoom id event ∧ event ≠ .close id → _ :=
    fun _ _ live met => step_conserves live met.1 met.2
  exact ⟨Machine.run_invariant_along (fun bus event live met => (each bus event live met).1) live met,
    Machine.run_conserves (I := Live id) (fun bus event live met => (each bus event live met).1)
      (fun bus event live met => (each bus event live met).2) live met⟩

/-- A subscriber that joins when `before` has been published and stays receives the last `replaySize` events of that
and every event published since, in order and once each: at any moment it has received all but what waits for it, and
once no publication is under way it only has to go on consuming. -/
theorem stream_exact (replaySize : ℕ) (before after : List (BusStep ε)) (id : ℕ)
    (free : (Machine.run step (init replaySize) before).lock = .free)
    (new : id ∉ (Machine.run step (init replaySize) before).subscriptions)
    (room : Machine.Along step (HasRoom id)
      (Machine.run step (init replaySize) (before ++ [.subscribe id true])) after)
    (stays : .close id ∉ after) :
    let past := published (init replaySize) before
    let joined := Machine.run step (init replaySize) (before ++ [.subscribe id true])
    let now := Machine.run step joined after
    let stream := past.rtake (min past.length replaySize) ++ published joined after
    received id joined after ++ now.pending id = stream ∧
      (now.inFlight id = [] →
        received id joined (after ++ List.replicate (now.pending id).length (.consume id)) = stream) := by
  intro past joined now stream
  have entered : joined = (Machine.run step (init replaySize) before).step (.subscribe id true) := by
    show Machine.run step (init replaySize) (before ++ [.subscribe id true]) = _
    rw [Machine.run_append]
    rfl
  obtain ⟨live, copied⟩ := joins free new
  rw [← entered] at live copied
  have flow : received id joined after ++ now.pending id = stream := by
    rw [← (run_conserves live room stays).2, copied, replay_eq, ← rtake_min_length]
  refine ⟨flow, fun landed => ?_⟩
  rw [received, Machine.collect_append]
  have rest := drains (run_conserves live room stays).1 landed
  rw [received] at rest
  rw [rest]
  exact flow

/-- Three events through a replay buffer of two, then a subscriber beside one that has left. -/
def samplePast : List (BusStep ℕ) :=
  [.subscribe 0 false, .release, .publish 1 [0], .putAll, .publish 2 [0], .putAll, .close 0, .discard 0, .release,
    .publish 3 [], .putAll]

def sampleLive : List (BusStep ℕ) :=
  [.release, .consume 1, .publish 4 [1], .consume 1, .putAll, .consume 1, .publish 5 [1], .putAll]

instance (id : ℕ) (bus : EventBus ε) : (event : BusStep ε) → Decidable (HasRoom id bus event)
  | .putAll => inferInstanceAs (Decidable (bus.inFlight id ≠ [] →
      ∀ subscription ∈ bus.subscriptions.get? id, subscription.queue.length < subscriberQueueSize))
  | .publish .. | .subscribe .. | .release | .consume _ | .close _ | .discard _ => isTrue trivial

theorem stream_exact_sample :
    let joined := Machine.run step (init 2) (samplePast ++ [.subscribe 1 true])
    let now := Machine.run step joined sampleLive
    received 1 joined sampleLive = [2, 3, 4] ∧ received 1 joined sampleLive ++ now.pending 1 = [2, 3, 4, 5] ∧
      received 1 joined (sampleLive ++ List.replicate (now.pending 1).length (.consume 1)) = [2, 3, 4, 5] := by
  obtain ⟨flow, drained⟩ := stream_exact 2 samplePast sampleLive 1 (by decide) (by decide) (by decide) (by decide)
  exact ⟨by decide, flow.trans (by decide), (drained (by decide)).trans (by decide)⟩

end EventBus

end TaskRunner
