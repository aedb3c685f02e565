import DurableQueue.Trial.Events

/-!
Handlers for trials of the bus.

The handler of jobs does what the job says and writes its beginning and its end in the journal. The
handlers of marked events remember their deliveries: one records, one fails a number of times for
each entry, one fails always, and one takes its time.
-/

namespace DurableQueue.Trial

/-- A line in the journal about the entry of a context. -/
def noteOf (node : NodeId) (context : DispatchContext) (phase : String) (event : Option Datum) :
    Effect :=
  .note ⟨node, phase, context, event⟩

/-- What the handler of a job does between its beginning and its end. -/
def Job.acts (job : Job) (node : NodeId) : List Effect :=
  match job.act with
  | "release" | "release_fail" => [.operate (.release node)]
  | "steal" => [.operate (.release node), .operate (.claim 1 ⟨"thief"⟩ none)]
  | "break_store" => [.operate (.failNext (Nat.max job.times.toNat 1))]
  | _ => []

/-- How the handler of a job ends. -/
def Job.result (job : Job) (errorCount : UInt32) : HandlerResult :=
  match job.act with
  | "fail" => .failed ("job " ++ job.name ++ " failed")
  | "fail_chain" => .failed ("outer: middle: root " ++ job.name)
  | "fail_times" =>
    if errorCount < job.times then
      .failed ("job " ++ job.name ++ " attempt " ++ toString errorCount.toNat)
    else .succeeded
  | "panic_str" => .panicked (some "fixed panic")
  | "panic_string" => .panicked (some ("job " ++ job.name ++ " panicked"))
  | "panic_other" => .panicked none
  | "release_fail" => .failed "released and failed"
  | _ => .succeeded

/-- What the handler of a job does, and how it ends. -/
def Job.activity (job : Job) (event : Datum) (node : NodeId) (context : DispatchContext) :
    Activity :=
  let result := job.result context.errorCount
  let ending := match result with
    | .succeeded => [noteOf node context "end" none]
    | _ => []
  { effects :=
      [noteOf node context "begin" (some event), .sleep (.ofMillis job.sleepMillis)] ++
        job.acts node ++ ending
    result }

def jobHandler (node : NodeId) : Handler where
  eventType := jobs
  react _ event context :=
    match Job.ofDatum? event with
    | some job => job.activity event node context
    | none => ⟨[], .succeeded⟩

/-- A handler that writes one line about each event and succeeds. -/
def noting (eventType : EventType) (showsEvent : Bool) (node : NodeId) : Handler where
  eventType
  react _ event context :=
    ⟨[noteOf node context eventType.name (if showsEvent then some event else none)], .succeeded⟩

def deliveryOf (event : Datum) (context : DispatchContext) : Delivery :=
  ⟨context.entryId, event, context.errorCount⟩

/-- Records every delivery and succeeds. -/
def recording : Handler where
  eventType := markedEvents
  react _ event context := ⟨[.remember (deliveryOf event context)], .succeeded⟩

/-- Fails the first attempts of every entry and then succeeds. -/
def scripted (failures : UInt32) : Handler where
  eventType := markedEvents
  react past event context :=
    let attempt := (past.countP fun d => d.entryId == context.entryId) + 1
    let result : HandlerResult :=
      if attempt ≤ failures.toNat then
        .failed ("scripted failure " ++ toString attempt ++ " of " ++ toString failures.toNat)
      else .succeeded
    ⟨[.remember (deliveryOf event context)], result⟩

def failing : Handler where
  eventType := markedEvents
  react past event context :=
    ⟨[.remember (deliveryOf event context)],
      .failed ("permanent failure on call " ++ toString (past.length + 1))⟩

/-- Sleeps, records the delivery and succeeds. -/
def slow (delay : Span) : Handler where
  eventType := markedEvents
  react _ event context := ⟨[.sleep delay, .remember (deliveryOf event context)], .succeeded⟩

end DurableQueue.Trial
