import RowPipeline.Proofs.Engines

/-!
# The events of a run

What a call of an engine tells mirrors what it returns: an error is told nothing about, a result from
the cache in one event, and a run step by step. Each part of a run adds its own events at the end of
those before, and reading or writing the cache adds none.
-/

namespace RowPipeline

/-! ## Connecting -/

namespace Engine

/-- See to it that the connector is connected. One that is connected already is not asked again;
otherwise `link` is what connecting comes to. -/
def ensureConnected (w : Workshop) (link : Except Fault Unit) : EngineM (Except Fault Unit) := do
  if w.connector.isNone || (← get).connected then return .ok ()
  if let .ok () := link then modify fun s => { s with connected := true }
  return link

/-- Connect, and then run a resolved pipeline under a new number. -/
def runFreshOver (link : Except Fault Unit) (w : Workshop) (p : Pipeline) (params : Parameters)
    (settings : RunSettings) (page : Option (UInt64 × UInt64)) (key : Option String) :
    EngineM (Except Fault RunResult) := do
  match ← ensureConnected w link with
  | .error f => return .error f
  | .ok () => return .ok (← runFresh w p params settings page key)

/-- Run a resolved pipeline over a connector that may fail to connect, or take its result from the
cache, which needs no connection. -/
def runResolvedOver (link : Except Fault Unit) (w : Workshop) (p : Pipeline) (params : Parameters)
    (options : RunOptions) (page : Option (UInt64 × UInt64)) :
    EngineM (Except Fault RunResult) := do
  let key := resultKey? w p params options page (← get).journal.cache.isSome
  match ← EngineM.record (recallResult key) with
  | some r => do
      EngineM.record (Recorded.tell (.runRecalled p.metadata.name r.run r.rows.length))
      return .ok r
  | none => runFreshOver link w p params (settingsOf w options page) page key

/-- Run a document over a connector that may fail to connect. -/
def executeOver (link : Except Fault Unit) (w : Workshop) (document : Json) (params : Parameters)
    (options : RunOptions) : EngineM (Except Fault RunResult) :=
  match options.pagination w.config with
  | .error issue => return .error (.validation [issue])
  | .ok page =>
      match resolve document params with
      | .error f => return .error f
      | .ok (p, params) => runResolvedOver link w p params options page

/-- A connector that connects leaves nothing but a note that it did. -/
theorem ensureConnected_ok (w : Workshop) (s : EngineState) :
    (ensureConnected w (.ok ())).run s =
      (.ok (), { s with connected := s.connected || w.connector.isSome }) := by
  obtain ⟨journal, runs, connected, closed⟩ := s
  rw [ensureConnected]
  cases w.connector <;> cases connected <;> rfl

/-- Connecting tells nothing and leaves the cache alone. -/
theorem ensureConnected_journal (w : Workshop) (link : Except Fault Unit) (s : EngineState) :
    ((ensureConnected w link).run s).2.journal = s.journal := by
  obtain ⟨journal, runs, connected, closed⟩ := s
  rw [ensureConnected]
  cases w.connector <;> cases connected <;> cases link <;> rfl

/-- Without a connection there is no run. -/
theorem runFreshOver_run (link : Except Fault Unit) (w : Workshop) (p : Pipeline)
    (params : Parameters) (settings : RunSettings) (page : Option (UInt64 × UInt64))
    (key : Option String) (s : EngineState) :
    (runFreshOver link w p params settings page key).run s =
      match (ensureConnected w link).run s with
      | (.error f, s') => (.error f, s')
      | (.ok (), s') =>
          let ran := (runFresh w p params settings page key).run s'
          (.ok ran.1, ran.2) := by
  rw [runFreshOver, StateT.run_bind]
  generalize (ensureConnected w link).run s = connected
  obtain ⟨answer, s'⟩ := connected
  cases answer <;> rfl

/-- With a connection the run is as it would be without a thought of one. -/
theorem runFreshOver_ok (w : Workshop) (p : Pipeline) (params : Parameters)
    (settings : RunSettings) (page : Option (UInt64 × UInt64)) (key : Option String)
    (s : EngineState) :
    (runFreshOver (.ok ()) w p params settings page key).run s =
      let ran := (runFresh w p params settings page key).run s
      (.ok ran.1, ran.2) := by
  rw [runFreshOver_run, ensureConnected_ok]
  dsimp only
  rw [runFresh_run, runFresh_run]
  dsimp only
  rw [Bool.or_assoc, Bool.or_self]

/-- A call whose result is not found in the cache connects before it makes a run. -/
theorem runResolvedOver_run (link : Except Fault Unit) (w : Workshop) (p : Pipeline)
    (params : Parameters) (options : RunOptions) (page : Option (UInt64 × UInt64))
    (s : EngineState) :
    (runResolvedOver link w p params options page).run s =
      let key := resultKey? w p params options page s.journal.cache.isSome
      match (recallResult key).run s.journal with
      | (some r, j) =>
          (.ok r, { s with journal := { j with
            events := j.events ++ [.runRecalled p.metadata.name r.run r.rows.length] } })
      | (none, j) =>
          (runFreshOver link w p params (settingsOf w options page) page key).run
            { s with journal := j } := by
  have hrecord : (EngineM.record (recallResult
      (resultKey? w p params options page s.journal.cache.isSome))).run s =
        let recalled := (recallResult
          (resultKey? w p params options page s.journal.cache.isSome)).run s.journal
        (recalled.1, { s with journal := recalled.2 }) := rfl
  rw [runResolvedOver]
  simp only [StateT.run_bind, StateT.run_get, pure_bind]
  rw [hrecord]
  generalize (recallResult _).run s.journal = recalled
  obtain ⟨found, j⟩ := recalled
  cases found <;> rfl

/-- Over a connector that connects, a call is the one without a thought of connections. -/
theorem executeOver_ok (w : Workshop) (document : Json) (params : Parameters)
    (options : RunOptions) :
    executeOver (.ok ()) w document params options = execute w document params options := by
  unfold executeOver execute
  cases options.pagination w.config with
  | error issue => rfl
  | ok page =>
      cases resolve document params with
      | error f => rfl
      | ok resolved =>
          obtain ⟨p, params'⟩ := resolved
          dsimp only
          apply StateT.ext
          intro s
          rw [runResolvedOver_run, StateT.run_bind, runResolved_run]
          dsimp only
          generalize (recallResult _).run s.journal = recalled
          obtain ⟨found, j⟩ := recalled
          cases found with
          | some r => rfl
          | none =>
              dsimp only
              rw [runFreshOver_ok]
              rfl

end Engine

/-! ## What is told -/

/-- The events that tell of a step, given its result. The text of a failure is that of an error whose
message the result keeps. -/
inductive StepResult.Told (r : StepResult) : List Event → Prop
  | skipped : r.status = .skipped → Told r []
  | recalled : r.status = .success → r.cacheHit = true →
      Told r [.stepStarted r.stepName r.kind.name,
        .stepRecalled r.stepName r.kind.name r.rowCount]
  | completed : r.status = .success → r.cacheHit = false →
      Told r [.stepStarted r.stepName r.kind.name,
        .stepCompleted r.stepName r.kind.name r.rowCount]
  | failed {e : ExecutionError} : r.status = .failed → r.error = some e.message →
      Told r [.stepStarted r.stepName r.kind.name, .stepFailed r.stepName r.kind.name e.text]

/-- The events that tell of the run of a pipeline, given the result of the call. -/
inductive RunResult.Told (p : Pipeline) (r : RunResult) : List Event → Prop
  | recalled : r.cacheHit = true → Told p r [.runRecalled p.metadata.name r.run r.rows.length]
  | completed {steps : List (List Event)} : r.cacheHit = false → r.success = true →
      r.stepResults.map StepResult.stepName = p.order →
      List.Forall₂ StepResult.Told r.stepResults steps →
      Told p r ([.runStarted p.metadata.name r.run p.order] ++ steps.flatten ++
        [.runCompleted p.metadata.name r.run r.rows.length r.failures.length])
  | failed {steps : List (List Event)} : r.cacheHit = false → r.success = false →
      r.stepResults.map StepResult.stepName = p.order →
      List.Forall₂ StepResult.Told r.stepResults steps →
      Told p r ([.runStarted p.metadata.name r.run p.order] ++ steps.flatten ++
        [.runFailed p.metadata.name r.run (r.failures.head?.map FailureRecord.message)
          r.failures.length])

/-! ## Steps -/

/-- Reading the cache tells nothing. -/
theorem Recorded.find_events (key : String) (j : Journal) :
    ((find key).run j).2.events = j.events := by
  rw [find]
  simp only [StateT.run_bind, StateT.run_get, pure_bind]
  cases j.cache <;> rfl

/-- The result of a step that ended. -/
def StepResult.ofOutcome (s : Step) (outcome : Except Fault StepOutput) (hit : Bool) : StepResult :=
  match outcome with
  | .ok output => .succeeded s output hit
  | .error f => .failed s (f.inStep s.name s.kind.name).message

theorem Progress.enter_result (progress : Progress) (s : Step) (outcome : Except Fault StepOutput)
    (hit : Bool) :
    (progress.enter s outcome hit).results = progress.results ++ [.ofOutcome s outcome hit] := by
  cases outcome <;> rfl

namespace Run

theorem recallOutput_events (key : Option String) (j : Journal) :
    ((recallOutput key).run j).2.events = j.events := by
  cases key with
  | none => rfl
  | some key =>
      have hfind := Recorded.find_events key j
      rw [recallOutput]
      simp only [StateT.run_bind]
      generalize (Recorded.find key).run j = found at hfind ⊢
      obtain ⟨v, j'⟩ := found
      rcases v with _ | v
      · exact hfind
      · cases v <;> exact hfind

/-- A step that is carried out tells how it ended. -/
theorem runFresh_tells (w : Workshop) (s : Step) (c : StepContext) (key : Option String)
    (j : Journal) :
    ∃ last, ((runFresh w s c key).run j).2.events = j.events ++ [last] ∧
      (StepResult.ofOutcome s ((runFresh w s c key).run j).1 false).Told
        [.stepStarted s.name s.kind.name, last] := by
  rw [runFresh_outcome]
  unfold runFresh
  simp only [StateT.run_bind]
  have hsent : (Recorded.send (w.registry.run c)).run j =
      ((w.registry.run c).start.1, { j with sent := j.sent ++ (w.registry.run c).start.2 }) := rfl
  rw [hsent]
  cases (w.registry.run c).start.1 with
  | ok output =>
      refine ⟨.stepCompleted s.name s.kind.name output.rows.length, ?_, .completed rfl rfl⟩
      cases key <;> rfl
  | error f =>
      exact ⟨.stepFailed s.name s.kind.name (f.inStep s.name s.kind.name).text, rfl,
        .failed rfl rfl⟩

/-- A step tells that it starts and then how it ended. -/
theorem runStep_tells (w : Workshop) (settings : RunSettings) (s : Step) (c : StepContext)
    (j : Journal) :
    let ran := (runStep w settings s c).run j
    ∃ told, ran.2.events = j.events ++ told ∧
      (StepResult.ofOutcome s ran.1.1 ran.1.2).Told told := by
  intro ran
  have hran : ran = (runStep w settings s c).run j := rfl
  have hrecall := recallOutput_events (cacheKey? w settings j.cache.isSome s c)
    { j with events := j.events ++ [.stepStarted s.name s.kind.name] }
  rw [runStep_run] at hran
  dsimp only at hran
  split at hran
  · rename_i output j' hfound
    rw [hfound] at hrecall
    rw [hran]
    refine ⟨[.stepStarted s.name s.kind.name,
      .stepRecalled s.name s.kind.name output.rows.length], ?_, .recalled rfl rfl⟩
    dsimp only at hrecall ⊢
    rw [hrecall, List.append_assoc]
    rfl
  · rename_i j' hfound
    rw [hfound] at hrecall
    rw [hran]
    obtain ⟨last, hevents, htold⟩ := runFresh_tells w s c
      (cacheKey? w settings j.cache.isSome s c) j'
    refine ⟨[.stepStarted s.name s.kind.name, last], ?_, htold⟩
    dsimp only at hrecall ⊢
    rw [hevents, hrecall, List.append_assoc]
    rfl

/-! ## Runs -/

/-- A run tells of its steps in order, and of none that is skipped. -/
theorem runSteps_tells (w : Workshop) (settings : RunSettings) (p : Pipeline) (params : Parameters)
    (steps : List Step) (progress : Progress) (j : Journal) :
    let ran := (runSteps w settings p params steps progress).run j
    ∃ results told, ran.1.results = progress.results ++ results ∧
      ran.2.events = j.events ++ told.flatten ∧ List.Forall₂ StepResult.Told results told := by
  induction steps generalizing progress j with
  | nil => exact ⟨[], [], (List.append_nil _).symm, (List.append_nil _).symm, .nil⟩
  | cons s rest ih =>
      cases hstop : progress.log.shouldStop with
      | true =>
          rw [runSteps_stop hstop]
          refine ⟨(s :: rest).map .skipped, (s :: rest).map fun _ => [], rfl, ?_, ?_⟩
          · simp
          · rw [List.forall₂_map_left_iff, List.forall₂_map_right_iff]
            exact List.forall₂_same.mpr fun s _ => .skipped rfl
      | false =>
          rw [runSteps_go hstop]
          obtain ⟨first, hfirst, htold⟩ := runStep_tells w settings s
            (contextOf w settings p params progress.outputs s) j
          generalize (runStep w settings s
            (contextOf w settings p params progress.outputs s)).run j = ran at hfirst htold ⊢
          obtain ⟨results, later, hresults, hevents, hlater⟩ :=
            ih (progress.enter s ran.1.1 ran.1.2) ran.2
          refine ⟨.ofOutcome s ran.1.1 ran.1.2 :: results, first :: later, ?_, ?_,
            .cons htold hlater⟩
          · rw [hresults, Progress.enter_result, List.append_assoc]
            rfl
          · rw [hevents, hfirst, List.append_assoc, List.flatten_cons]

end Run

namespace Engine

theorem recallResult_events (key : Option String) (j : Journal) :
    ((recallResult key).run j).2.events = j.events := by
  cases key with
  | none => rfl
  | some key =>
      have hfind := Recorded.find_events key j
      rw [recallResult]
      simp only [StateT.run_bind]
      generalize (Recorded.find key).run j = found at hfind ⊢
      obtain ⟨v, j'⟩ := found
      rcases v with _ | v
      · exact hfind
      · cases v <;> exact hfind

/-- A result that is recalled is marked as one. -/
theorem recallResult_hit {key : Option String} {j : Journal} {r : RunResult}
    (h : ((recallResult key).run j).1 = some r) : r.cacheHit = true := by
  obtain ⟨-, hfound⟩ := recallResult_holds (P := fun _ _ => True)
    (fun _ _ _ _ _ => trivial : j.Holds fun _ _ => True) key
  obtain ⟨-, stored, -, -, rfl⟩ := hfound r h
  rfl

/-- The end of a run tells whether it was a success. -/
theorem conclude_events (w : Workshop) (key : Option String) (r : RunResult) (j : Journal) :
    ((conclude w key r).run j).2.events = j.events ++
      [if r.success then .runCompleted r.name r.run r.rows.length r.failures.length
        else .runFailed r.name r.run (r.failures.head?.map FailureRecord.message)
          r.failures.length] := by
  rw [conclude]
  cases r.success with
  | false => rfl
  | true =>
      cases key with
      | none => rfl
      | some key => cases r.failures.isEmpty <;> rfl

/-- A run tells that it starts, then of its steps, then how it ended. -/
theorem runFresh_tells (w : Workshop) {p : Pipeline} (h : p.WellFormed) (params : Parameters)
    (settings : RunSettings) (page : Option (UInt64 × UInt64)) (key : Option String)
    (s : EngineState) :
    let ran := (runFresh w p params settings page key).run s
    ∃ told, ran.2.journal.events = s.journal.events ++ told ∧ ran.1.cacheHit = false ∧
      ran.1.Told p told := by
  rw [runFresh_run]
  dsimp only
  generalize hstarted : ({ s.journal with events := s.journal.events ++
    [.runStarted p.metadata.name (s.runs + 1) p.order] } : Journal) = started
  have hlisted := (Run.runPipeline_books w settings h params started).listed
  obtain ⟨results, told, hresults, hevents, hsteps⟩ := Run.runSteps_tells w settings p params
    p.orderedSteps { log := { mode := settings.failureMode } } started
  have hall : ((Run.runPipeline w settings p params).run started).1.results = results := hresults
  have htold : ((Run.runPipeline w settings p params).run started).2.events =
      s.journal.events ++ ([.runStarted p.metadata.name (s.runs + 1) p.order] ++ told.flatten) := by
    rw [Run.runPipeline, hevents, ← hstarted, List.append_assoc]
  generalize (Run.runPipeline w settings p params).run started = ran at hlisted hall htold ⊢
  rw [← hall] at hsteps
  refine ⟨_, by rw [conclude_events, htold, List.append_assoc], rfl, ?_⟩
  cases hsuccess : (resultOf p settings.failureMode page (s.runs + 1) ran.1).success with
  | true => exact .completed rfl hsuccess hlisted hsteps
  | false => exact .failed rfl hsuccess hlisted hsteps

/-- A run over a connector that does not connect is an error, and nothing is told of it. -/
theorem runFreshOver_tells (link : Except Fault Unit) (w : Workshop) {p : Pipeline}
    (h : p.WellFormed) (params : Parameters) (settings : RunSettings)
    (page : Option (UInt64 × UInt64)) (key : Option String) (s : EngineState) :
    match (runFreshOver link w p params settings page key).run s with
    | (.error _, s') => s'.journal.events = s.journal.events
    | (.ok r, s') => ∃ told, s'.journal.events = s.journal.events ++ told ∧ r.cacheHit = false ∧
        r.Told p told := by
  have hjournal := ensureConnected_journal w link s
  rw [runFreshOver_run]
  generalize (ensureConnected w link).run s = connected at hjournal
  obtain ⟨answer, s'⟩ := connected
  cases answer with
  | error f => exact congrArg Journal.events hjournal
  | ok _ =>
      obtain ⟨told, hevents, hfresh, htold⟩ := runFresh_tells w h params settings page key s'
      refine ⟨told, ?_, hfresh, htold⟩
      rw [hevents, ← hjournal]

end Engine

/-- What a call tells mirrors what it returns. An error, be it of the request, of the document or of
the connection, adds nothing to the events told before. A result adds the events of its run: one if it
is what the cache holds for the call, and otherwise the start of the run, those of every step that was
not skipped, in the order of the pipeline, and the end. -/
theorem executeOver_tells (link : Except Fault Unit) (w : Workshop) (document : Json)
    (params : Parameters) (options : RunOptions) (s : EngineState) :
    match (Engine.executeOver link w document params options).run s with
    | (.error _, s') => s'.journal.events = s.journal.events
    | (.ok r, s') => ∃ p params' page told,
        Engine.resolve document params = .ok (p, params') ∧
        options.pagination w.config = .ok page ∧
        s'.journal.events = s.journal.events ++ told ∧ r.Told p told ∧
        ((Engine.recallResult (Engine.resultKey? w p params' options page
          s.journal.cache.isSome)).run s.journal).1 = if r.cacheHit then some r else none := by
  unfold Engine.executeOver
  cases hpage : options.pagination w.config with
  | error issue => rfl
  | ok page =>
      cases hresolve : Engine.resolve document params with
      | error f => rfl
      | ok resolved =>
          obtain ⟨p, params'⟩ := resolved
          dsimp only
          generalize hkey : Engine.resultKey? w p params' options page s.journal.cache.isSome = key
          have hrecall := Engine.recallResult_events key s.journal
          rw [Engine.runResolvedOver_run, hkey]
          obtain ⟨found, j, hfound⟩ : ∃ found j,
              (Engine.recallResult key).run s.journal = (found, j) := ⟨_, _, rfl⟩
          rw [hfound] at hrecall
          dsimp only
          rw [hfound]
          cases found with
          | some r =>
              have hhit := Engine.recallResult_hit (congrArg Prod.fst hfound)
              refine ⟨p, params', page, _, rfl, rfl, congrArg (· ++ _) hrecall, .recalled hhit, ?_⟩
              rw [hkey, hfound, hhit]
              rfl
          | none =>
              have htells := Engine.runFreshOver_tells link w (Engine.resolve_wellFormed hresolve)
                params' (Engine.settingsOf w options page) page key { s with journal := j }
              dsimp only
              generalize (Engine.runFreshOver link w p params' (Engine.settingsOf w options page) page
                key).run { s with journal := j } = ran at htells
              obtain ⟨answer, s'⟩ := ran
              cases answer with
              | error f => exact htells.trans hrecall
              | ok r =>
                  obtain ⟨told, hevents, hfresh, htold⟩ := htells
                  refine ⟨p, params', page, told, rfl, rfl, ?_, htold, ?_⟩
                  · exact hevents.trans (congrArg (· ++ told) hrecall)
                  · rw [hkey, hfound, hfresh]
                    rfl

end RowPipeline
