import BufferCheck.Server.Session

/-! What the operations of a client do to it. A request is handed over under the next number, or it
is refused because a write failed before. -/
namespace BufferCheck.Server

/-- The number of the request that `i` others went before. It does not go beyond a 64-bit word. -/
def seqAt (i : Nat) : Nat := min (i + 1) (UInt64.size - 1)

theorem mapError_eq_ok_iff {ε ε' α : Type} {f : ε → ε'} {x : Except ε α} {a : α} :
    x.mapError f = .ok a ↔ x = .ok a := by
  cases x with
  | error e =>
    change Except.error (f e) = .ok a ↔ Except.error e = .ok a
    simp
  | ok b =>
    change Except.ok b = .ok a ↔ Except.ok b = .ok a
    simp

namespace Client

variable {α β : Type} {c c' : Client} {outcome : Except EngineError (Option Json)}
  {command : String} {arguments : Json} {i seq : Nat} {rest : List Inbound}

/-- What an operation gives on a client, and the client after it. -/
def perform (c : Client) (x : ClientM α) : Except Halt α × Client := x.run.run c

/-- No write of a client has failed, and none will. -/
def Endless (c : Client) : Prop := c.writing = true ∧ c.output.room = none

/-- A client handed over one more request. Unless the write fails, nothing else comes of it. -/
structure HandsOver (command : String) (arguments : Json) (c c' : Client) : Prop where
  submitted : c'.submitted = c.submitted ++ [⟨c.nextSeq, command, arguments⟩]
  nextSeq : c'.nextSeq = succSeq c.nextSeq
  inbound : c'.writing = true → c'.inbound = c.inbound
  endless : c.Endless → c'.Endless

theorem succSeq_eq {n : Nat} (hn : n = seqAt i) : succSeq n = seqAt (i + 1) := by
  rw [hn]
  unfold succSeq seqAt
  omega

theorem perform_pure (a : α) : c.perform (pure a) = (.ok a, c) := rfl

theorem perform_bind (c : Client) (x : ClientM α) (f : α → ClientM β) :
    c.perform (x >>= f) = match c.perform x with
      | (.ok a, c') => c'.perform (f a)
      | (.error e, c') => (.error e, c') := by
  unfold perform
  rw [ExceptT.run_bind, StateT.run_bind]
  change (let p := x.run.run c; _) = _
  obtain ⟨r, c'⟩ := x.run.run c
  cases r <;> rfl

theorem perform_bind_of_ok {x : ClientM α} {f : α → ClientM β} {a : α}
    (h : c.perform x = (.ok a, c')) : c.perform (x >>= f) = c'.perform (f a) := by
  rw [perform_bind, h]

theorem perform_bind_of_error {x : ClientM α} {f : α → ClientM β} {e : Halt}
    (h : c.perform x = (.error e, c')) : c.perform (x >>= f) = (.error e, c') := by
  rw [perform_bind, h]

theorem perform_request_of_stopped (h : c.writing = false) :
    c.perform (request command arguments)
      = (.error (.failed (.io stoppedText)), { c with nextSeq := succSeq c.nextSeq }) := by
  change request command arguments c = _
  simp [request, h]

theorem perform_request_of_writing (h : c.writing = true) :
    ∃ c', c.perform (request command arguments) = (.ok c.nextSeq, c') ∧
      HandsOver command arguments c c' := by
  refine ⟨(c.perform (request command arguments)).2, ?_, ?_⟩
  · change request command arguments c = (_, (request command arguments c).2)
    simp [request, h]
  · change HandsOver command arguments c (request command arguments c).2
    simp only [request, h, if_true]
    refine ⟨rfl, rfl, fun hw => if_pos hw, fun he => ?_⟩
    simp [Endless, Output.write, he.2]

theorem perform_notify_of_writing (h : c.writing = true) :
    ∃ c', HandsOver command arguments c c' ∧
      c.perform (notify command arguments) = (.ok (), c') := by
  obtain ⟨c', hr, hc⟩ := perform_request_of_writing h
  refine ⟨c', hc, ?_⟩
  rw [notify, perform_bind_of_ok hr]
  rfl

theorem perform_notify_of_stopped (h : c.writing = false) :
    c.perform (notify command arguments)
      = (.error (.failed (.io stoppedText)), { c with nextSeq := succSeq c.nextSeq }) := by
  rw [notify, perform_bind_of_error (perform_request_of_stopped h)]

theorem perform_await_of_some (h : Inbound.await? seq command c.inbound = some (outcome, rest)) :
    c.perform (await seq command) = (outcome.mapError .failed, { c with inbound := rest }) := by
  change await seq command c = _
  rw [await, h]

theorem perform_await_of_none (h : Inbound.await? seq command c.inbound = none) :
    c.perform (await seq command) = (.error c.deserted, { c with inbound := [] }) := by
  change await seq command c = _
  rw [await, h]

/-- A wait takes items from the queue and changes nothing else. -/
theorem perform_await_snd (c : Client) (seq : Nat) (command : String) :
    ∃ rest, (c.perform (await seq command)).2 = { c with inbound := rest } := by
  cases h : Inbound.await? seq command c.inbound with
  | none => exact ⟨[], congrArg Prod.snd (perform_await_of_none h)⟩
  | some taken => exact ⟨taken.2, congrArg Prod.snd (perform_await_of_some h)⟩

end Client

section Calls

variable {c c' : Client} {call : PlannedCall} {rest : List PlannedCall} {i : Nat}

/-- Make one call, and read the body of its response. -/
def ask (call : PlannedCall) : ClientM (List Diagnostic) := do
  let body ← Client.call call.command call.arguments
  ExceptT.mk (pure ((call.read body).mapError .failed))

/-- A call whose request is handed over waits for the response, and reads it. -/
theorem perform_ask_of_writing (call : PlannedCall) (h : c.writing = true) :
    ∃ c', Client.HandsOver call.command call.arguments c c' ∧
      c.perform (ask call)
        = ((c'.perform (Client.await c.nextSeq call.command)).1.bind fun body =>
            (call.read body).mapError .failed,
          (c'.perform (Client.await c.nextSeq call.command)).2) := by
  obtain ⟨c', hr, hc⟩ := Client.perform_request_of_writing h
  refine ⟨c', hc, ?_⟩
  rw [ask, Client.perform_bind, Client.call, Client.perform_bind_of_ok hr]
  obtain ⟨outcome, last⟩ := c'.perform (Client.await c.nextSeq call.command)
  cases outcome <;> rfl

theorem perform_ask_of_stopped (call : PlannedCall) (h : c.writing = false) :
    c.perform (ask call)
      = (.error (.failed (.io Client.stoppedText)),
        { c with nextSeq := Client.succSeq c.nextSeq }) := by
  rw [ask, Client.call, Client.perform_bind_of_error
    (Client.perform_bind_of_error (Client.perform_request_of_stopped h))]

theorem nextSeq_ask (call : PlannedCall) (hn : c.nextSeq = seqAt i) :
    (c.perform (ask call)).2.nextSeq = seqAt (i + 1) := by
  cases hw : c.writing with
  | false =>
    rw [perform_ask_of_stopped call hw]
    exact Client.succSeq_eq hn
  | true =>
    obtain ⟨c', hc, hask⟩ := perform_ask_of_writing call hw
    obtain ⟨rest, hrest⟩ := c'.perform_await_snd c.nextSeq call.command
    rw [hask, hrest]
    exact hc.nextSeq.trans (Client.succSeq_eq hn)

theorem writing_of_ask (call : PlannedCall) (h : (c.perform (ask call)).2.writing = true) :
    c.writing = true := by
  cases hw : c.writing with
  | false => simp [perform_ask_of_stopped call hw, hw] at h
  | true => rfl

theorem Client.Endless.ask (call : PlannedCall) (h : c.Endless) :
    (c.perform (Server.ask call)).2.Endless := by
  obtain ⟨c', hc, hask⟩ := perform_ask_of_writing call h.1
  obtain ⟨rest, hrest⟩ := c'.perform_await_snd c.nextSeq call.command
  rw [hask, hrest]
  exact hc.endless h

theorem runCalls_cons (call : PlannedCall) (rest : List PlannedCall) : runCalls (call :: rest)
    = ask call >>= fun found => runCalls rest >>= fun more => pure (found ++ more) := by
  rw [runCalls, ask, bind_assoc]

theorem runCalls_of_ok {found : List Diagnostic} (h : c.perform (ask call) = (.ok found, c')) :
    c.perform (runCalls (call :: rest))
      = ((c'.perform (runCalls rest)).1.map (found ++ ·), (c'.perform (runCalls rest)).2) := by
  rw [runCalls_cons, Client.perform_bind_of_ok h, Client.perform_bind]
  obtain ⟨outcome, last⟩ := c'.perform (runCalls rest)
  cases outcome <;> rfl

theorem runCalls_of_error {e : Halt} (h : c.perform (ask call) = (.error e, c')) :
    c.perform (runCalls (call :: rest)) = (.error e, c') := by
  rw [runCalls_cons, Client.perform_bind_of_error h]

theorem writing_of_runCalls {calls : List PlannedCall}
    (h : (c.perform (runCalls calls)).2.writing = true) : c.writing = true := by
  induction calls generalizing c with
  | nil => exact h
  | cons call rest ih =>
    apply writing_of_ask call
    cases hask : c.perform (ask call) with
    | mk outcome c' =>
      cases outcome with
      | error e => rwa [runCalls_of_error hask] at h
      | ok found =>
        rw [runCalls_of_ok hask] at h
        exact ih h

theorem Client.Endless.runCalls (calls : List PlannedCall) (h : c.Endless) :
    (c.perform (Server.runCalls calls)).2.Endless := by
  induction calls generalizing c with
  | nil => exact h
  | cons call rest ih =>
    have hstep := h.ask call
    cases hask : c.perform (Server.ask call) with
    | mk outcome c' =>
      rw [hask] at hstep
      cases outcome with
      | error e =>
        rw [runCalls_of_error hask]
        exact hstep
      | ok found =>
        rw [runCalls_of_ok hask]
        exact ih hstep

end Calls

namespace Session

/-- The roots that a host has, on their paths. -/
def given (s : Session) (task : BuildTask) (host : SourceProvider) : List Root :=
  task.rootNames.filterMap fun name =>
    (host name task.options.target).file.map fun file => ⟨name, Path.toAbsolute s.base name, file⟩

theorem loadRoots_eq (s : Session) (task : BuildTask) (host : SourceProvider) :
    (s.loadRoots task.options.target host task.rootNames).1 = s.given task host := by
  unfold given
  induction task.rootNames with
  | nil => rfl
  | cons name rest ih =>
    rw [loadRoots]
    cases h : (host name task.options.target).file with
    | none => simpa [h] using ih
    | some file => simpa [h] using ih

theorem build_eq (s : Session) (task : BuildTask) (host : SourceProvider) (c : Client) :
    (s.build task host c).1.outcome = (c.perform (s.buildRoots task (s.given task host))).1 ∧
      (s.build task host c).2 = (c.perform (s.buildRoots task (s.given task host))).2 := by
  rw [← loadRoots_eq]
  exact ⟨rfl, rfl⟩

section Build

variable {s : Session} {task : BuildTask} {host : SourceProvider} {roots : List Root}
  {c c' : Client}

theorem buildRoots_of_error {e : Halt}
    (h : c.perform (runCalls (s.plan task.options roots)) = (.error e, c')) :
    c.perform (s.buildRoots task roots) = (.error e, c') := by
  rw [buildRoots, Client.perform_bind_of_error h]

theorem buildRoots_of_ok {found : List Diagnostic}
    (h : c.perform (runCalls (s.plan task.options roots)) = (.ok found, c')) :
    c.perform (s.buildRoots task roots)
      = ((c'.perform (Client.notify Command.exit .null)).1.map fun _ =>
          .ofBuild task.rootNames task.options (roots.map (·.file)) found,
        (c'.perform (Client.notify Command.exit .null)).2) := by
  rw [buildRoots, Client.perform_bind_of_ok h, Client.perform_bind]
  obtain ⟨outcome, last⟩ := c'.perform (Client.notify Command.exit .null)
  cases outcome <;> rfl

/-- If no write fails, then a build succeeds exactly if its calls do. -/
theorem buildRoots_eq_ok_iff {program : Program}
    (hw : (c.perform (s.buildRoots task roots)).2.writing = true) :
    (c.perform (runCalls (s.plan task.options roots))).2.writing = true ∧
      ((c.perform (s.buildRoots task roots)).1 = .ok program ↔
        ∃ found, (c.perform (runCalls (s.plan task.options roots))).1 = .ok found ∧
          program = .ofBuild task.rootNames task.options (roots.map (·.file)) found) := by
  cases hcalls : c.perform (runCalls (s.plan task.options roots)) with
  | mk outcome c' =>
    cases outcome with
    | error e =>
      rw [buildRoots_of_error hcalls] at hw ⊢
      exact ⟨hw, by simp⟩
    | ok found =>
      rw [buildRoots_of_ok hcalls] at hw ⊢
      cases hw' : c'.writing with
      | false => simp [Client.perform_notify_of_stopped hw', hw'] at hw
      | true =>
        obtain ⟨last, -, hexit⟩ := @Client.perform_notify_of_writing c' Command.exit .null hw'
        rw [hexit]
        refine ⟨rfl, ?_⟩
        simp [Except.map, eq_comm]

/-- The writes of a client without bounds succeed. -/
theorem writing_build (h : c.Endless) : (s.build task host c).2.writing = true := by
  rw [(s.build_eq task host c).2]
  have hrun := h.runCalls (s.plan task.options (s.given task host))
  cases hcalls : c.perform (runCalls (s.plan task.options (s.given task host))) with
  | mk outcome c' =>
    rw [hcalls] at hrun
    cases outcome with
    | error e =>
      rw [buildRoots_of_error hcalls]
      exact hrun.1
    | ok found =>
      obtain ⟨last, hc, hexit⟩ := @Client.perform_notify_of_writing c' Command.exit .null hrun.1
      rw [buildRoots_of_ok hcalls, hexit]
      exact (hc.endless hrun).1

end Build

end Session
end BufferCheck.Server
