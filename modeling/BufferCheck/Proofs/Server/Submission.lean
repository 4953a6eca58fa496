import BufferCheck.Proofs.Fields
import BufferCheck.Proofs.Server.Exchange

/-! What a build submits: the requests of its plan, from the first on and numbered without gaps. It
goes on as long as it is answered, and it ends with `exit` or with an error. -/
namespace BufferCheck.Server

variable {calls made : List PlannedCall} {c : Client} {r : Request} {i : Nat}

/-- The requests of calls, the first of which `i` others went before. -/
def numbered (i : Nat) : List PlannedCall → List Request
  | [] => []
  | call :: rest => ⟨seqAt i, call.command, call.arguments⟩ :: numbered (i + 1) rest

section Numbered

theorem numbered_append (i : Nat) (xs ys : List PlannedCall) :
    numbered i (xs ++ ys) = numbered i xs ++ numbered (i + xs.length) ys := by
  induction xs generalizing i with
  | nil => rfl
  | cons x xs ih =>
    rw [List.cons_append, numbered, ih, numbered, List.cons_append, List.length_cons]
    congr 3
    omega

theorem numbered_mono (h : made <+: calls) : numbered i made <+: numbered i calls := by
  obtain ⟨rest, rfl⟩ := h
  exact ⟨_, (numbered_append i made rest).symm⟩

theorem map_command_numbered (i : Nat) (calls : List PlannedCall) :
    (numbered i calls).map (·.command) = calls.map (·.command) := by
  induction calls generalizing i with
  | nil => rfl
  | cons call rest ih => rw [numbered, List.map_cons, ih, List.map_cons]

theorem exists_call_of_mem_numbered (h : r ∈ numbered i calls) :
    ∃ call ∈ calls, r.command = call.command ∧ r.arguments = call.arguments := by
  induction calls generalizing i with
  | nil => simp [numbered] at h
  | cons call rest ih =>
    rcases List.mem_cons.mp h with rfl | h
    · exact ⟨call, List.mem_cons_self, rfl, rfl⟩
    · obtain ⟨other, ho, hr⟩ := ih h
      exact ⟨other, List.mem_cons_of_mem call ho, hr⟩

theorem seq_of_getElem? {j : Nat} (h : (numbered i calls)[j]? = some r) :
    r.seq = seqAt (i + j) := by
  induction calls generalizing i j with
  | nil => simp [numbered] at h
  | cons call rest ih =>
    cases j with
    | zero =>
      rw [← Option.some.inj h]
      rfl
    | succ j =>
      rw [ih h]
      congr 1
      omega

end Numbered

/-- A call submits its request, or it fails. -/
theorem ask_submitted (call : PlannedCall) (hn : c.nextSeq = seqAt i) :
    (c.perform (ask call)).2.submitted = c.submitted ++ numbered i [call] ∨
      (c.perform (ask call)).2.submitted = c.submitted ∧
        ∃ e, (c.perform (ask call)).1 = .error e := by
  cases hw : c.writing with
  | false =>
    rw [perform_ask_of_stopped call hw]
    exact Or.inr ⟨rfl, _, rfl⟩
  | true =>
    obtain ⟨c', hc, hask⟩ := perform_ask_of_writing call hw
    obtain ⟨rest, hrest⟩ := c'.perform_await_snd c.nextSeq call.command
    rw [hask, hrest, numbered, numbered, ← hn]
    exact Or.inl hc.submitted

/-- A run of calls submits the first of them, and all of them unless it fails. -/
theorem runCalls_submitted (calls : List PlannedCall) (hn : c.nextSeq = seqAt i) :
    ∃ made, made <+: calls ∧
      (c.perform (runCalls calls)).2.submitted = c.submitted ++ numbered i made ∧
      ∀ found, (c.perform (runCalls calls)).1 = .ok found →
        made = calls ∧ (c.perform (runCalls calls)).2.nextSeq = seqAt (i + calls.length) := by
  induction calls generalizing c i with
  | nil => exact ⟨[], List.prefix_rfl, (List.append_nil _).symm, fun _ _ => ⟨rfl, hn⟩⟩
  | cons call rest ih =>
    have hstep := ask_submitted call hn
    have hn' := nextSeq_ask call hn
    cases hask : c.perform (ask call) with
    | mk outcome c' =>
      rw [hask] at hstep hn'
      cases outcome with
      | error e =>
        -- A call that fails has submitted its request, unless it was not even written.
        rw [runCalls_of_error hask]
        rcases hstep with hs | ⟨hs, -⟩
        · exact ⟨[call], ⟨rest, rfl⟩, hs, by simp⟩
        · exact ⟨[], List.nil_prefix, by rw [numbered, List.append_nil, hs], by simp⟩
      | ok found =>
        have hs : c'.submitted = c.submitted ++ numbered i [call] := by simpa using hstep
        obtain ⟨made, hmade, hsub, hall⟩ := ih hn'
        rw [runCalls_of_ok hask]
        refine ⟨call :: made, List.cons_prefix_cons.mpr ⟨rfl, hmade⟩, ?_, ?_⟩
        · rw [hsub, hs, numbered, numbered, numbered, List.append_assoc]
          rfl
        · intro all hok
          cases hrest : (c'.perform (runCalls rest)).1 with
          | error e => simp [hrest, Except.map] at hok
          | ok more =>
            obtain ⟨rfl, hlast⟩ := hall more hrest
            refine ⟨rfl, ?_⟩
            rw [hlast, List.length_cons]
            congr 1
            omega

namespace Session

/-- The call that ends a build. -/
def exitCall : PlannedCall := ⟨Command.exit, .null, .dropped⟩

/-- All calls of a build, with the one that ends it. -/
def wholePlan (s : Session) (options : OptionSet) (roots : List Root) : List PlannedCall :=
  s.plan options roots ++ [exitCall]

/-- A build submits its whole plan, or it fails before the last call of it. -/
theorem build_submitted (s : Session) (task : BuildTask) (host : SourceProvider)
    (hn : c.nextSeq = seqAt 0) (hs : c.submitted = []) :
    ∃ made, (s.build task host c).2.submitted = numbered 0 made ∧
      ((∃ program, (s.build task host c).1.outcome = .ok program) ∧
          made = s.wholePlan task.options (s.given task host) ∨
        (∃ e, (s.build task host c).1.outcome = .error e) ∧
          made <+: s.plan task.options (s.given task host)) := by
  obtain ⟨ho, hc⟩ := s.build_eq task host c
  rw [ho, hc]
  generalize s.given task host = roots
  obtain ⟨made, hmade, hsub, hall⟩ := runCalls_submitted (s.plan task.options roots) hn
  rw [hs, List.nil_append] at hsub
  cases hrun : c.perform (runCalls (s.plan task.options roots)) with
  | mk outcome c' =>
    rw [hrun] at hsub hall
    cases outcome with
    | error e =>
      rw [buildRoots_of_error hrun]
      exact ⟨made, hsub, Or.inr ⟨⟨e, rfl⟩, hmade⟩⟩
    | ok found =>
      obtain ⟨rfl, hn'⟩ := hall found rfl
      rw [buildRoots_of_ok hrun]
      cases hw : c'.writing with
      | false =>
        rw [Client.perform_notify_of_stopped hw]
        exact ⟨_, hsub, Or.inr ⟨⟨_, rfl⟩, List.prefix_rfl⟩⟩
      | true =>
        obtain ⟨last, hlast, hexit⟩ := @Client.perform_notify_of_writing c' Command.exit .null hw
        rw [hexit]
        refine ⟨_, ?_, Or.inl ⟨⟨_, rfl⟩, rfl⟩⟩
        rw [hlast.submitted, hsub, hn', wholePlan, numbered_append]
        rfl

/-- A client that has submitted nothing submits the first requests of the whole plan. -/
theorem exists_made (s : Session) (task : BuildTask) (host : SourceProvider)
    (hn : c.nextSeq = seqAt 0) (hs : c.submitted = []) :
    ∃ made, (s.build task host c).2.submitted = numbered 0 made ∧
      made <+: s.wholePlan task.options (s.given task host) := by
  obtain ⟨made, hsent, hout⟩ := s.build_submitted task host hn hs
  refine ⟨made, hsent, ?_⟩
  rcases hout with ⟨-, rfl⟩ | ⟨-, hm⟩
  · exact List.prefix_rfl
  · exact hm.trans (List.prefix_append _ _)

/-- The commands of a build of some roots. -/
def commands (roots : List Root) : List String :=
  ["configure", "openExternalProject", "updateOpen"]
  ++ roots.flatMap (fun _ => ["syntacticDiagnosticsSync", "semanticDiagnosticsSync"])
  ++ ["compilerOptionsDiagnostics-full", "exit"]

/-- What the objects of a list have under a name. -/
def listed (list name : String) (arguments : Json) : Option (List (Option Json)) :=
  ((arguments.field? list).bind Json.asArray?).map fun items => items.map (·.field? name)

/-- The requests for the diagnostics of files: what is asked for, and of which file. -/
def asked (sent : List Request) : List (String × Option Json) :=
  (sent.filter (·.command ∈ ["syntacticDiagnosticsSync", "semanticDiagnosticsSync"])).map fun r =>
    (r.command, r.arguments.field? "file")

section Plan

variable {s : Session} {options : OptionSet} {roots : List Root}

theorem field?_ofMembers {members : List (String × Json)} {name : String}
    (h : (members.map (·.1)).Nodup) :
    (Json.ofMembers members).field? name = Fields.find? name members := by
  have hx : (Json.ofMembers members).field? name = Fields.find? name (Fields.extend [] members) :=
    rfl
  rw [hx, Fields.find?_extend h]
  exact Option.or_none

@[simp] theorem command_openProject :
    (s.openProject options roots).command = "openExternalProject" := rfl

@[simp] theorem command_openFiles : (s.openFiles roots).command = "updateOpen" := rfl

@[simp] theorem command_askRoot (command : String) (r : Root) :
    (s.askRoot command r).command = command := rfl

@[simp] theorem command_askProject :
    s.askProject.command = "compilerOptionsDiagnostics-full" := rfl

@[simp] theorem command_exitCall : exitCall.command = "exit" := rfl

theorem map_command_wholePlan (s : Session) (options : OptionSet) (roots : List Root) :
    (s.wholePlan options roots).map (·.command) = commands roots := by
  simp [wholePlan, plan, commands, List.map_flatMap, Command.configure,
    Command.syntacticDiagnostics, Command.semanticDiagnostics]

theorem listed_openProject : listed "rootFiles" "fileName" (s.openProject options roots).arguments
    = some (roots.map fun r => some (.string r.path)) := by
  rw [listed, openProject, field?_ofMembers (by simp)]
  change some (List.map _ (List.map _ roots)) = _
  rw [List.map_map]
  exact congrArg some (List.map_congr_left fun r _ => field?_ofMembers (by simp))

theorem listed_openFiles (name : String) :
    listed "openFiles" name (s.openFiles roots).arguments
      = some (roots.map fun r => Fields.find? name [("file", .string r.path),
          ("fileContent", .string r.file.text), ("projectRootPath", .string s.base)]) := by
  rw [listed, openFiles, field?_ofMembers (by simp)]
  change some (List.map _ (List.map _ roots)) = _
  rw [List.map_map]
  exact congrArg some (List.map_congr_left fun r _ => field?_ofMembers (by simp))

theorem eq_of_mem_wholePlan {call : PlannedCall} (h : call ∈ s.wholePlan options roots) :
    (call.command = "openExternalProject" → call = s.openProject options roots) ∧
      (call.command = "updateOpen" → call = s.openFiles roots) := by
  simp only [wholePlan, plan, List.mem_append, List.mem_flatMap, List.mem_cons, List.not_mem_nil,
    or_false] at h
  rcases h with (((rfl | rfl | rfl) | ⟨r, -, rfl | rfl⟩) | rfl) | rfl <;>
    simp [Command.configure, Command.syntacticDiagnostics, Command.semanticDiagnostics]

theorem command_ne_exit_of_mem_plan {call : PlannedCall} (h : call ∈ s.plan options roots) :
    call.command ≠ "exit" := by
  simp only [plan, List.mem_append, List.mem_flatMap, List.mem_cons, List.not_mem_nil,
    or_false] at h
  rcases h with ((rfl | rfl | rfl) | ⟨r, -, rfl | rfl⟩) | rfl <;>
    simp [Command.configure, Command.syntacticDiagnostics, Command.semanticDiagnostics]

theorem asked_numbered (i : Nat) (calls : List PlannedCall) : asked (numbered i calls)
    = (calls.filter (·.command ∈ ["syntacticDiagnosticsSync", "semanticDiagnosticsSync"])).map
        fun call => (call.command, call.arguments.field? "file") := by
  induction calls generalizing i with
  | nil => rfl
  | cons call rest ih =>
    simp only [asked, numbered, List.filter_cons] at ih ⊢
    split
    · rw [List.map_cons, List.map_cons, ih]
    · exact ih (i + 1)

theorem asked_wholePlan : asked (numbered 0 (s.wholePlan options roots))
    = roots.flatMap fun r => [("syntacticDiagnosticsSync", some (.string r.path)),
        ("semanticDiagnosticsSync", some (.string r.path))] := by
  have hfile : ∀ command r,
      (s.askRoot command r).arguments.field? "file" = some (.string r.path) := by
    intro command r
    rw [askRoot, field?_ofMembers (by simp)]
    rfl
  rw [asked_numbered, wholePlan, plan, List.filter_append, List.filter_append, List.filter_append,
    List.filter_flatMap]
  simp [hfile, List.map_flatMap, Command.configure, Command.syntacticDiagnostics,
    Command.semanticDiagnostics]

end Plan

section Made

variable {s : Session} {options : OptionSet} {roots : List Root}

theorem rootFiles_of_made (hmade : made <+: s.wholePlan options roots) (hr : r ∈ numbered i made)
    (hc : r.command = "openExternalProject") :
    listed "rootFiles" "fileName" r.arguments
      = some (roots.map fun root => some (.string root.path)) := by
  obtain ⟨call, hcall, hc', ha⟩ := exists_call_of_mem_numbered hr
  rw [ha, (eq_of_mem_wholePlan (hmade.subset hcall)).1 (hc' ▸ hc), listed_openProject]

theorem openFiles_of_made (hmade : made <+: s.wholePlan options roots) (hr : r ∈ numbered i made)
    (hc : r.command = "updateOpen") (name : String) :
    listed "openFiles" name r.arguments
      = some (roots.map fun root => Fields.find? name [("file", .string root.path),
          ("fileContent", .string root.file.text), ("projectRootPath", .string s.base)]) := by
  obtain ⟨call, hcall, hc', ha⟩ := exists_call_of_mem_numbered hr
  rw [ha, (eq_of_mem_wholePlan (hmade.subset hcall)).2 (hc' ▸ hc), listed_openFiles]

theorem command_ne_exit_of_made (hmade : made <+: s.plan options roots)
    (hr : r ∈ numbered i made) : r.command ≠ "exit" := by
  obtain ⟨call, hcall, hc, -⟩ := exists_call_of_mem_numbered hr
  rw [hc]
  exact command_ne_exit_of_mem_plan (hmade.subset hcall)

/-- The plan up to the last call is shorter than the whole. -/
theorem map_command_ne_of_made (hmade : made <+: s.plan options roots) :
    made.map (·.command) ≠ commands roots := by
  intro h
  have hle := hmade.length_le
  have hlen := congrArg List.length (h.trans (map_command_wholePlan s options roots).symm)
  rw [List.length_map, List.length_map, wholePlan, List.length_append,
    List.length_singleton] at hlen
  omega

end Made

/-- Whatever a server does, a build submits the first requests of its plan, numbered from one, and
all of them exactly if it succeeds. They name the same files in the same order, with the texts that
the host gave. -/
theorem build_submits_plan (s : Session) (task : BuildTask) (host : SourceProvider)
    (inbound : List Inbound) (output : Output) (reading writing : Bool) :
    let built := s.build task host { inbound, output, reading, writing }
    let sent := built.2.submitted
    let roots := s.given task host
    sent.map (·.command) <+: commands roots ∧
      (∀ i r, sent[i]? = some r → r.seq = min (i + 1) (UInt64.size - 1)) ∧
      ((∃ program, built.1.outcome = .ok program) ↔ sent.map (·.command) = commands roots) ∧
      ((∃ e, built.1.outcome = .error e) → ∀ r ∈ sent, r.command ≠ "exit") ∧
      (∀ r ∈ sent, r.command = "openExternalProject" →
        listed "rootFiles" "fileName" r.arguments
          = some (roots.map fun root => some (.string root.path))) ∧
      (∀ r ∈ sent, r.command = "updateOpen" →
        listed "openFiles" "file" r.arguments
            = some (roots.map fun root => some (.string root.path)) ∧
          listed "openFiles" "fileContent" r.arguments
            = some (roots.map fun root => some (.string root.file.text))) ∧
      asked sent <+: roots.flatMap fun root =>
        [("syntacticDiagnosticsSync", some (.string root.path)),
          ("semanticDiagnosticsSync", some (.string root.path))] := by
  intro built sent roots
  obtain ⟨made, hsent, hout⟩ := s.build_submitted task host
    (c := { inbound, output, reading, writing }) rfl rfl
  have hsent : sent = numbered 0 made := hsent
  have hmade : made <+: s.wholePlan task.options roots := by
    rcases hout with ⟨-, rfl⟩ | ⟨-, hm⟩
    · exact List.prefix_rfl
    · exact hm.trans (List.prefix_append _ _)
  rw [hsent, map_command_numbered]
  refine ⟨?_, ?_, ?_, ?_, ?_, ?_, ?_⟩
  · rw [← map_command_wholePlan s task.options]
    exact hmade.map _
  · intro i r hr
    rw [seq_of_getElem? hr, Nat.zero_add, seqAt]
  · rcases hout with ⟨hok, rfl⟩ | ⟨⟨e, he⟩, hm⟩
    · exact iff_of_true hok (map_command_wholePlan s task.options roots)
    · refine iff_of_false ?_ (map_command_ne_of_made hm)
      simp [built, he]
  · rintro ⟨e, he⟩ r hr
    rcases hout with ⟨⟨program, hok⟩, -⟩ | ⟨-, hm⟩
    · simp [built, hok] at he
    · exact command_ne_exit_of_made hm hr
  · intro r hr hc
    exact rootFiles_of_made hmade hr hc
  · intro r hr hc
    exact ⟨openFiles_of_made hmade hr hc "file", openFiles_of_made hmade hr hc "fileContent"⟩
  · rw [← asked_wholePlan]
    exact ((numbered_mono hmade).filter _).map _

end Session
end BufferCheck.Server
