import BufferCheck.Proofs.Server.Exchange
import Mathlib.Data.List.Forall2

/-! What a build makes of the messages of a server. Each call takes the first response to its own
request from what the calls before it left, and the diagnostics in it belong to the root that the
call was made for. -/
namespace BufferCheck.Server

variable {seq i : Nat} {command : String} {item : Inbound} {queue rest : List Inbound}
  {body : Option Json} {bodies : List (Option Json)} {c : Client} {call : PlannedCall}

/-- A message that says nothing about a request. -/
def Unrelated (seq : Nat) (item : Inbound) : Prop :=
  ∃ v m, item = .message v ∧ Message.ofJson v = .ok m ∧ ∀ r, m = .response r → r.requestSeq ≠ seq

/-- The first response to a request in a queue tells success. -/
def Answered (seq : Nat) (queue : List Inbound) (body : Option Json) (rest : List Inbound) : Prop :=
  ∃ before v r, queue = before ++ .message v :: rest ∧ (∀ item ∈ before, Unrelated seq item) ∧
    Message.ofJson v = .ok (.response r) ∧ r.requestSeq = seq ∧ r.success = true ∧ r.body = body

/-- The responses to requests, the first of which `i` others went before. Each is looked for in what
follows the one before it. -/
inductive Answers : Nat → List Inbound → List (Option Json) → Prop
  | nil (n : Nat) (items : List Inbound) : Answers n items []
  | cons {n : Nat} {items left : List Inbound} {first : Option Json} {others : List (Option Json)}
      (h : Answered (seqAt n) items first left) (hs : Answers (n + 1) left others) :
      Answers n items (first :: others)

section Await

theorem decides?_eq_none_iff : item.decides? seq command = none ↔ Unrelated seq item := by
  constructor
  · intro h
    unfold Inbound.decides? at h
    split at h
    · simp at h
    · simp at h
    · next v =>
      split at h
      · simp at h
      · next r hv =>
        split at h
        · split at h <;> simp at h
        · next hne => exact ⟨v, _, rfl, hv, fun r' hr => by cases hr; exact hne⟩
      · next m hm hv => exact ⟨v, m, rfl, hv, fun r hr => (hm r hr).elim⟩
  · rintro ⟨v, m, rfl, hv, hm⟩
    unfold Inbound.decides?
    cases m with
    | response r => simp [hv, hm r rfl]
    | event => simp [hv]
    | other => simp [hv]

theorem decides?_eq_ok_iff : item.decides? seq command = some (.ok body) ↔
    ∃ v r, item = .message v ∧ Message.ofJson v = .ok (.response r) ∧ r.requestSeq = seq ∧
      r.success = true ∧ r.body = body := by
  constructor
  · intro h
    unfold Inbound.decides? at h
    split at h
    · simp at h
    · simp at h
    · next v =>
      split at h
      · simp at h
      · next r hv =>
        split at h
        · next hseq =>
          split at h
          · next hsuccess => exact ⟨v, r, rfl, hv, hseq, hsuccess, by simpa using h⟩
          · simp at h
        · simp at h
      · simp at h
  · rintro ⟨v, r, rfl, hv, hseq, hsuccess, rfl⟩
    simp [Inbound.decides?, hv, hseq, hsuccess]

theorem await?_eq_ok_iff :
    Inbound.await? seq command queue = some (.ok body, rest) ↔ Answered seq queue body rest := by
  induction queue with
  | nil => simp [Inbound.await?, Answered]
  | cons item queue ih =>
    rw [Inbound.await?]
    constructor
    · intro h
      split at h
      · next outcome hd =>
        obtain ⟨rfl, rfl⟩ := Prod.mk.inj (Option.some.inj h)
        obtain ⟨v, r, rfl, hv⟩ := decides?_eq_ok_iff.mp hd
        exact ⟨[], v, r, rfl, by simp, hv⟩
      · next hd =>
        obtain ⟨before, v, r, rfl, hb, hv⟩ := ih.mp h
        refine ⟨item :: before, v, r, rfl, ?_, hv⟩
        exact List.forall_mem_cons.mpr ⟨decides?_eq_none_iff.mp hd, hb⟩
    · rintro ⟨before, v, r, hq, hb, hv⟩
      cases before with
      | nil =>
        obtain ⟨rfl, rfl⟩ := List.cons.inj hq
        rw [decides?_eq_ok_iff.mpr ⟨v, r, rfl, hv⟩]
      | cons first before =>
        obtain ⟨rfl, rfl⟩ := List.cons.inj hq
        obtain ⟨hf, hb⟩ := List.forall_mem_cons.mp hb
        rw [decides?_eq_none_iff.mpr hf]
        exact ih.mpr ⟨before, v, r, rfl, hb, hv⟩

/-- A wait succeeds exactly if it is answered. -/
theorem perform_await_eq_ok_iff :
    (c.perform (Client.await seq command)).1 = .ok body ∧
        (c.perform (Client.await seq command)).2.inbound = rest ↔
      Answered seq c.inbound body rest := by
  rw [← @await?_eq_ok_iff seq command]
  cases h : Inbound.await? seq command c.inbound with
  | none => simp [Client.perform_await_of_none h]
  | some taken =>
    obtain ⟨outcome, left⟩ := taken
    simp [Client.perform_await_of_some h, mapError_eq_ok_iff]

end Await

section Calls

/-- A call succeeds exactly if it is answered and the body can be read. -/
theorem ask_eq_ok_iff {found : List Diagnostic} (hw : (c.perform (ask call)).2.writing = true) :
    (c.perform (ask call)).1 = .ok found ∧ (c.perform (ask call)).2.inbound = rest ↔
      ∃ body, Answered c.nextSeq c.inbound body rest ∧ call.read body = .ok found := by
  obtain ⟨c', hc, hask⟩ := perform_ask_of_writing call (writing_of_ask call hw)
  obtain ⟨left, hleft⟩ := c'.perform_await_snd c.nextSeq call.command
  rw [hask, hleft] at hw
  rw [hask, ← hc.inbound hw]
  constructor
  · rintro ⟨hok, hrest⟩
    cases hawait : (c'.perform (Client.await c.nextSeq call.command)).1 with
    | error e => simp [hawait, Except.bind] at hok
    | ok body =>
      rw [hawait] at hok
      exact ⟨body, perform_await_eq_ok_iff.mp ⟨hawait, hrest⟩, mapError_eq_ok_iff.mp hok⟩
  · rintro ⟨body, ha, hr⟩
    obtain ⟨hok, hrest⟩ := (@perform_await_eq_ok_iff c.nextSeq call.command _ _ c').mpr ha
    refine ⟨?_, hrest⟩
    rw [hok]
    exact mapError_eq_ok_iff.mpr hr

/-- What calls find in the bodies of their responses. -/
inductive Gathered : List PlannedCall → List (Option Json) → List Diagnostic → Prop
  | nil : Gathered [] [] []
  | cons {first : PlannedCall} {calls answer answers found more} (h : first.read answer = .ok found)
      (hs : Gathered calls answers more) :
      Gathered (first :: calls) (answer :: answers) (found ++ more)

/-- A run of calls succeeds exactly if each is answered after the one before it. -/
theorem runCalls_eq_ok_iff {calls : List PlannedCall} {found : List Diagnostic}
    (hn : c.nextSeq = seqAt i) (hw : (c.perform (runCalls calls)).2.writing = true) :
    (c.perform (runCalls calls)).1 = .ok found ↔
      ∃ bodies, Answers i c.inbound bodies ∧ Gathered calls bodies found := by
  induction calls generalizing c i found with
  | nil =>
    constructor
    · intro h
      obtain rfl : [] = found := by simpa [runCalls, Client.perform_pure] using h
      exact ⟨[], .nil _ _, .nil⟩
    · rintro ⟨bodies, -, ⟨⟩⟩
      rfl
  | cons call rest ih =>
    have hn' := nextSeq_ask call hn
    cases hask : c.perform (ask call) with
    | mk outcome c' =>
      cases outcome with
      | error e =>
        have hw' : (c.perform (ask call)).2.writing = true := by
          rwa [runCalls_of_error hask, ← hask] at hw
        rw [runCalls_of_error hask]
        refine ⟨by simp, ?_⟩
        rintro ⟨bodies, has, hg⟩
        obtain _ | ⟨hr, hg⟩ := hg
        obtain _ | ⟨ha, has⟩ := has
        have hok := ((ask_eq_ok_iff hw').mpr ⟨_, hn ▸ ha, hr⟩).1
        simp [hask] at hok
      | ok first =>
        -- If the last write succeeded then so did this one, and the queue holds only messages.
        rw [runCalls_of_ok hask] at hw ⊢
        have hw' : (c.perform (ask call)).2.writing = true := by
          rw [hask]
          exact writing_of_runCalls hw
        rw [hask] at hn'
        have hin : (c.perform (ask call)).2.inbound = c'.inbound := by rw [hask]
        constructor
        · intro h
          obtain ⟨body, ha, hr⟩ := (ask_eq_ok_iff hw').mp ⟨by rw [hask], hin⟩
          cases hmore : (c'.perform (runCalls rest)).1 with
          | error e => simp [hmore, Except.map] at h
          | ok more =>
            obtain ⟨bodies, has, hg⟩ := (ih hn' hw).mp hmore
            obtain rfl : first ++ more = found := by simpa [hmore, Except.map] using h
            exact ⟨body :: bodies, .cons (hn ▸ ha) has, .cons hr hg⟩
        · rintro ⟨bodies, has, hg⟩
          obtain _ | ⟨hr, hg⟩ := hg
          obtain _ | ⟨ha, has⟩ := has
          obtain ⟨hok, rfl⟩ := (ask_eq_ok_iff hw').mpr ⟨_, hn ▸ ha, hr⟩
          rw [hask] at hok has
          obtain rfl := Except.ok.inj hok
          rw [(ih hn' hw).mpr ⟨_, has, hg⟩]
          rfl

end Calls

/-- A body holds diagnostics: a list of them, or there is none. -/
inductive Holds : Option Json → List Finding → Prop
  | nothing : Holds none []
  | list {items : List Json} {found : List Finding}
      (h : List.Forall₂ (fun v f => Finding.ofJson v = .ok f) items found) :
      Holds (some (.array items)) found

/-- The diagnostic of a file keeps its place. -/
def inFile (file : SourceFile) (f : Finding) : Diagnostic :=
  { file := some file, start := f.start, length := f.length, code := f.code,
    category := f.severity, message := .text f.messageText }

/-- The diagnostic of a project has no place. -/
def inProject (f : Finding) : Diagnostic :=
  { file := none, start := none, length := none, code := f.code, category := f.severity,
    message := .text f.messageText }

/-- What is found file by file, two lists for each, and at last in the project. -/
def attach : List SourceFile → List (List Finding) → List Diagnostic
  | file :: files, syntactic :: semantic :: rest =>
    (syntactic ++ semantic).map (inFile file) ++ attach files rest
  | _, rest => rest.flatten.map inProject

section Reading

variable {found : List Finding} {ds : List Diagnostic} {s : Session} {options : OptionSet}
  {roots : List Root}

theorem mapM_eq_ok_iff {items : List Json} :
    items.mapM Finding.ofJson = .ok found ↔
      List.Forall₂ (fun v f => Finding.ofJson v = .ok f) items found := by
  induction items generalizing found with
  | nil =>
    rw [List.mapM_nil, List.forall₂_nil_left_iff]
    constructor
    · intro h
      exact (Except.ok.inj h).symm
    · rintro rfl
      rfl
  | cons v rest ih =>
    rw [List.mapM_cons, List.forall₂_cons_left_iff]
    cases hv : Finding.ofJson v with
    | error e => simp [bind, Except.bind]
    | ok f =>
      cases hr : rest.mapM Finding.ofJson with
      | error e =>
        simp only [hr] at ih
        simp [bind, Except.bind, ← ih]
      | ok fs =>
        simp only [hr, Except.ok.injEq] at ih
        simp [bind, Except.bind, pure, Except.pure, ← ih]
        exact eq_comm

theorem ofBody?_eq_ok_iff : Finding.ofBody? body = .ok found ↔ Holds body found := by
  constructor
  · intro h
    unfold Finding.ofBody? at h
    split at h
    · rw [← Except.ok.inj h]
      exact .nothing
    · unfold Json.Shape.listOf at h
      split at h
      · exact .list (mapM_eq_ok_iff.mp h)
      · simp at h
  · intro h
    cases h with
    | nothing => rfl
    | list h => exact mapM_eq_ok_iff.mpr h

theorem read_of_dropped (h : call.use = .dropped) : call.read body = .ok ds ↔ ds = [] := by
  rw [PlannedCall.read, h]
  simp [eq_comm]

theorem read_of_diagnostics {file : Option SourceFile} (h : call.use = .diagnostics file) :
    call.read body = .ok ds ↔
      ∃ found, Holds body found ∧ ds = found.map (Finding.toDiagnostic file) := by
  rw [PlannedCall.read, h]
  simp only [← ofBody?_eq_ok_iff]
  cases Finding.ofBody? body <;> simp [eq_comm]

theorem read_askRoot {r : Root} : (s.askRoot command r).read body = .ok ds ↔
    ∃ found, Holds body found ∧ ds = found.map (inFile r.file) :=
  read_of_diagnostics rfl

theorem read_askProject : s.askProject.read body = .ok ds ↔
    ∃ found, Holds body found ∧ ds = found.map inProject :=
  read_of_diagnostics rfl

theorem gathered_cons_iff {calls : List PlannedCall} : Gathered (call :: calls) bodies ds ↔
    ∃ answer answers found more, bodies = answer :: answers ∧ ds = found ++ more ∧
      call.read answer = .ok found ∧ Gathered calls answers more := by
  constructor
  · intro h
    obtain _ | ⟨hr, hg⟩ := h
    exact ⟨_, _, _, _, rfl, rfl, hr, hg⟩
  · rintro ⟨answer, answers, found, more, rfl, rfl, hr, hg⟩
    exact .cons hr hg

/-- The calls for diagnostics find what their bodies hold, each for its own root. -/
theorem gathered_roots_iff : Gathered (roots.flatMap (fun r =>
        [s.askRoot Command.syntacticDiagnostics r, s.askRoot Command.semanticDiagnostics r])
      ++ [s.askProject]) bodies ds ↔
    ∃ found, List.Forall₂ Holds bodies found ∧ found.length = 2 * roots.length + 1 ∧
      ds = attach (roots.map (·.file)) found := by
  induction roots generalizing bodies ds with
  | nil =>
    rw [List.flatMap_nil, List.nil_append, gathered_cons_iff]
    constructor
    · rintro ⟨body, _, _, _, rfl, rfl, hr, ⟨⟩⟩
      obtain ⟨found, hf, rfl⟩ := read_askProject.mp hr
      exact ⟨[found], .cons hf .nil, rfl, by simp [attach]⟩
    · rintro ⟨found, hf, hlen, rfl⟩
      obtain ⟨f, rfl⟩ := List.length_eq_one_iff.mp hlen
      obtain _ | ⟨hf, ⟨⟩⟩ := hf
      exact ⟨_, _, _, _, rfl, by simp [attach], read_askProject.mpr ⟨f, hf, rfl⟩, .nil⟩
  | cons r roots ih =>
    rw [List.flatMap_cons, List.append_assoc, List.cons_append, List.cons_append, List.nil_append,
      gathered_cons_iff]
    constructor
    · rintro ⟨body, _, _, _, rfl, rfl, hr, hg⟩
      obtain ⟨body', bodies, _, more, rfl, rfl, hr', hg'⟩ := gathered_cons_iff.mp hg
      obtain ⟨syntactic, hsyn, rfl⟩ := read_askRoot.mp hr
      obtain ⟨semantic, hsem, rfl⟩ := read_askRoot.mp hr'
      obtain ⟨found, hf, hlen, rfl⟩ := ih.mp hg'
      refine ⟨syntactic :: semantic :: found, .cons hsyn (.cons hsem hf), ?_, by simp [attach]⟩
      simp only [List.length_cons, hlen]
      omega
    · rintro ⟨found, hf, hlen, rfl⟩
      obtain _ | ⟨syntactic, _ | ⟨semantic, more⟩⟩ := found
      · simp at hlen
      · simp at hlen
      · obtain _ | ⟨hsyn, hf⟩ := hf
        obtain _ | ⟨hsem, hf⟩ := hf
        have hmore : more.length = 2 * roots.length + 1 := by
          simp only [List.length_cons] at hlen
          omega
        refine ⟨_, _, _, _, rfl, ?_, read_askRoot.mpr ⟨syntactic, hsyn, rfl⟩, .cons
          (read_askRoot.mpr ⟨semantic, hsem, rfl⟩) (ih.mpr ⟨more, hf, hmore, rfl⟩)⟩
        simp [attach]

theorem gathered_plan_iff : Gathered (s.plan options roots) bodies ds ↔
    ∃ configured opened updated answers found,
      bodies = configured :: opened :: updated :: answers ∧ List.Forall₂ Holds answers found ∧
      found.length = 2 * roots.length + 1 ∧ ds = attach (roots.map (·.file)) found := by
  rw [Session.plan, List.append_assoc]
  constructor
  · intro h
    obtain ⟨configured, _, _, _, rfl, rfl, hr, h⟩ := gathered_cons_iff.mp h
    obtain ⟨opened, _, _, _, rfl, rfl, hr', h⟩ := gathered_cons_iff.mp h
    obtain ⟨updated, answers, _, _, rfl, rfl, hr'', h⟩ := gathered_cons_iff.mp h
    obtain ⟨found, hf, hlen, rfl⟩ := gathered_roots_iff.mp h
    refine ⟨configured, opened, updated, answers, found, rfl, hf, hlen, ?_⟩
    rw [(read_of_dropped rfl).mp hr, (read_of_dropped rfl).mp hr', (read_of_dropped rfl).mp hr'']
    rfl
  · rintro ⟨configured, opened, updated, answers, found, rfl, hf, hlen, rfl⟩
    have h := (gathered_roots_iff (s := s)).mpr ⟨found, hf, hlen, rfl⟩
    exact .cons ((read_of_dropped rfl).mpr rfl) (.cons ((read_of_dropped rfl).mpr rfl)
      (.cons ((read_of_dropped rfl).mpr rfl) h))

end Reading

section Sample

/-- A response that tells success. -/
def sampleReply (seq : Nat) (body : Json) : Inbound :=
  .message (.array [.string "response", .ofNat seq, .bool true, .string "", .null, body])

def sampleFinding : Json := .array [.ofNat 0, .ofNat 1, .string "m", .string "error", .ofNat 7]

/-- What a server says in a build of one root, with an event and a response nobody waits for. -/
def sampleInbound : List Inbound :=
  [.message (.array [.string "event", .string "ready"]), sampleReply 1 .null, sampleReply 2 .null,
    sampleReply 3 .null, sampleReply 1 .null, sampleReply 4 (.array [sampleFinding]),
    sampleReply 5 .null, sampleReply 6 .null]

/-- A host that has one file. -/
def sampleHost : SourceProvider := fun name target =>
  if name = "a.ts" then ⟨some (.ofText name "x" target), []⟩ else ⟨none, ["absent"]⟩

theorem answers_sampleInbound : Answers 0 sampleInbound
    [none, none, none, some (.array [sampleFinding]), none, none] := by
  have hevent : Unrelated (seqAt 0) (.message (.array [.string "event", .string "ready"])) :=
    ⟨_, _, rfl, rfl, by simp⟩
  have hreply : Unrelated (seqAt 3) (sampleReply 1 .null) := by
    refine ⟨_, _, rfl, rfl, ?_⟩
    rintro r ⟨⟩
    decide
  refine .cons ⟨[_], _, _, rfl, by simpa using hevent, rfl, rfl, rfl, rfl⟩ ?_
  refine .cons ⟨[], _, _, rfl, by simp, rfl, rfl, rfl, rfl⟩ ?_
  refine .cons ⟨[], _, _, rfl, by simp, rfl, rfl, rfl, rfl⟩ ?_
  refine .cons ⟨[_], _, _, rfl, by simpa using hreply, rfl, rfl, rfl, rfl⟩ ?_
  refine .cons ⟨[], _, _, rfl, by simp, rfl, rfl, rfl, rfl⟩ ?_
  exact .cons ⟨[], _, _, rfl, by simp, rfl, rfl, rfl, rfl⟩ (.nil _ _)

theorem holds_sampleFinding :
    Holds (some (.array [sampleFinding])) [⟨some 0, some 1, "m", "error", 7, none, none⟩] :=
  .list (.cons rfl .nil)

end Sample

namespace Session

theorem files_given (s : Session) (task : BuildTask) (host : SourceProvider) :
    (s.given task host).map (·.file)
      = task.rootNames.filterMap fun name => (host name task.options.target).file := by
  rw [given, List.map_filterMap]
  simp [Function.comp_def]

/-- A build succeeds exactly if the calls of its plan are answered and their bodies can be read. -/
theorem outcome_build_iff {s : Session} {task : BuildTask} {host : SourceProvider}
    {inbound : List Inbound} {output : Output} {program : Program}
    (hw : (s.build task host { inbound, output }).2.writing = true) :
    (s.build task host { inbound, output }).1.outcome = .ok program ↔
      ∃ found, (∃ bodies, Answers 0 inbound bodies ∧
          Gathered (s.plan task.options (s.given task host)) bodies found) ∧
        program = .ofBuild task.rootNames task.options ((s.given task host).map (·.file)) found := by
  obtain ⟨ho, hc⟩ := s.build_eq task host { inbound, output }
  rw [hc] at hw
  obtain ⟨hw', hiff⟩ := buildRoots_eq_ok_iff hw
  have hn : ({ inbound, output } : Client).nextSeq = seqAt 0 := rfl
  rw [ho, hiff]
  simp only [runCalls_eq_ok_iff hn hw']

/-- A build succeeds exactly if each of its calls is answered in turn, and the bodies of the calls
for diagnostics hold some. The program has the roots that the host gave, and all that was found in
each of them. -/
theorem build_eq_ok_iff (s : Session) (task : BuildTask) (host : SourceProvider)
    (inbound : List Inbound) (output : Output) (program : Program)
    (hw : (s.build task host { inbound, output }).2.writing = true) :
    let files := task.rootNames.filterMap fun name => (host name task.options.target).file
    (s.build task host { inbound, output }).1.outcome = .ok program ↔
      ∃ configured opened updated answers found,
        Answers 0 inbound (configured :: opened :: updated :: answers) ∧
        List.Forall₂ Holds answers found ∧ found.length = 2 * files.length + 1 ∧
        program
          = ⟨task.rootNames, task.options, files, Diagnostic.sorted (attach files found)⟩ := by
  intro files
  have hfiles : (s.given task host).map (·.file) = files := s.files_given task host
  have hlength : (s.given task host).length = files.length := by rw [← hfiles, List.length_map]
  rw [outcome_build_iff hw]
  simp only [gathered_plan_iff, hfiles, hlength]
  constructor
  · rintro ⟨_, ⟨_, ha, configured, opened, updated, answers, found, rfl, hf, hlen, rfl⟩, rfl⟩
    exact ⟨configured, opened, updated, answers, found, ha, hf, hlen, rfl⟩
  · rintro ⟨configured, opened, updated, answers, found, ha, hf, hlen, rfl⟩
    exact ⟨_, ⟨_, ha, configured, opened, updated, answers, found, rfl, hf, hlen, rfl⟩, rfl⟩

theorem build_sampleInbound :
    ((⟨"/p", "q"⟩ : Session).build ⟨["b.ts", "a.ts"], .empty⟩ sampleHost
        { inbound := sampleInbound, output := .fresh none }).2.writing = true ∧
      ((⟨"/p", "q"⟩ : Session).build ⟨["b.ts", "a.ts"], .empty⟩ sampleHost
        { inbound := sampleInbound, output := .fresh none }).1.outcome
          = .ok ⟨["b.ts", "a.ts"], .empty, [.ofText "a.ts" "x" .default],
            Diagnostic.sorted [inFile (.ofText "a.ts" "x" .default)
              ⟨some 0, some 1, "m", "error", 7, none, none⟩]⟩ := by
  have hw := @writing_build ⟨"/p", "q"⟩ ⟨["b.ts", "a.ts"], .empty⟩ sampleHost
    { inbound := sampleInbound, output := .fresh none } ⟨rfl, rfl⟩
  refine ⟨hw, ?_⟩
  exact (build_eq_ok_iff _ _ _ _ _ _ hw).mpr ⟨none, none, none, _, _, answers_sampleInbound,
    .cons holds_sampleFinding (.cons .nothing (.cons .nothing .nil)), rfl, rfl⟩

end Session
end BufferCheck.Server
