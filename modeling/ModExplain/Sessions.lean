import ModExplain.Directives
import Mathlib.Data.List.Basic

/-!
# What a session starts with

The records of a configuration are those its directives added, in order
(`daemonRun_conf`), so the settings of a session can be read off the events of
the current cycle.  A session reads the records of one server, the one of its
connection; what `<Global>` gives that server counts as read for it, in order.

    the engine is off → the session is like its parent
    an ExplainOptions of the server got as far as its loop → NULL is read
    otherwise → the verbosity of the FIRST accepted ExplainVerbosity of the
                server, no options                        (`session_settings`)
-/

namespace Explain

open Runs

variable {w : Nat}

/-! ## The records of a cycle -/

/-- The name of a directive in `explain_conftab`. -/
def Directive.name : Directive → CStr
  | .explainEngine => lit "ExplainEngine"
  | .explainOptions => lit "ExplainOptions"
  | .explainVerbosity => lit "ExplainVerbosity"

/-- The core hands a directive to the handler of that name. -/
def DaemonEvent.Named : DaemonEvent → Prop
  | .directive d cmd => cmd.argv.head? = some d.name
  | _ => True

/-- The verbosity an `ExplainVerbosity` directive sets, if it is accepted. -/
def verbositySetting (core : Core) (cmd : CmdRec) : Option Nat :=
  if cmd.context ∈ [.root, .virtual, .global] ∧ 2 ≤ cmd.argv.length then
    let arg := cmd.argv.getD 1 []
    if strcasecmp arg (lit "minimal") then some core.prErrorFormatUseMinimal
    else if strcasecmp arg (lit "terse") then some core.prErrorFormatUseTerse
    else if strcasecmp arg (lit "detailed") then some core.prErrorFormatUseDetailed
    else none
  else none

/-- The record a directive leaves behind. -/
def recordAdded (core : Core) : DaemonEvent → Option ConfigRec
  | .directive .explainOptions cmd =>
    if HalfBuilds .explainOptions cmd then some (recordOf cmd none) else none
  | .directive .explainVerbosity cmd =>
    (verbositySetting core cmd).map fun v => recordOf cmd (some v)
  | _ => none

variable {core : Core} {shared : Bool} {p : Proc w}

theorem HandlerStep.conf_options {cmd : CmdRec} {half : Bool} {r : Except ConfError Unit × Proc w}
    (h : HandlerStep cmd p half r) (hfail : ∃ e, r.1 = .error e) :
    r.2.conf = p.conf ++ if half then [recordOf cmd none] else [] := by
  obtain ⟨e, he⟩ := hfail
  cases h with
  | rejects => simp
  | setsEngine => cases he
  | stores => cases he
  | halfBuilds => simp

/-- No option is accepted. -/
theorem setExplainoptions_fails (cmd : CmdRec) (p : Proc w) :
    ∃ e, (setExplainoptions cmd p).1 = .error e := by
  unfold setExplainoptions
  split
  · exact ⟨_, rfl⟩
  · split
    · exact ⟨_, rfl⟩
    · dsimp only
      split
      · exact ⟨_, rfl⟩
      · rename_i hargs _ hdrop
        have hlen := congrArg List.length hdrop
        rw [List.length_drop, List.length_nil] at hlen
        omega

theorem setExplainverbosity_conf (cmd : CmdRec) (p : Proc w) :
    (setExplainverbosity core cmd p).2.conf =
      p.conf ++ ((verbositySetting core cmd).map fun v => recordOf cmd (some v)).toList := by
  have hargs : checkArgs cmd 1 = true ↔ 2 ≤ cmd.argv.length := by
    unfold checkArgs
    rw [decide_eq_true_iff]
    omega
  have hparse (hc : cmd.context ∈ [.root, .virtual, .global]) (ha : 2 ≤ cmd.argv.length) :
      verbositySetting core cmd =
        if strcasecmp (cmd.argv.getD 1 []) (lit "minimal") then some core.prErrorFormatUseMinimal
        else if strcasecmp (cmd.argv.getD 1 []) (lit "terse") then some core.prErrorFormatUseTerse
        else if strcasecmp (cmd.argv.getD 1 []) (lit "detailed") then
          some core.prErrorFormatUseDetailed
        else none := if_pos ⟨hc, ha⟩
  have hnone (h : ¬ (cmd.context ∈ [.root, .virtual, .global] ∧ 2 ≤ cmd.argv.length)) :
      verbositySetting core cmd = none := by
    unfold verbositySetting
    exact if_neg h
  unfold setExplainverbosity
  simp only [setArgv0_addConfigParam, checkConf_iff, hargs]
  by_cases hc : cmd.context ∈ [.root, .virtual, .global]
  · by_cases ha : 2 ≤ cmd.argv.length
    · rw [if_neg (not_not_intro hc), if_neg (not_not_intro ha), hparse hc ha]
      by_cases h1 : strcasecmp (cmd.argv.getD 1 []) (lit "minimal")
      · simp only [if_pos h1]
        rfl
      by_cases h2 : strcasecmp (cmd.argv.getD 1 []) (lit "terse")
      · simp only [if_neg h1, if_pos h2]
        rfl
      by_cases h3 : strcasecmp (cmd.argv.getD 1 []) (lit "detailed")
      · simp only [if_neg h1, if_neg h2, if_pos h3]
        rfl
      · simp only [if_neg h1, if_neg h2, if_neg h3]
        exact (List.append_nil _).symm
    · rw [if_neg (not_not_intro hc), if_pos ha, hnone fun h => ha h.2]
      exact (List.append_nil _).symm
  · rw [if_pos hc, hnone fun h => hc h.1]
    exact (List.append_nil _).symm

/-- **One directive** adds its record at the end. -/
theorem handler_conf_eq (d : Directive) (cmd : CmdRec) (p : Proc w) :
    (d.handler core cmd p).2.conf = p.conf ++ (recordAdded core (.directive d cmd)).toList := by
  cases d with
  | explainEngine =>
    show (setExplainengine core cmd p).2.conf = _
    rw [(setExplainengine_eq core cmd p).1]
    simp [recordAdded]
  | explainOptions =>
    rw [(handler_step core .explainOptions cmd p).conf_options (setExplainoptions_fails cmd p)]
    by_cases h : HalfBuilds .explainOptions cmd <;> simp [recordAdded, h]
  | explainVerbosity => exact setExplainverbosity_conf cmd p

/-- What `core.postparse` does: nothing, the engine goes off, or an explainer is
registered from the current pool. -/
theorem explainPostparseEv_cases (succeeds : Bool) (p : Proc w) :
    explainPostparseEv succeeds p = p ∨
    explainPostparseEv succeeds p = { p with explainEngine := false } ∨
    ∃ pool, p.explainPool = some pool ∧ explainPostparseEv succeeds p =
      { p with explainer := some ⟨pool, lit "explain", explainerFields⟩ } := by
  obtain ⟨pool, _, engine, _, _, _, _, _, explainer, _, _⟩ := p
  cases engine with
  | false => exact Or.inl rfl
  | true =>
    refine Or.inr ?_
    cases pool with
    | none => exact Or.inl rfl
    | some pool =>
      cases explainer with
      | some explainer => exact Or.inl rfl
      | none =>
        cases succeeds with
        | false => exact Or.inl rfl
        | true => exact Or.inr ⟨pool, rfl, rfl⟩

theorem explainPostparseEv_conf (succeeds : Bool) (p : Proc w) :
    (explainPostparseEv succeeds p).conf = p.conf := by
  rcases explainPostparseEv_cases succeeds p with h | h | ⟨pool, -, h⟩ <;> rw [h]

theorem destroyPool_conf (pool : Option Pool) (p : Proc w) : (destroyPool pool p).conf = p.conf := by
  cases pool <;> rfl

/-- Everything but a directive and a restart leaves the records alone. -/
theorem daemonStep_conf (p : Proc w) (e : DaemonEvent) :
    (daemonStep core p e).conf =
      match e with
      | .restart => []
      | e => p.conf ++ (recordAdded core e).toList := by
  cases e with
  | directive d cmd => exact handler_conf_eq d cmd p
  | postparse succeeds =>
    show (if _ then explainPostparseEv succeeds p else p).conf = p.conf ++ []
    rw [List.append_nil]
    split
    · exact explainPostparseEv_conf succeeds p
    · rfl
  | session => exact (List.append_nil _).symm
  | restart => rfl
  | shutdown =>
    show (if _ then explainShutdownEv p else p).conf = p.conf ++ []
    rw [List.append_nil]
    split
    · exact destroyPool_conf _ _
    · rfl
  | moduleUnload name =>
    show (if _ then explainModUnloadEv name p else p).conf = p.conf ++ []
    rw [List.append_nil]
    unfold explainModUnloadEv
    split
    · split
      · exact destroyPool_conf _ _
      · rfl
    · rfl

/-- **The records** are those added in the current cycle. -/
theorem daemonRun_conf (es : List DaemonEvent) :
    (daemonRun w core shared es).conf = (currentCycle es).filterMap (recordAdded core) := by
  refine after_inv (s := (daemonStart core shared : Proc w))
    (fun es p => p.conf = (currentCycle es).filterMap (recordAdded core)) ?_ ?_ es
  · cases shared <;> rfl
  · intro es e p ih
    rw [daemonStep_conf]
    by_cases he : e = .restart
    · subst he
      rw [currentCycle_restart]
      rfl
    · rw [currentCycle_snoc he, List.filterMap_append, ← ih]
      have hone : [e].filterMap (recordAdded core) = (recordAdded core e).toList := by
        cases h : recordAdded core e <;> simp [h]
      rw [hone]
      cases e with
      | restart => exact absurd rfl he
      | _ => rfl

/-- A cycle is made of events of the run. -/
theorem mem_of_mem_currentCycle {es : List DaemonEvent} {e : DaemonEvent} :
    e ∈ currentCycle es → e ∈ es := by
  refine after_inv (s := ([] : List DaemonEvent)) (fun es cycle => e ∈ cycle → e ∈ es)
    (fun h => h) (fun es e' cycle ih h => ?_) es
  have hcase : e ∈ cycle ++ [e'] ∨ e ∈ ([] : List DaemonEvent) := by
    cases e' with
    | restart => exact Or.inr h
    | _ => exact Or.inl h
  rcases hcase with hm | hm
  · rcases List.mem_append.1 hm with hm | hm
    · exact List.mem_append_left _ (ih hm)
    · exact List.mem_append_right _ hm
  · cases hm

/-! ## The parent's own settings -/

/-- The parent's settings are those of load time: only sessions change theirs. -/
structure Defaults (core : Core) (p : Proc w) : Prop where
  verbosity : p.explainVerbosity = core.prErrorFormatUseDetailed
  opts : p.explainOpts = 0
  platform : p.platform = .initial
  formats : p.errorFormats = none

theorem Defaults.of_eq {q : Proc w} (h : Defaults core p)
    (hv : q.explainVerbosity = p.explainVerbosity) (ho : q.explainOpts = p.explainOpts)
    (hp : q.platform = p.platform) (hf : q.errorFormats = p.errorFormats) : Defaults core q :=
  ⟨hv.trans h.verbosity, ho.trans h.opts, hp.trans h.platform, hf.trans h.formats⟩

theorem explainPostparseEv_defaults (h : Defaults core p) (succeeds : Bool) :
    Defaults core (explainPostparseEv succeeds p) := by
  rcases explainPostparseEv_cases succeeds p with heq | heq | ⟨pool, -, heq⟩ <;> rw [heq]
  · exact h
  · exact h.of_eq rfl rfl rfl rfl
  · exact h.of_eq rfl rfl rfl rfl

theorem destroyPool_unregister_defaults (h : Defaults core p) :
    Defaults core (destroyPool p.explainPool (prErrorUnregisterExplainer p)) := by
  have hun : Defaults core (prErrorUnregisterExplainer p) := h.of_eq rfl rfl rfl rfl
  cases p.explainPool with
  | none => exact hun
  | some pool => exact hun.of_eq rfl rfl rfl rfl

/-- Every event keeps them. -/
theorem daemonStep_defaults (h : Defaults core p) (e : DaemonEvent) :
    Defaults core (daemonStep core p e) := by
  cases e with
  | directive d cmd =>
    by_cases hd : d = .explainEngine
    · subst hd
      show Defaults core (setExplainengine core cmd p).2
      rw [(setExplainengine_eq core cmd p).1]
      exact h.of_eq rfl rfl rfl rfl
    · obtain ⟨conf, hconf⟩ := handler_conf core hd cmd p
      show Defaults core (d.handler core cmd p).2
      rw [hconf]
      exact h.of_eq rfl rfl rfl rfl
  | postparse succeeds =>
    show Defaults core (if _ then explainPostparseEv succeeds p else p)
    split
    · exact explainPostparseEv_defaults h succeeds
    · exact h
  | session => exact h
  | restart =>
    show Defaults core { (if _ then explainRestartEv p else p) with conf := [] }
    split
    · exact (destroyPool_unregister_defaults h).of_eq rfl rfl rfl rfl
    · exact h.of_eq rfl rfl rfl rfl
  | shutdown =>
    show Defaults core (if _ then explainShutdownEv p else p)
    split
    · exact (destroyPool_unregister_defaults h).of_eq rfl rfl rfl rfl
    · exact h
  | moduleUnload name =>
    show Defaults core (if _ then explainModUnloadEv name p else p)
    unfold explainModUnloadEv
    split
    · split
      · have hdeaf : Defaults core (prEventUnregister p) :=
          ⟨h.verbosity, h.opts, by unfold prEventUnregister; rw [h.platform]; rfl, h.formats⟩
        exact (destroyPool_unregister_defaults hdeaf).of_eq rfl rfl rfl rfl
      · exact h
    · exact h

theorem daemonRun_defaults (es : List DaemonEvent) :
    Defaults core (daemonRun w core shared es) := by
  refine after_inv (s := (daemonStart core shared : Proc w)) (fun _ p => Defaults core p) ?_
    (fun es e p h => daemonStep_defaults h e) es
  constructor <;> cases shared <;> rfl

/-! ## What a session makes of them -/

/-- The verbosity an accepted directive sets for the main server. -/
def mainVerbosity (core : Core) (mainServer : Nat) : DaemonEvent → Option Nat
  | .directive .explainVerbosity cmd =>
    if cmd.server = mainServer then verbositySetting core cmd else none
  | _ => none

/-- The first accepted `ExplainVerbosity` of the main server in a cycle. -/
def firstVerbosity (core : Core) (mainServer : Nat) (cycle : List DaemonEvent) : Option Nat :=
  (cycle.filterMap (mainVerbosity core mainServer)).head?

/-- The directive leaves the main server a record with a NULL value. -/
def leavesNull (mainServer : Nat) : DaemonEvent → Bool
  | .directive .explainOptions cmd =>
    decide (HalfBuilds .explainOptions cmd ∧ cmd.server = mainServer)
  | _ => false

/-- The record is one `find_config` returns for the name. -/
def isMainRecord (mainServer : Nat) (name : CStr) (c : ConfigRec) : Bool :=
  c.server = mainServer ∧ c.name = name

theorem recordOf_name {d : Directive} {cmd : CmdRec} (h : cmd.argv.head? = some d.name)
    (argv0 : Option Nat) : recordOf cmd argv0 = ⟨cmd.server, d.name, argv0⟩ := by
  cases hargv : cmd.argv with
  | nil =>
    rw [hargv] at h
    cases h
  | cons arg args =>
    rw [hargv, List.head?_cons, Option.some.injEq] at h
    unfold recordOf
    rw [hargv, List.getD_cons_zero, h]

/-- The records `find_config` finds are those of the directive of that name. -/
theorem filter_recordAdded_verbosity (mainServer : Nat) {e : DaemonEvent} (h : e.Named) :
    (recordAdded core e).filter (isMainRecord mainServer (lit "ExplainVerbosity")) =
      (mainVerbosity core mainServer e).map fun v => ⟨mainServer, lit "ExplainVerbosity", some v⟩ := by
  cases e with
  | directive d cmd =>
    cases d with
    | explainEngine => rfl
    | explainOptions =>
      have hne : ¬ isMainRecord mainServer (lit "ExplainVerbosity") (recordOf cmd none) = true := by
        rw [recordOf_name (d := .explainOptions) h]
        simp only [isMainRecord, decide_eq_true_eq, not_and]
        exact fun _ => by decide
      show ((if _ then some (recordOf cmd none) else none) : Option ConfigRec).filter _ = none
      split
      · rw [Option.filter_some, if_neg hne]
      · rfl
    | explainVerbosity =>
      show ((verbositySetting core cmd).map fun v => recordOf cmd (some v)).filter _ =
        (if cmd.server = mainServer then verbositySetting core cmd else none).map _
      cases verbositySetting core cmd with
      | none => split <;> rfl
      | some v =>
        rw [Option.map_some, Option.filter_some, recordOf_name (d := .explainVerbosity) h]
        by_cases hs : cmd.server = mainServer
        · simp [isMainRecord, hs, Directive.name]
        · simp [isMainRecord, hs]
  | _ => rfl

theorem filter_recordAdded_options (mainServer : Nat) {e : DaemonEvent} (h : e.Named) :
    (recordAdded core e).filter (isMainRecord mainServer (lit "ExplainOptions")) =
      if leavesNull mainServer e then some ⟨mainServer, lit "ExplainOptions", none⟩ else none := by
  cases e with
  | directive d cmd =>
    cases d with
    | explainEngine => rfl
    | explainOptions =>
      show ((if _ then some (recordOf cmd none) else none) : Option ConfigRec).filter _ = _
      unfold leavesNull
      by_cases hhalf : HalfBuilds .explainOptions cmd
      · rw [if_pos hhalf, Option.filter_some, recordOf_name (d := .explainOptions) h]
        by_cases hs : cmd.server = mainServer
        · simp [isMainRecord, hs, Directive.name, hhalf]
        · simp [isMainRecord, hs]
      · simp [hhalf]
    | explainVerbosity =>
      show ((verbositySetting core cmd).map fun v => recordOf cmd (some v)).filter _ = none
      cases verbositySetting core cmd with
      | none => rfl
      | some v =>
        have hne : ¬ isMainRecord mainServer (lit "ExplainOptions") (recordOf cmd (some v)) = true := by
          rw [recordOf_name (d := .explainVerbosity) h]
          simp only [isMainRecord, decide_eq_true_eq, not_and]
          exact fun _ => by decide
        rw [Option.map_some, Option.filter_some, if_neg hne]
  | _ => rfl

theorem collectOpts_null {cs : List ConfigRec} (h : ∀ c ∈ cs, c.argv0 = none) (opts : Nat) :
    collectOpts cs opts = if cs = [] then some opts else none := by
  cases cs with
  | nil => rfl
  | cons c cs =>
    unfold collectOpts
    simp only [h c List.mem_cons_self]
    rfl

section Run

variable {es : List DaemonEvent} (hnamed : ∀ e ∈ es, e.Named) (mainServer : Nat)
include hnamed

theorem findConfig_verbosity :
    findConfig mainServer (lit "ExplainVerbosity") (daemonRun w core shared es) =
      ((currentCycle es).filterMap (mainVerbosity core mainServer)).map
        fun v => ⟨mainServer, lit "ExplainVerbosity", some v⟩ := by
  show (daemonRun w core shared es).conf.filter (isMainRecord mainServer (lit "ExplainVerbosity")) = _
  rw [daemonRun_conf, List.filter_filterMap, List.map_filterMap]
  exact List.filterMap_congr fun e he =>
    filter_recordAdded_verbosity mainServer (hnamed e (mem_of_mem_currentCycle he))

/-- None of the records of `ExplainOptions` has a value. -/
theorem findConfig_options :
    findConfig mainServer (lit "ExplainOptions") (daemonRun w core shared es) =
      ((currentCycle es).filter (leavesNull mainServer)).map
        fun _ => ⟨mainServer, lit "ExplainOptions", none⟩ := by
  show (daemonRun w core shared es).conf.filter (isMainRecord mainServer (lit "ExplainOptions")) = _
  rw [daemonRun_conf, List.filter_filterMap, ← List.filterMap_eq_filter, List.map_filterMap]
  apply List.filterMap_congr
  intro e he
  rw [filter_recordAdded_options mainServer (hnamed e (mem_of_mem_currentCycle he))]
  cases h : leavesNull mainServer e <;> simp [Option.guard, h]

/-- A record of `ExplainOptions` is all it takes to read NULL. -/
theorem options_read (opts : Nat) :
    collectOpts (findConfig mainServer (lit "ExplainOptions") (daemonRun w core shared es)) opts =
      if (currentCycle es).any (leavesNull mainServer) then none else some opts := by
  have hnull : ∀ c ∈ findConfig mainServer (lit "ExplainOptions") (daemonRun w core shared es),
      c.argv0 = none := by
    intro c hc
    rw [findConfig_options hnamed mainServer] at hc
    obtain ⟨_, -, rfl⟩ := List.mem_map.1 hc
    rfl
  rw [collectOpts_null hnull, findConfig_options hnamed]
  · cases hany : (currentCycle es).any (leavesNull mainServer) with
    | false =>
      rw [if_pos]
      · rfl
      · rw [List.map_eq_nil_iff, List.filter_eq_nil_iff]
        intro e he h
        exact absurd (List.any_eq_true.2 ⟨e, he, h⟩) (by rw [hany]; exact Bool.false_ne_true)
    | true =>
      obtain ⟨e, he, h⟩ := List.any_eq_true.1 hany
      rw [if_neg]
      · rfl
      · intro hnil
        rw [List.map_eq_nil_iff, List.filter_eq_nil_iff] at hnil
        exact hnil e he h

/-- What a session of the server reads after any run. -/
theorem sessSettings_run :
    sessSettings mainServer (daemonRun w core shared es) =
      if (currentCycle es).any (leavesNull mainServer) then none
      else
        some ((firstVerbosity core mainServer (currentCycle es)).getD core.prErrorFormatUseDetailed,
          0) := by
  have hdef : Defaults core (daemonRun w core shared es) := daemonRun_defaults es
  unfold sessSettings firstVerbosity
  rw [findConfig_verbosity hnamed, options_read hnamed, hdef.opts, hdef.verbosity]
  -- the first record decides, the default without one
  cases (currentCycle es).filterMap (mainVerbosity core mainServer) with
  | nil => cases (currentCycle es).any (leavesNull mainServer) <;> rfl
  | cons v vs => cases (currentCycle es).any (leavesNull mainServer) <;> rfl

/-- What `explain_sess_init` does after any run. -/
theorem explainSessInit_run :
    let p := daemonRun w core shared es
    explainSessInit mainServer p =
      if p.explainEngine = false then some p
      else if (currentCycle es).any (leavesNull mainServer) then none
      else
        let verbosity :=
          (firstVerbosity core mainServer (currentCycle es)).getD core.prErrorFormatUseDetailed
        some { p with
          platform := ⟨-1, -1, -1, true⟩
          explainVerbosity := verbosity
          errorFormats := some verbosity
          explainOpts := 0 } := by
  intro p
  have hread : sessSettings mainServer p = _ := sessSettings_run hnamed mainServer
  rw [explainSessInit_eq, hread]
  cases (currentCycle es).any (leavesNull mainServer) <;> rfl

end Run

/-- **Sessions.**  Where sessions start, for the server of their connection: with
the engine off the session is its parent; with it on NULL is read exactly when an
`ExplainOptions` of that server got as far as its loop in this cycle, and
otherwise the session explains with the verbosity of the cycle's first accepted
`ExplainVerbosity` of that server. -/
theorem session_settings {es : List DaemonEvent} (hnamed : ∀ e ∈ es, e.Named)
    (h : phaseOf shared es = some .running) (mainServer : Nat) :
    let p := daemonRun w core shared es
    let cycle := currentCycle es
    let on := (lastSetting core cycle).getD true = true ∧ .postparse true ∈ cycle
    let verbosity := (firstVerbosity core mainServer cycle).getD core.prErrorFormatUseDetailed
    (¬ on → explainSessInit mainServer p = some p) ∧
    (on → (explainSessInit mainServer p = none ↔ ∃ e ∈ cycle, leavesNull mainServer e = true) ∧
      ∀ child, explainSessInit mainServer p = some child →
        child.explainVerbosity = verbosity ∧ child.errorFormats = some verbosity ∧
          child.explainOpts = 0 ∧ child.platform = ⟨-1, -1, -1, true⟩ ∧
          child.explainer.isSome = true) := by
  intro p cycle on verbosity
  have hinv : RunningInv core shared cycle p := daemonRun_inv es .running h
  have hinit : explainSessInit mainServer p = _ := explainSessInit_run hnamed mainServer
  constructor
  · intro hoff
    have heng : p.explainEngine = false := by simpa using mt hinv.flag.1 hoff
    exact hinit.trans (if_pos heng)
  · intro hon
    have heng : p.explainEngine = true := hinv.flag.2 hon
    have hgo : ¬ p.explainEngine = false := by simp [heng]
    have hinit := hinit.trans (if_neg hgo)
    by_cases hnull : cycle.any (leavesNull mainServer) = true
    · rw [if_pos hnull] at hinit
      refine ⟨⟨fun _ => List.any_eq_true.1 hnull, fun _ => hinit⟩, fun child hchild => ?_⟩
      rw [hinit] at hchild
      cases hchild
    · rw [if_neg hnull] at hinit
      refine ⟨⟨fun hnone => ?_, fun hex => absurd (List.any_eq_true.2 hex) hnull⟩,
        fun child hchild => ?_⟩
      · rw [hinit] at hnone
        cases hnone
      · rw [hinit] at hchild
        cases hchild
        exact ⟨rfl, rfl, rfl, rfl, hinv.registered.2 heng⟩

/-- `ExplainVerbosity minimal`, of a virtual host -/
def verbosityMinimal (server : Nat) : CmdRec :=
  ⟨[lit "ExplainVerbosity", lit "minimal"], server, .virtual⟩

/-- `terse`, then `minimal`, for one server, `minimal` for another. -/
def terseThenMinimal : List DaemonEvent :=
  [.directive .explainVerbosity verbosityTerse, .directive .explainVerbosity (verbosityMinimal 0),
    .directive .explainVerbosity (verbosityMinimal 1), .postparse true]

theorem session_settings_terseThenMinimal :
    (explainSessInit 0 (daemonRun 64 onOffCore true terseThenMinimal)).map Proc.explainVerbosity =
        some onOffCore.prErrorFormatUseTerse ∧
      (explainSessInit 1 (daemonRun 64 onOffCore true terseThenMinimal)).map Proc.explainVerbosity =
        some onOffCore.prErrorFormatUseMinimal := by
  have hnamed : ∀ e ∈ terseThenMinimal, e.Named := by
    intro e he
    simp only [terseThenMinimal, List.mem_cons, List.not_mem_nil, or_false] at he
    rcases he with rfl | rfl | rfl | rfl <;> first | rfl | trivial
  have hon : DaemonEvent.postparse true ∈ currentCycle terseThenMinimal := by
    show _ ∈ terseThenMinimal
    simp [terseThenMinimal]
  have hread (mainServer : Nat) :
      (explainSessInit mainServer (daemonRun 64 onOffCore true terseThenMinimal)).map
          Proc.explainVerbosity =
        some ((firstVerbosity onOffCore mainServer terseThenMinimal).getD 2) := by
    obtain ⟨hnull, hchild⟩ := (@session_settings 64 onOffCore true _ hnamed (by decide)
      mainServer).2 ⟨by decide, hon⟩
    cases h : explainSessInit mainServer (daemonRun 64 onOffCore true terseThenMinimal) with
    | none =>
      obtain ⟨e, he, hleaves⟩ := hnull.1 h
      have hmem : e ∈ terseThenMinimal := he
      simp only [terseThenMinimal, List.mem_cons, List.not_mem_nil, or_false] at hmem
      rcases hmem with rfl | rfl | rfl | rfl <;> cases hleaves
    | some child => exact congrArg some (hchild child h).1
  exact ⟨(hread 0).trans (by decide), (hread 1).trans (by decide)⟩

end Explain
