import ModExplain.Module
import ModExplain.Lib.Runs

/-!
# The life cycle of the registration

The server reads a configuration, announces `core.postparse`, forks sessions,
and on `core.restart` begins again, until it shuts down or unloads the module.
`Inv` ties the engine flag, the pool and the registered explainer to the events
of the current cycle; every event a phase allows keeps it (`daemonStep_inv`).

* a registered explainer lives in the current pool   (`registration_life_cycle`)
* where sessions start, one is registered iff the engine is on iff the last
  accepted `ExplainEngine` did not turn it off and the core agreed to register
-/

namespace Explain

open Runs

variable {w : Nat}

/-- What happens to the server. -/
inductive DaemonEvent where
  | directive (d : Directive) (cmd : CmdRec)
  /-- `succeeds`: would the core register an explainer? -/
  | postparse (succeeds : Bool)
  | session
  | restart
  | shutdown
  | moduleUnload (name : CStr)

inductive Phase where
  | config
  | running
  | ended
deriving DecidableEq, Repr

/-- The phase after an event the phase allows.  Other modules may be unloaded
at any time. -/
def Phase.next (shared : Bool) : Phase → DaemonEvent → Option Phase
  | .config, .directive _ _ => some .config
  | .config, .postparse _ => some .running
  | .running, .session => some .running
  | .running, .restart => some .config
  | .ended, _ => none
  | _, .shutdown => some .ended
  | ph, .moduleUnload name =>
    if shared = true ∧ name = lit "mod_explain.c" then some .ended else some ph
  | _, _ => none

/-- The phase after a run, `none` when the server takes no such run. -/
def phaseOf (shared : Bool) (es : List DaemonEvent) : Option Phase :=
  after (fun ph e => ph.bind fun ph => ph.next shared e) (some .config) es

/-- The events reach the module's registered listeners.  A session runs
`explain_sess_init` in a copy; on restart the core drops the records it is
about to read anew. -/
def daemonStep (core : Core) (p : Proc w) : DaemonEvent → Proc w
  | .directive d cmd => (d.handler core cmd p).2
  | .postparse succeeds => if .postparse ∈ p.listeners then explainPostparseEv succeeds p else p
  | .session => p
  | .restart => { if .restart ∈ p.listeners then explainRestartEv p else p with conf := [] }
  | .shutdown => if .shutdown ∈ p.listeners then explainShutdownEv p else p
  | .moduleUnload name => if .moduleUnload ∈ p.listeners then explainModUnloadEv name p else p

def daemonStart (core : Core) (shared : Bool) : Proc w := explainInit shared (Proc.load core)

/-! ## The current cycle -/

/-- The events since the last restart. -/
def currentCycle (es : List DaemonEvent) : List DaemonEvent :=
  after (fun cycle e => match e with | .restart => [] | e => cycle ++ [e]) [] es

/-- The value an `ExplainEngine` directive sets, if it is accepted. -/
def engineSetting (core : Core) : DaemonEvent → Option Bool
  | .directive .explainEngine cmd =>
    if cmd.context = .root ∧ 2 ≤ cmd.argv.length then core.getBoolean (cmd.argv.getD 1 []) else none
  | _ => none

/-- The value of the last accepted `ExplainEngine` directive. -/
def lastSetting (core : Core) (cycle : List DaemonEvent) : Option Bool :=
  (cycle.filterMap (engineSetting core)).getLast?

theorem lastSetting_snoc (core : Core) (cycle : List DaemonEvent) (e : DaemonEvent) :
    lastSetting core (cycle ++ [e]) = (engineSetting core e).or (lastSetting core cycle) := by
  unfold lastSetting
  rw [List.filterMap_append, List.getLast?_append]
  cases h : engineSetting core e <;> simp [h]

theorem phaseOf_snoc (shared : Bool) (es : List DaemonEvent) (e : DaemonEvent) :
    phaseOf shared (es ++ [e]) = (phaseOf shared es).bind fun ph => ph.next shared e :=
  after_snoc _ _ _ _

theorem currentCycle_snoc {es : List DaemonEvent} {e : DaemonEvent} (h : e ≠ .restart) :
    currentCycle (es ++ [e]) = currentCycle es ++ [e] := by
  unfold currentCycle
  rw [after_snoc]
  cases e with
  | restart => exact absurd rfl h
  | _ => rfl

theorem currentCycle_restart (es : List DaemonEvent) : currentCycle (es ++ [.restart]) = [] := by
  unfold currentCycle
  rw [after_snoc]

/-! ## What a directive changes -/

/-- An accepted `ExplainEngine` sets the flag, a rejected one nothing. -/
theorem setExplainengine_eq (core : Core) (cmd : CmdRec) (p : Proc w) :
    (setExplainengine core cmd p).2 =
        { p with
          explainEngine :=
            (engineSetting core (.directive .explainEngine cmd)).getD p.explainEngine } ∧
      ((setExplainengine core cmd p).1 = .ok () ↔
        (engineSetting core (.directive .explainEngine cmd)).isSome = true) := by
  have hconf : checkConf cmd [.root] = true ↔ cmd.context = .root := by simp [checkConf]
  have hargs : checkArgs cmd 1 = true ↔ 2 ≤ cmd.argv.length := by
    unfold checkArgs
    rw [decide_eq_true_iff]
    omega
  unfold setExplainengine engineSetting
  simp only [hconf, hargs]
  by_cases hc : cmd.context = .root
  · by_cases ha : 2 ≤ cmd.argv.length
    · cases hb : core.getBoolean (cmd.argv.getD 1 []) <;> simp [hc, ha]
    · simp [hc, ha]
  · simp [hc]

/-- The other two change the records only. -/
theorem handler_conf (core : Core) {d : Directive} (hd : d ≠ .explainEngine) (cmd : CmdRec)
    (p : Proc w) : ∃ conf, (d.handler core cmd p).2 = { p with conf } := by
  cases d with
  | explainEngine => exact absurd rfl hd
  | explainOptions =>
    show ∃ conf, (setExplainoptions cmd p).2 = { p with conf }
    unfold setExplainoptions
    split
    · exact ⟨p.conf, rfl⟩
    · split
      · exact ⟨p.conf, rfl⟩
      · dsimp only
        split
        · exact ⟨_, rfl⟩
        · exact ⟨_, rfl⟩
  | explainVerbosity =>
    show ∃ conf, (setExplainverbosity core cmd p).2 = { p with conf }
    unfold setExplainverbosity
    split
    · exact ⟨p.conf, rfl⟩
    · split
      · exact ⟨p.conf, rfl⟩
      · dsimp only
        split
        · exact ⟨_, rfl⟩
        · split
          · exact ⟨_, rfl⟩
          · split
            · exact ⟨_, rfl⟩
            · exact ⟨p.conf, rfl⟩

/-! ## The invariant -/

/-- The module has a pool of its own, not destroyed, and its listeners. -/
structure Alive (shared : Bool) (p : Proc w) : Prop where
  pool : ∃ pool, p.explainPool = some pool ∧ pool ∉ p.destroyed ∧ pool.id < p.pools
  destroyed : ∀ pool ∈ p.destroyed, pool.id < p.pools
  postparse : .postparse ∈ p.listeners
  restart : .restart ∈ p.listeners
  shutdown : .shutdown ∈ p.listeners
  moduleUnload : .moduleUnload ∈ p.listeners ↔ shared = true

/-- The flag is the last accepted setting of the cycle, TRUE without one. -/
def FlagSet (core : Core) (cycle : List DaemonEvent) (p : Proc w) : Prop :=
  p.explainEngine = (lastSetting core cycle).getD true

/-- Nothing is registered yet. -/
structure ConfigInv (core : Core) (shared : Bool) (cycle : List DaemonEvent) (p : Proc w) :
    Prop where
  alive : Alive shared p
  explainer : p.explainer = none
  flag : FlagSet core cycle p
  noPostparse : ∀ succeeds, .postparse succeeds ∉ cycle

/-- The engine is on when its explainer is registered. -/
structure RunningInv (core : Core) (shared : Bool) (cycle : List DaemonEvent) (p : Proc w) :
    Prop where
  alive : Alive shared p
  live : ∀ explainer, p.explainer = some explainer → p.explainPool = some explainer.pool
  registered : p.explainer.isSome = true ↔ p.explainEngine = true
  flag : p.explainEngine = true ↔
    (lastSetting core cycle).getD true = true ∧ .postparse true ∈ cycle

def Inv (core : Core) (shared : Bool) (cycle : List DaemonEvent) : Phase → Proc w → Prop
  | .config, p => ConfigInv core shared cycle p
  | .running, p => RunningInv core shared cycle p
  | .ended, p => p.explainer = none

variable {core : Core} {shared : Bool} {cycle : List DaemonEvent} {p : Proc w}

theorem explainInit_listeners :
    (explainInit shared (Proc.load (w := w) core)).listeners =
      if shared then [.moduleUnload, .postparse, .restart, .shutdown]
      else [.postparse, .restart, .shutdown] := by
  cases shared <;> rfl

/-- At the start. -/
theorem daemonStart_inv : Inv core shared [] .config (daemonStart core shared : Proc w) where
  alive :=
    { pool := by cases shared <;> exact ⟨⟨0⟩, rfl, List.not_mem_nil, Nat.zero_lt_one⟩
      destroyed := by cases shared <;> exact fun _ h => absurd h List.not_mem_nil
      postparse := by
        unfold daemonStart
        rw [explainInit_listeners]
        cases shared <;> decide
      restart := by
        unfold daemonStart
        rw [explainInit_listeners]
        cases shared <;> decide
      shutdown := by
        unfold daemonStart
        rw [explainInit_listeners]
        cases shared <;> decide
      moduleUnload := by
        unfold daemonStart
        rw [explainInit_listeners]
        cases shared <;> decide }
  explainer := by cases shared <;> rfl
  flag := by cases shared <;> rfl
  noPostparse _ := List.not_mem_nil

/-- An event that is neither a setting nor a registration leaves what the flag
should be alone. -/
theorem lastSetting_of_not_setting {e : DaemonEvent} (h : engineSetting core e = none) :
    lastSetting core (cycle ++ [e]) = lastSetting core cycle := by
  rw [lastSetting_snoc, h, Option.none_or]

/-! ## One event -/

/-- `Alive` looks at the pools and the listeners only. -/
theorem Alive.of_eq {q : Proc w} (h : Alive shared p) (hpool : q.explainPool = p.explainPool)
    (hdestroyed : q.destroyed = p.destroyed) (hpools : q.pools = p.pools)
    (hlisteners : q.listeners = p.listeners) : Alive shared q := by
  obtain ⟨h1, h2, h3, h4, h5, h6⟩ := h
  constructor
  · rwa [hpool, hdestroyed, hpools]
  · rwa [hdestroyed, hpools]
  all_goals rwa [hlisteners]

section Postparse

variable {pool : Pool} (hpool : p.explainPool = some pool) (hnone : p.explainer = none)

theorem explainPostparseEv_off (h : p.explainEngine = false) (succeeds : Bool) :
    explainPostparseEv succeeds p = p := by
  unfold explainPostparseEv
  rw [if_neg (by simp [h])]

include hpool hnone

theorem explainPostparseEv_registers (h : p.explainEngine = true) :
    explainPostparseEv true p =
      { p with explainer := some ⟨pool, lit "explain", explainerFields⟩ } := by
  simp [explainPostparseEv, prErrorRegisterExplainer, h, hpool, hnone]

theorem explainPostparseEv_fails (h : p.explainEngine = true) :
    explainPostparseEv false p = { p with explainEngine := false } := by
  simp [explainPostparseEv, prErrorRegisterExplainer, h, hpool, hnone]

end Postparse

theorem directive_inv (h : ConfigInv core shared cycle p) (d : Directive) (cmd : CmdRec) :
    ConfigInv core shared (cycle ++ [.directive d cmd]) (daemonStep core p (.directive d cmd)) := by
  have hno : ∀ succeeds, .postparse succeeds ∉ cycle ++ [.directive d cmd] := by
    intro succeeds hmem
    rcases List.mem_append.1 hmem with hm | hm
    · exact h.noPostparse succeeds hm
    · cases List.mem_singleton.1 hm
  have hflag : p.explainEngine = (lastSetting core cycle).getD true := h.flag
  show ConfigInv core shared _ (d.handler core cmd p).2
  by_cases hd : d = .explainEngine
  · subst hd
    show ConfigInv core shared _ (setExplainengine core cmd p).2
    rw [(setExplainengine_eq core cmd p).1]
    refine ⟨h.alive.of_eq rfl rfl rfl rfl, h.explainer, ?_, hno⟩
    show (engineSetting core _).getD p.explainEngine = _
    rw [lastSetting_snoc, hflag]
    cases engineSetting core (.directive .explainEngine cmd) <;> rfl
  · obtain ⟨conf, hconf⟩ := handler_conf core hd cmd p
    have hnone : engineSetting core (.directive d cmd) = none := by
      cases d with
      | explainEngine => exact absurd rfl hd
      | _ => rfl
    rw [hconf]
    refine ⟨h.alive.of_eq rfl rfl rfl rfl, h.explainer, ?_, hno⟩
    show p.explainEngine = _
    rw [lastSetting_of_not_setting hnone, hflag]

theorem postparse_inv (h : ConfigInv core shared cycle p) (succeeds : Bool) :
    RunningInv core shared (cycle ++ [.postparse succeeds])
      (daemonStep core p (.postparse succeeds)) := by
  obtain ⟨pool, hpool, -, -⟩ := h.alive.pool
  have hflag : p.explainEngine = (lastSetting core cycle).getD true := h.flag
  have hlast : lastSetting core (cycle ++ [.postparse succeeds]) = lastSetting core cycle :=
    lastSetting_of_not_setting rfl
  have hmem : .postparse true ∈ cycle ++ [.postparse succeeds] ↔ succeeds = true := by
    rw [List.mem_append, or_iff_right (h.noPostparse true), List.mem_singleton,
      DaemonEvent.postparse.injEq, eq_comm]
  have hstep : daemonStep core p (.postparse succeeds) = explainPostparseEv succeeds p :=
    if_pos h.alive.postparse
  rw [hstep]
  cases hon : p.explainEngine with
  | false =>
    rw [explainPostparseEv_off hon]
    refine ⟨h.alive, fun explainer heq => ?_, ?_, ?_⟩
    · rw [h.explainer] at heq
      cases heq
    · simp [h.explainer, hon]
    · rw [hlast, ← hflag, hon]
      simp
  | true =>
    cases succeeds with
    | true =>
      rw [explainPostparseEv_registers hpool h.explainer hon]
      refine ⟨h.alive.of_eq rfl rfl rfl rfl, fun explainer heq => ?_, ?_, ?_⟩
      · cases heq
        exact hpool
      · exact ⟨fun _ => hon, fun _ => rfl⟩
      · rw [hlast, hmem, ← hflag]
        exact ⟨fun _ => ⟨hon, rfl⟩, fun _ => hon⟩
    | false =>
      rw [explainPostparseEv_fails hpool h.explainer hon]
      refine ⟨h.alive.of_eq rfl rfl rfl rfl, fun explainer heq => ?_, ?_, ?_⟩
      · have hnone : p.explainer = some explainer := heq
        rw [h.explainer] at hnone
        cases hnone
      · simp [h.explainer]
      · rw [hmem]
        simp

/-- Events that are neither directives nor `core.postparse` keep what holds of an
unchanged process. -/
theorem ConfigInv.snoc (h : ConfigInv core shared cycle p) {e : DaemonEvent}
    (hset : engineSetting core e = none) (hpost : ∀ succeeds, e ≠ .postparse succeeds) :
    ConfigInv core shared (cycle ++ [e]) p := by
  refine ⟨h.alive, h.explainer, ?_, fun succeeds hmem => ?_⟩
  · unfold FlagSet
    rw [lastSetting_of_not_setting hset]
    exact h.flag
  · rcases List.mem_append.1 hmem with hm | hm
    · exact h.noPostparse succeeds hm
    · exact hpost succeeds (List.mem_singleton.1 hm).symm

theorem RunningInv.snoc (h : RunningInv core shared cycle p) {e : DaemonEvent}
    (hset : engineSetting core e = none) (hpost : ∀ succeeds, e ≠ .postparse succeeds) :
    RunningInv core shared (cycle ++ [e]) p := by
  refine ⟨h.alive, h.live, h.registered, ?_⟩
  have hmem : .postparse true ∈ cycle ++ [e] ↔ .postparse true ∈ cycle := by
    rw [List.mem_append, or_iff_left]
    exact fun hm => hpost true (List.mem_singleton.1 hm).symm
  rw [h.flag, lastSetting_of_not_setting hset, hmem]

theorem restart_inv (h : Alive shared p) :
    ConfigInv core shared [] (daemonStep core p .restart) := by
  have hstep : daemonStep core p .restart = { explainRestartEv p with conf := [] } := by
    unfold daemonStep
    rw [if_pos h.restart]
  rw [hstep]
  obtain ⟨pool, hpool, hlive, hid⟩ := h.pool
  unfold explainRestartEv prErrorUnregisterExplainer destroyPool makeSubPool
  simp only [hpool]
  refine ⟨⟨⟨⟨p.pools⟩, rfl, ?_, Nat.lt_succ_self _⟩, ?_, h.postparse, h.restart, h.shutdown,
    h.moduleUnload⟩, rfl, rfl, fun _ => List.not_mem_nil⟩
  · -- the new pool is none of those made before
    intro hmem
    rcases List.mem_cons.1 hmem with heq | hmem
    · rw [← heq] at hid
      exact Nat.lt_irrefl _ hid
    · exact Nat.lt_irrefl _ (h.destroyed _ hmem)
  · intro q hq
    rcases List.mem_cons.1 hq with rfl | hq
    · exact Nat.lt_succ_of_lt hid
    · exact Nat.lt_succ_of_lt (h.destroyed q hq)

theorem destroyPool_explainer (pool : Option Pool) (p : Proc w) :
    (destroyPool pool p).explainer = p.explainer := by
  cases pool <;> rfl

theorem shutdown_unregisters (h : Alive shared p) :
    (daemonStep core p .shutdown).explainer = none := by
  have hstep : daemonStep core p .shutdown = explainShutdownEv p := if_pos h.shutdown
  rw [hstep]
  exact destroyPool_explainer _ _

theorem moduleUnload_unregisters (h : Alive shared p) (hs : shared = true) :
    (daemonStep core p (.moduleUnload (lit "mod_explain.c"))).explainer = none := by
  have hstep : daemonStep core p (.moduleUnload (lit "mod_explain.c")) =
      explainModUnloadEv (lit "mod_explain.c") p := if_pos (h.moduleUnload.2 hs)
  rw [hstep]
  unfold explainModUnloadEv
  rw [if_pos rfl]
  exact destroyPool_explainer _ _

/-- Unloading another module does nothing here. -/
theorem moduleUnload_other (h : Alive shared p) {name : CStr}
    (hother : ¬ (shared = true ∧ name = lit "mod_explain.c")) :
    daemonStep core p (.moduleUnload name) = p := by
  show (if _ then _ else _) = _
  split
  · rename_i hmem
    unfold explainModUnloadEv
    rw [if_neg fun hname => hother ⟨h.moduleUnload.1 hmem, hname⟩]
  · rfl

theorem Inv.alive {ph : Phase} (h : Inv core shared cycle ph p) (hne : ph ≠ .ended) :
    Alive shared p := by
  cases ph with
  | config => exact ConfigInv.alive h
  | running => exact RunningInv.alive h
  | ended => exact absurd rfl hne

theorem Inv.snoc {ph : Phase} (h : Inv core shared cycle ph p) {e : DaemonEvent}
    (hset : engineSetting core e = none) (hpost : ∀ succeeds, e ≠ .postparse succeeds) :
    Inv core shared (cycle ++ [e]) ph p := by
  cases ph with
  | config => exact ConfigInv.snoc h hset hpost
  | running => exact RunningInv.snoc h hset hpost
  | ended => exact h

theorem Phase.ne_ended_of_next {ph ph' : Phase} {e : DaemonEvent} (h : ph.next shared e = some ph') :
    ph ≠ .ended := by
  rintro rfl
  cases h

theorem Phase.next_shutdown {ph : Phase} (hne : ph ≠ .ended) :
    ph.next shared .shutdown = some .ended := by
  cases ph with
  | ended => exact absurd rfl hne
  | _ => rfl

theorem Phase.next_moduleUnload {ph : Phase} (hne : ph ≠ .ended) (name : CStr) :
    ph.next shared (.moduleUnload name) =
      if shared = true ∧ name = lit "mod_explain.c" then some .ended else some ph := by
  cases ph with
  | ended => exact absurd rfl hne
  | _ => rfl

/-- **One event.**  What a phase allows keeps the invariant. -/
theorem daemonStep_inv {es : List DaemonEvent} {ph ph' : Phase} {e : DaemonEvent}
    (h : Inv core shared (currentCycle es) ph p) (hnext : ph.next shared e = some ph') :
    Inv core shared (currentCycle (es ++ [e])) ph' (daemonStep core p e) := by
  have hne := Phase.ne_ended_of_next hnext
  cases e with
  | directive d cmd =>
    rw [currentCycle_snoc (by simp)]
    cases ph with
    | config =>
      cases hnext
      exact directive_inv h d cmd
    | _ => cases hnext
  | postparse succeeds =>
    rw [currentCycle_snoc (by simp)]
    cases ph with
    | config =>
      cases hnext
      exact postparse_inv h succeeds
    | _ => cases hnext
  | session =>
    rw [currentCycle_snoc (by simp)]
    cases ph with
    | running =>
      cases hnext
      -- the parent is unchanged
      exact RunningInv.snoc h rfl (by simp)
    | _ => cases hnext
  | restart =>
    rw [currentCycle_restart]
    cases ph with
    | running =>
      cases hnext
      exact restart_inv (h.alive hne)
    | _ => cases hnext
  | shutdown =>
    rw [Phase.next_shutdown hne] at hnext
    cases hnext
    exact shutdown_unregisters (h.alive hne)
  | moduleUnload name =>
    rw [currentCycle_snoc (by simp)]
    rw [Phase.next_moduleUnload hne] at hnext
    by_cases hown : shared = true ∧ name = lit "mod_explain.c"
    · rw [if_pos hown] at hnext
      cases hnext
      obtain ⟨hs, rfl⟩ := hown
      exact moduleUnload_unregisters (h.alive hne) hs
    · rw [if_neg hown] at hnext
      cases hnext
      rw [moduleUnload_other (h.alive hne) hown]
      exact h.snoc rfl (by simp)

/-! ## Whole runs -/

/-- The process after a run. -/
def daemonRun (w : Nat) (core : Core) (shared : Bool) (es : List DaemonEvent) : Proc w :=
  after (daemonStep core) (daemonStart core shared) es

theorem daemonRun_inv (es : List DaemonEvent) : ∀ ph, phaseOf shared es = some ph →
    Inv core shared (currentCycle es) ph (daemonRun w core shared es) := by
  refine after_inv (s := (daemonStart core shared : Proc w))
    (fun es p => ∀ ph, phaseOf shared es = some ph → Inv core shared (currentCycle es) ph p) ?_ ?_ es
  · intro ph hph
    cases hph
    exact daemonStart_inv
  · intro es e p ih ph' hph'
    rw [phaseOf_snoc] at hph'
    obtain ⟨ph, hph, hnext⟩ := Option.bind_eq_some_iff.1 hph'
    exact daemonStep_inv (ih ph hph) hnext

/-! ## Sessions -/

/-- What a session of a server reads with the engine on: the verbosity and the
options. -/
def sessSettings (mainServer : Nat) (p : Proc w) : Option (Nat × Nat) :=
  match (match findConfig mainServer (lit "ExplainVerbosity") p with
    | [] => some p.explainVerbosity
    | c :: _ => c.argv0) with
  | none => none
  | some verbosity =>
    (collectOpts (findConfig mainServer (lit "ExplainOptions") p) p.explainOpts).map fun opts =>
      (verbosity, opts)

theorem explainSessInit_eq (mainServer : Nat) (p : Proc w) :
    explainSessInit mainServer p =
      if p.explainEngine = false then some p
      else
        (sessSettings mainServer p).map fun s =>
          { p with
            platform := explainPlatformInit p.platform
            explainVerbosity := s.1
            errorFormats := some s.1
            explainOpts := s.2 } := by
  have hsame (name : CStr) :
      findConfig mainServer name { p with platform := explainPlatformInit p.platform } =
        findConfig mainServer name p := rfl
  unfold explainSessInit sessSettings
  split
  · rfl
  · simp only [hsame]
    cases findConfig mainServer (lit "ExplainVerbosity") p with
    | nil =>
      cases collectOpts (findConfig mainServer (lit "ExplainOptions") p) p.explainOpts <;> rfl
    | cons c cs =>
      dsimp only
      cases c.argv0 with
      | none => rfl
      | some v =>
        cases collectOpts (findConfig mainServer (lit "ExplainOptions") p) p.explainOpts <;> rfl

/-- A session inherits the registration as it is. -/
theorem explainSessInit_frame {mainServer : Nat} {child : Proc w}
    (h : explainSessInit mainServer p = some child) :
    child.explainer = p.explainer ∧ child.explainEngine = p.explainEngine ∧
      child.explainPool = p.explainPool ∧ child.destroyed = p.destroyed := by
  rw [explainSessInit_eq] at h
  split at h
  · cases h
    exact ⟨rfl, rfl, rfl, rfl⟩
  · obtain ⟨s, -, rfl⟩ := Option.map_eq_some_iff.1 h
    exact ⟨rfl, rfl, rfl, rfl⟩

/-- **Registration.**  In every state a run reaches, and in the sessions forked
there for any server, a registered explainer lives in the current pool, which is
not destroyed; none is registered after shutdown or unload; and while sessions
start, one is registered iff the engine is on, iff the last accepted
`ExplainEngine` of the cycle did not turn it off and the registration succeeded. -/
theorem registration_life_cycle {es : List DaemonEvent} {ph : Phase}
    (h : phaseOf shared es = some ph) :
    let p := daemonRun w core shared es
    (∀ q, (q = p ∨ ∃ mainServer, explainSessInit mainServer p = some q) →
      ∀ explainer, q.explainer = some explainer →
        q.explainPool = some explainer.pool ∧ explainer.pool ∉ q.destroyed) ∧
    (ph = .ended → p.explainer = none) ∧
    (ph = .running → ∀ q, (q = p ∨ ∃ mainServer, explainSessInit mainServer p = some q) →
      (q.explainer.isSome = true ↔ q.explainEngine = true) ∧
      (q.explainEngine = true ↔
        (lastSetting core (currentCycle es)).getD true = true ∧
          .postparse true ∈ currentCycle es)) := by
  intro p
  have hinv : Inv core shared (currentCycle es) ph p := daemonRun_inv es ph h
  have hsame : ∀ q, (q = p ∨ ∃ mainServer, explainSessInit mainServer p = some q) →
      q.explainer = p.explainer ∧ q.explainEngine = p.explainEngine ∧ q.explainPool = p.explainPool ∧
      q.destroyed = p.destroyed := by
    rintro q (rfl | ⟨mainServer, hq⟩)
    · exact ⟨rfl, rfl, rfl, rfl⟩
    · exact explainSessInit_frame hq
  refine ⟨fun q hq explainer hreg => ?_, ?_, ?_⟩
  · obtain ⟨hx, -, hpool, hdest⟩ := hsame q hq
    rw [hx] at hreg
    rw [hpool, hdest]
    cases ph with
    | config =>
      rw [ConfigInv.explainer hinv] at hreg
      cases hreg
    | running =>
      have hlive := RunningInv.live hinv explainer hreg
      obtain ⟨pool, hcur, hnot, -⟩ := (RunningInv.alive hinv).pool
      rw [hlive, Option.some.injEq] at hcur
      exact ⟨hlive, hcur ▸ hnot⟩
    | ended =>
      have hnone : p.explainer = none := hinv
      rw [hnone] at hreg
      cases hreg
  · rintro rfl
    exact hinv
  · rintro rfl q hq
    obtain ⟨hx, heng, -, -⟩ := hsame q hq
    rw [hx, heng]
    exact ⟨RunningInv.registered hinv, RunningInv.flag hinv⟩

/-- A core that knows `on` and `off`. -/
def onOffCore : Core where
  getBoolean arg :=
    if arg = lit "on" then some true else if arg = lit "off" then some false else none
  prErrorFormatUseMinimal := 0
  prErrorFormatUseTerse := 1
  prErrorFormatUseDetailed := 2

/-- `ExplainEngine on` -/
def engineOn : DaemonEvent :=
  .directive .explainEngine ⟨[lit "ExplainEngine", lit "on"], 0, .root⟩

theorem registration_life_cycle_engineOn :
    (daemonRun 64 onOffCore true [engineOn, .postparse true, .session]).explainer.isSome = true := by
  obtain ⟨-, -, hrunning⟩ := @registration_life_cycle 64 onOffCore true
    [engineOn, .postparse true, .session] .running (by decide)
  obtain ⟨hreg, hflag⟩ := hrunning rfl _ (Or.inl rfl)
  refine hreg.2 (hflag.2 ⟨by decide, ?_⟩)
  show DaemonEvent.postparse true ∈ [engineOn, .postparse true, .session]
  simp

/-- With the engine on a registration may fail, which turns the engine off. -/
theorem engine_off_after_failure :
    ¬ ∀ (core : Core) (shared : Bool) (es : List DaemonEvent), phaseOf shared es = some .running →
      let p := daemonRun 64 core shared es
      (p.explainer.isSome = true ↔ p.explainEngine = true) ∧
      (p.explainEngine = true ↔ (lastSetting core (currentCycle es)).getD true = true) := by
  intro h
  have hflag := (h onOffCore true [engineOn, .postparse false] (by decide)).2
  exact absurd (hflag.2 (by decide)) (by decide)

end Explain
