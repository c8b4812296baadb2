import ModExplain.Sessions

/-!
# Pools and restarts, in any order of events

Nothing here asks the events to come in an order the server has: a restart after
a shutdown, two `core.postparse` in a row, directives while sessions run.

* every pool the module makes is destroyed at most once, and the one not
  destroyed is the current one, where a registered explainer lives
                                                        (`pool_discipline`)
* after a restart the server goes on like one freshly started
                                                        (`restart_forgets`)
* after its unloading the module does nothing any more   (`unload_for_good`)
-/

namespace Explain

open Runs

variable {w : Nat} {core : Core} {shared : Bool} {p q : Proc w}

/-! ## Pools -/

/-- What an explainer is, whatever pool it lives in. -/
def ErrorExplainer.face (x : ErrorExplainer) : CStr × List ExplainerField := (x.name, x.fields)

/-- The pools made so far: destroyed once, or the current one. -/
structure PoolsKept (p : Proc w) : Prop where
  nodup : p.destroyed.Nodup
  made : ∀ pool ∈ p.destroyed, pool.id < p.pools
  current : ∀ pool, p.explainPool = some pool → pool ∉ p.destroyed ∧ pool.id < p.pools
  cover : ∀ pool : Pool, pool.id < p.pools → pool ∈ p.destroyed ∨ p.explainPool = some pool
  live : ∀ explainer, p.explainer = some explainer →
    p.explainPool = some explainer.pool ∧ explainer.face = (lit "explain", explainerFields)

/-- Nothing but these fields matters. -/
theorem PoolsKept.of_eq (h : PoolsKept p) (hpool : q.explainPool = p.explainPool)
    (hdestroyed : q.destroyed = p.destroyed) (hpools : q.pools = p.pools)
    (hexplainer : q.explainer = p.explainer) : PoolsKept q := by
  obtain ⟨h1, h2, h3, h4, h5⟩ := h
  constructor
  · rwa [hdestroyed]
  · rwa [hdestroyed, hpools]
  · rwa [hpool, hdestroyed, hpools]
  · rwa [hpool, hdestroyed, hpools]
  · rwa [hpool, hexplainer]

/-- `p` without its explainer, its pool destroyed and forgotten. -/
def released (p : Proc w) : Proc w :=
  { destroyPool p.explainPool (prErrorUnregisterExplainer p) with explainPool := none }

theorem released_destroyed (p : Proc w) :
    (released p).destroyed = p.explainPool.toList ++ p.destroyed := by
  unfold released
  cases p.explainPool <;> rfl

theorem released_pools (p : Proc w) : (released p).pools = p.pools := by
  unfold released
  cases p.explainPool <;> rfl

theorem released_explainer (p : Proc w) : (released p).explainer = none :=
  destroyPool_explainer _ _

theorem released_kept (h : PoolsKept p) : PoolsKept (released p) := by
  refine ⟨?_, fun pool hp => ?_, fun _ hp => (nomatch hp), fun pool hp => Or.inl ?_, fun _ hx => ?_⟩
  · rw [released_destroyed]
    cases hpool : p.explainPool with
    | none => exact h.nodup
    | some pool => exact List.nodup_cons.2 ⟨(h.current pool hpool).1, h.nodup⟩
  · rw [released_destroyed] at hp
    rw [released_pools]
    rcases List.mem_append.1 hp with hp | hp
    · exact (h.current pool (Option.mem_toList.1 hp)).2
    · exact h.made pool hp
  · rw [released_pools] at hp
    rw [released_destroyed]
    rcases h.cover pool hp with hmem | hcur
    · exact List.mem_append_right _ hmem
    · exact List.mem_append_left _ (Option.mem_toList.2 hcur)
  · rw [released_explainer] at hx
    cases hx

/-- A new pool is none of those made before. -/
theorem made_kept (h : PoolsKept p) (hnone : p.explainPool = none) (hunreg : p.explainer = none) :
    PoolsKept { p with pools := p.pools + 1, explainPool := some ⟨p.pools⟩ } := by
  refine ⟨h.nodup, fun q hq => Nat.lt_succ_of_lt (h.made q hq), fun q hq => ?_, fun q hq => ?_,
    fun x hx => ?_⟩
  · cases hq
    exact ⟨fun hmem => Nat.lt_irrefl _ (h.made _ hmem), Nat.lt_succ_self _⟩
  · rcases Nat.lt_or_eq_of_le (Nat.le_of_lt_succ hq) with hlt | heq
    · exact Or.inl ((h.cover q hlt).resolve_right (by simp [hnone]))
    · refine Or.inr ?_
      show some ⟨p.pools⟩ = some q
      rw [← heq]
  · have hx' : p.explainer = some x := hx
    rw [hunreg] at hx'
    cases hx'

theorem explainPostparseEv_kept (h : PoolsKept p) (succeeds : Bool) :
    PoolsKept (explainPostparseEv succeeds p) := by
  rcases explainPostparseEv_cases succeeds p with heq | heq | ⟨pool, hpool, heq⟩ <;> rw [heq]
  · exact h
  · exact h.of_eq rfl rfl rfl rfl
  · refine ⟨h.nodup, h.made, h.current, h.cover, fun x hx => ?_⟩
    cases hx
    exact ⟨hpool, rfl⟩

/-- **One event**, whatever came before it. -/
theorem daemonStep_kept (h : PoolsKept p) (e : DaemonEvent) : PoolsKept (daemonStep core p e) := by
  cases e with
  | directive d cmd =>
    by_cases hd : d = .explainEngine
    · subst hd
      show PoolsKept (setExplainengine core cmd p).2
      rw [(setExplainengine_eq core cmd p).1]
      exact h.of_eq rfl rfl rfl rfl
    · obtain ⟨conf, hconf⟩ := handler_conf core hd cmd p
      show PoolsKept (d.handler core cmd p).2
      rw [hconf]
      exact h.of_eq rfl rfl rfl rfl
  | postparse succeeds =>
    show PoolsKept (if _ then explainPostparseEv succeeds p else p)
    split
    · exact explainPostparseEv_kept h succeeds
    · exact h
  | session => exact h
  | restart =>
    show PoolsKept { (if _ then explainRestartEv p else p) with conf := [] }
    split
    · exact (made_kept (released_kept h) rfl (released_explainer p)).of_eq rfl rfl rfl rfl
    · exact h.of_eq rfl rfl rfl rfl
  | shutdown =>
    show PoolsKept (if _ then explainShutdownEv p else p)
    split
    · show PoolsKept (released p)
      exact released_kept h
    · exact h
  | moduleUnload name =>
    show PoolsKept (if _ then explainModUnloadEv name p else p)
    unfold explainModUnloadEv
    split
    · split
      · have hdeaf : PoolsKept (prEventUnregister p) := h.of_eq rfl rfl rfl rfl
        show PoolsKept (released (prEventUnregister p))
        exact released_kept hdeaf
      · exact h
    · exact h

theorem daemonStart_kept : PoolsKept (daemonStart core shared : Proc w) := by
  have hload : PoolsKept (Proc.load core : Proc w) :=
    ⟨List.nodup_nil, fun _ h => absurd h List.not_mem_nil, fun _ h => (nomatch h),
      fun _ h => absurd h (Nat.not_lt_zero _), fun _ h => (nomatch h)⟩
  have hmade := made_kept hload rfl rfl
  cases shared <;> exact hmade.of_eq rfl rfl rfl rfl

theorem daemonRun_kept (es : List DaemonEvent) : PoolsKept (daemonRun w core shared es) :=
  after_inv (s := (daemonStart core shared : Proc w)) (fun _ p => PoolsKept p) daemonStart_kept
    (fun _ e _ h => daemonStep_kept h e) es

/-- **Pools.**  In whatever order the events come, no pool is destroyed twice, the
pools not destroyed are the current one alone, and a registered explainer lives
there, with every callback set. -/
theorem pool_discipline (es : List DaemonEvent) :
    let p := daemonRun w core shared es
    p.destroyed.Nodup ∧
    (∀ pool : Pool, pool.id < p.pools → (pool ∉ p.destroyed ↔ p.explainPool = some pool)) ∧
    ∀ explainer, p.explainer = some explainer →
      p.explainPool = some explainer.pool ∧ explainer.pool ∉ p.destroyed ∧
        explainer.fields = explainerFields := by
  intro p
  have h : PoolsKept p := daemonRun_kept es
  refine ⟨h.nodup, fun pool hid => ⟨fun hnot => ?_, fun hcur => (h.current pool hcur).1⟩,
    fun x hx => ?_⟩
  · exact (h.cover pool hid).resolve_left hnot
  · obtain ⟨hpool, hface⟩ := h.live x hx
    exact ⟨hpool, (h.current _ hpool).1, congrArg Prod.snd hface⟩

/-- Registered, restarted and shut down twice: both pools are destroyed, once. -/
example :
    (daemonRun 64 onOffCore true [.postparse true, .restart, .shutdown, .shutdown]).destroyed =
      [⟨1⟩, ⟨0⟩] := by decide

/-! ## Restarts -/

/-- Two processes that differ in the identity of their pools only. -/
structure Alike (p q : Proc w) : Prop where
  pool : p.explainPool.isSome = q.explainPool.isSome
  opts : p.explainOpts = q.explainOpts
  engine : p.explainEngine = q.explainEngine
  verbosity : p.explainVerbosity = q.explainVerbosity
  platform : p.platform = q.platform
  conf : p.conf = q.conf
  explainer : p.explainer.map ErrorExplainer.face = q.explainer.map ErrorExplainer.face
  listeners : p.listeners = q.listeners
  formats : p.errorFormats = q.errorFormats

/-- The handlers that do not set the engine add a record at most. -/
theorem handler_eq {d : Directive} (hd : d ≠ .explainEngine) (cmd : CmdRec) (p : Proc w) :
    (d.handler core cmd p).2 =
      { p with conf := p.conf ++ (recordAdded core (.directive d cmd)).toList } := by
  obtain ⟨conf, hconf⟩ := handler_conf core hd cmd p
  have hadded : (d.handler core cmd p).2.conf = _ := handler_conf_eq d cmd p
  rw [hconf] at hadded ⊢
  have hadded : conf = _ := hadded
  rw [hadded]

theorem Alike.directive (h : Alike p q) (d : Directive) (cmd : CmdRec) :
    Alike (d.handler core cmd p).2 (d.handler core cmd q).2 := by
  by_cases hd : d = .explainEngine
  · subst hd
    show Alike (setExplainengine core cmd p).2 (setExplainengine core cmd q).2
    rw [(setExplainengine_eq core cmd p).1, (setExplainengine_eq core cmd q).1]
    exact { h with engine := by rw [h.engine] }
  · rw [handler_eq hd, handler_eq hd]
    exact { h with conf := by rw [h.conf] }

theorem Alike.engineOff (h : Alike p q) :
    Alike { p with explainEngine := false } { q with explainEngine := false } :=
  { h with engine := rfl }

theorem Alike.postparse (h : Alike p q) (succeeds : Bool) :
    Alike (explainPostparseEv succeeds p) (explainPostparseEv succeeds q) := by
  have hoff := h.engineOff
  obtain ⟨pool, _, engine, _, _, _, _, _, explainer, _, _⟩ := p
  obtain ⟨pool', _, engine', _, _, _, _, _, explainer', _, _⟩ := q
  have hpool : pool.isSome = pool'.isSome := h.pool
  have hexplainer : explainer.map _ = explainer'.map _ := h.explainer
  have hengine : engine = engine' := h.engine
  subst hengine
  cases engine with
  | false => exact h
  | true =>
    cases pool with
    | none =>
      cases pool' with
      | none => exact hoff
      | some => cases hpool
    | some =>
      cases pool' with
      | none => cases hpool
      | some =>
        cases explainer with
        | some =>
          cases explainer' with
          | some => exact hoff
          | none => cases hexplainer
        | none =>
          cases explainer' with
          | some => cases hexplainer
          | none =>
            cases succeeds with
            | false => exact hoff
            | true => exact { h with explainer := rfl }

theorem destroyPool_eq (pool : Option Pool) (p : Proc w) :
    destroyPool pool p = { p with destroyed := pool.toList ++ p.destroyed } := by
  cases pool <;> rfl

/-- **One event** keeps two processes alike. -/
theorem daemonStep_alike (h : Alike p q) (e : DaemonEvent) :
    Alike (daemonStep core p e) (daemonStep core q e) := by
  cases e with
  | directive d cmd => exact h.directive d cmd
  | postparse succeeds =>
    show Alike (if _ then explainPostparseEv succeeds p else p)
      (if _ then explainPostparseEv succeeds q else q)
    rw [h.listeners]
    split
    · exact h.postparse succeeds
    · exact h
  | session => exact h
  | restart =>
    show Alike { (if _ then explainRestartEv p else p) with conf := [] }
      { (if _ then explainRestartEv q else q) with conf := [] }
    rw [h.listeners]
    split
    · unfold explainRestartEv makeSubPool prErrorUnregisterExplainer
      simp only [destroyPool_eq]
      exact { h with pool := rfl, engine := rfl, conf := rfl, explainer := rfl }
    · exact { h with conf := rfl }
  | shutdown =>
    show Alike (if _ then explainShutdownEv p else p) (if _ then explainShutdownEv q else q)
    rw [h.listeners]
    split
    · unfold explainShutdownEv prErrorUnregisterExplainer
      simp only [destroyPool_eq]
      exact { h with pool := rfl, explainer := rfl }
    · exact h
  | moduleUnload name =>
    show Alike (if _ then explainModUnloadEv name p else p)
      (if _ then explainModUnloadEv name q else q)
    rw [h.listeners]
    unfold explainModUnloadEv prErrorUnregisterExplainer prEventUnregister
    simp only [destroyPool_eq]
    split
    · split
      · exact { h with
          pool := rfl
          explainer := rfl
          listeners := rfl
          platform := by rw [h.platform] }
      · exact h
    · exact h

/-- Alike processes fork alike sessions. -/
theorem Alike.session (h : Alike p q) (mainServer : Nat) :
    Option.Rel Alike (explainSessInit mainServer p) (explainSessInit mainServer q) := by
  have hread : sessSettings mainServer p = sessSettings mainServer q := by
    unfold sessSettings findConfig
    rw [h.conf, h.verbosity, h.opts]
  rw [explainSessInit_eq, explainSessInit_eq, hread, h.engine]
  split
  · exact Option.Rel.some h
  · cases sessSettings mainServer q with
    | none => exact Option.Rel.none
    | some s =>
      exact Option.Rel.some { h with
        engine := rfl
        verbosity := rfl
        opts := rfl
        formats := rfl
        platform := by rw [h.platform] }

/-! ## The listeners -/

/-- The event unloads this module. -/
def DaemonEvent.isOwnUnload (shared : Bool) : DaemonEvent → Bool
  | .moduleUnload name => shared && decide (name = lit "mod_explain.c")
  | _ => false

/-- The listeners `explain_init` registers. -/
def initialListeners (shared : Bool) : List ModuleEvent :=
  (daemonStart onOffCore shared : Proc 0).listeners

theorem daemonStart_listeners :
    (daemonStart core shared : Proc w).listeners = initialListeners shared := by
  cases shared <;> rfl

theorem mem_initialListeners_moduleUnload :
    ModuleEvent.moduleUnload ∈ initialListeners shared ↔ shared = true := by
  cases shared <;> decide

/-- Registered once, or none left. -/
theorem daemonStep_listeners {e : DaemonEvent} (he : e.isOwnUnload shared = false)
    (h : p.listeners = initialListeners shared) :
    (daemonStep core p e).listeners = initialListeners shared := by
  cases e with
  | directive d cmd =>
    rw [← h]
    by_cases hd : d = .explainEngine
    · subst hd
      show (setExplainengine core cmd p).2.listeners = _
      rw [(setExplainengine_eq core cmd p).1]
    · show (d.handler core cmd p).2.listeners = _
      rw [handler_eq hd]
  | postparse succeeds =>
    show (if _ then explainPostparseEv succeeds p else p).listeners = _
    split
    · rcases explainPostparseEv_cases succeeds p with heq | heq | ⟨pool, -, heq⟩ <;>
        rw [heq] <;> exact h
    · exact h
  | session => exact h
  | restart =>
    show (if _ then explainRestartEv p else p).listeners = _
    unfold explainRestartEv makeSubPool prErrorUnregisterExplainer
    simp only [destroyPool_eq]
    split <;> exact h
  | shutdown =>
    show (if _ then explainShutdownEv p else p).listeners = _
    unfold explainShutdownEv prErrorUnregisterExplainer
    simp only [destroyPool_eq]
    split <;> exact h
  | moduleUnload name =>
    show (if _ then explainModUnloadEv name p else p).listeners = _
    split
    · rename_i hmem
      rw [h, mem_initialListeners_moduleUnload] at hmem
      subst hmem
      have hname : name ≠ lit "mod_explain.c" := by simpa [DaemonEvent.isOwnUnload] using he
      unfold explainModUnloadEv
      rw [if_neg hname]
      exact h
    · exact h

theorem daemonRun_listeners {es : List DaemonEvent} (hes : ∀ e ∈ es, e.isOwnUnload shared = false) :
    (daemonRun w core shared es).listeners = initialListeners shared := by
  refine after_inv (s := (daemonStart core shared : Proc w))
    (fun es p => (∀ e ∈ es, e.isOwnUnload shared = false) → p.listeners = initialListeners shared)
    (fun _ => daemonStart_listeners) (fun es e p ih hall => ?_) es hes
  exact daemonStep_listeners (hall e (by simp)) (ih fun e' he' => hall e' (by simp [he']))

/-- A restart leaves a process like a freshly started one. -/
theorem restart_alike (hdef : Defaults core p) (hlist : p.listeners = initialListeners shared) :
    Alike (daemonStep core p .restart) (daemonStart core shared) := by
  have hmem : ModuleEvent.restart ∈ p.listeners := by
    rw [hlist]
    cases shared <;> decide
  have hstep : daemonStep core p .restart = { explainRestartEv p with conf := [] } := by
    unfold daemonStep
    rw [if_pos hmem]
  rw [hstep]
  unfold explainRestartEv makeSubPool prErrorUnregisterExplainer
  simp only [destroyPool_eq]
  constructor
  case listeners => exact hlist.trans daemonStart_listeners.symm
  case opts => exact hdef.opts.trans (by cases shared <;> rfl)
  case verbosity => exact hdef.verbosity.trans (by cases shared <;> rfl)
  case platform => exact hdef.platform.trans (by cases shared <;> rfl)
  case formats => exact hdef.formats.trans (by cases shared <;> rfl)
  all_goals cases shared <;> rfl

/-- **A restart forgets.**  Whatever happened before it, in whatever order, but
for the module's own unloading: the daemon and the sessions it forks, for any
server, go on as if freshly started. -/
theorem restart_forgets {pre : List DaemonEvent} (hpre : ∀ e ∈ pre, e.isOwnUnload shared = false)
    (es : List DaemonEvent) :
    let p := daemonRun w core shared (pre ++ .restart :: es)
    let fresh := daemonRun w core shared es
    Alike p fresh ∧ ∀ mainServer,
      Option.Rel Alike (explainSessInit mainServer p) (explainSessInit mainServer fresh) := by
  intro p fresh
  have hp : p = after (daemonStep core) (daemonStep core (daemonRun w core shared pre) .restart) es :=
    after_append _ _ _ _
  have h : Alike p fresh := by
    rw [hp]
    exact after_sim Alike (restart_alike (daemonRun_defaults pre) (daemonRun_listeners hpre))
      (fun _ _ e h => daemonStep_alike h e) es
  exact ⟨h, h.session⟩

/-- The engine turned off and the server shut down, before a restart. -/
def offThenShutdown : List DaemonEvent :=
  [.directive .explainEngine ⟨[lit "ExplainEngine", lit "off"], 0, .root⟩, .postparse true,
    .shutdown]

theorem restart_forgets_offThenShutdown :
    (daemonRun 64 onOffCore true (offThenShutdown ++ [.restart, .postparse true])).explainEngine =
      true := by
  have hpre : ∀ e ∈ offThenShutdown, e.isOwnUnload true = false := by
    intro e he
    simp only [offThenShutdown, List.mem_cons, List.not_mem_nil, or_false] at he
    rcases he with rfl | rfl | rfl <;> rfl
  have h := (@restart_forgets 64 onOffCore true _ hpre [.postparse true]).1
  exact h.engine.trans (by decide)

/-! ## Unloading -/

/-- Unloaded: no listener, no pool, no explainer. -/
structure Unloaded (p : Proc w) : Prop where
  listeners : p.listeners = []
  explainPool : p.explainPool = none
  explainer : p.explainer = none

theorem daemonStep_unloaded (h : Unloaded p) (e : DaemonEvent) : Unloaded (daemonStep core p e) := by
  have hdeaf (m : ModuleEvent) : m ∉ p.listeners := by simp [h.listeners]
  cases e with
  | directive d cmd =>
    by_cases hd : d = .explainEngine
    · subst hd
      show Unloaded (setExplainengine core cmd p).2
      rw [(setExplainengine_eq core cmd p).1]
      exact ⟨h.listeners, h.explainPool, h.explainer⟩
    · show Unloaded (d.handler core cmd p).2
      rw [handler_eq hd]
      exact ⟨h.listeners, h.explainPool, h.explainer⟩
  | session => exact h
  | restart =>
    show Unloaded { (if _ then explainRestartEv p else p) with conf := [] }
    rw [if_neg (hdeaf _)]
    exact ⟨h.listeners, h.explainPool, h.explainer⟩
  | postparse succeeds =>
    show Unloaded (if _ then explainPostparseEv succeeds p else p)
    rw [if_neg (hdeaf _)]
    exact h
  | shutdown =>
    show Unloaded (if _ then explainShutdownEv p else p)
    rw [if_neg (hdeaf _)]
    exact h
  | moduleUnload name =>
    show Unloaded (if _ then explainModUnloadEv name p else p)
    rw [if_neg (hdeaf _)]
    exact h

theorem daemonStep_ownUnload {e : DaemonEvent} (he : e.isOwnUnload shared = true)
    (h : p.listeners = initialListeners shared) : Unloaded (daemonStep core p e) := by
  cases e with
  | moduleUnload name =>
    have hown : shared = true ∧ name = lit "mod_explain.c" := by
      simpa [DaemonEvent.isOwnUnload] using he
    obtain ⟨rfl, rfl⟩ := hown
    have hmem : ModuleEvent.moduleUnload ∈ p.listeners := by
      rw [h, mem_initialListeners_moduleUnload]
    show Unloaded (if _ then explainModUnloadEv _ p else p)
    rw [if_pos hmem]
    unfold explainModUnloadEv prEventUnregister prErrorUnregisterExplainer
    simp only [destroyPool_eq, if_true]
    exact ⟨rfl, rfl, rfl⟩
  | _ => cases he

/-- Loaded still, or unloaded. -/
theorem daemonRun_unloaded (es : List DaemonEvent) :
    ((∀ e ∈ es, e.isOwnUnload shared = false) ∧
        (daemonRun w core shared es).listeners = initialListeners shared) ∨
      Unloaded (daemonRun w core shared es) := by
  refine after_inv (s := (daemonStart core shared : Proc w))
    (fun es p => ((∀ e ∈ es, e.isOwnUnload shared = false) ∧ p.listeners = initialListeners shared) ∨
      Unloaded p)
    (Or.inl ⟨fun e he => absurd he List.not_mem_nil, daemonStart_listeners⟩) ?_ es
  rintro es e p (⟨hno, hlist⟩ | hun)
  · cases hown : e.isOwnUnload shared with
    | true => exact Or.inr (daemonStep_ownUnload hown hlist)
    | false =>
      refine Or.inl ⟨fun e' he' => ?_, daemonStep_listeners hown hlist⟩
      rcases List.mem_append.1 he' with hm | hm
      · exact hno e' hm
      · rw [List.mem_singleton.1 hm]
        exact hown
  · exact Or.inr (daemonStep_unloaded hun e)

/-- **Unloading is for good.**  Once a shared module is unloaded, whatever comes
later, restarts included: it hears of nothing, registers nothing, and every pool
it ever made has been destroyed. -/
theorem unload_for_good {es : List DaemonEvent} (h : ∃ e ∈ es, e.isOwnUnload shared = true) :
    let p := daemonRun w core shared es
    p.listeners = [] ∧ p.explainer = none ∧ p.explainPool = none ∧
      ∀ pool : Pool, pool.id < p.pools → pool ∈ p.destroyed := by
  intro p
  have hun : Unloaded p := (daemonRun_unloaded es).resolve_left fun hno => by
    obtain ⟨e, he, hown⟩ := h
    rw [(hno.1 e he)] at hown
    cases hown
  refine ⟨hun.listeners, hun.explainer, hun.explainPool, fun pool hid => ?_⟩
  refine ((daemonRun_kept es).cover pool hid).resolve_right fun hcur => ?_
  rw [hun.explainPool] at hcur
  cases hcur

/-- Unloaded, then restarted: nothing is registered. -/
theorem unload_for_good_restarted :
    (daemonRun 64 onOffCore true [.postparse true, .moduleUnload (lit "mod_explain.c"), .restart,
      .postparse true]).explainer = none := by
  have hown : ∃ e ∈ [DaemonEvent.postparse true, .moduleUnload (lit "mod_explain.c"), .restart,
      .postparse true], e.isOwnUnload true = true :=
    ⟨.moduleUnload (lit "mod_explain.c"), by simp, by decide⟩
  exact (@unload_for_good 64 onOffCore true _ hown).2.1

end Explain
