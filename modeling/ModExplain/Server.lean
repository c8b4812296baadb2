import ModExplain.Lib.Forks
import ModExplain.Callbacks
import ModExplain.Restarts
import ModExplain.PlatformRuns

/-!
# The server: a daemon and its sessions

The daemon reads directives, restarts and shuts down while the sessions it forked
live on, each in its own process, for the server (the virtual host) its connection
came to: it may chroot, and asks for explanations.  All of these come interleaved.

    Server   the processes of the module, as the code has them
    Client   what a session is in the abstract: the format its answers have
             (none if nothing is explained), and the last chroot it heard of

* in any interleaving a session answers as the abstract one       (`server_refines`)
* its answers depend on the configuration cycle it was forked in, on its server and
  on what it meets itself, on nothing else                      (`session_isolated`)
-/

namespace Explain

open Runs Forks

variable {w : Nat}

/-! ## Sessions -/

/-- What happens to a session; `host` is what it finds outside itself then. -/
inductive SessionEvent (w : Nat) where
  | chroot (path : CStr) (host : Env w) (wd : World)
  | ask (req : Request) (host : Env w) (p : Pool) (xerrno : Errno) (wd : World)

/-- The formats chosen, and what the callback said (`none`: there is none). -/
structure Answer where
  formats : Option Nat
  reply : Option Reply

structure Session (w : Nat) where
  proc : Proc w
  answers : List Answer

/-- The core goes to the registered explainer. -/
def Proc.ask (proc : Proc w) (req : Request) (host : Env w) (p : Pool) (xerrno : Errno)
    (wd : World) : Option Reply :=
  match proc.explainer with
  | some explainer =>
    if req.field ∈ explainer.fields then some (req.answer host proc.platform p xerrno wd) else none
  | none => none

/-- `core.chroot` reaches a registered listener only. -/
def Session.step (s : Session w) : SessionEvent w → Session w
  | .chroot path host wd =>
    if s.proc.platform.chrootListener then
      { s with
        proc := { s.proc with
          platform := (explainPlatformChrootEv host path s.proc.platform wd).1 } }
    else s
  | .ask req host p xerrno wd =>
    { s with answers := s.answers ++ [⟨s.proc.errorFormats, s.proc.ask req host p xerrno wd⟩] }

/-- The processes of the module.  A session is forked for a server, its
`main_server`; a fork that reads NULL leaves none. -/
def server (w : Nat) (core : Core) : Program (Proc w) (Session w) Nat DaemonEvent (SessionEvent w) where
  parentStep := daemonStep core
  fork mainServer p := (explainSessInit mainServer p).map fun proc => ⟨proc, []⟩
  childStep := Session.step

abbrev ServerEvent (w : Nat) := Forks.Event Nat DaemonEvent (SessionEvent w)

def serverRun (core : Core) (shared : Bool) (es : List (ServerEvent w)) :
    System (Proc w) (Session w) :=
  after (step (server w core)) (start (daemonStart core shared)) es

/-! ## The abstract server -/

/-- The module explains for the sessions of the cycle: no `ExplainEngine` turned
it off, and the core registered its explainer. -/
def Serving (core : Core) (cycle : List DaemonEvent) : Prop :=
  (lastSetting core cycle).getD true = true ∧ .postparse true ∈ cycle

structure Client (w : Nat) where
  formats : Option Nat
  heard : Option (CStr × Pathconf w)
  answers : List Answer

/-- What a session knows of its limits. -/
def Client.knowledge (c : Client w) : Knowledge w := ⟨c.formats.isSome, c.heard⟩

/-- The variables that hold what is known. -/
def Knowledge.platform (k : Knowledge w) : Platform w where
  platformSessNameMax := k.limit .nameMax
  platformSessNoTrunc := k.limit .noTrunc
  platformSessPathMax := k.limit .pathMax
  chrootListener := k.listening

/-- The abstract session explains with the limits of its last chroot. -/
def Client.step (c : Client w) : SessionEvent w → Client w
  | .chroot path host _ =>
    if c.formats.isSome ∧ host.havePathconf then { c with heard := some (path, host.pathconf) } else c
  | .ask req host p xerrno wd =>
    { c with
      answers := c.answers ++ [⟨c.formats,
        c.formats.map fun _ => req.answer host c.knowledge.platform p xerrno wd⟩] }

open Classical in
/-- The cycle the daemon is in and the server say what a session will be. -/
noncomputable def Client.fork (w : Nat) (core : Core) (mainServer : Nat)
    (cycle : List DaemonEvent) : Option (Client w) :=
  if Serving core cycle then
    if ∃ e ∈ cycle, leavesNull mainServer e = true then none
    else
      some ⟨some ((firstVerbosity core mainServer cycle).getD core.prErrorFormatUseDetailed),
        none, []⟩
  else some ⟨none, none, []⟩

/-- The abstract daemon only remembers what happened. -/
noncomputable def ideal (w : Nat) (core : Core) :
    Program (List DaemonEvent) (Client w) Nat DaemonEvent (SessionEvent w) where
  parentStep hist e := hist ++ [e]
  fork mainServer hist := Client.fork w core mainServer (currentCycle hist)
  childStep := Client.step

noncomputable def idealRun (core : Core) (es : List (ServerEvent w)) :
    System (List DaemonEvent) (Client w) :=
  after (step (ideal w core)) (start []) es

/-- Sessions start after such events: the server runs, and the core handed every
directive to the handler of its name. -/
def Running (shared : Bool) (hist : List DaemonEvent) : Prop :=
  phaseOf shared hist = some .running ∧ ∀ e ∈ hist, e.Named

/-! ## Refinement -/

variable {core : Core} {shared : Bool}

theorem Refines.eq_platform {pf : Platform w} {k : Knowledge w} (h : Refines pf k) :
    pf = k.platform := by
  obtain ⟨nameMax, noTrunc, pathMax, listener⟩ := pf
  have hname : nameMax = _ := h.cached .nameMax
  have htrunc : noTrunc = _ := h.cached .noTrunc
  have hpath : pathMax = _ := h.cached .pathMax
  have hlistener : listener = _ := h.listener
  rw [hname, htrunc, hpath, hlistener]
  rfl

theorem Session.step_chroot {s : Session w} (h : s.proc.platform.chrootListener = true) (path : CStr)
    (host : Env w) (wd : World) :
    s.step (.chroot path host wd) =
      { s with
        proc := { s.proc with
          platform := (explainPlatformChrootEv host path s.proc.platform wd).1 } } :=
  if_pos h

theorem Session.step_chroot_deaf {s : Session w} (h : ¬ s.proc.platform.chrootListener = true)
    (path : CStr) (host : Env w) (wd : World) : s.step (.chroot path host wd) = s :=
  if_neg h

/-- Without `HAVE_PATHCONF` a chroot teaches nothing. -/
theorem explainPlatformChrootEv_nothing {host : Env w} (h : ¬ host.havePathconf = true) (path : CStr)
    (pf : Platform w) (wd : World) : (explainPlatformChrootEv host path pf wd).1 = pf := by
  unfold explainPlatformChrootEv
  rw [if_neg h]

structure Session.Refines (s : Session w) (c : Client w) : Prop where
  answers : s.answers = c.answers
  formats : s.proc.errorFormats = c.formats
  registered : s.proc.explainer.isSome = c.formats.isSome
  fields : ∀ explainer, s.proc.explainer = some explainer → explainer.fields = explainerFields
  platform : Explain.Refines s.proc.platform c.knowledge

section

variable {s : Session w} {c : Client w} (h : s.Refines c)
include h

/-- Some callback answers in the sessions that explain. -/
theorem Session.Refines.ask (req : Request) (host : Env w) (p : Pool) (xerrno : Errno)
    (wd : World) :
    s.proc.ask req host p xerrno wd =
      c.formats.map fun _ => req.answer host c.knowledge.platform p xerrno wd := by
  have hreg := h.registered
  unfold Proc.ask
  cases hx : s.proc.explainer with
  | none =>
    rw [hx] at hreg
    cases hf : c.formats with
    | none => rfl
    | some v =>
      rw [hf] at hreg
      cases hreg
  | some explainer =>
    rw [hx] at hreg
    cases hf : c.formats with
    | none =>
      rw [hf] at hreg
      cases hreg
    | some v =>
      dsimp only
      rw [h.fields explainer hx, if_pos (mem_explainerFields _), h.platform.eq_platform]
      rfl

/-- **One event** of a session. -/
theorem Session.Refines.step (e : SessionEvent w) : (s.step e).Refines (c.step e) := by
  cases e with
  | ask req host p xerrno wd =>
    refine { h with answers := ?_ }
    show s.answers ++ [⟨s.proc.errorFormats, s.proc.ask req host p xerrno wd⟩] = _
    rw [h.ask, h.answers, h.formats]
    rfl
  | chroot path host wd =>
    have hlistener : s.proc.platform.chrootListener = c.formats.isSome := h.platform.listener
    by_cases hl : c.formats.isSome = true
    · rw [Session.step_chroot (hlistener.trans hl)]
      by_cases hpc : host.havePathconf = true
      · have hc : c.step (.chroot path host wd) = { c with heard := some (path, host.pathconf) } :=
          if_pos ⟨hl, hpc⟩
        rw [hc]
        have href := explainPlatformChrootEv_refines hpc path s.proc.platform wd
        rw [hlistener] at href
        exact { h with platform := href }
      · have hc : c.step (.chroot path host wd) = c := if_neg fun hand => hpc hand.2
        rw [hc, explainPlatformChrootEv_nothing hpc]
        exact h
    · have hc : c.step (.chroot path host wd) = c := if_neg fun hand => hl hand.1
      rw [Session.step_chroot_deaf (by rwa [hlistener]), hc]
      exact h

end

/-- **One fork**, where sessions start. -/
theorem fork_refines (mainServer : Nat) {hist : List DaemonEvent} (h : Running shared hist) :
    Option.Rel Session.Refines ((server w core).fork mainServer (daemonRun w core shared hist))
      ((ideal w core).fork mainServer hist) := by
  obtain ⟨hphase, hnamed⟩ := h
  have hinv : RunningInv core shared (currentCycle hist) (daemonRun w core shared hist) :=
    daemonRun_inv hist .running hphase
  have hdef : Defaults core (daemonRun w core shared hist) := daemonRun_defaults hist
  have hkept : PoolsKept (daemonRun w core shared hist) := daemonRun_kept hist
  have hfields (x : ErrorExplainer) (hx : (daemonRun w core shared hist).explainer = some x) :
      x.fields = explainerFields :=
    congrArg Prod.snd (hkept.live x hx).2
  have hinit : explainSessInit mainServer (daemonRun w core shared hist) = _ :=
    explainSessInit_run hnamed mainServer
  show Option.Rel _ ((explainSessInit mainServer _).map _)
    (Client.fork w core mainServer (currentCycle hist))
  unfold Client.fork
  by_cases hon : Serving core (currentCycle hist)
  · have heng : (daemonRun w core shared hist).explainEngine = true := hinv.flag.2 hon
    have hgo : ¬ (daemonRun w core shared hist).explainEngine = false := by simp [heng]
    rw [if_pos hon, hinit.trans (if_neg hgo)]
    by_cases hnull : ∃ e ∈ currentCycle hist, leavesNull mainServer e = true
    · rw [if_pos hnull, if_pos (List.any_eq_true.2 hnull)]
      exact Option.Rel.none
    · rw [if_neg hnull, if_neg (mt List.any_eq_true.1 hnull)]
      refine Option.Rel.some ⟨rfl, rfl, hinv.registered.2 heng, hfields, ⟨rfl, fun name => ?_⟩⟩
      cases name <;> rfl
  · have heng : (daemonRun w core shared hist).explainEngine = false := by
      simpa using mt hinv.flag.1 hon
    have hnone : (daemonRun w core shared hist).explainer.isSome = false := by
      simpa [heng] using hinv.registered
    rw [if_neg hon, hinit.trans (if_pos heng)]
    refine Option.Rel.some ⟨rfl, hdef.formats, hnone, hfields, ?_⟩
    show Explain.Refines (daemonRun w core shared hist).platform _
    rw [hdef.platform]
    exact ⟨rfl, fun name => by cases name <;> rfl⟩

theorem server_related {es : List (ServerEvent w)} (hes : ForksAllowed (Running shared) es) :
    Related (fun p hist => hist = parentEvents es ∧ p = daemonRun w core shared hist)
      Session.Refines (serverRun core shared es) (idealRun core es) := by
  refine sim (fun hist p hist' => hist' = hist ∧ p = daemonRun w core shared hist') Session.Refines
    (Running shared) ⟨rfl, rfl⟩ ?_ ?_ (fun s c e h => h.step e) es hes
  · rintro hist e p _ ⟨rfl, rfl⟩
    exact ⟨rfl, (after_snoc _ _ _ _).symm⟩
  · rintro mainServer hist p _ ⟨rfl, rfl⟩ hrun
    exact fork_refines mainServer hrun

theorem Session.Refines.map_answers {s : Option (Session w)} {c : Option (Client w)}
    (h : Option.Rel Session.Refines s c) : s.map Session.answers = c.map Client.answers := by
  cases h with
  | none => rfl
  | some h => exact congrArg some h.answers

/-- **The server.**  However directives, restarts, unloading, forks, chroots and
requests come interleaved, a session lives iff its abstract one does, and it has
given the same answers: those of the limits of its own last chroot, in the
format its cycle chose for its server, and none at all if its cycle does not
explain. -/
theorem server_refines {es : List (ServerEvent w)} (hes : ForksAllowed (Running shared) es) (i : Nat) :
    ((serverRun core shared es).child i).map Session.answers =
      ((idealRun core es).child i).map Client.answers :=
  Session.Refines.map_answers ((server_related hes).child i)

/-- A session chroots, the daemon restarts, a session of another server asks. -/
def interleaved : List (ServerEvent 64) :=
  [.parent (.directive .explainVerbosity (verbosityMinimal 1)), .parent (.postparse true),
    .fork 0 0, .fork 1 1,
    .child 0 (.chroot (lit "/srv") (bareHost.answering (limitsOf 143 1 (-1))) .start),
    .parent .restart, .child 1 (.ask (.stat (some (lit "/etc"))) bareHost ⟨7⟩ .eacces .start)]

theorem running_postparse : Running true [.postparse true] :=
  ⟨by decide, fun e he => by rw [List.mem_singleton.1 he]; trivial⟩

theorem running_minimal :
    Running true [.directive .explainVerbosity (verbosityMinimal 1), .postparse true] := by
  refine ⟨by decide, fun e he => ?_⟩
  simp only [List.mem_cons, List.not_mem_nil, or_false] at he
  rcases he with rfl | rfl
  · exact rfl
  · trivial

theorem server_refines_interleaved :
    ((serverRun onOffCore true interleaved).child 1).map Session.answers =
      ((idealRun onOffCore interleaved).child 1).map Client.answers := by
  have hes : ForksAllowed (Running true) interleaved := by
    show ForksAllowed (Running true)
      ((((((([] ++ [_]) ++ [_]) ++ [_]) ++ [_]) ++ [_]) ++ [_]) ++ [_])
    refine .snoc (.snoc (.snoc (.snoc (.snoc (.snoc (.snoc (.nil _) ?_) ?_) ?_) ?_) ?_) ?_) ?_
    all_goals intro i mainServer h
    all_goals first | exact running_minimal | cases h
  exact server_refines hes 1

/-- The answers of a session, from its cycle, its server and its own events. -/
theorem session_answers {pre post : List (ServerEvent w)} {i : Nat}
    (hpre : Running shared (parentEvents pre)) (hpost : ∀ e ∈ post, e.Keeps i) (mainServer : Nat) :
    ((serverRun core shared (pre ++ .fork i mainServer :: post)).child i).map Session.answers =
      (Client.fork w core mainServer (currentCycle (parentEvents pre))).map fun c =>
        (after Client.step c (childEvents i post)).answers := by
  have hchild : (serverRun core shared (pre ++ .fork i mainServer :: post)).child i =
      ((server w core).fork mainServer (daemonRun w core shared (parentEvents pre))).map fun s =>
        after Session.step s (childEvents i post) :=
    forked_run hpost pre mainServer _
  have hrel := rel_map (@fork_refines w core shared mainServer _ hpre)
    fun h => after_sim Session.Refines h (fun s c e h => h.step e) (childEvents i post)
  rw [hchild, Session.Refines.map_answers hrel]
  exact Option.map_map _ _ _

/-- **Isolation.**  Two sessions of one server (one virtual host), in one run or in
two, with whatever daemons and other sessions beside them: if their daemons had
been through the same cycle when they were forked, and they met the same
themselves, they gave the same answers. -/
theorem session_isolated {pre pre' post post' : List (ServerEvent w)} {shared' : Bool}
    {i j mainServer : Nat}
    (hpre : Running shared (parentEvents pre)) (hpre' : Running shared' (parentEvents pre'))
    (hpost : ∀ e ∈ post, e.Keeps i) (hpost' : ∀ e ∈ post', e.Keeps j)
    (hcycle : currentCycle (parentEvents pre) = currentCycle (parentEvents pre'))
    (hown : childEvents i post = childEvents j post') :
    ((serverRun core shared (pre ++ .fork i mainServer :: post)).child i).map Session.answers =
      ((serverRun core shared' (pre' ++ .fork j mainServer :: post')).child j).map
        Session.answers := by
  rw [session_answers hpre hpost, session_answers hpre' hpost', hcycle, hown]

/-- Forked from a fresh daemon, and from one that was restarted, while a session of
another server asks. -/
theorem session_isolated_restarted :
    let ask (i : Nat) : ServerEvent 64 :=
      .child i (.ask (.stat (some (lit "/etc"))) bareHost ⟨7⟩ .eacces .start)
    ((serverRun onOffCore true ([.parent (.postparse true)] ++ .fork 0 3 ::
        [ask 0, .parent .shutdown])).child 0).map Session.answers =
      ((serverRun onOffCore true ([.parent (.postparse false), .parent .restart,
        .parent (.postparse true)] ++ .fork 2 3 :: [.fork 1 0, ask 1, ask 2])).child 2).map
          Session.answers := by
  intro ask
  refine session_isolated running_postparse ⟨by decide, ?_⟩ ?_ ?_ rfl rfl
  · intro e he
    have hmem : e ∈ [DaemonEvent.postparse false, .restart, .postparse true] := he
    simp only [List.mem_cons, List.not_mem_nil, or_false] at hmem
    rcases hmem with rfl | rfl | rfl <;> trivial
  · intro e he
    simp only [List.mem_cons, List.not_mem_nil, or_false] at he
    rcases he with rfl | rfl <;> trivial
  · intro e he
    simp only [List.mem_cons, List.not_mem_nil, or_false] at he
    rcases he with rfl | rfl | rfl
    · exact fun h => absurd h (by decide)
    · trivial
    · trivial

end Explain
