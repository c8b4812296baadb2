import ModExplain.Platform

/-!
# `mod_explain.c`: directives, events and sessions

`Proc` is a process of the server: the module's variables and what the core
keeps for the module (its configuration records, pools, listeners, and the
explainer it registered).  A session runs in a forked copy.
-/

namespace Explain

variable {w : Nat}

/-! ## What the core keeps for the module -/

/-- What the core fixes: `get_boolean`, and the values of its error formats. -/
structure Core where
  getBoolean : CStr → Option Bool
  prErrorFormatUseMinimal : Nat
  prErrorFormatUseTerse : Nat
  prErrorFormatUseDetailed : Nat

inductive ConfContext where
  | root
  | virtual
  | global
  | other
deriving DecidableEq, Repr

/-- A configuration directive as it was read: `argv[0]` is its name, `server` the one
it was read for. -/
structure CmdRec where
  argv : List CStr
  server : Nat
  context : ConfContext
deriving DecidableEq

/-- Why a directive is rejected: by `CHECK_CONF`, by `CHECK_ARGS`, or with a
message. -/
inductive ConfError where
  | context
  | arguments
  | message (text : CStr)
deriving DecidableEq

/-- A `config_rec`; `argv0` is NULL or points to a number. -/
structure ConfigRec where
  server : Nat
  name : CStr
  argv0 : Option Nat
deriving DecidableEq

inductive ModuleEvent where
  | moduleUnload
  | postparse
  | restart
  | shutdown
deriving DecidableEq, Repr

/-- The fields of `pr_error_explainer_t` the module sets. -/
inductive ExplainerField where
  | explainChmod
  | explainChown
  | explainChroot
  | explainClose
  | explainFchmod
  | explainFchown
  | explainLchown
  | explainLstat
  | explainMkdir
  | explainOpen
  | explainRead
  | explainRename
  | explainRmdir
  | explainStat
  | explainUnlink
  | explainWrite
deriving DecidableEq, Repr

/-- A registered explainer: the pool it is allocated from, and the fields set. -/
structure ErrorExplainer where
  pool : Pool
  name : CStr
  fields : List ExplainerField
deriving DecidableEq

structure Proc (w : Nat) where
  explainPool : Option Pool
  explainOpts : Nat
  explainEngine : Bool
  explainVerbosity : Nat
  platform : Platform w
  conf : List ConfigRec
  /-- the number of pools made so far -/
  pools : Nat
  destroyed : List Pool
  explainer : Option ErrorExplainer
  listeners : List ModuleEvent
  errorFormats : Option Nat
deriving DecidableEq

/-- At load time. -/
def Proc.load (core : Core) : Proc w where
  explainPool := none
  explainOpts := 0
  explainEngine := true
  explainVerbosity := core.prErrorFormatUseDetailed
  platform := Platform.initial
  conf := []
  pools := 0
  destroyed := []
  explainer := none
  listeners := []
  errorFormats := none

def makeSubPool (p : Proc w) : Pool × Proc w := (⟨p.pools⟩, { p with pools := p.pools + 1 })

def destroyPool (pool : Option Pool) (p : Proc w) : Proc w :=
  match pool with
  | none => p
  | some pool => { p with destroyed := pool :: p.destroyed }

/-- Adds at most one explainer, from the given pool; `succeeds` is the core's
part in the outcome. -/
def prErrorRegisterExplainer (succeeds : Bool) (pool : Option Pool) (name : CStr) (p : Proc w) :
    Option ErrorExplainer × Proc w :=
  match pool, p.explainer with
  | some pool, none =>
    if succeeds then
      let explainer : ErrorExplainer := ⟨pool, name, []⟩
      (some explainer, { p with explainer := some explainer })
    else (none, p)
  | _, _ => (none, p)

def prErrorUnregisterExplainer (p : Proc w) : Proc w := { p with explainer := none }

def prEventRegister (e : ModuleEvent) (p : Proc w) : Proc w :=
  if e ∈ p.listeners then p else { p with listeners := p.listeners ++ [e] }

/-- Unregisters the module from all events, `core.chroot` included. -/
def prEventUnregister (p : Proc w) : Proc w :=
  { p with listeners := [], platform := { p.platform with chrootListener := false } }

/-- The record appended to the current server's set, its value still NULL; what
`<Global>` gives a server is taken as appended in that order too. -/
def addConfigParam (server : Nat) (name : CStr) (p : Proc w) : Proc w :=
  { p with conf := p.conf ++ [⟨server, name, none⟩] }

/-- Stores the value of the record added last. -/
def setArgv0 (value : Nat) (p : Proc w) : Proc w :=
  { p with conf := p.conf.modify (p.conf.length - 1) fun c => { c with argv0 := some value } }

/-! ## Configuration directives -/

def checkConf (cmd : CmdRec) (contexts : List ConfContext) : Bool := contexts.contains cmd.context

def checkArgs (cmd : CmdRec) (n : Nat) : Bool := decide (n ≤ cmd.argv.length - 1)

def toLower (b : UInt8) : UInt8 := if 65 ≤ b ∧ b ≤ 90 then b + 32 else b

/-- `strcasecmp(a, b) == 0` -/
def strcasecmp (a b : CStr) : Bool := a.map toLower == b.map toLower

variable (core : Core)

def setExplainengine (cmd : CmdRec) (p : Proc w) : Except ConfError Unit × Proc w :=
  if ¬ checkConf cmd [.root] then (.error .context, p)
  else if ¬ checkArgs cmd 1 then (.error .arguments, p)
  else
    match core.getBoolean (cmd.argv.getD 1 []) with
    | none => (.error (.message (lit "expected Boolean parameter")), p)
    | some engine => (.ok (), { p with explainEngine := engine })

/-- No option is known, so the first pass of the loop rejects the directive. -/
def setExplainoptions (cmd : CmdRec) (p : Proc w) : Except ConfError Unit × Proc w :=
  if cmd.argv.length < 2 then (.error (.message (lit "wrong number of parameters")), p)
  else if ¬ checkConf cmd [.root, .virtual, .global] then (.error .context, p)
  else
    let p := addConfigParam cmd.server (cmd.argv.getD 0 []) p
    match cmd.argv.drop 1 with
    | arg :: _ =>
      (.error (.message (catArgs [some (lit ": unknown ExplainOption '"), some arg, some (lit "'"),
        none])), p)
    | [] => (.ok (), setArgv0 0 p)

def setExplainverbosity (cmd : CmdRec) (p : Proc w) : Except ConfError Unit × Proc w :=
  if ¬ checkConf cmd [.root, .virtual, .global] then (.error .context, p)
  else if ¬ checkArgs cmd 1 then (.error .arguments, p)
  else
    let arg := cmd.argv.getD 1 []
    let accept (verbosity : Nat) : Except ConfError Unit × Proc w :=
      (.ok (), setArgv0 verbosity (addConfigParam cmd.server (cmd.argv.getD 0 []) p))
    if strcasecmp arg (lit "minimal") then accept core.prErrorFormatUseMinimal
    else if strcasecmp arg (lit "terse") then accept core.prErrorFormatUseTerse
    else if strcasecmp arg (lit "detailed") then accept core.prErrorFormatUseDetailed
    else
      (.error (.message (catArgs [some (lit ": unknown ExplainVerbosity '"), some arg, some (lit "'"),
        none])), p)

/-- `explain_conftab` -/
inductive Directive where
  | explainEngine
  | explainOptions
  | explainVerbosity
deriving DecidableEq, Repr

def Directive.handler : Directive → CmdRec → Proc w → Except ConfError Unit × Proc w
  | .explainEngine => setExplainengine core
  | .explainOptions => setExplainoptions
  | .explainVerbosity => setExplainverbosity core

/-! ## Event listeners -/

def explainModUnloadEv (name : CStr) (p : Proc w) : Proc w :=
  if name = lit "mod_explain.c" then
    let p := prErrorUnregisterExplainer (prEventUnregister p)
    { destroyPool p.explainPool p with explainPool := none }
  else p

def explainerFields : List ExplainerField :=
  [.explainChmod, .explainChown, .explainChroot, .explainClose, .explainFchmod, .explainFchown,
    .explainLchown, .explainLstat, .explainMkdir, .explainOpen, .explainRead, .explainRename,
    .explainRmdir, .explainStat, .explainUnlink, .explainWrite]

def explainPostparseEv (succeeds : Bool) (p : Proc w) : Proc w :=
  if p.explainEngine = true then
    let r := prErrorRegisterExplainer succeeds p.explainPool (lit "explain") p
    match r.1 with
    | some explainer => { r.2 with explainer := some { explainer with fields := explainerFields } }
    | none => { r.2 with explainEngine := false }
  else p

def explainRestartEv (p : Proc w) : Proc w :=
  let p := prErrorUnregisterExplainer p
  let made := makeSubPool (destroyPool p.explainPool p)
  { made.2 with
    explainPool := some made.1
    explainEngine := true }

def explainShutdownEv (p : Proc w) : Proc w :=
  let p := prErrorUnregisterExplainer p
  { destroyPool p.explainPool p with explainPool := none }

/-! ## Initialization -/

/-- `shared` is `PR_SHARED_MODULE`. -/
def explainInit (shared : Bool) (p : Proc w) : Proc w :=
  let made := makeSubPool p
  let p := { made.2 with explainPool := some made.1 }
  let p := if shared then prEventRegister .moduleUnload p else p
  prEventRegister .shutdown (prEventRegister .restart (prEventRegister .postparse p))

/-- The records with a name in the main server's set, in order. -/
def findConfig (mainServer : Nat) (name : CStr) (p : Proc w) : List ConfigRec :=
  p.conf.filter fun c => c.server = mainServer ∧ c.name = name

/-- The loop over the `ExplainOptions` records; `none` is a read through NULL. -/
def collectOpts : List ConfigRec → Nat → Option Nat
  | [], opts => some opts
  | c :: cs, opts =>
    match c.argv0 with
    | none => none
    | some o => collectOpts cs (opts ||| o)

/-- In the forked copy, where the core set `main_server` to the server of the
connection; `none` is a read through NULL. -/
def explainSessInit (mainServer : Nat) (p : Proc w) : Option (Proc w) :=
  if p.explainEngine = false then some p
  else
    let p := { p with platform := explainPlatformInit p.platform }
    match (match findConfig mainServer (lit "ExplainVerbosity") p with
      | [] => some p.explainVerbosity
      | c :: _ => c.argv0) with
    | none => none
    | some verbosity =>
      match collectOpts (findConfig mainServer (lit "ExplainOptions") p) p.explainOpts with
      | none => none
      | some opts =>
        some { p with
          explainVerbosity := verbosity
          errorFormats := some verbosity
          explainOpts := opts }

end Explain
