import ModExplain.Lifecycle

/-!
# What a directive leaves behind

`HandlerStep` is everything a handler can do; `set_explainoptions` alone adds its
record before it rejects the directive (`HalfBuilds`), and such a record keeps
its NULL value.

    error → nothing changed      ↔ the call does not half-build a record
    every stored record complete ↔ no call of the run did     (directives_atomic_iff)
-/

namespace Explain

open Runs

variable {w : Nat}

/-- The call gets as far as adding a record that is never given a value. -/
def HalfBuilds (d : Directive) (cmd : CmdRec) : Prop :=
  d = .explainOptions ∧ 2 ≤ cmd.argv.length ∧ cmd.context ∈ [.root, .virtual, .global]

instance (d : Directive) (cmd : CmdRec) : Decidable (HalfBuilds d cmd) :=
  inferInstanceAs (Decidable (_ ∧ _ ∧ _))

/-- The record of a directive, with its value. -/
def recordOf (cmd : CmdRec) (argv0 : Option Nat) : ConfigRec :=
  ⟨cmd.server, cmd.argv.getD 0 [], argv0⟩

/-- What a handler returns and leaves behind. -/
inductive HandlerStep (cmd : CmdRec) (p : Proc w) : Bool → Except ConfError Unit × Proc w → Prop
  | rejects (e : ConfError) : HandlerStep cmd p false (.error e, p)
  | setsEngine (engine : Bool) :
      HandlerStep cmd p false (.ok (), { p with explainEngine := engine })
  | stores (value : Nat) :
      HandlerStep cmd p false (.ok (), { p with conf := p.conf ++ [recordOf cmd (some value)] })
  | halfBuilds (e : ConfError) :
      HandlerStep cmd p true (.error e, { p with conf := p.conf ++ [recordOf cmd none] })

/-- The value goes into the record just added. -/
theorem setArgv0_addConfigParam (value : Nat) (cmd : CmdRec) (p : Proc w) :
    setArgv0 value (addConfigParam cmd.server (cmd.argv.getD 0 []) p) =
      { p with conf := p.conf ++ [recordOf cmd (some value)] } := by
  unfold setArgv0 addConfigParam recordOf
  simp only [List.length_append, List.length_singleton, Nat.add_sub_cancel,
    List.modify_eq_take_drop, List.take_left, List.drop_left]
  rfl

theorem checkConf_iff (cmd : CmdRec) (contexts : List ConfContext) :
    checkConf cmd contexts = true ↔ cmd.context ∈ contexts := by
  simp [checkConf]

/-- **One call.**  A record is half built exactly by the calls that `HalfBuilds`. -/
theorem handler_step (core : Core) (d : Directive) (cmd : CmdRec) (p : Proc w) :
    HandlerStep cmd p (decide (HalfBuilds d cmd)) (d.handler core cmd p) := by
  cases d with
  | explainEngine =>
    rw [decide_eq_false (by simp [HalfBuilds])]
    show HandlerStep cmd p false (setExplainengine core cmd p)
    unfold setExplainengine
    split
    · exact .rejects _
    · split
      · exact .rejects _
      · split
        · exact .rejects _
        · exact .setsEngine _
  | explainOptions =>
    show HandlerStep cmd p _ (setExplainoptions cmd p)
    unfold setExplainoptions
    by_cases hargs : cmd.argv.length < 2
    · rw [if_pos hargs, decide_eq_false fun h => absurd h.2.1 (by omega)]
      exact .rejects _
    · rw [if_neg hargs]
      by_cases hconf : checkConf cmd [.root, .virtual, .global] = true
      · rw [if_neg (not_not_intro hconf), decide_eq_true
          (show HalfBuilds .explainOptions cmd from ⟨rfl, by omega, (checkConf_iff _ _).1 hconf⟩)]
        -- an argument is left for the loop to reject
        obtain ⟨name, arg, args, hargv⟩ : ∃ name arg args, cmd.argv = name :: arg :: args := by
          match hargv : cmd.argv with
          | [] => simp [hargv] at hargs
          | [_] => simp [hargv] at hargs
          | name :: arg :: args => exact ⟨name, arg, args, rfl⟩
        simp only [hargv, List.drop_succ_cons, List.drop_zero]
        have hname : name = cmd.argv.getD 0 [] := by rw [hargv]; rfl
        rw [List.getD_cons_zero, hname]
        exact .halfBuilds _
      · rw [if_pos hconf, decide_eq_false fun h => hconf ((checkConf_iff _ _).2 h.2.2)]
        exact .rejects _
  | explainVerbosity =>
    rw [decide_eq_false (by simp [HalfBuilds])]
    show HandlerStep cmd p false (setExplainverbosity core cmd p)
    unfold setExplainverbosity
    simp only [setArgv0_addConfigParam]
    split
    · exact .rejects _
    · split
      · exact .rejects _
      · split
        · exact .stores _
        · split
          · exact .stores _
          · split
            · exact .stores _
            · exact .rejects _

/-! ## Runs of directives -/

/-- Every record has its value. -/
def Complete (p : Proc w) : Prop := ∀ c ∈ p.conf, c.argv0.isSome = true

def directiveStep (core : Core) (p : Proc w) (call : Directive × CmdRec) : Proc w :=
  (call.1.handler core call.2 p).2

/-- A rejected directive leaves no trace. -/
def Atomic (p : Proc w) (r : Except ConfError Unit × Proc w) : Prop :=
  ∀ e, r.1 = .error e → r.2.conf = p.conf ∧ r.2.explainEngine = p.explainEngine

variable {cmd : CmdRec} {p : Proc w} {half : Bool} {r : Except ConfError Unit × Proc w}

theorem HandlerStep.atomic_iff (h : HandlerStep cmd p half r) : Atomic p r ↔ half = false := by
  cases h with
  | rejects e => exact ⟨fun _ => rfl, fun _ _ _ => ⟨rfl, rfl⟩⟩
  | setsEngine engine => exact ⟨fun _ => rfl, fun _ _ he => nomatch he⟩
  | stores value => exact ⟨fun _ => rfl, fun _ _ he => nomatch he⟩
  | halfBuilds e =>
    refine ⟨fun h => ?_, fun h => nomatch h⟩
    obtain ⟨hconf, -⟩ := h e rfl
    simp at hconf

theorem HandlerStep.complete_iff (h : HandlerStep cmd p half r) :
    Complete r.2 ↔ Complete p ∧ half = false := by
  unfold Complete
  cases h with
  | rejects e => simp
  | setsEngine engine => simp
  | stores value => simp [recordOf, or_imp, forall_and]
  | halfBuilds e => simp [recordOf, or_imp, forall_and]

variable (core : Core)

/-- **A run of directives.**  Its records are complete when none was half built. -/
theorem complete_run_iff (hp : Complete p) (calls : List (Directive × CmdRec)) :
    Complete (after (directiveStep core) p calls) ↔ ∀ call ∈ calls, ¬ HalfBuilds call.1 call.2 := by
  induction calls using List.reverseRecOn with
  | nil => simpa using hp
  | append_singleton calls call ih =>
    have hstep := (handler_step core call.1 call.2 (after (directiveStep core) p calls)).complete_iff
    rw [ih, decide_eq_false_iff_not] at hstep
    rw [after_snoc]
    show Complete (call.1.handler core call.2 _).2 ↔ _
    rw [hstep]
    simp [or_imp, forall_and]

/-! ## Where the records are read -/

theorem collectOpts_ne_none {cs : List ConfigRec} (h : ∀ c ∈ cs, c.argv0.isSome = true) :
    ∀ opts, collectOpts cs opts ≠ none := by
  induction cs with
  | nil =>
    intro opts
    simp [collectOpts]
  | cons c cs ih =>
    intro opts
    obtain ⟨o, ho⟩ := Option.isSome_iff_exists.1 (h c List.mem_cons_self)
    unfold collectOpts
    simp only [ho]
    exact ih (fun c hc => h c (List.mem_cons_of_mem _ hc)) _

/-- With complete records a session does not read through NULL. -/
theorem explainSessInit_of_complete (h : Complete p) (mainServer : Nat) :
    explainSessInit mainServer p ≠ none := by
  have hfind (name : CStr) : ∀ c ∈ findConfig mainServer name p, c.argv0.isSome = true :=
    fun c hc => h c (List.mem_filter.1 hc).1
  obtain ⟨opts, hopts⟩ := Option.ne_none_iff_exists'.1
    (collectOpts_ne_none (hfind (lit "ExplainOptions")) p.explainOpts)
  have hread : sessSettings mainServer p ≠ none := by
    unfold sessSettings
    cases hv : findConfig mainServer (lit "ExplainVerbosity") p with
    | nil => simp [hopts]
    | cons c cs =>
      obtain ⟨v, hc⟩ := Option.isSome_iff_exists.1
        (hfind (lit "ExplainVerbosity") c (by rw [hv]; exact List.mem_cons_self))
      simp [hopts, hc]
  rw [explainSessInit_eq]
  split
  · simp
  · simpa using hread

/-- **Directives.**  A call leaves no trace of its rejection exactly when it does
not half-build a record; the records a run stores are complete exactly when no
call of it did, and then no session of any server reads a NULL value. -/
theorem directives_atomic_iff :
    (∀ (p : Proc w) (d : Directive) (cmd : CmdRec),
      Atomic p (d.handler core cmd p) ↔ ¬ HalfBuilds d cmd) ∧
    ∀ (p : Proc w) (calls : List (Directive × CmdRec)), Complete p →
      (Complete (after (directiveStep core) p calls) ↔
        ∀ call ∈ calls, ¬ HalfBuilds call.1 call.2) ∧
      ((∀ call ∈ calls, ¬ HalfBuilds call.1 call.2) →
        ∀ mainServer, explainSessInit mainServer (after (directiveStep core) p calls) ≠ none) := by
  refine ⟨fun p d cmd => ?_, fun p calls hp => ?_⟩
  · rw [(handler_step core d cmd p).atomic_iff, decide_eq_false_iff_not]
  · have hrun := complete_run_iff core hp calls
    exact ⟨hrun, fun hcalls => explainSessInit_of_complete (hrun.2 hcalls)⟩

/-- `ExplainVerbosity terse` -/
def verbosityTerse : CmdRec := ⟨[lit "ExplainVerbosity", lit "terse"], 0, .root⟩

theorem directives_atomic_iff_terse :
    Complete (after (directiveStep onOffCore) (Proc.load (w := 64) onOffCore)
      [(.explainVerbosity, verbosityTerse)]) := by
  have hload : Complete (Proc.load (w := 64) onOffCore) := fun c hc => absurd hc List.not_mem_nil
  refine ((directives_atomic_iff (w := 64) onOffCore).2 _ [(.explainVerbosity, verbosityTerse)]
    hload).1.2 ?_
  decide

/-- `ExplainOptions Foo` -/
def optionsFoo : CmdRec := ⟨[lit "ExplainOptions", lit "Foo"], 0, .root⟩

/-- It is rejected, its record stays, and the next session of that server reads
through NULL. -/
theorem options_half_built :
    (¬ ∀ (core : Core) (p : Proc 64) (d : Directive) (cmd : CmdRec),
      Atomic p (d.handler core cmd p)) ∧
    ¬ ∀ (core : Core) (p : Proc 64) (calls : List (Directive × CmdRec)), Complete p →
      explainSessInit 0 (after (directiveStep core) p calls) ≠ none := by
  have hload : Complete (Proc.load (w := 64) onOffCore) := fun c hc => absurd hc List.not_mem_nil
  constructor
  · intro h
    have hfoo := h onOffCore (Proc.load onOffCore) .explainOptions optionsFoo _ rfl
    exact absurd hfoo.1 (by decide)
  · intro h
    exact h onOffCore _ [(.explainOptions, optionsFoo)] hload (by decide)

end Explain
