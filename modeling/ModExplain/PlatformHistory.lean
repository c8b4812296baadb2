import ModExplain.PlatformRuns

/-!
# The limit cache and its history

Which chroot counts, read off the events alone (`LastHeard`), against what the
cache knows after them.  A query in any run is answered from the history since
the last init or free (`queries_by_history`).
-/

namespace Explain

open Runs

variable {w : Nat}

def PlatformEvent.isInit : PlatformEvent w → Bool
  | .init => true
  | _ => false

/-- `init` and `free` forget what was learned. -/
def PlatformEvent.isReset (e : PlatformEvent w) : Bool := e.isInit || e.isFree

/-- The listener is registered: an init came after every free. -/
def Registered (es : List (PlatformEvent w)) : Prop :=
  ∃ pre mid, es = pre ++ .init :: mid ∧ ∀ e ∈ mid, e.isReset = false

/-- No init came yet, or none after a free. -/
def Unregistered (es : List (PlatformEvent w)) : Prop :=
  (∀ e ∈ es, e.isInit = false) ∨ ∃ pre post, es = pre ++ .free :: post ∧ ∀ e ∈ post, e.isInit = false

/-- The last chroot delivered to the registered listener since the last init or
free is the one to `c`. -/
def LastHeard (es : List (PlatformEvent w)) (c : CStr) (answers : Pathconf w) : Prop :=
  ∃ pre mid post, es = pre ++ .init :: mid ++ .chroot c answers :: post ∧
    (∀ e ∈ mid, e.isReset = false) ∧ ∀ e ∈ post, e.isQuery = true

variable {es : List (PlatformEvent w)}

/-! ## The listener -/

theorem registered_snoc {e : PlatformEvent w} (h : Registered es) (he : e.isReset = false) :
    Registered (es ++ [e]) := by
  obtain ⟨pre, mid, rfl, hmid⟩ := h
  refine ⟨pre, mid ++ [e], by simp, fun e' he' => ?_⟩
  rcases List.mem_append.1 he' with hm | hm
  · exact hmid e' hm
  · rw [List.mem_singleton.1 hm]
    exact he

theorem registered_of_listening (es : List (PlatformEvent w)) :
    (after Knowledge.step .start es).listening = true → Registered es := by
  refine after_inv (s := Knowledge.start) (fun es k => k.listening = true → Registered es)
    (fun h => nomatch h) (fun es e k ih h => ?_) es
  cases e with
  | init => exact ⟨es, [], rfl, fun e he => absurd he List.not_mem_nil⟩
  | free => cases h
  | query => exact registered_snoc (ih h) rfl
  | chroot c answers =>
    by_cases hl : k.listening = true
    · exact registered_snoc (ih hl) rfl
    · rw [Knowledge.step_chroot_deaf hl] at h
      exact absurd h hl

/-- Only `init` begins the listening. -/
theorem deaf_after {post : List (PlatformEvent w)} (hpost : ∀ e ∈ post, e.isInit = false)
    {k : Knowledge w} (hk : ¬ k.listening = true) : ¬ (after Knowledge.step k post).listening = true := by
  induction post generalizing k with
  | nil => exact hk
  | cons e post ih =>
    apply ih fun e he => hpost e (List.mem_cons_of_mem _ he)
    cases e with
    | init => cases hpost .init List.mem_cons_self
    | free => exact Bool.false_ne_true
    | query => exact hk
    | chroot c answers =>
      rw [Knowledge.step_chroot_deaf hk]
      exact hk

theorem not_listening_of_unregistered (h : Unregistered es) :
    ¬ (after Knowledge.step .start es).listening = true := by
  rcases h with hinit | ⟨pre, post, rfl, hpost⟩
  · exact deaf_after hinit Bool.false_ne_true
  · rw [after_append, after_cons]
    exact deaf_after hpost Bool.false_ne_true

/-! ## The chroot heard of -/

/-- What is known was heard by a listener still registered. -/
theorem listening_of_heard (es : List (PlatformEvent w)) :
    (after Knowledge.step .start es).heard ≠ none →
      (after Knowledge.step .start es).listening = true := by
  refine after_inv (s := Knowledge.start) (fun _ k => k.heard ≠ none → k.listening = true)
    (fun h => absurd rfl h) (fun es e k ih h => ?_) es
  cases e with
  | init => rfl
  | free => exact absurd rfl h
  | query => exact ih h
  | chroot c answers =>
    by_cases hl : k.listening = true
    · rw [Knowledge.step_chroot hl]
      exact hl
    · rw [Knowledge.step_chroot_deaf hl] at h ⊢
      exact ih h

theorem lastHeard_query {c : CStr} {answers : Pathconf w} (h : LastHeard es c answers)
    {e : PlatformEvent w} (he : e.isQuery = true) : LastHeard (es ++ [e]) c answers := by
  obtain ⟨pre, mid, post, rfl, hmid, hpost⟩ := h
  refine ⟨pre, mid, post ++ [e], by simp, hmid, fun e' he' => ?_⟩
  rcases List.mem_append.1 he' with hm | hm
  · exact hpost e' hm
  · rw [List.mem_singleton.1 hm]
    exact he

/-- **History.**  The chroot the component knows of is the last one heard. -/
theorem heard_iff_lastHeard (c : CStr) (answers : Pathconf w) :
    (after Knowledge.step .start es).heard = some (c, answers) ↔ LastHeard es c answers := by
  constructor
  · induction es using List.reverseRecOn with
    | nil => intro h; cases h
    | append_singleton es e ih =>
      intro h
      have hl := listening_of_heard (es ++ [e]) (by rw [h]; simp)
      rw [after_snoc] at h hl
      cases e with
      | init => cases h
      | free => cases h
      | query => exact lastHeard_query (ih h) rfl
      | chroot c' answers' =>
        by_cases hk : (after Knowledge.step .start es).listening = true
        · rw [Knowledge.step_chroot hk] at h
          cases h
          obtain ⟨pre, mid, hes, hmid⟩ := registered_of_listening es hk
          exact ⟨pre, mid, [], by rw [hes], hmid, fun e he => absurd he List.not_mem_nil⟩
        · rw [Knowledge.step_chroot_deaf hk] at hl
          exact absurd hl hk
  · rintro ⟨pre, mid, post, rfl, hmid, hpost⟩
    refine heard_last_chroot pre (fun e he => ?_) hpost c answers
    exact (Bool.or_eq_false_iff.1 (hmid e he)).2

/-! ## Queries -/

/-- After an init or a free nothing of before is known. -/
theorem after_reset {e : PlatformEvent w} (he : e.isReset = true) (pre pre' post : List (PlatformEvent w)) :
    after Knowledge.step .start (pre ++ e :: post) = after Knowledge.step .start (pre' ++ e :: post) := by
  rw [after_append, after_append, after_cons, after_cons]
  cases e with
  | init => rfl
  | free => rfl
  | _ => cases he

variable {env : Env w}

/-- What a query answers, in terms of what is known. -/
theorem query_eq (hpc : env.havePathconf = true) (es : List (PlatformEvent w)) (limit : PathconfName)
    (q : CStr) (later : Pathconf w) (wd : World) :
    (explainPlatform (env.answering later) limit (after (platformStep env) platformStart es).1 (some q)
      wd).1 =
      if 0 < ((after Knowledge.step .start es).limit limit).toInt then
        (after Knowledge.step .start es).limit limit
      else pathconfValue (later q limit) := by
  rw [explainPlatform_eq, platformSessLimit_value, (run_refines hpc es).cached limit]
  exact if_pos hpc

/-- **The cache by its history.**  After any run, a query answers with what
`pathconf` said at the last chroot heard since the last init or free, if that is
positive, and with the live answer otherwise; a chroot changes nothing while no
listener is registered; and runs that differ before an init or a free only
answer alike. -/
theorem queries_by_history (hpc : env.havePathconf = true) :
    (∀ (es : List (PlatformEvent w)) (limit : PathconfName) (q : CStr) (later : Pathconf w),
      let s := after (platformStep env) platformStart es
      let answer := (explainPlatform (env.answering later) limit s.1 (some q) s.2).1
      (∀ c answers, LastHeard es c answers → 0 < (pathconfValue (answers c limit)).toInt →
        answer = pathconfValue (answers c limit)) ∧
      ((∀ c answers, LastHeard es c answers → ¬ 0 < (pathconfValue (answers c limit)).toInt) →
        answer = pathconfValue (later q limit))) ∧
    (∀ (es : List (PlatformEvent w)) (c : CStr) (answers : Pathconf w), Unregistered es →
      let s := after (platformStep env) platformStart es
      platformStep env s (.chroot c answers) = s) ∧
    ∀ (pre pre' post : List (PlatformEvent w)) (e : PlatformEvent w), e.isReset = true →
      ∀ (limit : PathconfName) (q : CStr) (later : Pathconf w),
        let s := after (platformStep env) platformStart (pre ++ e :: post)
        let s' := after (platformStep env) platformStart (pre' ++ e :: post)
        (explainPlatform (env.answering later) limit s.1 (some q) s.2).1 =
          (explainPlatform (env.answering later) limit s'.1 (some q) s'.2).1 := by
  refine ⟨fun es limit q later => ?_, fun es c answers h => ?_,
    fun pre pre' post e he limit q later => ?_⟩
  · intro s answer
    have hanswer := query_eq hpc es limit q later s.2
    constructor
    · intro c answers hlast hpos
      have hknown : (after Knowledge.step .start es).limit limit =
          pathconfValue (answers c limit) := by
        unfold Knowledge.limit
        rw [(heard_iff_lastHeard c answers).2 hlast]
      rw [hknown, if_pos hpos] at hanswer
      exact hanswer
    · intro hno
      have hnot : ¬ 0 < ((after Knowledge.step .start es).limit limit).toInt := by
        unfold Knowledge.limit
        cases hheard : (after Knowledge.step .start es).heard with
        | none => exact neg_one_not_pos
        | some heard => exact hno heard.1 heard.2 ((heard_iff_lastHeard _ _).1 hheard)
      rw [if_neg hnot] at hanswer
      exact hanswer
  · intro s
    apply platformStep_chroot_deaf
    rw [(run_refines hpc es).listener]
    exact not_listening_of_unregistered h
  · intro s s'
    rw [query_eq hpc, query_eq hpc, after_reset he pre pre' post]

def twoSessions : List (PlatformEvent 64) :=
  [.init, .chroot (lit "/old") (limitsOf 14 1 256), .init,
    .chroot (lit "/srv") (limitsOf 143 1 (-1))]

/-- The chroot before the last init is forgotten, the one after it is not. -/
theorem queries_by_history_twoSessions :
    let s := after (platformStep bareHost) platformStart twoSessions
    (explainPlatform (bareHost.answering (limitsOf 255 1 4096)) .nameMax s.1 (some (lit "/etc"))
      s.2).1 = 143 := by
  have hlast : LastHeard twoSessions (lit "/srv") (limitsOf 143 1 (-1)) :=
    ⟨[.init, .chroot (lit "/old") (limitsOf 14 1 256)], [], [], rfl,
      fun e he => absurd he List.not_mem_nil, fun e he => absurd he List.not_mem_nil⟩
  have hquery := (@queries_by_history 64 bareHost rfl).1 twoSessions .nameMax (lit "/etc")
    (limitsOf 255 1 4096)
  exact hquery.1 _ _ hlast (by decide)

end Explain
