import ModExplain.AbsPath
import ModExplain.PlatformRuns

/-!
# Whether a component that is too long gets reported

The walk compares every component with the name limit in force.  The limit
learned at a chroot is NAME_MAX; without one `pathconf` is asked about the very
path that is too long to resolve, fails, and its −1 becomes the largest
`unsigned long`.

    the component is reported  ↔  the last chroot heard of resolved
                                              (enametoolong_reported_iff)
-/

namespace Explain

open Runs

variable {w : Nat} {env : Env w} {ns : List Name} {fs : CStr → Except Errno Stat}

/-- `pathconf` where the paths that resolve are these. -/
structure HostLimits (nameMax pathMax : Long w) (resolves : CStr → Prop) (answers : Pathconf w) :
    Prop where
  name : ∀ q, resolves q → answers q .nameMax = .ok nameMax
  unresolved : ∀ q, ¬ resolves q → ∃ e, answers q .nameMax = .error e
  noTrunc : ∀ q, answers q .noTrunc = .ok 1
  path : ∀ q, answers q .pathMax = .ok pathMax ∨ ∃ e, answers q .pathMax = .error e

/-- At the event `pathconf` answers as on a host with these limits. -/
def PlatformEvent.Obeys (nameMax pathMax : Long w) : PlatformEvent w → Prop
  | .chroot _ answers => ∃ resolves, HostLimits nameMax pathMax resolves answers
  | _ => True

/-- The last chroot heard of was for a path that resolved. -/
def HeardResolved (nameMax : Long w) (es : List (PlatformEvent w)) : Prop :=
  ∃ c answers, (after Knowledge.step .start es).heard = some (c, answers) ∧
    answers c .nameMax = .ok nameMax

/-! ## The limits in force -/

/-- What is heard of is one of the events. -/
theorem heard_mem {es : List (PlatformEvent w)} {c : CStr} {answers : Pathconf w}
    (h : (after Knowledge.step .start es).heard = some (c, answers)) : .chroot c answers ∈ es := by
  revert h
  refine after_inv (s := Knowledge.start)
    (fun es k => k.heard = some (c, answers) → .chroot c answers ∈ es) (fun h => by cases h) ?_ es
  intro es e k ih h
  cases e with
  | init => cases h
  | free => cases h
  | query => exact List.mem_append_left _ (ih h)
  | chroot c' answers' =>
    by_cases hl : k.listening = true
    · rw [Knowledge.step_chroot hl] at h
      cases h
      simp
    · rw [Knowledge.step_chroot_deaf hl] at h
      exact List.mem_append_left _ (ih h)

section Limits

variable {nameMax pathMax : Long w} {es : List (PlatformEvent w)}
  (hes : ∀ e ∈ es, e.Obeys nameMax pathMax)
include hes

theorem knownNameMax (hknown : ¬ HeardResolved nameMax es) :
    (after Knowledge.step .start es).limit .nameMax = -1 := by
  unfold Knowledge.limit
  cases hheard : (after Knowledge.step .start es).heard with
  | none => rfl
  | some heard =>
    obtain ⟨c, answers⟩ := heard
    obtain ⟨resolves, hlim⟩ := hes _ (heard_mem hheard)
    have hres : ¬ resolves c := fun hr => hknown ⟨c, answers, hheard, hlim.name c hr⟩
    obtain ⟨e, he⟩ := hlim.unresolved c hres
    simp only [he]
    rfl

theorem knownNoTrunc :
    (after Knowledge.step .start es).limit .noTrunc = 1 ∨
      (after Knowledge.step .start es).limit .noTrunc = -1 := by
  unfold Knowledge.limit
  cases hheard : (after Knowledge.step .start es).heard with
  | none => exact Or.inr rfl
  | some heard =>
    obtain ⟨c, answers⟩ := heard
    obtain ⟨resolves, hlim⟩ := hes _ (heard_mem hheard)
    simp only [hlim.noTrunc]
    exact Or.inl rfl

theorem knownPathMax :
    (after Knowledge.step .start es).limit .pathMax = pathMax ∨
      (after Knowledge.step .start es).limit .pathMax = -1 := by
  unfold Knowledge.limit
  cases hheard : (after Knowledge.step .start es).heard with
  | none => exact Or.inr rfl
  | some heard =>
    obtain ⟨c, answers⟩ := heard
    obtain ⟨resolves, hlim⟩ := hes _ (heard_mem hheard)
    rcases hlim.path c with hp | ⟨e, hp⟩
    · simp only [hp]
      exact Or.inl rfl
    · simp only [hp]
      exact Or.inr rfl

variable (hpc : env.havePathconf = true) {resolves : CStr → Prop}
  (hlive : HostLimits nameMax pathMax resolves env.pathconf) {pf : Platform w}
  (href : Refines pf (after Knowledge.step .start es)) (q : CStr)
include hpc hlive href

/-- Names are never cut short. -/
theorem noTrunc_inForce : sessLimit env pf.platformSessNoTrunc .noTrunc q = 1 := by
  have hcached : pf.platformSessNoTrunc = (after Knowledge.step .start es).limit .noTrunc :=
    href.cached .noTrunc
  by_cases hpos : 0 < pf.platformSessNoTrunc.toInt
  · rw [sessLimit_of_pos hpc hpos, hcached]
    rcases knownNoTrunc hes with h1 | h1
    · exact h1
    · rw [hcached, h1] at hpos
      exact absurd hpos neg_one_not_pos
  · rw [sessLimit_of_not_pos hpc hpos, hlive.noTrunc]
    rfl

/-- A path below PATH_MAX is below the path limit in force. -/
theorem pathMax_inForce (hpath : 0 < pathMax.toInt) (hlen : q.length < pathMax.toNat) :
    ¬ (sessLimit env pf.platformSessPathMax .pathMax q).toNat < q.length := by
  have hcached : pf.platformSessPathMax = (after Knowledge.step .start es).limit .pathMax :=
    href.cached .pathMax
  have hfits : ¬ pathMax.toNat < q.length := by omega
  rcases knownPathMax hes with h1 | h1
  · rw [hcached, h1, sessLimit_of_pos hpc hpath]
    exact hfits
  · rw [hcached, h1, sessLimit_of_not_pos hpc neg_one_not_pos]
    rcases hlive.path q with hp | ⟨e, hp⟩
    · rw [hp]
      exact hfits
    · rw [hp]
      exact not_neg_one_lt hlen

/-- Without a chroot that resolved, what cannot be resolved has the limit −1. -/
theorem nameMax_unknown (hknown : ¬ HeardResolved nameMax es) (hq : ¬ resolves q) :
    sessLimit env pf.platformSessNameMax .nameMax q = -1 := by
  have hcached : pf.platformSessNameMax = (after Knowledge.step .start es).limit .nameMax :=
    href.cached .nameMax
  obtain ⟨e, he⟩ := hlive.unresolved q hq
  rw [hcached, knownNameMax hes hknown, sessLimit_of_not_pos hpc neg_one_not_pos, he]
  rfl

omit hes hlive in
/-- After one it is NAME_MAX. -/
theorem nameMax_known (hname : 0 < nameMax.toInt) (hknown : HeardResolved nameMax es) :
    sessLimit env pf.platformSessNameMax .nameMax q = nameMax := by
  obtain ⟨c, answers, hheard, hc⟩ := hknown
  have hcached : pf.platformSessNameMax = nameMax := by
    show pf.cached .nameMax = nameMax
    rw [href.cached]
    unfold Knowledge.limit
    simp only [hheard, hc]
    rfl
  rw [hcached, sessLimit_of_pos hpc hname]

end Limits

/-! ## The walk -/

/-- How the texts about a prefix begin. -/
def prefixLabels : List CStr :=
  [lit "directory '", lit "file '", lit "directory containing '", lit "path '"]

theorem eaccesLeafText_begins (flags : UInt32) (path : CStr) :
    ∃ label ∈ prefixLabels, label <+: eaccesLeafText flags path := by
  unfold eaccesLeafText
  split
  · refine ⟨lit "file '", by simp [prefixLabels], ?_⟩
    rw [List.append_assoc]
    exact List.prefix_append _ _
  · refine ⟨lit "directory containing '", by simp [prefixLabels], ?_⟩
    rw [List.append_assoc]
    exact List.prefix_append _ _

/-- Short of an over-long component, the text is about a prefix. -/
theorem haltResult_begins {errErrno : Errno} (herr : errErrno ≠ .eacces) {flags : UInt32}
    {nameMax noTrunc : Long w} {cs : List CStr} {wd : World} {k : Nat}
    (hlong : ¬ TooLong errErrno nameMax noTrunc (cs.getD k [])) {text : CStr}
    (h : (haltResult env errErrno flags nameMax noTrunc cs wd k).1 = some text) :
    ∃ label ∈ prefixLabels, label <+: text := by
  have hlabel : ∀ label rest after : CStr, label ∈ prefixLabels →
      ∃ l ∈ prefixLabels, l <+: label ++ rest ++ after := by
    intro label rest after hmem
    refine ⟨label, hmem, ?_⟩
    rw [List.append_assoc]
    exact List.prefix_append _ _
  cases hans : answerAt env cs wd k with
  | error e =>
    rw [haltResult_error hlong hans] at h
    split at h
    · cases e with
      | enoent =>
        simp only [describeFileLookup, describeEnoentFile_eq, Option.some.injEq] at h
        rw [← h]
        exact hlabel _ _ _ (by simp [prefixLabels])
      | eacces =>
        simp only [describeFileLookup, describeEaccesFile_eq, Option.some.injEq] at h
        rw [← h]
        exact eaccesLeafText_begins _ _
      | _ => cases h
    · cases e with
      | enoent =>
        simp only [describeDirLookup, describeEnoentDir_eq, Option.some.injEq] at h
        rw [← h]
        exact hlabel _ _ _ (by simp [prefixLabels])
      | eacces =>
        simp only [describeDirLookup, describeEaccesDir_eq, Option.some.injEq] at h
        rw [← h]
        exact hlabel _ _ _ (by simp [prefixLabels])
      | _ => cases h
  | ok st =>
    by_cases hlast : k = cs.length - 1
    · rw [haltResult_leaf hlong hans hlast herr] at h
      cases h
    · rw [haltResult_notDir hlong hans hlast] at h
      simp only [describeNotDir_eq, Option.some.injEq] at h
      rw [← h]
      exact hlabel _ _ _ (by simp [prefixLabels])

/-- Such a text is not about a component. -/
theorem haltResult_not_component {errErrno : Errno} (herr : errErrno ≠ .eacces) {flags : UInt32}
    {nameMax noTrunc : Long w} {cs : List CStr} {wd : World} {k : Nat}
    (hlong : ¬ TooLong errErrno nameMax noTrunc (cs.getD k [])) {text : CStr}
    (h : (haltResult env errErrno flags nameMax noTrunc cs wd k).1 = some text) :
    ¬ lit "path component '" <+: text := by
  have hother : ∀ label ∈ prefixLabels,
      ¬ label <+: lit "path component '" ∧ ¬ lit "path component '" <+: label := by decide
  obtain ⟨label, hmem, hpre⟩ := haltResult_begins herr hlong h
  intro hcomp
  exact ne_of_prefixes (hother label hmem).1 (hother label hmem).2 hpre hcomp rfl

theorem name_length_lt {n : Name} (hn : n ∈ ns) : n.bytes.length < (absPath ns).length := by
  have hne : ns ≠ [] := List.ne_nil_of_mem hn
  obtain ⟨before, rest, rfl⟩ := List.append_of_mem hn
  rw [absPath_of_ne_nil hne]
  simp only [List.flatMap_append, List.flatMap_cons, List.length_append, List.length_cons]
  omega

/-- No component is longer than the path. -/
theorem component_length_le (i : Nat) :
    ((root :: ns.map Name.bytes).getD i []).length ≤ (absPath ns).length := by
  have hpos : 0 < (absPath ns).length := List.length_pos_iff.2 (absPath_ne_nil ns)
  rw [List.getD_eq_getElem?_getD]
  cases hget : (root :: ns.map Name.bytes)[i]? with
  | none => exact Nat.zero_le _
  | some c =>
    rcases List.mem_cons.1 (List.mem_of_getElem? hget) with rfl | hmem
    · exact hpos
    · obtain ⟨n, hn, rfl⟩ := List.mem_map.1 hmem
      exact (name_length_lt hn).le

theorem getD_names {i : Nat} (hi : i < ns.length) :
    (root :: ns.map Name.bytes).getD (i + 1) [] = ns[i].bytes := by
  simp [List.getD_eq_getElem?_getD, List.getElem?_eq_getElem hi]

/-- The walk halts at the first component that is too long. -/
theorem isLeast_halts_long (hjoin : JoinsPaths env) (hfs : Static env fs) {nameMax : Long w}
    (hname : 0 < nameMax.toNat) {j : Nat} (hj : j < ns.length)
    (hshort : ∀ n ∈ ns.take j, n.bytes.length ≤ nameMax.toNat)
    (hlong : nameMax.toNat < ns[j].bytes.length)
    (hdirs : ∀ i ≤ j, ∃ st, fs (absPath (ns.take i)) = .ok st ∧ sIsdir st.stMode = true)
    (wd : World) :
    IsLeast {i | Halts env .enametoolong nameMax 1 (root :: ns.map Name.bytes) wd i} (j + 1) := by
  constructor
  · refine Or.inl ⟨rfl, ?_, rfl⟩
    rw [getD_names hj]
    exact hlong
  · intro i hi
    by_contra hlt
    rcases hi with ⟨-, hover, -⟩ | ⟨e, he⟩ | ⟨-, st, hst, hnd, -⟩ | hend
    · -- no component before is too long
      cases i with
      | zero => exact absurd hover (Nat.not_lt.2 hname)
      | succ i =>
        rw [getD_names (by omega)] at hover
        have hmem : ns[i] ∈ ns.take j := List.mem_take_iff_getElem.2 ⟨i, by omega, rfl⟩
        exact absurd (hshort _ hmem) (Nat.not_le.2 hover)
    · obtain ⟨st, hst, -⟩ := hdirs i (by omega)
      rw [answerAt_absPath hjoin hfs _ (by omega), hst] at he
      cases he
    · obtain ⟨st', hst', hd⟩ := hdirs i (by omega)
      rw [answerAt_absPath hjoin hfs _ (by omega), hst'] at hst
      cases hst
      rw [hd] at hnd
      cases hnd
    · simp only [List.length_cons, List.length_map] at hend
      omega

/-- **ENAMETOOLONG.**  A path below PATH_MAX with a component over NAME_MAX: the
component is reported exactly when the last chroot heard of resolved. -/
theorem enametoolong_reported_iff (hpc : env.havePathconf = true) (hcore : CoreLaws env (absPath ns))
    (hfs : Static env fs) {nameMax pathMax : Long w} (hname : 0 < nameMax.toInt)
    (hpath : 0 < pathMax.toInt) (hlen : (absPath ns).length < pathMax.toNat)
    {es : List (PlatformEvent w)} (hes : ∀ e ∈ es, e.Obeys nameMax pathMax) {resolves : CStr → Prop}
    (hlive : HostLimits nameMax pathMax resolves env.pathconf) (hfails : ¬ resolves (absPath ns))
    {j : Nat} (hj : j < ns.length) (hshort : ∀ n ∈ ns.take j, n.bytes.length ≤ nameMax.toNat)
    (hlong : nameMax.toNat < ns[j].bytes.length)
    (hdirs : ∀ i ≤ j, ∃ st, fs (absPath (ns.take i)) = .ok st ∧ sIsdir st.stMode = true) (p : Pool)
    (flags mode : UInt32) (wd : World) :
    (explainPathError env (after (platformStep env) platformStart es).1 (some p) .enametoolong
        (some (absPath ns)) flags mode wd).1 =
      some (lit "path component '" ++ ns[j].bytes ++
        lit "' exceeds the system maximum name length (" ++ ul2s ns[j].bytes.length ++
        lit " > max " ++ ul2s nameMax.toNat ++ lit ")") ↔
    HeardResolved nameMax es := by
  have href := run_refines hpc es
  generalize (after (platformStep env) platformStart es).1 = pf at href ⊢
  have hfits : ¬ PathTooLong env pf .enametoolong (absPath ns) := fun h =>
    pathMax_inForce hes hpc hlive href (absPath ns) hpath hlen h.2.2
  have hnoTrunc := noTrunc_inForce hes hpc hlive href (absPath ns)
  obtain ⟨k, -, hleast, lw, -, hres⟩ := explainPathError_eq_of_fits hfits p flags mode wd
  rw [hres]
  rw [pathSplit_absPath hcore, hnoTrunc] at hleast ⊢
  by_cases hknown : HeardResolved nameMax es
  · refine ⟨fun _ => hknown, fun _ => ?_⟩
    rw [nameMax_known hpc href _ hname hknown] at hleast ⊢
    have hk : k = j + 1 :=
      hleast.unique (isLeast_halts_long hcore.joins hfs (toNat_pos_of_toInt_pos hname) hj hshort hlong
        hdirs _)
    have hget := getD_names hj
    have htoo : TooLong .enametoolong nameMax 1 ((root :: ns.map Name.bytes).getD (j + 1) []) := by
      refine ⟨rfl, ?_, rfl⟩
      rw [hget]
      exact hlong
    rw [hk, haltResult_long htoo, hget, describeEnametoolongName_eq]
  · refine ⟨fun h => ?_, fun h => absurd h hknown⟩
    rw [nameMax_unknown hes hpc hlive href _ hknown hfails] at h
    have hnot : ¬ TooLong .enametoolong (-1 : Long w) (1 : Long w)
        ((root :: ns.map Name.bytes).getD k []) := by
      rintro ⟨-, hover, -⟩
      exact not_neg_one_lt ((component_length_le k).trans_lt hlen) hover
    refine absurd ?_ (haltResult_not_component (by simp) hnot h)
    simp only [List.append_assoc]
    exact List.prefix_append _ _

/-! ## `/home` where names have three bytes -/

def shortNames : Pathconf 64 := fun path name =>
  match name with
  | .nameMax => if path = root then .ok 3 else .error .enametoolong
  | .noTrunc => .ok 1
  | .pathMax => .ok 4096

theorem shortNames_limits : HostLimits 3 4096 (· = root) shortNames where
  name _ h := if_pos h
  unresolved _ h := ⟨.enametoolong, if_neg h⟩
  noTrunc _ := rfl
  path _ := Or.inl rfl

def shortNamesLstat (path : CStr) : Except Errno Stat :=
  if path = root then .ok ⟨sIfdir, 0, 0⟩ else .error .enametoolong

def shortNamesHost : Env 64 :=
  { bareHost with
    lstat := fun _ path => shortNamesLstat (path.getD [])
    pathconf := shortNames }

theorem shortNamesHost_dirs (i : Nat) (hi : i ≤ 0) :
    ∃ st, shortNamesLstat (absPath ([home].take i)) = .ok st ∧ sIsdir st.stMode = true := by
  obtain rfl : i = 0 := Nat.le_zero.1 hi
  exact ⟨⟨sIfdir, 0, 0⟩, rfl, rfl⟩

/-- After a chroot to `/` the component is reported. -/
theorem enametoolong_reported_iff_shortNames :
    (explainPathError shortNamesHost
      (after (platformStep shortNamesHost) platformStart [.init, .chroot root shortNames]).1
      (some ⟨0⟩) .enametoolong (some (absPath [home])) 0 0 .start).1 =
      some (lit "path component 'home' exceeds the system maximum name length (4 > max 3)") := by
  have hobeys : ∀ e ∈ [.init, .chroot root shortNames], PlatformEvent.Obeys 3 4096 e := by
    intro e he
    rcases List.mem_pair.1 he with rfl | rfl
    · trivial
    · exact ⟨_, shortNames_limits⟩
  have hiff := @enametoolong_reported_iff 64 shortNamesHost [home] shortNamesLstat rfl
    ⟨fun _ => rfl, fun _ => rfl, bareHost_joins⟩ (fun _ _ => rfl) 3 4096 (by decide) (by decide)
    (by decide) [.init, .chroot root shortNames] hobeys (· = root) shortNames_limits (by decide) 0
    (by decide) (by simp) (by decide) shortNamesHost_dirs ⟨0⟩ 0 0 .start
  rw [hiff.2 ⟨root, shortNames, rfl, rfl⟩]
  decide

/-- Without a chroot it is not. -/
theorem enametoolong_unreported :
    ¬ ∀ (env : Env 64) (ns : List Name) (fs : CStr → Except Errno Stat) (nameMax pathMax : Long 64)
      (es : List (PlatformEvent 64)) (resolves : CStr → Prop) (j : Nat) (hj : j < ns.length),
      env.havePathconf = true → CoreLaws env (absPath ns) → Static env fs → 0 < nameMax.toInt →
      0 < pathMax.toInt → (absPath ns).length < pathMax.toNat →
      (∀ e ∈ es, e.Obeys nameMax pathMax) → HostLimits nameMax pathMax resolves env.pathconf →
      ¬ resolves (absPath ns) → (∀ n ∈ ns.take j, n.bytes.length ≤ nameMax.toNat) →
      nameMax.toNat < ns[j].bytes.length →
      (∀ i ≤ j, ∃ st, fs (absPath (ns.take i)) = .ok st ∧ sIsdir st.stMode = true) →
      (explainPathError env (after (platformStep env) platformStart es).1 (some ⟨0⟩) .enametoolong
        (some (absPath ns)) 0 0 .start).1 =
        some (lit "path component '" ++ ns[j].bytes ++
          lit "' exceeds the system maximum name length (" ++ ul2s ns[j].bytes.length ++
          lit " > max " ++ ul2s nameMax.toNat ++ lit ")") := by
  intro h
  have hreported := h shortNamesHost [home] shortNamesLstat 3 4096 [] (· = root) 0 (by decide) rfl
    ⟨fun _ => rfl, fun _ => rfl, bareHost_joins⟩ (fun _ _ => rfl) (by decide) (by decide) (by decide)
    (by simp) shortNames_limits (by decide) (by simp) (by decide) shortNamesHost_dirs
  exact absurd hreported (by decide)

end Explain
