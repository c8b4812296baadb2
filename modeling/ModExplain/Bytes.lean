import ModExplain.ReadBack

/-!
# Where the bytes of an explanation come from

    the words of the texts, numbers     printable ASCII, whatever is explained
    the path, its virtual path, ids     when the path is walked
    what the buffer held before         when the path also has a trailing slash
    slots no argument was written to    for EPERM of a `chroot` by a user that is not root

Nothing else shows in a text (`explain_bytes`), so a control character in one came
with the path, or from memory that was never written.
-/

namespace Explain

open Pieces

variable {w : Nat}

/-- Printable ASCII. -/
def Printable (b : UInt8) : Prop := 32 ≤ b ∧ b ≤ 126

instance : DecidablePred Printable := fun b =>
  decidable_of_iff (32 ≤ b.toNat ∧ b.toNat ≤ 126) Iff.rfl

/-- The words of a text are printable; this way round it is evaluated. -/
def areWords (text : CStr) : Bool := text.all fun b => decide (Printable b)

theorem printable_of_words {text : CStr} (h : areWords text = true) : ∀ b ∈ text, Printable b :=
  fun b hb => of_decide_eq_true (List.all_eq_true.1 h b hb)

/-- Joined paths have a slash between them, and no other byte of their own. -/
def JoinsBytes (env : Env w) : Prop :=
  ∀ a b, ∀ x ∈ env.pdircat a b, x = slash ∨ x ∈ a ∨ x ∈ b

theorem dirCat_bytes (a b : CStr) : ∀ x ∈ dirCat a b, x = slash ∨ x ∈ a ∨ x ∈ b := by
  intro x hx
  unfold dirCat at hx
  split at hx
  · rcases List.mem_append.1 hx with ha | hb
    · exact Or.inr (Or.inl ha)
    · split at hb
      · exact Or.inr (Or.inr (List.mem_of_mem_tail hb))
      · exact Or.inr (Or.inr hb)
  · split at hx
    · exact Or.inr (List.mem_append.1 hx)
    · rcases List.mem_append.1 hx with ha | hb
      · exact Or.inr (Or.inl ha)
      · exact (List.mem_cons.1 hb).imp_right Or.inr

/-- What a walk may show of the path `path`, whose virtual path is `v`. -/
inductive WalkByte (env : Env w) (path v : CStr) (b : UInt8) : Prop
  | path (h : b ∈ path)
  | virtualPath (h : b ∈ v)
  | uid (id : UInt32) (h : b ∈ env.prUid2str id)
  | gid (id : UInt32) (h : b ∈ env.prGid2str id)
  | stale (hend : v.getLast? = some slash) (h : b ∈ cstrAt (env.stack.drop (v.length + 1)))

/-- What an explanation may show. -/
inductive Shows (env : Env w) (path v : CStr) (call : Explainer) (xerrno : Errno) (b : UInt8) : Prop
  | word (h : Printable b)
  | walk (hwalks : call.walks env.getuid xerrno = true) (h : WalkByte env path v b)
  | slot (hcall : call = .chroot) (herr : xerrno = .eperm) (huid : env.getuid ≠ prRootUid)
      (args : List (Option CStr)) (h : b ∈ catArgs (env.slots args))

/-! ## The bytes of a text -/

theorem Opening.text_words (o : Opening) : areWords o.text = true := by
  cases o <;> decide +kernel

theorem leafWords_words (search : Bool) : areWords (leafWords search) = true := by
  cases search <;> decide +kernel

section Texts

variable {P : UInt8 → Prop} (hP : ∀ b, Printable b → P b)
include hP

theorem words {text : CStr} (h : areWords text = true) : ∀ b ∈ text, P b :=
  fun b hb => hP b (printable_of_words h b hb)

theorem digit_bytes {text : CStr} (h : ∀ b ∈ text, IsDigit b) : ∀ b ∈ text, P b := by
  intro b hb
  obtain ⟨hlo, hhi⟩ := h b hb
  exact hP b ⟨UInt8.le_trans (by decide) hlo, UInt8.le_trans hhi (by decide)⟩

theorem lengthText_bytes {what : CStr} (h : ∀ b ∈ what, P b) (a max : Nat) :
    ∀ b ∈ lengthText what a max, P b := by
  have hnumber (n : Nat) : ∀ b ∈ ul2s n, P b := digit_bytes hP fun _ => isDigit_of_mem_digits
  unfold lengthText
  simp only [List.forall_mem_append]
  exact ⟨⟨⟨⟨⟨h, words hP (by decide)⟩, hnumber a⟩, words hP (by decide)⟩, hnumber max⟩,
    words hP (by decide)⟩

/-- Words around a text that is given. -/
theorem sentence_bytes (env : Env w) {a b text : CStr} (ha : areWords a = true)
    (hb : areWords b = true) (h : ∀ x ∈ text, P x) :
    ∀ x ∈ pstrcat env [some a, some text, some b, none], P x := by
  have hcat : pstrcat env [some a, some text, some b, none] = a ++ (text ++ b) := by simp [pstrcat]
  rw [hcat]
  simp only [List.forall_mem_append]
  exact ⟨words hP ha, h, words hP hb⟩

/-! ## Reasons -/

def Parent.Over (P : UInt8 → Prop) : Parent → Prop
  | .found path _ _ _ => ∀ b ∈ path, P b
  | _ => True

/-- The paths and names of a reason have such bytes only. -/
def Reason.Over (P : UInt8 → Prop) : Reason → Prop
  | .pathTooLong path _ _ | .nameTooLong path _ _ | .missing _ path | .unsearchable path
  | .notDir path => ∀ b ∈ path, P b
  | .leaf _ path parent => (∀ b ∈ path, P b) ∧ parent.Over P

section Ids

variable {uid2str gid2str : UInt32 → CStr} (huid : ∀ id, ∀ b ∈ uid2str id, P b)
  (hgid : ∀ id, ∀ b ∈ gid2str id, P b)
include huid hgid

theorem Parent.text_bytes {parent : Parent} (h : parent.Over P) :
    ∀ b ∈ parent.text uid2str gid2str, P b := by
  cases parent with
  | unread => exact List.forall_mem_nil _
  | unnamed =>
    have hwords : ∀ b ∈ lit "; parent directory '", P b := words hP (by decide)
    exact hwords
  | found path perms uid gid =>
    have hperms : ∀ b ∈ (digits 8 perms).leftpad 4 48, P b :=
      digit_bytes hP fun _ => isDigit_of_mem_octal
    unfold Parent.text
    simp only [List.forall_mem_append]
    exact ⟨⟨⟨⟨⟨⟨⟨words hP (by decide), h⟩, words hP (by decide)⟩, hperms⟩, words hP (by decide)⟩,
      huid uid⟩, words hP (by decide)⟩, hgid gid⟩

theorem Reason.render_bytes {r : Reason} (h : r.Over P) :
    ∀ b ∈ r.render uid2str gid2str, P b := by
  unfold Reason.render
  rw [List.forall_mem_append]
  refine ⟨words hP (Opening.text_words _), ?_⟩
  cases r with
  | pathTooLong path len max =>
    exact lengthText_bytes hP (List.forall_mem_append.2 ⟨h, words hP (by decide)⟩) len max
  | nameTooLong name len max =>
    exact lengthText_bytes hP (List.forall_mem_append.2 ⟨h, words hP (by decide)⟩) len max
  | leaf search path parent =>
    have hleaf : ∀ b ∈ path ++ leafWords search, P b :=
      List.forall_mem_append.2 ⟨h.1, words hP (leafWords_words search)⟩
    exact List.forall_mem_append.2 ⟨hleaf, Parent.text_bytes hP huid hgid h.2⟩
  | _ => exact List.forall_mem_append.2 ⟨h, words hP (by decide)⟩

end Ids

end Texts

/-! ## What the walk finds -/

/-- The bytes of the components, and of what is split after a trailing slash. -/
theorem pathSplit_bytes {env : Env w} {path v : CStr} (hw : WritesVirtualPath env path v)
    (hsplit : SplitsText env) (hnul : nul ∉ v) (habs : v.head? = some slash) {c : CStr}
    (hc : c ∈ pathSplit env path) {b : UInt8} (hb : b ∈ c) :
    b = slash ∨ b = dot ∨ b ∈ v ∨
      v.getLast? = some slash ∧ b ∈ cstrAt (env.stack.drop (v.length + 1)) := by
  have hne : v ≠ [] := by
    rintro rfl
    cases habs
  have hroot : c = root → b = slash := by
    rintro rfl
    exact List.mem_singleton.1 hb
  rw [pathSplit_of_write hw hnul hne] at hc
  split at hc
  · exact Or.inl (hroot (List.mem_singleton.1 hc))
  · rcases List.mem_cons.1 hc with hc | hc
    · exact Or.inl (hroot hc)
    rw [hsplit] at hc
    have hmem := (mem_pieces _ hc).2.2 hb
    split at hmem
    · rename_i hend
      rcases List.mem_append.1 hmem with hv | hrest
      · exact Or.inr (Or.inr (Or.inl hv))
      · rcases List.mem_cons.1 hrest with hdot | hstale
        · exact Or.inr (Or.inl hdot)
        · exact Or.inr (Or.inr (Or.inr ⟨hend.1, hstale⟩))
    · exact Or.inr (Or.inr (Or.inl hmem))

section Walk

variable {env : Env w} {P : UInt8 → Prop} {errErrno : Errno} {flags : UInt32}
  {nameMax noTrunc : Long w} {cs : List CStr} {wd : World} {k : Nat} {r : Reason}

theorem getD_bytes (hcs : ∀ c ∈ cs, ∀ b ∈ c, P b) (i : Nat) : ∀ b ∈ cs.getD i [], P b := by
  rw [List.getD_eq_getElem?_getD]
  cases h : cs[i]? with
  | none => exact List.forall_mem_nil _
  | some c => exact hcs c (List.mem_of_getElem? h)

/-- The paths that are looked up. -/
theorem prefixAt_bytes (hslash : P slash) (hjoin : JoinsBytes env) (hcs : ∀ c ∈ cs, ∀ b ∈ c, P b)
    (i : Nat) : ∀ b ∈ prefixAt env cs i, P b := by
  induction i with
  | zero => exact getD_bytes hcs 0
  | succ i ih =>
    intro b hb
    rcases hjoin _ _ b hb with rfl | hprev | hcomponent
    · exact hslash
    · exact ih b hprev
    · exact getD_bytes hcs (i + 1) b hcomponent

theorem parentFound_over {parent : Option CStr} (h : ∀ q, parent = some q → ∀ b ∈ q, P b)
    (res : Except Errno Stat) : (parentFound parent res).Over P := by
  cases res with
  | error e => trivial
  | ok st =>
    cases parent with
    | none => trivial
    | some q => exact h q rfl

theorem reasonAt_over (hslash : P slash) (hjoin : JoinsBytes env) (hcs : ∀ c ∈ cs, ∀ b ∈ c, P b)
    (h : reasonAt env errErrno flags nameMax noTrunc cs wd k = some r) : r.Over P := by
  have hlooked := prefixAt_bytes hslash hjoin hcs
  unfold reasonAt at h
  dsimp only at h
  split at h
  · cases h
    exact getD_bytes hcs k
  · split at h
    · cases h
      exact hlooked k
    · split at h
      · cases h
        exact ⟨hlooked k, trivial⟩
      · cases h
        exact hlooked k
    · cases h
    · split at h
      · cases h
        exact hlooked k
      · split at h
        · cases h
          refine ⟨hlooked k, parentFound_over (fun q hq => ?_) _⟩
          cases k with
          | zero => cases hq
          | succ k =>
            cases hq
            exact hlooked k
        · cases h

end Walk

section PathError

variable {env : Env w} {path v : CStr} (hw : WritesVirtualPath env path v) (hsplit : SplitsText env)
  (hnul : nul ∉ v) (habs : v.head? = some slash) (hjoin : JoinsBytes env)
include hw hsplit hnul habs hjoin

theorem explainPathError_bytes {pf : Platform w} {p : Pool} {errErrno : Errno} {flags mode : UInt32}
    {wd : World} {text : CStr}
    (h : (explainPathError env pf (some p) errErrno (some path) flags mode wd).1 = some text) :
    ∀ b ∈ text, Printable b ∨ WalkByte env path v b := by
  have hcs (c : CStr) (hc : c ∈ pathSplit env path) (b : UInt8) (hb : b ∈ c) :
      Printable b ∨ WalkByte env path v b := by
    rcases pathSplit_bytes hw hsplit hnul habs hc hb with rfl | rfl | hv | ⟨hend, hstale⟩
    · exact Or.inl (by decide)
    · exact Or.inl (by decide)
    · exact Or.inr (.virtualPath hv)
    · exact Or.inr (.stale hend hstale)
  obtain ⟨r, hr⟩ := exists_reasoned env pf errErrno path flags wd
  rw [explainPathError_render hr] at h
  cases r with
  | none => cases h
  | some r =>
    cases h
    refine Reason.render_bytes (fun b => Or.inl) (fun id b hb => Or.inr (.uid id hb))
      (fun id b hb => Or.inr (.gid id hb)) ?_
    rcases hr with ⟨-, heq⟩ | ⟨-, k, -, -, heq⟩
    · cases heq
      exact fun b hb => Or.inr (.path hb)
    · exact reasonAt_over (Or.inl (by decide)) hjoin hcs heq.symm

end PathError

/-- Descriptions that fit any call have no bytes but those of words. -/
theorem explainDescribeGeneric_bytes {env : Env w} {p : Pool} {xerrno : Errno} {syscall : CStr}
    (hsys : ∀ b ∈ syscall, Printable b) {wd : World} {text : CStr}
    (h : (explainDescribeGeneric env (some p) xerrno (some syscall) wd).1 = some text) :
    ∀ b ∈ text, Printable b := by
  have hsentence {a b : CStr} (ha : areWords a = true) (hb : areWords b = true) :
      ∀ x ∈ pstrcat env [some a, some syscall, some b, none], Printable x :=
    sentence_bytes (fun _ => id) env ha hb hsys
  have hdefault : ∀ b ∈ describeGeneric env syscall, Printable b :=
    hsentence (by decide +kernel) (by decide +kernel)
  cases xerrno with
  | zero => cases h
  | emfile =>
    obtain rfl := Option.some.inj h
    unfold describeEmfile
    exact printable_of_words (by decide +kernel)
  | enfile =>
    obtain rfl := Option.some.inj h
    unfold describeEnfile
    exact printable_of_words (by decide +kernel)
  | eio =>
    obtain rfl := Option.some.inj h
    unfold describeEio
    exact printable_of_words (by decide +kernel)
  | eagain | eintr | efault | enomem | eperm =>
    obtain rfl := Option.some.inj h
    exact hsentence (by decide +kernel) (by decide +kernel)
  | _ =>
    obtain rfl := Option.some.inj h
    exact hdefault

/-- The call's name, as the explainers write it. -/
def Explainer.syscall : Explainer → CStr
  | .chroot => lit "chroot(2)"
  | .lstat => lit "lstat(2)"
  | .stat => lit "stat(2)"
  | .unlink => lit "unlink(2)"

theorem Explainer.syscall_words (call : Explainer) : areWords call.syscall = true := by
  cases call <;> decide

/-- Whatever is explained, `args` is the path. -/
theorem Explainer.explain_args (env : Env w) (call : Explainer) (pf : Platform w) (p : Pool)
    (xerrno : Errno) (path : Option CStr) (wd : World) :
    (call.explain env pf p xerrno path wd).args = getArgs env path := by
  cases call with
  | chroot =>
    cases xerrno with
    | eperm =>
      show (explainChrootError env pf p .eperm path wd).args = _
      unfold explainChrootError
      dsimp only
      split <;> rfl
    | _ => rfl
  | _ => cases xerrno <;> rfl

/-- Errors that no explainer has a text of its own for. -/
theorem Explainer.explained_generic {env : Env w} {call : Explainer} {xerrno : Errno}
    (h : call.walks env.getuid xerrno = false)
    (hown : call = .chroot → xerrno ≠ .eperm ∧ xerrno ≠ .enomem) (pf : Platform w) (p : Pool)
    (path : Option CStr) (wd : World) :
    (call.explain env pf p xerrno path wd).explained =
      (explainDescribeGeneric env (some p) xerrno (some call.syscall) wd).1 := by
  cases call with
  | chroot =>
    cases xerrno with
    | eperm => exact absurd rfl (hown rfl).1
    | enomem => exact absurd rfl (hown rfl).2
    | _ => first | rfl | cases h
  | _ => cases xerrno <;> first | rfl | cases h

/-- An error that the path is not walked for shows nothing of the path. -/
theorem explained_bytes_of_not_walks {env : Env w} {call : Explainer} {xerrno : Errno}
    (h : call.walks env.getuid xerrno = false) {pf : Platform w} {p : Pool} {path : Option CStr}
    {wd : World} {text : CStr}
    (htext : (call.explain env pf p xerrno path wd).explained = some text) :
    ∀ b ∈ text, Printable b ∨ call = .chroot ∧ xerrno = .eperm ∧ env.getuid ≠ prRootUid ∧
      ∃ args, b ∈ catArgs (env.slots args) := by
  by_cases hperm : call = .chroot ∧ xerrno = .eperm
  · obtain ⟨rfl, rfl⟩ := hperm
    have huid : env.getuid ≠ prRootUid := by simpa [Explainer.walks] using h
    have hx : (explainChrootError env pf p .eperm path wd).explained =
        some (describeNonrootEperm env (lit "chroot(2)")) := by
      unfold explainChrootError
      simp only [if_pos huid]
    obtain rfl := Option.some.inj (hx.symm.trans htext)
    intro b hb
    rcases List.mem_append.1 hb with hword | hslot
    · exact Or.inl (printable_of_words (by decide +kernel) b hword)
    · exact Or.inr ⟨rfl, rfl, huid, _, hslot⟩
  · refine fun b hb => Or.inl ?_
    by_cases hmem : call = .chroot ∧ xerrno = .enomem
    · obtain ⟨rfl, rfl⟩ := hmem
      obtain rfl := Option.some.inj htext
      have hsyscall : ∀ b ∈ lit "chroot(2)", Printable b := printable_of_words (by decide)
      exact sentence_bytes (fun _ => id) env (by decide +kernel) (by decide) hsyscall b hb
    · have hown (hc : call = .chroot) : xerrno ≠ .eperm ∧ xerrno ≠ .enomem :=
        ⟨fun hx => hperm ⟨hc, hx⟩, fun hx => hmem ⟨hc, hx⟩⟩
      rw [Explainer.explained_generic h hown] at htext
      exact explainDescribeGeneric_bytes (printable_of_words call.syscall_words) htext b hb

end Explain
