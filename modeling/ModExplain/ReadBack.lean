import ModExplain.Lib.Tokens
import ModExplain.Reasons

/-!
# Explanations read back

No two reasons have the same text, although paths may hold quotes and any of the
words of the texts themselves (`texts_unambiguous`): the first words and the last
byte tell the kind of a text, the numbers and ids at its end are read off from
the right, and what is left is a path, or a path, fixed words and the directory
it lies in.
-/

namespace Explain

open Tokens

variable {w : Nat}

/-! ## Numbers read back -/

/-- `%04o` -/
def octal (n : Nat) : CStr := (digits 8 n).leftpad 4 48

theorem digits_chars {base : Nat} (hpos : 0 < base) (hten : base ≤ 10) (n : Nat) :
    (digits base n).map (fun b => Char.ofNat b.toNat) = Nat.toDigits base n ∧
      ∀ b ∈ digits base n, IsDigit b := by
  have hval (c : Char) (hc : c ∈ Nat.toDigits base n) :
      48 ≤ c.toNat ∧ c.toNat ≤ 57 ∧ (UInt8.ofNat c.toNat).toNat = c.toNat := by
    have hdigit := Nat.isDigit_of_mem_toDigits hpos hten hc
    simp only [Char.isDigit, Bool.and_eq_true, decide_eq_true_eq] at hdigit
    have hhi : c.toNat ≤ 57 := hdigit.2
    exact ⟨hdigit.1, hhi, UInt8.toNat_ofNat_of_lt' (by unfold UInt8.size; omega)⟩
  constructor
  · unfold digits
    rw [List.map_map]
    nth_rewrite 2 [← List.map_id (Nat.toDigits base n)]
    apply List.map_congr_left
    intro c hc
    show Char.ofNat (UInt8.ofNat c.toNat).toNat = c
    rw [(hval c hc).2.2, Char.ofNat_toNat]
  · intro b hb
    obtain ⟨c, hc, rfl⟩ := List.mem_map.1 hb
    obtain ⟨hlo, hhi, hsame⟩ := hval c hc
    exact ⟨by rw [UInt8.le_iff_toNat_le, hsame]; exact hlo,
      by rw [UInt8.le_iff_toNat_le, hsame]; exact hhi⟩

theorem isDigit_of_mem_octal {n : Nat} {b : UInt8} (h : b ∈ octal n) : IsDigit b := by
  unfold octal List.leftpad at h
  rcases List.mem_append.1 h with hpad | hdigit
  · rw [List.eq_of_mem_replicate hpad]
    unfold IsDigit
    decide
  · exact (digits_chars (by omega) (by omega) n).2 b hdigit

theorem octal_injective : Function.Injective octal := by
  have hread (n : Nat) :
      Nat.ofDigitChars 8 ((octal n).map fun b => Char.ofNat b.toNat) 0 = n := by
    unfold octal List.leftpad
    rw [List.map_append, List.map_replicate, (digits_chars (by omega) (by omega) n).1,
      Nat.ofDigitChars_append]
    have hzero : Char.ofNat (48 : UInt8).toNat = '0' := rfl
    rw [hzero, Nat.ofDigitChars_replicate_zero, Nat.mul_zero,
      Nat.ofDigitChars_toDigits (by omega) (by omega)]
  intro a b h
  rw [← hread a, ← hread b, h]

/-- How the core prints user and group ids. -/
structure PrintsIds (id2str : UInt32 → CStr) : Prop where
  injective : Function.Injective id2str
  chars : ∀ id, ∀ b ∈ id2str id, IsDigit b ∨ b = 45

def blank : UInt8 := 32

theorem blank_not_digit : ¬ (IsDigit blank ∨ blank = 45) := by
  unfold IsDigit
  decide

/-! ## A path and its parent, read back -/

theorem parent_text_le {ns ns' : List Name} {n n' : Name} {between : CStr}
    (h : absPath (ns ++ [n]) ++ between ++ absPath ns =
      absPath (ns' ++ [n']) ++ between ++ absPath ns')
    (hle : (absPath (ns ++ [n])).length ≤ (absPath (ns' ++ [n'])).length) :
    absPath (ns ++ [n]) = absPath (ns' ++ [n']) := by
  have hlen := congrArg List.length h
  simp only [List.length_append] at hlen
  rw [List.append_assoc, List.append_assoc] at h
  obtain ⟨more, hmore⟩ : absPath (ns ++ [n]) <+: absPath (ns' ++ [n']) := by
    refine List.prefix_of_prefix_length_le (List.prefix_append _ (between ++ absPath ns)) ?_ hle
    rw [h]
    exact List.prefix_append _ _
  by_contra hne
  have hmore0 : 0 < more.length := by
    rw [List.length_pos_iff]
    rintro rfl
    exact hne (by rw [← hmore, List.append_nil])
  have hlonger := congrArg List.length hmore
  rw [List.length_append] at hlonger
  -- the shorter path is in a directory with the longer name, so its last slash is past the other's
  have hdir : (absPath ns').length < (absPath ns).length := by omega
  have hns : ns ≠ [] := by
    rintro rfl
    have hpos : 0 < (absPath ns').length := List.length_pos_iff.2 (absPath_ne_nil ns')
    have hroot : (absPath []).length = 1 := rfl
    omega
  rw [absPath_snoc, absPath_snoc, if_neg hns] at hmore
  have hbefore : (if ns' = [] then root else absPath ns' ++ [slash]).length ≤ (absPath ns).length := by
    split
    · exact List.length_pos_iff.2 (absPath_ne_nil ns)
    · rw [List.length_append, List.length_singleton]
      exact hdir
  generalize (if ns' = [] then root else absPath ns' ++ [slash]) = before at hmore hbefore
  have hslash : absPath ns ++ slash :: (n.bytes ++ more) = before ++ n'.bytes := by
    rw [← hmore]
    simp
  rcases List.append_eq_append_iff.1 hslash with ⟨u, rfl, hu⟩ | ⟨u, -, hu⟩
  · have hnil : u = [] := List.length_eq_zero_iff.1 (by rw [List.length_append] at hbefore; omega)
    subst hnil
    exact n'.noSlash (by rw [← List.nil_append n'.bytes, ← hu]; exact List.mem_cons_self)
  · exact n'.noSlash (by rw [hu]; exact List.mem_append_right u List.mem_cons_self)

theorem parent_text_inj {ns ns' : List Name} {n n' : Name} {between : CStr}
    (h : absPath (ns ++ [n]) ++ between ++ absPath ns =
      absPath (ns' ++ [n']) ++ between ++ absPath ns') :
    ns ++ [n] = ns' ++ [n'] := by
  apply absPath_injective
  rcases Nat.le_total (absPath (ns ++ [n])).length (absPath (ns' ++ [n'])).length with hle | hge
  · exact parent_text_le h hle
  · exact (parent_text_le h.symm hge).symm

/-! ## No two reasons have the same text -/

/-- A parent that is named is the directory the path lies in. -/
def Reason.WellFormed : Reason → Prop
  | .leaf _ path (.found parent _ _ _) => ∃ ns n, path = absPath (ns ++ [n]) ∧ parent = absPath ns
  | _ => True

theorem opening_inj {a b : Opening} {x y : CStr} (h : a.text ++ x = b.text ++ y) : a = b ∧ x = y := by
  have hab : a = b := by
    by_contra hne
    cases a <;> cases b <;>
      first | exact hne rfl | exact ne_of_begins (by decide) (by decide) h
  subst hab
  exact ⟨rfl, List.append_cancel_left h⟩

/-- How a text about a leaf ends. -/
def Parent.Ends : Parent → UInt8 → Prop
  | .unread, b => b = 114
  | .unnamed, b => b = 39
  | .found .., b => IsDigit b ∨ b = 45 ∨ b = blank

section Ids

variable {uid2str gid2str : UInt32 → CStr} (huid : PrintsIds uid2str) (hgid : PrintsIds gid2str)

/-- The words between a leaf and its parent. -/
def betweenText (search : Bool) : CStr := leafWords search ++ lit "; parent directory '"

theorem unread_rest (search : Bool) (path : CStr) :
    (Reason.leaf search path .unread).rest uid2str gid2str = path ++ leafWords search :=
  List.append_nil _

theorem unnamed_rest (search : Bool) (path : CStr) :
    (Reason.leaf search path .unnamed).rest uid2str gid2str = path ++ betweenText search :=
  List.append_assoc _ _ _

theorem found_rest (search : Bool) (path parent : CStr) (perms : Nat) (uid gid : UInt32) :
    (Reason.leaf search path (.found parent perms uid gid)).rest uid2str gid2str =
      path ++ betweenText search ++ parent ++ (lit "' has perms" ++ [blank]) ++ octal perms ++
        (lit ", and is owned by UID" ++ [blank]) ++ uid2str uid ++ (lit ", GID" ++ [blank]) ++
        gid2str gid := by
  have hperms : lit "' has perms " = lit "' has perms" ++ [blank] := by decide
  have howned : lit ", and is owned by UID " = lit ", and is owned by UID" ++ [blank] := by decide
  have hgroup : lit ", GID " = lit ", GID" ++ [blank] := by decide
  unfold Reason.rest Parent.text betweenText octal
  rw [hperms, howned, hgroup]
  simp only [List.append_assoc]

include hgid in
theorem leaf_ends (search : Bool) (path : CStr) (parent : Parent) :
    ∃ b, ((Reason.leaf search path parent).rest uid2str gid2str).getLast? = some b ∧
      parent.Ends b := by
  cases parent with
  | unread =>
    refine ⟨114, ?_, rfl⟩
    rw [unread_rest, List.getLast?_append_of_ne_nil path (by cases search <;> decide)]
    cases search <;> decide
  | unnamed =>
    refine ⟨39, ?_, rfl⟩
    rw [unnamed_rest, List.getLast?_append_of_ne_nil path (by cases search <;> decide)]
    cases search <;> decide
  | found parent perms uid gid =>
    rw [found_rest]
    cases hgid' : gid2str gid with
    | nil =>
      refine ⟨blank, ?_, Or.inr (Or.inr rfl)⟩
      rw [List.append_nil, ← List.append_assoc, List.getLast?_concat]
    | cons c cs =>
      rw [List.getLast?_append_of_ne_nil _ (List.cons_ne_nil c cs)]
      refine ⟨_, List.getLast?_eq_some_getLast (List.cons_ne_nil c cs), ?_⟩
      have hmem : (c :: cs).getLast (List.cons_ne_nil c cs) ∈ gid2str gid := by
        rw [hgid']
        exact List.getLast_mem _
      exact (hgid.chars gid _ hmem).imp_right Or.inl

include huid hgid

/-- The parts of a text that names the parent. -/
theorem found_rest_inj {search : Bool} {path path' parent parent' : CStr} {perms perms' : Nat}
    {uid uid' gid gid' : UInt32}
    (h : (Reason.leaf search path (.found parent perms uid gid)).rest uid2str gid2str =
      (Reason.leaf search path' (.found parent' perms' uid' gid')).rest uid2str gid2str) :
    path ++ betweenText search ++ parent = path' ++ betweenText search ++ parent' ∧
      perms = perms' ∧ uid = uid' ∧ gid = gid' := by
  have hno {id2str : UInt32 → CStr} (hids : PrintsIds id2str) (id : UInt32) : blank ∉ id2str id :=
    fun hm => blank_not_digit (hids.chars id blank hm)
  have hoctal (n : Nat) : blank ∉ octal n :=
    fun hm => blank_not_digit (Or.inl (isDigit_of_mem_octal hm))
  rw [found_rest, found_rest] at h
  obtain ⟨h, hg⟩ := append_label_token_inj (hno hgid gid) (hno hgid gid') h
  obtain ⟨h, hu⟩ := append_label_token_inj (hno huid uid) (hno huid uid') h
  obtain ⟨h, hp⟩ := append_label_token_inj (hoctal perms) (hoctal perms') h
  exact ⟨h, octal_injective hp, huid.injective hu, hgid.injective hg⟩

theorem leaf_rest_inj {search : Bool} {path path' : CStr} {parent parent' : Parent}
    (hwf : (Reason.leaf search path parent).WellFormed)
    (hwf' : (Reason.leaf search path' parent').WellFormed)
    (h : (Reason.leaf search path parent).rest uid2str gid2str =
      (Reason.leaf search path' parent').rest uid2str gid2str) :
    path = path' ∧ parent = parent' := by
  obtain ⟨b, hb, hends⟩ := @leaf_ends uid2str gid2str hgid search path parent
  obtain ⟨b', hb', hends'⟩ := @leaf_ends uid2str gid2str hgid search path' parent'
  rw [h, hb', Option.some.injEq] at hb
  subst hb
  -- the last byte tells the three kinds of parents apart
  have h114 : ¬ (IsDigit 114 ∨ (114 : UInt8) = 45 ∨ (114 : UInt8) = blank) := by
    unfold IsDigit
    decide
  have h39 : ¬ (IsDigit 39 ∨ (39 : UInt8) = 45 ∨ (39 : UInt8) = blank) := by
    unfold IsDigit
    decide
  cases parent with
  | unread =>
    cases hends
    cases parent' with
    | unread =>
      rw [unread_rest, unread_rest] at h
      exact ⟨List.append_cancel_right h, rfl⟩
    | unnamed => cases hends'
    | found => exact absurd hends' h114
  | unnamed =>
    cases hends
    cases parent' with
    | unread => cases hends'
    | unnamed =>
      rw [unnamed_rest, unnamed_rest] at h
      exact ⟨List.append_cancel_right h, rfl⟩
    | found => exact absurd hends' h39
  | found q perms uid gid =>
    cases parent' with
    | unread =>
      cases hends'
      exact absurd hends h114
    | unnamed =>
      cases hends'
      exact absurd hends h39
    | found q' perms' uid' gid' =>
      obtain ⟨hpaths, rfl, rfl, rfl⟩ := found_rest_inj huid hgid h
      obtain ⟨ns, n, rfl, rfl⟩ := hwf
      obtain ⟨ns', n', rfl, rfl⟩ := hwf'
      have hns := parent_text_inj hpaths
      obtain ⟨rfl, -⟩ := List.append_inj' hns rfl
      exact ⟨by rw [hns], rfl⟩

omit huid hgid in
theorem missing_ne_unsearchable (whole : Bool) (path path' : CStr) :
    (Reason.missing whole path).rest uid2str gid2str ≠
      (Reason.unsearchable path').rest uid2str gid2str := by
  intro h
  exact absurd (last_eq_of_append (by decide) (by decide) h) (by decide)

omit huid in
theorem missing_ne_leaf (whole search : Bool) (path path' : CStr) (parent : Parent) :
    (Reason.missing whole path).rest uid2str gid2str ≠
      (Reason.leaf search path' parent).rest uid2str gid2str := by
  intro h
  obtain ⟨b, hb, hends⟩ := @leaf_ends uid2str gid2str hgid search path' parent
  have hlast : ((Reason.missing whole path).rest uid2str gid2str).getLast? = some 116 := by
    show (path ++ lit "' does not exist").getLast? = some 116
    rw [List.getLast?_append_of_ne_nil path (by decide)]
    decide
  rw [← h, hlast, Option.some.injEq] at hb
  subst hb
  have h116 : ¬ (IsDigit 116 ∨ (116 : UInt8) = 45 ∨ (116 : UInt8) = blank) := by
    unfold IsDigit
    decide
  cases parent with
  | unread => cases hends
  | unnamed => cases hends
  | found => exact h116 hends

/-- **Texts read back.**  Reasons with the same text are the same. -/
theorem render_inj {r r' : Reason} (hwf : r.WellFormed) (hwf' : r'.WellFormed)
    (h : r.render uid2str gid2str = r'.render uid2str gid2str) : r = r' := by
  obtain ⟨hopening, hrest⟩ := opening_inj h
  cases r with
  | pathTooLong path len max =>
    cases r' with
    | pathTooLong path' len' max' =>
      obtain ⟨hpath, rfl, rfl⟩ := lengthText_inj hrest
      rw [List.append_cancel_right hpath]
    | missing whole _ => cases whole <;> cases hopening
    | leaf search _ _ => cases search <;> cases hopening
    | _ => cases hopening
  | nameTooLong name len max =>
    cases r' with
    | nameTooLong name' len' max' =>
      obtain ⟨hname, rfl, rfl⟩ := lengthText_inj hrest
      rw [List.append_cancel_right hname]
    | missing whole _ => cases whole <;> cases hopening
    | leaf search _ _ => cases search <;> cases hopening
    | _ => cases hopening
  | missing whole path =>
    cases r' with
    | missing whole' path' =>
      rw [List.append_cancel_right hrest]
      cases whole <;> cases whole' <;> first | rfl | cases hopening
    | unsearchable path' => exact absurd hrest (missing_ne_unsearchable whole path path')
    | leaf search path' parent => exact absurd hrest (missing_ne_leaf hgid whole search path path' parent)
    | _ => cases whole <;> cases hopening
  | unsearchable path =>
    cases r' with
    | unsearchable path' => rw [List.append_cancel_right hrest]
    | missing whole path' => exact absurd hrest.symm (missing_ne_unsearchable whole path' path)
    | leaf search _ _ => cases search <;> cases hopening
    | _ => cases hopening
  | notDir path =>
    cases r' with
    | notDir path' => rw [List.append_cancel_right hrest]
    | missing whole _ => cases whole <;> cases hopening
    | leaf search _ _ => cases search <;> cases hopening
    | _ => cases hopening
  | leaf search path parent =>
    cases r' with
    | leaf search' path' parent' =>
      have hsearch : search = search' := by
        cases search <;> cases search' <;> first | rfl | cases hopening
      subst hsearch
      obtain ⟨rfl, rfl⟩ := leaf_rest_inj huid hgid hwf hwf' hrest
      rfl
    | missing whole path' =>
      exact absurd hrest.symm (missing_ne_leaf hgid whole search path' path parent)
    | _ => cases search <;> cases hopening

end Ids

section Walks

variable {env : Env w} {pf : Platform w} {errErrno : Errno} {ns : List Name} {flags : UInt32}
  {wd : World}

/-- The parent a walk names is the directory the leaf lies in. -/
theorem parentFound_wellFormed (hjoin : JoinsPaths env) (search : Bool)
    (res : Except Errno Stat) :
    (Reason.leaf search (prefixAt env (root :: ns.map Name.bytes) ns.length)
      (parentFound (parentOf env (root :: ns.map Name.bytes) ns.length) res)).WellFormed := by
  cases res with
  | error e => trivial
  | ok st =>
    cases hlen : ns.length with
    | zero => trivial
    | succ m =>
      refine ⟨ns.take m, ns[m], ?_, ?_⟩
      · rw [prefixAt_absPath hjoin (m + 1) (by omega), List.take_append_getElem]
      · exact prefixAt_absPath hjoin m (by omega)

theorem reasonAt_wellFormed (hjoin : JoinsPaths env) {nameMax noTrunc : Long w} {k : Nat}
    {r : Reason}
    (h : reasonAt env errErrno flags nameMax noTrunc (root :: ns.map Name.bytes) wd k = some r) :
    r.WellFormed := by
  have hlast : (root :: ns.map Name.bytes).length - 1 = ns.length := by simp
  unfold reasonAt at h
  rw [hlast] at h
  dsimp only at h
  split at h
  · cases h
    trivial
  · split at h
    · cases h
      trivial
    · split at h
      · cases h
        trivial
      · cases h
        trivial
    · cases h
    · split at h
      · cases h
        trivial
      · rename_i hk
        obtain rfl := not_not.1 hk
        split at h
        · cases h
          exact parentFound_wellFormed hjoin _ _
        · cases h

theorem Reasoned.wellFormed (hsplit : SplitsText env) (hjoin : JoinsPaths env) {path : CStr}
    {r : Reason} (h : Reasoned env pf errErrno path flags wd (some r)) : r.WellFormed := by
  rcases h with ⟨-, heq⟩ | ⟨-, k, -, -, heq⟩
  · cases heq
    trivial
  · obtain ⟨ns, hns⟩ := pathSplit_names hsplit path
    rw [hns] at heq
    exact reasonAt_wellFormed hjoin heq.symm

/-- **Explanations can be read back.**  Two walks, of whatever paths, for whatever
errors and in whatever filesystems, have the same text exactly when they
found the same reason: the same kind of failure, the same path named, the same
lengths and limits, the same parent, permissions and owner. -/
theorem texts_unambiguous {env' : Env w} {pf' : Platform w} {errErrno' : Errno}
    {path path' : CStr} {flags' : UInt32} {wd' : World} (hsplit : SplitsText env)
    (hsplit' : SplitsText env') (hjoin : JoinsPaths env) (hjoin' : JoinsPaths env')
    (huid : PrintsIds env.prUid2str) (hgid : PrintsIds env.prGid2str)
    (huids : env'.prUid2str = env.prUid2str) (hgids : env'.prGid2str = env.prGid2str)
    {r r' : Option Reason} (h : Reasoned env pf errErrno path flags wd r)
    (h' : Reasoned env' pf' errErrno' path' flags' wd' r') (p p' : Pool) (mode mode' : UInt32) :
    (explainPathError env pf (some p) errErrno (some path) flags mode wd).1 =
        (explainPathError env' pf' (some p') errErrno' (some path') flags' mode' wd').1 ↔
      r = r' := by
  rw [explainPathError_render h, explainPathError_render h', huids, hgids]
  constructor
  · intro heq
    cases r with
    | none =>
      cases r' with
      | none => rfl
      | some r' => cases heq
    | some r =>
      cases r' with
      | none => cases heq
      | some r' =>
        rw [Option.map_some, Option.map_some, Option.some.injEq] at heq
        rw [render_inj huid hgid (h.wellFormed hsplit hjoin) (h'.wellFormed hsplit' hjoin') heq]
  · rintro rfl
    rfl

theorem bareHost_printsIds : PrintsIds bareHost.prUid2str where
  injective := digits_injective.comp fun _ _ h => UInt32.toNat_inj.1 h
  chars _ _ hb := Or.inl (isDigit_of_mem_digits hb)

/-- Where nothing exists, every walk finds `/` missing. -/
theorem bareHost_reasoned (path : CStr) (flags : UInt32) :
    Reasoned bareHost .initial .enoent path flags .start
      (reasonAt bareHost .enoent flags 255 1 (pathSplit bareHost path) .start 0) := by
  refine Or.inr ⟨fun h => absurd h.1 (by decide), 0, List.length_pos_iff.2 (pathSplit_ne_nil _ _),
    ⟨Or.inr (Or.inl ⟨.enoent, rfl⟩), fun i _ => Nat.zero_le i⟩, rfl⟩

/-- `/` missing as the path, and as a directory of `/home/`. -/
theorem texts_unambiguous_root :
    (explainPathError bareHost .initial (some ⟨0⟩) .enoent (some (lit "/")) 0 0 .start).1 ≠
      (explainPathError bareHost .initial (some ⟨0⟩) .enoent (some (lit "/home/")) 0 0 .start).1 := by
  have hiff := texts_unambiguous (fun _ => rfl) (fun _ => rfl) bareHost_joins bareHost_joins
    bareHost_printsIds bareHost_printsIds rfl rfl (bareHost_reasoned (lit "/") 0)
    (bareHost_reasoned (lit "/home/") 0) ⟨0⟩ ⟨0⟩ 0 0
  rw [Ne, hiff]
  decide

end Walks

end Explain
