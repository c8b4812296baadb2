import ModExplain.LinkFs

/-!
# The path that failed and the path that is walked

The kernel resolves the caller's path component by component from the root or
the current directory (`resolvePath`); the walk ends at the path in which the
core has cancelled `.` and `..` on paper (`finalPath_eq`).  The two are the same
file, or fail alike, where cancelling is what the components do
(`final_path_denotes`).
-/

namespace Explain

open Namei Pieces

variable {w : Nat} {env : Env w} {t : LinkFs} {ns : List Name} {path : CStr}

/-! ## The kernel's reading of a path -/

/-- `.` and `..` are no names. -/
def compOf (b : CStr) : Option (Comp Name) :=
  if b = [dot] then some .dot
  else if b = [dot, dot] then some .dotdot
  else (Name.ofBytes? b).map .name

def compsOf (path : CStr) : List (Comp Name) :=
  (pieces slash path).filterMap compOf ++ if path.getLast? = some slash then [.slash] else []

/-- The current directory: a directory of the filesystem, by its own path. -/
structure WorkDir (t : LinkFs) where
  place : Place Name FileNode
  inTree : t.links.At place
  isDir : Inode.isDir place.inode = true
  entries : ∀ n ∈ place.path, n.bytes ≠ [dot] ∧ n.bytes ≠ [dot, dot]

def resolvePath (cwd : WorkDir t) (path : CStr) : Except Fault (Nat × Place Name FileNode) :=
  if path = [] then .error (.obstacle .missing)
  else
    let start := if path.head? = some slash then t.links.root else cwd.place
    walk t.links false t.maxLinks start (compsOf path)

/-- What `lstat` comes to: the place of the file, or the error. -/
def lstatOutcome (cwd : WorkDir t) (path : CStr) : Except Errno (List Name) :=
  match resolvePath cwd path with
  | .error e => .error (faultErrno e)
  | .ok q => .ok q.2.path

/-! ## The core's normalisation -/

/-- The names a path is relative to. -/
def baseNames (cwd : WorkDir t) (path : CStr) : List Name :=
  if path.head? = some slash then [] else cwd.place.path

/-- Absolute, and without `.`, `..` and repeated slashes. -/
def virtualNames (cwd : WorkDir t) (path : CStr) : List Name :=
  lexical (baseNames cwd path) (compsOf path)

/-- The last path the loop of `explain_path_error` builds. -/
def finalPath (env : Env w) (path : CStr) : CStr :=
  prefixAt env (pathSplit env path) ((pathSplit env path).length - 1)

theorem finalPath_eq (hw : WritesVirtualPath env path (absPath ns)) (hsplit : SplitsText env)
    (hjoin : JoinsPaths env) : finalPath env path = absPath ns := by
  unfold finalPath
  rw [pathSplit_of_virtual hw hsplit]
  have hlen : (root :: ns.map Name.bytes).length - 1 = ns.length := by simp
  rw [hlen, prefixAt_absPath hjoin _ (Nat.le_refl _), List.take_length]

/-! ## Entries -/

theorem name_of_mem_compsOf {path : CStr} {n : Name} (h : .name n ∈ compsOf path) :
    n.bytes ≠ [dot] ∧ n.bytes ≠ [dot, dot] := by
  unfold compsOf at h
  rcases List.mem_append.1 h with h | h
  · obtain ⟨b, -, hb⟩ := List.mem_filterMap.1 h
    unfold compOf at hb
    split at hb
    · cases hb
    · split at hb
      · cases hb
      · obtain ⟨m, hm, hname⟩ := Option.map_eq_some_iff.1 hb
        cases hname
        unfold Name.ofBytes? at hm
        split at hm
        · cases hm
          exact ⟨by assumption, by assumption⟩
        · cases hm
  · split at h
    · cases List.mem_singleton.1 h
    · cases h

theorem virtualNames_entries (cwd : WorkDir t) (path : CStr) :
    ∀ n ∈ virtualNames cwd path, n.bytes ≠ [dot] ∧ n.bytes ≠ [dot, dot] := by
  refine lexical_forall _ (fun n hn => name_of_mem_compsOf hn) _ ?_
  unfold baseNames
  split
  · exact fun n hn => absurd hn List.not_mem_nil
  · exact cwd.entries

theorem compOf_bytes {n : Name} (h : n.bytes ≠ [dot] ∧ n.bytes ≠ [dot, dot]) :
    compOf n.bytes = some (.name n) := by
  unfold compOf
  rw [if_neg h.1, if_neg h.2]
  have hof : Name.ofBytes? n.bytes = some n := dif_pos ⟨n.ne_nil, n.noSlash, n.noNul⟩
  rw [hof, Option.map_some]

theorem compsOf_absPath (hne : ns ≠ []) (h : ∀ n ∈ ns, n.bytes ≠ [dot] ∧ n.bytes ≠ [dot, dot]) :
    compsOf (absPath ns) = ns.map .name := by
  unfold compsOf
  rw [if_neg (getLast?_absPath hne), pieces_absPath, List.append_nil, List.filterMap_map]
  have hnames : ns.filterMap (compOf ∘ Name.bytes) = ns.filterMap (some ∘ .name) :=
    List.filterMap_congr fun n hn => compOf_bytes (h n hn)
  rw [hnames, List.filterMap_eq_map]

/-- An absolute normalised path is looked up name by name. -/
theorem resolvePath_absPath (cwd : WorkDir t)
    (h : ∀ n ∈ ns, n.bytes ≠ [dot] ∧ n.bytes ≠ [dot, dot]) :
    resolvePath cwd (absPath ns) = lookup t.links t.maxLinks ns := by
  unfold resolvePath
  rw [if_neg (absPath_ne_nil ns), head?_absPath, if_pos rfl]
  by_cases hns : ns = []
  · subst hns
    have hcomps : compsOf (absPath []) = [.slash] := by decide
    have hadv : advance t.links t.links.root .slash = .ok t.links.root :=
      if_pos t.links.top_isDir
    rw [hcomps, lookup_nil]
    show walk t.links false t.maxLinks t.links.root [.slash] = _
    rw [walk_cons_ok hadv (link_of_isDir t.links.top_isDir), walk_nil]
  · rw [compsOf_absPath hns h]
    rfl

/-! ## Where the two agree -/

/-- The directories above the current one may be searched. -/
def WorkDir.Reachable (cwd : WorkDir t) : Prop :=
  ∀ k < cwd.place.path.length, ∃ m, t.tree.node (cwd.place.path.take k) = some m ∧ Enterable m

/-- The path is one that may be normalised: it is not empty; a relative one
starts where the path of the current directory leads; and cancelling its `..` on
paper is what they do (`Cancels`). -/
structure Normalises (cwd : WorkDir t) (path : CStr) : Prop where
  nonempty : path ≠ []
  reachable : path.head? ≠ some slash → cwd.Reachable
  cancels : Cancels t.links t.maxLinks (baseNames cwd path) (compsOf path)

theorem resolvePath_virtual {cwd : WorkDir t} (h : Normalises cwd path) :
    resolvePath cwd path = lookup t.links t.maxLinks (virtualNames cwd path) := by
  have hlex := walk_lexical _ _ h.cancels
  unfold virtualNames
  rw [← hlex]
  unfold resolvePath
  rw [if_neg h.nonempty]
  by_cases habs : path.head? = some slash
  · have hbase : baseNames cwd path = [] := if_pos habs
    rw [if_pos habs, hbase, List.map_nil, walk_nil]
    rfl
  · have hbase : baseNames cwd path = cwd.place.path := if_neg habs
    have hcwd : walk t.links true t.maxLinks t.links.root (cwd.place.path.map .name) =
        .ok (t.maxLinks, cwd.place) :=
      walk_dirs (t := t.links) (h.reachable habs) cwd.inTree (link_of_isDir cwd.isDir)
    rw [if_neg habs, hbase, hcwd]
    rfl

/-- **The walked path.**  Where a path may be normalised, `lstat` of the last path
of the walk and of the path itself come to the same file or the same error. -/
theorem final_path_denotes (cwd : WorkDir t)
    (hw : WritesVirtualPath env path (absPath (virtualNames cwd path))) (hsplit : SplitsText env)
    (hjoin : JoinsPaths env) (h : Normalises cwd path) :
    lstatOutcome cwd (finalPath env path) = lstatOutcome cwd path := by
  unfold lstatOutcome
  rw [finalPath_eq hw hsplit hjoin, resolvePath_absPath cwd (virtualNames_entries cwd path),
    resolvePath_virtual h]

/-! ## A symlink before `..` -/

/-- `bareHost` with a core that normalises for `cwd`. -/
def lexicalHost (cwd : WorkDir t) : Env 64 :=
  { bareHost with
    prFsVirtualPath := fun path buf =>
      let v := absPath (virtualNames cwd path)
      v ++ nul :: buf.drop (v.length + 1) }

def atRoot (t : LinkFs) : WorkDir t where
  place := t.links.root
  inTree := at_root
  isDir := t.tree.top_isDir
  entries _ hn := absurd hn List.not_mem_nil

/-- `/home` is a symlink to the directory `/bob/report`. -/
def linkedHome : LinkFs :=
  linkFsOf [([bob], anOpenDir), ([bob, report], anOpenDir),
    ([home], aLink ⟨false, [.name bob, .name report]⟩)]

/-- `/bob/report/../report/.` is `/bob/report`. -/
theorem final_path_denotes_linkedHome :
    lstatOutcome (atRoot linkedHome)
        (finalPath (lexicalHost (atRoot linkedHome)) (lit "/bob/report/../report/.")) =
      lstatOutcome (atRoot linkedHome) (lit "/bob/report/../report/.") := by
  have hcomps : compsOf (lit "/bob/report/../report/.") =
      [.name bob, .name report, .dotdot, .name report, .dot] := by decide +kernel
  have hlookup : lookup linkedHome.links 40 [bob, report] =
      .ok (40, ⟨[bob, report], anOpenDir⟩) := by rfl
  have hfinds : ∀ P : FileNode → Prop, P anOpenDir →
      Finds P (lookup linkedHome.links 40 [bob, report]) := by
    intro P hP q hq
    rw [hlookup] at hq
    cases hq
    exact hP
  have hcancels : Cancels linkedHome.links 40 []
      [.name bob, .name report, .dotdot, .name report, .dot] :=
    ⟨⟨_, hlookup, rfl, rfl⟩, fun _ => hfinds _ ⟨rfl, rfl⟩, hfinds _ rfl⟩
  refine final_path_denotes (atRoot linkedHome) (fun _ => rfl) (fun _ => rfl) bareHost_joins
    ⟨by decide, fun h => absurd rfl h, ?_⟩
  rw [hcomps]
  exact hcancels

/-- `/home/../report` is `/bob/report`, and the walk ends at `/report`. -/
theorem final_path_differs :
    ¬ ∀ (t : LinkFs) (cwd : WorkDir t) (path : CStr),
      lstatOutcome cwd (finalPath (lexicalHost cwd) path) = lstatOutcome cwd path := by
  intro h
  have hhome := h linkedHome (atRoot linkedHome) (lit "/home/../report")
  exact absurd hhome (by decide +kernel)

end Explain
