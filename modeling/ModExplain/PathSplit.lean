import ModExplain.Path
import ModExplain.Lib.Pieces

/-!
# `path_split` byte by byte

The virtual path `v` is written, with its NUL, over the start of a buffer that
keeps its other bytes.  A final slash has its NUL overwritten by `.`, so the
text that is split runs on into what the buffer held before
(`pathSplit_of_write`).

    pathSplit = the components of v  ↔  v is "/", or does not end in '/',
      or only slashes stand between the '.' and the next NUL
    the buffer's old bytes never show  ↔  v is "/", or does not end in '/'
                                                            (both pathSplit_eq_iff)
    what is read ends inside the buffer  ↔  v is "/", fills the buffer, or does not
      end in '/', or a NUL stands after it              (path_split_inside_iff)
-/

namespace Explain

open Pieces

variable {w : Nat} {env : Env w} {path v : CStr}

/-- `pr_fs_virtual_path(path, buf, …)` writes `v` and its NUL over the start of
`buf` and nothing else. -/
def WritesVirtualPath (env : Env w) (path v : CStr) : Prop :=
  ∀ buf, env.prFsVirtualPath path buf = v ++ nul :: buf.drop (v.length + 1)

/-- `pr_str_text_to_array` returns the non-empty pieces between slashes. -/
def SplitsText (env : Env w) : Prop := ∀ text, env.prStrTextToArray text = pieces slash text

/-- The components the walk is meant to see: `/`, the pieces of `v`, and a `.`
for a trailing slash. -/
def components (v : CStr) : List CStr :=
  if v = root then [root]
  else root :: (pieces slash v ++ if v.getLast? = some slash then [[dot]] else [])

/-- `pdircat(p, a, b, NULL)` as the core joins: one slash between the two. -/
def dirCat (a b : CStr) : CStr :=
  if a.getLast? = some slash then a ++ (if b.head? = some slash then b.tail else b)
  else if b.head? = some slash then a ++ b
  else a ++ slash :: b

/-- A host with nothing in its filesystem, on which the core does what is
assumed of it; runs on fixed inputs start from it. -/
def bareHost : Env 64 where
  prTunablePathMax := 1024
  havePathconf := true
  prFsVirtualPath path buf := path ++ nul :: buf.drop (path.length + 1)
  prStrTextToArray := pieces slash
  pdircat := dirCat
  prUid2str uid := digits 10 uid.toNat
  prGid2str gid := digits 10 gid.toNat
  getuid := 1000
  stack := []
  slots _ := [none]
  lstat _ _ := .error .enoent
  pathconf _ name :=
    match name with
    | .nameMax => .ok 255
    | .noTrunc => .ok 1
    | .pathMax => .ok 4096

/-! ## C strings in a buffer -/

theorem nul_notMem_cstrAt (mem : List UInt8) : nul ∉ cstrAt mem := by
  intro h
  simpa using List.mem_takeWhile_imp h

theorem cstrAt_terminated {s : CStr} (hs : nul ∉ s) (rest : List UInt8) :
    cstrAt (s ++ nul :: rest) = s := by
  unfold cstrAt
  rw [List.takeWhile_append_of_pos]
  · simp
  · intro b hb
    have : b ≠ nul := fun h => hs (h ▸ hb)
    simpa using this

theorem cstrAt_append {s : CStr} (hs : nul ∉ s) (rest : List UInt8) :
    cstrAt (s ++ rest) = s ++ cstrAt rest := by
  unfold cstrAt
  rw [List.takeWhile_append_of_pos]
  intro b hb
  have : b ≠ nul := fun h => hs (h ▸ hb)
  simpa using this

theorem cstrAt_replicate (n : Nat) (b : UInt8) :
    cstrAt (List.replicate n b) = if b = nul then [] else List.replicate n b := by
  unfold cstrAt
  rw [List.takeWhile_replicate]
  by_cases h : b = nul <;> simp [h]

/-- The text handed to `pr_str_text_to_array` is `v`, or with a final slash `v`
followed by `.` and by what the buffer held up to a NUL. -/
theorem pathSplit_of_write (hw : WritesVirtualPath env path v) (hnul : nul ∉ v) (hne : v ≠ []) :
    pathSplit env path =
      if v.length = 1 then [root]
      else root :: env.prStrTextToArray
        (if v.getLast? = some slash ∧ v.length < env.prTunablePathMax then
          v ++ dot :: cstrAt (env.stack.drop (v.length + 1))
        else v) := by
  have hpos : 0 < v.length := List.length_pos_iff.2 hne
  unfold pathSplit
  rw [hw env.stack]
  simp only [cstrAt_terminated hnul]
  have hlast : (v ++ nul :: env.stack.drop (v.length + 1))[v.length - 1]? = v.getLast? := by
    rw [List.getElem?_append_left (by omega), List.getLast?_eq_getElem?]
  rw [hlast]
  by_cases hdot : v.getLast? = some slash ∧ v.length < env.prTunablePathMax
  · rw [if_pos hdot, if_pos hdot]
    have hset : (v ++ nul :: env.stack.drop (v.length + 1)).set v.length dot =
        (v ++ [dot]) ++ env.stack.drop (v.length + 1) := by
      simp
    rw [hset, cstrAt_append, List.append_assoc]
    · rfl
    · rw [List.mem_append, not_or]
      exact ⟨hnul, by decide⟩
  · rw [if_neg hdot, if_neg hdot, cstrAt_terminated hnul]

/-! ## When the buffer's old bytes do not show -/

theorem length_eq_one_iff_root (habs : v.head? = some slash) : v.length = 1 ↔ v = root := by
  unfold root
  constructor
  · intro h
    obtain ⟨a, rfl⟩ := List.length_eq_one_iff.1 h
    simpa using habs
  · rintro rfl
    rfl

/-- Without a trailing slash the components are those of `v`. -/
theorem pathSplit_of_no_slash (hw : WritesVirtualPath env path v) (hsplit : SplitsText env)
    (hnul : nul ∉ v) (habs : v.head? = some slash) (hend : v.getLast? ≠ some slash) :
    pathSplit env path = root :: pieces slash v := by
  have hne : v ≠ [] := by
    rintro rfl
    cases habs
  have hroot : v ≠ root := by
    rintro rfl
    exact hend rfl
  rw [pathSplit_of_write hw hnul hne, if_neg (by rwa [length_eq_one_iff_root habs]),
    if_neg fun h => hend h.1, hsplit]

example : pathSplit bareHost (lit "/a//b") = [root, lit "a", lit "b"] := by decide

/-- When the bytes the buffer held before do not show. -/
theorem pathSplit_components_iff (hw : WritesVirtualPath env path v) (hsplit : SplitsText env)
    (hnul : nul ∉ v) (habs : v.head? = some slash) (hlen : v.length < env.prTunablePathMax) :
    pathSplit env path = components v ↔
      v = root ∨ v.getLast? ≠ some slash ∨
        ∀ b ∈ cstrAt (env.stack.drop (v.length + 1)), b = slash := by
  by_cases hroot : v = root
  · subst hroot
    rw [pathSplit_of_write hw hnul (by simp [root])]
    simp [components, root]
  by_cases hend : v.getLast? = some slash
  · obtain ⟨u, rfl⟩ : ∃ u, v = u ++ [slash] := by
      obtain ⟨h, hx⟩ := List.getLast?_eq_some_iff.1 hend
      exact ⟨h, hx⟩
    have hone : (u ++ [slash]).length ≠ 1 := by rwa [Ne, length_eq_one_iff_root habs]
    have hdot : dot ≠ slash := by decide
    rw [pathSplit_of_write hw hnul (by simp), if_neg hone, if_pos ⟨hend, hlen⟩, hsplit]
    unfold components
    rw [if_neg hroot, if_pos hend, List.append_assoc, List.singleton_append, pieces_append_sep,
      pieces_append_sep, pieces_nil, List.append_nil]
    simp only [List.cons.injEq, true_and, List.append_cancel_left_eq, hroot, hend, false_or, ne_eq,
      not_true_eq_false]
    exact pieces_cons_eq_singleton_iff hdot _
  · rw [pathSplit_of_no_slash hw hsplit hnul habs hend]
    simp [components, hroot, hend]

/-- **Stale bytes.**  The components are those of `v` exactly when no byte but
a slash stands after the terminator of a `v` with a trailing slash; any two buffers
give the same components exactly when `v` is `/` or has no trailing slash. -/
theorem pathSplit_eq_iff (hw : WritesVirtualPath env path v) (hsplit : SplitsText env)
    (hnul : nul ∉ v) (habs : v.head? = some slash) (hlen : v.length < env.prTunablePathMax) :
    (pathSplit env path = components v ↔
      v = root ∨ v.getLast? ≠ some slash ∨
        ∀ b ∈ cstrAt (env.stack.drop (v.length + 1)), b = slash) ∧
    ((∀ buf buf' : List UInt8, buf.length = env.prTunablePathMax + 1 →
        buf'.length = env.prTunablePathMax + 1 →
        pathSplit { env with stack := buf } path = pathSplit { env with stack := buf' } path) ↔
      v = root ∨ v.getLast? ≠ some slash) := by
  have hbuf (buf : List UInt8) := @pathSplit_components_iff w { env with stack := buf } path v hw
    hsplit hnul habs hlen
  refine ⟨pathSplit_components_iff hw hsplit hnul habs hlen, fun hsame => ?_,
    fun hv buf buf' _ _ => ?_⟩
  · by_contra hv
    rw [not_or] at hv
    -- zeroes give the components, a byte after the terminator does not
    let zeroes : List UInt8 := List.replicate (env.prTunablePathMax + 1) nul
    let dots : List UInt8 := List.replicate (env.prTunablePathMax + 1) dot
    have hzeroes : pathSplit { env with stack := zeroes } path = components v := by
      refine (hbuf zeroes).2 (Or.inr (Or.inr fun b hb => ?_))
      have hb : b ∈ cstrAt (zeroes.drop (v.length + 1)) := hb
      rw [List.drop_replicate, cstrAt_replicate, if_pos rfl] at hb
      cases hb
    have hdots : ¬ pathSplit { env with stack := dots } path = components v := by
      rw [hbuf dots]
      rintro (hroot | hend | hslashes)
      · exact hv.1 hroot
      · exact hv.2 hend
      · have hdot : dot ∈ cstrAt (dots.drop (v.length + 1)) := by
          rw [List.drop_replicate, cstrAt_replicate, if_neg (by decide), List.mem_replicate]
          exact ⟨by omega, rfl⟩
        exact absurd (hslashes dot hdot) (by decide)
    refine hdots ((hsame dots zeroes ?_ ?_).trans hzeroes) <;> exact List.length_replicate
  · have heq (buf : List UInt8) : pathSplit { env with stack := buf } path = components v :=
      (hbuf buf).2 (hv.imp_right Or.inl)
    rw [heq, heq]

/-- A buffer that held `x` after the terminator of `/a/`. -/
theorem pathSplit_eq_iff_stale :
    pathSplit { bareHost with stack := lit "....x" } (lit "/a/") ≠ components (lit "/a/") ∧
      ¬ ∀ buf buf' : List UInt8, buf.length = 1025 → buf'.length = 1025 →
        pathSplit { bareHost with stack := buf } (lit "/a/") =
          pathSplit { bareHost with stack := buf' } (lit "/a/") := by
  have hwrites : WritesVirtualPath { bareHost with stack := lit "....x" } (lit "/a/") (lit "/a/") :=
    fun _ => rfl
  obtain ⟨hone, htwo⟩ :=
    pathSplit_eq_iff hwrites (fun _ => rfl) (by decide) (by decide) (by decide)
  constructor
  · intro h
    rcases hone.1 h with hroot | hend | hslashes
    · exact absurd hroot (by decide)
    · exact hend (by decide)
    · have hx : (120 : UInt8) = slash := hslashes 120 (by decide)
      exact absurd hx (by decide)
  · intro h
    rcases htwo.1 h with hroot | hend
    · exact absurd hroot (by decide)
    · exact hend (by decide)

/-- The components do depend on the stale bytes: `/a/` splits into `/`, `a` and
`.x`. -/
theorem pathSplit_reads_stale :
    ¬ ∀ (env : Env 64) (path v : CStr), WritesVirtualPath env path v → SplitsText env → nul ∉ v →
      v.head? = some slash → v.length < env.prTunablePathMax → pathSplit env path = components v := by
  intro h
  have hx := h { bareHost with stack := lit "....x" } (lit "/a/") (lit "/a/") (fun _ => rfl)
    (fun _ => rfl) (by decide) (by decide) (by decide)
  exact absurd hx (by decide)

/-! ## Inside the buffer -/

/-- The buffer when `pr_str_text_to_array` reads it. -/
def splitBuffer (env : Env w) (path : CStr) : List UInt8 :=
  let buf := env.prFsVirtualPath path env.stack
  let fullPathlen := (cstrAt buf).length
  if buf[fullPathlen - 1]? = some slash ∧ fullPathlen < env.prTunablePathMax then
    buf.set fullPathlen dot
  else buf

theorem pathSplit_splitBuffer (env : Env w) (path : CStr) :
    pathSplit env path =
      if (cstrAt (env.prFsVirtualPath path env.stack)).length = 1 then [root]
      else root :: env.prStrTextToArray (cstrAt (splitBuffer env path)) :=
  rfl

/-- The texts that are read have their NUL in the buffer: the virtual path, and
what is split unless that path is a single byte. -/
def ReadsInside (env : Env w) (path : CStr) : Prop :=
  nul ∈ env.prFsVirtualPath path env.stack ∧
    ((cstrAt (env.prFsVirtualPath path env.stack)).length = 1 ∨ nul ∈ splitBuffer env path)

theorem splitBuffer_of_write (hw : WritesVirtualPath env path v) (hnul : nul ∉ v) (hne : v ≠ []) :
    splitBuffer env path =
      v ++ (if v.getLast? = some slash ∧ v.length < env.prTunablePathMax then dot else nul) ::
        env.stack.drop (v.length + 1) := by
  have hpos : 0 < v.length := List.length_pos_iff.2 hne
  unfold splitBuffer
  rw [hw env.stack]
  simp only [cstrAt_terminated hnul]
  have hlast : (v ++ nul :: env.stack.drop (v.length + 1))[v.length - 1]? = v.getLast? := by
    rw [List.getElem?_append_left (by omega), List.getLast?_eq_getElem?]
  rw [hlast]
  by_cases hdot : v.getLast? = some slash ∧ v.length < env.prTunablePathMax
  · rw [if_pos hdot, if_pos hdot]
    simp
  · rw [if_neg hdot, if_neg hdot]

/-- **Bounds.**  `path_split` reads the last byte of the path and stores its `.`
inside the buffer, and the texts it reads end there unless the path has a trailing
slash and the buffer happened to hold no NUL after the path. -/
theorem path_split_inside_iff (hw : WritesVirtualPath env path v) (hnul : nul ∉ v)
    (habs : v.head? = some slash) (hlen : v.length ≤ env.prTunablePathMax)
    (hstack : env.stack.length = env.prTunablePathMax + 1) :
    let buf := env.prFsVirtualPath path env.stack
    let fullPathlen := (cstrAt buf).length
    buf.length = env.prTunablePathMax + 1 ∧ 0 < fullPathlen ∧ fullPathlen < buf.length ∧
      (splitBuffer env path).length = env.prTunablePathMax + 1 ∧
      (ReadsInside env path ↔
        v = root ∨ v.getLast? ≠ some slash ∨ v.length = env.prTunablePathMax ∨
          nul ∈ env.stack.drop (v.length + 1)) := by
  intro buf fullPathlen
  have hne : v ≠ [] := by
    rintro rfl
    cases habs
  have hbuf : buf = v ++ nul :: env.stack.drop (v.length + 1) := hw env.stack
  have hstrlen : fullPathlen = v.length := by
    show (cstrAt buf).length = v.length
    rw [hbuf, cstrAt_terminated hnul]
  have hsize : buf.length = env.prTunablePathMax + 1 := by
    rw [hbuf]
    simp [hstack]
    omega
  have hpos : 0 < v.length := List.length_pos_iff.2 hne
  refine ⟨hsize, by omega, by omega, ?_⟩
  rw [splitBuffer_of_write hw hnul hne]
  refine ⟨by simp [hstack]; omega, ?_⟩
  unfold ReadsInside
  rw [splitBuffer_of_write hw hnul hne, hw, cstrAt_terminated hnul, length_eq_one_iff_root habs]
  have hdot : nul ≠ dot := by decide
  by_cases hend : v.getLast? = some slash
  · by_cases hlt : v.length < env.prTunablePathMax
    · have hnotfull : v.length ≠ env.prTunablePathMax := Nat.ne_of_lt hlt
      simp [hend, hlt, hnul, hdot, hnotfull]
    · have hfull : v.length = env.prTunablePathMax := by omega
      simp [hfull]
  · simp [hend]

/-- Nine bytes without a NUL, and a path with a trailing slash. -/
def noNulHost : Env 64 := { bareHost with prTunablePathMax := 8, stack := lit "xxxxxxxxx" }

theorem path_split_inside_iff_noNul : ¬ ReadsInside noNulHost (lit "/a/") := by
  have hwrites : WritesVirtualPath noNulHost (lit "/a/") (lit "/a/") := fun _ => rfl
  rw [(path_split_inside_iff hwrites (by decide) (by decide) (by decide) (by decide)).2.2.2.2]
  decide

end Explain
