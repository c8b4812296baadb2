import ModExplain.Lib.Namei

/-!
# Path resolution with symlinks

`walk follow n s cs` follows the components `cs` from `s`, with `n` symlinks left
to follow; a symlink at the end is followed or not.  It answers with the symlinks
left and the place reached.

* `walk_append`: a path is resolved piece by piece, what it begins with as if it
  were followed.
* `walk_nofollow`: not following matters only for a path that ends in a symlink.
* `walk_sub`: what a walk is in a tree that lacks some of the entries.
* `walk_lexical`: dropping `.` and cancelling `..` on paper is the same walk where
  every `..` leaves a directory that may be searched (`Cancels`).
-/

namespace Namei

open Inode

/-- What a path is made of; `slash` ends a path that ends in a slash. -/
inductive Comp (ν : Type) where
  | dot
  | dotdot
  | name (x : ν)
  | slash
deriving DecidableEq

structure Link (ν : Type) where
  absolute : Bool
  target : List (Comp ν)

/-- A tree some of whose inodes are symlinks. -/
structure LinkTree (ν ι : Type) [Inode ι] extends Tree ν ι where
  link : ι → Option (Link ν)
  link_notDir : ∀ i l, link i = some l → isDir i = false

/-- Why a path does not resolve. -/
inductive Fault where
  | obstacle (o : Obstacle)
  | loop
deriving DecidableEq, Repr

/-- A place in the tree: how it is reached from the top, and what is there. -/
structure Place (ν ι : Type) where
  path : List ν
  inode : ι

variable {ν ι : Type} [Inode ι] (t : LinkTree ν ι)

def LinkTree.root : Place ν ι := ⟨[], t.top⟩

/-- Where a component leads from `p`. -/
def Comp.goal (p : List ν) : Comp ν → List ν
  | .name x => p ++ [x]
  | .dotdot => p.dropLast
  | .dot | .slash => p

/-- One component further, no symlink followed. -/
def advance (s : Place ν ι) : Comp ν → Except Fault (Place ν ι)
  | .slash => if isDir s.inode = true then .ok s else .error (.obstacle .notDir)
  | c =>
    match enter t.toTree s.inode (c.goal s.path) with
    | .error o => .error (.obstacle o)
    | .ok i => .ok ⟨c.goal s.path, i⟩

/-- Where the target of a symlink begins. -/
def Link.base (l : Link ν) (s : Place ν ι) : Place ν ι := if l.absolute then t.root else s

/-- Follows `cs` up to a symlink, and goes on there with `jump`. -/
def walkWith (follow : Bool) (jump : Place ν ι → List (Comp ν) → Except Fault (Nat × Place ν ι))
    (n : Nat) : Place ν ι → List (Comp ν) → Except Fault (Nat × Place ν ι)
  | s, [] => .ok (n, s)
  | s, c :: cs =>
    match advance t s c with
    | .error e => .error e
    | .ok s' =>
      match t.link s'.inode with
      | none => walkWith follow jump n s' cs
      | some l =>
        if cs = [] ∧ follow = false then .ok (n, s') else jump (l.base t s) (l.target ++ cs)

/-- Follows `cs` from `s` through at most `n` symlinks. -/
def walk (follow : Bool) : Nat → Place ν ι → List (Comp ν) → Except Fault (Nat × Place ν ι)
  | 0 => walkWith t follow (fun _ _ => .error .loop) 0
  | n + 1 => walkWith t follow (walk follow n) (n + 1)

/-! ## One component at a time -/

variable {t} {follow : Bool} {n : Nat} {s : Place ν ι}

@[simp] theorem walk_nil : walk t follow n s [] = .ok (n, s) := by
  cases n <;> rfl

/-- The rest of a walk that met a symlink with `n` left. -/
def jumpFrom (t : LinkTree ν ι) (follow : Bool) (n : Nat) (s : Place ν ι) (cs : List (Comp ν)) :
    Except Fault (Nat × Place ν ι) :=
  match n with
  | 0 => .error .loop
  | n + 1 => walk t follow n s cs

theorem walk_cons (c : Comp ν) (cs : List (Comp ν)) :
    walk t follow n s (c :: cs) =
      match advance t s c with
      | .error e => .error e
      | .ok s' =>
        match t.link s'.inode with
        | none => walk t follow n s' cs
        | some l =>
          if cs = [] ∧ follow = false then .ok (n, s')
          else jumpFrom t follow n (l.base t s) (l.target ++ cs) := by
  cases n <;> rfl

theorem walk_cons_error {c : Comp ν} {e : Fault} (h : advance t s c = .error e)
    (cs : List (Comp ν)) : walk t follow n s (c :: cs) = .error e := by
  rw [walk_cons, h]

theorem walk_cons_ok {c : Comp ν} {s' : Place ν ι} (h : advance t s c = .ok s')
    (hl : t.link s'.inode = none) (cs : List (Comp ν)) :
    walk t follow n s (c :: cs) = walk t follow n s' cs := by
  rw [walk_cons, h]
  simp only [hl]

theorem walk_cons_link {c : Comp ν} {s' : Place ν ι} {l : Link ν} (h : advance t s c = .ok s')
    (hl : t.link s'.inode = some l) (cs : List (Comp ν)) :
    walk t follow n s (c :: cs) =
      if cs = [] ∧ follow = false then .ok (n, s')
      else jumpFrom t follow n (l.base t s) (l.target ++ cs) := by
  rw [walk_cons, h]
  simp only [hl]

variable (t) in
/-- Induction along a walk: to the next component, or into what a symlink leads
to with one less to follow. -/
@[elab_as_elim]
theorem walk_induction {motive : Nat → Place ν ι → List (Comp ν) → Prop}
    (nil : ∀ n s, motive n s [])
    (stop : ∀ n s c cs e, advance t s c = .error e → motive n s (c :: cs))
    (go : ∀ n s c cs s', advance t s c = .ok s' → t.link s'.inode = none → motive n s' cs →
      motive n s (c :: cs))
    (jump : ∀ n s c cs s' l, advance t s c = .ok s' → t.link s'.inode = some l →
      (∀ m, n = m + 1 → ∀ s cs, motive m s cs) → motive n s (c :: cs)) :
    ∀ n s cs, motive n s cs := by
  have inner : ∀ n, (∀ m, n = m + 1 → ∀ s cs, motive m s cs) → ∀ s cs, motive n s cs := by
    intro n hjump s cs
    induction cs generalizing s with
    | nil => exact nil n s
    | cons c cs ih =>
      cases hadv : advance t s c with
      | error e => exact stop n s c cs e hadv
      | ok s' =>
        cases hl : t.link s'.inode with
        | none => exact go n s c cs s' hadv hl (ih s')
        | some l => exact jump n s c cs s' l hadv hl hjump
  intro n
  induction n with
  | zero => exact inner 0 fun m hm => by omega
  | succ n ih =>
    refine inner (n + 1) fun m hm => ?_
    obtain rfl : n = m := by omega
    exact ih

/-- **Piece by piece.**  A path that goes on follows all that it begins with. -/
theorem walk_append {rest : List (Comp ν)} (hrest : rest ≠ []) (n : Nat) (s : Place ν ι)
    (pre : List (Comp ν)) :
    walk t follow n s (pre ++ rest) =
      (walk t true n s pre).bind fun r => walk t follow r.1 r.2 rest := by
  induction n, s, pre using walk_induction t with
  | nil n s =>
    rw [walk_nil]
    rfl
  | stop n s c cs e hadv =>
    rw [List.cons_append, walk_cons_error hadv, walk_cons_error hadv]
    rfl
  | go n s c cs s' hadv hl ih => rw [List.cons_append, walk_cons_ok hadv hl, walk_cons_ok hadv hl, ih]
  | jump n s c cs s' l hadv hl ih =>
    have hmore : ¬ (cs ++ rest = [] ∧ follow = false) := by simp [hrest]
    rw [List.cons_append, walk_cons_link hadv hl, walk_cons_link hadv hl, if_neg hmore,
      if_neg (by simp), ← List.append_assoc]
    cases n with
    | zero => rfl
    | succ m => exact ih m rfl _ _

/-- **Not following** only matters where the path ends in a symlink. -/
theorem walk_nofollow (n : Nat) (s : Place ν ι) (cs : List (Comp ν)) :
    walk t false n s cs = walk t true n s cs ∨
      ∃ r l, walk t false n s cs = .ok r ∧ t.link r.2.inode = some l := by
  induction n, s, cs using walk_induction t with
  | nil n s => exact Or.inl (by rw [walk_nil, walk_nil])
  | stop n s c cs e hadv => exact Or.inl (by rw [walk_cons_error hadv, walk_cons_error hadv])
  | go n s c cs s' hadv hl ih => rwa [walk_cons_ok hadv hl, walk_cons_ok hadv hl]
  | jump n s c cs s' l hadv hl ih =>
    rw [walk_cons_link hadv hl, walk_cons_link hadv hl, if_neg (by simp : ¬ (cs = [] ∧ true = false))]
    by_cases hend : cs = []
    · rw [if_pos ⟨hend, rfl⟩]
      exact Or.inr ⟨(n, s'), l, rfl, hl⟩
    · rw [if_neg fun h => hend h.1]
      cases n with
      | zero => exact Or.inl rfl
      | succ m => exact ih m rfl _ _

/-! ## Places -/

/-- The place is in the tree. -/
def LinkTree.At (t : LinkTree ν ι) (s : Place ν ι) : Prop := t.node s.path = some s.inode

theorem at_root : t.At t.root := t.node_nil

theorem enter_at {i j : ι} {q : List ν} (h : enter t.toTree i q = .ok j) : t.node q = some j := by
  unfold enter entry at h
  split at h
  · cases h
  · split at h
    · cases h
    · split at h
      · cases h
        assumption
      · cases h

theorem advance_at {s s' : Place ν ι} {c : Comp ν} (hs : t.At s) (h : advance t s c = .ok s') :
    t.At s' := by
  unfold advance at h
  split at h
  · split at h
    · cases h
      exact hs
    · cases h
  · split at h
    · cases h
    · rename_i i hi
      cases h
      exact enter_at hi

/-- Only a directory leads on. -/
theorem advance_isDir {s s' : Place ν ι} {c : Comp ν} (h : advance t s c = .ok s') :
    isDir s.inode = true := by
  by_contra hd
  have hd : isDir s.inode = false := by simpa using hd
  cases c with
  | slash =>
    simp only [advance, hd, Bool.false_eq_true, if_false] at h
    cases h
  | _ =>
    simp only [advance, enter_notDir hd] at h
    cases h

/-- A walk stays in the tree. -/
theorem walk_at (n : Nat) (s : Place ν ι) (cs : List (Comp ν)) :
    t.At s → ∀ r, walk t follow n s cs = .ok r → t.At r.2 := by
  induction n, s, cs using walk_induction t with
  | nil n s =>
    intro hs r hr
    rw [walk_nil] at hr
    cases hr
    exact hs
  | stop n s c cs e hadv =>
    intro _ r hr
    rw [walk_cons_error hadv] at hr
    cases hr
  | go n s c cs s' hadv hl ih =>
    intro hs r hr
    rw [walk_cons_ok hadv hl] at hr
    exact ih (advance_at hs hadv) r hr
  | jump n s c cs s' l hadv hl ih =>
    intro hs r hr
    rw [walk_cons_link hadv hl] at hr
    split at hr
    · cases hr
      exact advance_at hs hadv
    · cases n with
      | zero => cases hr
      | succ m =>
        refine ih m rfl _ _ ?_ r hr
        unfold Link.base
        split
        · exact at_root
        · exact hs

/-- A directory that may be searched. -/
def Enterable (i : ι) : Prop := isDir i = true ∧ search i = true

theorem enter_enterable {i : ι} (h : Enterable i) (q : List ν) :
    enter t.toTree i q = entry t.toTree q := by
  unfold enter
  rw [h.1, h.2]
  simp

/-- What cannot be entered fails for every component alike, if for being no
directory then for a final slash as well. -/
theorem advance_not_enterable {s : Place ν ι} (h : ¬ Enterable s.inode) :
    ∃ o, (∀ c ≠ .slash, advance t s c = .error (.obstacle o)) ∧
      (isDir s.inode = false → o = .notDir) := by
  have hadv : ∀ o, (∀ q, enter t.toTree s.inode q = .error o) → ∀ c ≠ .slash,
      advance t s c = .error (.obstacle o) := by
    intro o ho c hc
    cases c with
    | slash => exact absurd rfl hc
    | _ => simp only [advance, ho]
  by_cases hd : isDir s.inode = true
  · have hs : search s.inode = false := by
      by_contra hs
      exact h ⟨hd, by simpa using hs⟩
    refine ⟨.unsearchable, hadv _ (enter_unsearchable hd hs), fun hnd => ?_⟩
    rw [hd] at hnd
    cases hnd
  · exact ⟨.notDir, hadv _ (enter_notDir (by simpa using hd)), fun _ => rfl⟩

theorem link_of_isDir {i : ι} (h : isDir i = true) : t.link i = none := by
  cases hl : t.link i with
  | none => rfl
  | some l =>
    rw [t.link_notDir i l hl] at h
    cases h

theorem advance_dot {s : Place ν ι} (hs : t.At s) (h : Enterable s.inode) :
    advance t s .dot = .ok s := by
  unfold LinkTree.At at hs
  simp only [advance, Comp.goal, enter_enterable h, entry, hs]

/-! ## Looking up names -/

variable (t n) in
/-- What `lstat` finds at the names `ns`. -/
def lookup (ns : List ν) : Except Fault (Nat × Place ν ι) := walk t false n t.root (ns.map .name)

variable {ns : List ν} {x : ν}

theorem lookup_nil : lookup t n [] = .ok (n, t.root) := walk_nil

/-- The last name is looked up where the others lead. -/
theorem lookup_snoc (ns : List ν) (x : ν) :
    lookup t n (ns ++ [x]) = (walk t true n t.root (ns.map .name)).bind fun r =>
      (advance t r.2 (.name x)).map fun s => (r.1, s) := by
  unfold lookup
  rw [List.map_append, List.map_singleton, walk_append (by simp)]
  congr 1
  funext r
  cases hadv : advance t r.2 (.name x) with
  | error e => exact walk_cons_error hadv _
  | ok s' =>
    cases hl : t.link s'.inode with
    | none =>
      rw [walk_cons_ok hadv hl, walk_nil]
      rfl
    | some l =>
      rw [walk_cons_link hadv hl, if_pos ⟨rfl, rfl⟩]
      rfl

/-- What is found at the place reached, when one is. -/
def Finds (P : ι → Prop) (r : Except Fault (Nat × Place ν ι)) : Prop := ∀ q, r = .ok q → P q.2.inode

/-- Names that do not end at a symlink may as well be followed. -/
theorem walk_eq_lookup (h : Finds (fun i => t.link i = none) (lookup t n ns)) :
    walk t true n t.root (ns.map .name) = lookup t n ns := by
  rcases walk_nofollow n t.root (ns.map .name) with heq | ⟨r, l, hr, hl⟩
  · exact heq.symm
  · have hnone : t.link r.2.inode = none := h r hr
    rw [hl] at hnone
    cases hnone

theorem finds_notLink {P : ι → Prop} (hP : ∀ i, P i → isDir i = true)
    {r : Except Fault (Nat × Place ν ι)} (h : Finds P r) : Finds (fun i => t.link i = none) r :=
  fun q hq => link_of_isDir (hP _ (h q hq))

/-- The directory found at some names lies where the names before lead. -/
theorem walk_parent {q : Nat × Place ν ι} (h : lookup t n ns = .ok q) :
    ∃ i, walk t true n t.root (ns.dropLast.map .name) = .ok (q.1, ⟨q.2.path.dropLast, i⟩) ∧
      t.node q.2.path.dropLast = some i ∧ isDir i = true := by
  rcases List.eq_nil_or_concat' ns with rfl | ⟨ms, x, rfl⟩
  · rw [lookup_nil] at h
    cases h
    exact ⟨t.top, walk_nil, t.node_nil, t.top_isDir⟩
  · rw [lookup_snoc] at h
    rw [List.dropLast_concat]
    cases hw : walk t true n t.root (ms.map .name) with
    | error e =>
      rw [hw] at h
      cases h
    | ok r =>
      rw [hw] at h
      cases hadv : advance t r.2 (.name x) with
      | error e =>
        simp only [Except.bind, hadv] at h
        cases h
      | ok s =>
        simp only [Except.bind, hadv, Except.map, Except.ok.injEq] at h
        have hpath : s.path = r.2.path ++ [x] := by
          unfold advance at hadv
          split at hadv
          · rename_i heq
            cases heq
          · split at hadv
            · cases hadv
            · cases hadv
              rfl
        subst h
        simp only [hpath, List.dropLast_concat]
        exact ⟨r.2.inode, rfl, walk_at n _ _ at_root r hw, advance_isDir hadv⟩

/-- What stops some names stops all that begin with them. -/
theorem lookup_append_error {e : Fault} (h : lookup t n ns = .error e) (ms : List ν) :
    lookup t n (ns ++ ms) = .error e := by
  cases ms with
  | nil => rwa [List.append_nil]
  | cons m ms =>
    have hfollow : walk t true n t.root (ns.map .name) = .error e := by
      rw [walk_eq_lookup fun q hq => ?_, h]
      rw [h] at hq
      cases hq
    unfold lookup
    rw [List.map_append, walk_append (by simp), hfollow]
    rfl

/-- Nothing lies below what is neither a directory nor a symlink. -/
theorem lookup_below {q : Nat × Place ν ι} (h : lookup t n ns = .ok q) (hl : t.link q.2.inode = none)
    (hd : isDir q.2.inode = false) (x : ν) (ms : List ν) :
    lookup t n (ns ++ x :: ms) = .error (.obstacle .notDir) := by
  have hfollow : walk t true n t.root (ns.map .name) = .ok q := by
    rw [walk_eq_lookup fun q' hq' => ?_, h]
    rw [h] at hq'
    cases hq'
    exact hl
  have hadv : advance t q.2 (.name x) = .error (.obstacle .notDir) := by
    simp only [advance, enter_notDir hd]
  unfold lookup
  rw [List.map_append, walk_append (by simp), hfollow]
  exact walk_cons_error hadv _

/-- Names through directories that may be searched lead where they say. -/
theorem walk_dirs {p : List ν} {i : ι}
    (hpre : ∀ k < p.length, ∃ m, t.node (p.take k) = some m ∧ Enterable m)
    (hp : t.node p = some i) (hl : t.link i = none) :
    walk t true n t.root (p.map .name) = .ok (n, ⟨p, i⟩) := by
  induction p using List.reverseRecOn generalizing i with
  | nil =>
    rw [t.node_nil, Option.some.injEq] at hp
    subst hp
    exact walk_nil
  | append_singleton p x ih =>
    have hlen : (p ++ [x]).length = p.length + 1 := by simp
    obtain ⟨m, hm, hent⟩ := hpre p.length (by omega)
    rw [List.take_left] at hm
    have hprefix : walk t true n t.root (p.map .name) = .ok (n, ⟨p, m⟩) := by
      apply ih _ hm (link_of_isDir hent.1)
      intro k hk
      have h := hpre k (by omega)
      rwa [List.take_append_of_le_length hk.le] at h
    have hadv : advance t ⟨p, m⟩ (.name x) = .ok ⟨p ++ [x], i⟩ := by
      simp only [advance, Comp.goal, enter_enterable hent, entry, hp]
    rw [List.map_append, List.map_singleton, walk_append (by simp), hprefix]
    show walk t true n ⟨p, m⟩ [.name x] = _
    rw [walk_cons_ok hadv hl, walk_nil]

/-! ## Two trees -/

/-- Everything `t` has is in `t'` too, and symlinks lead where they did. -/
structure LinkTree.Sub (t t' : LinkTree ν ι) : Prop where
  tree : Namei.Sub t.toTree t'.toTree
  link : t.link = t'.link

variable {t' : LinkTree ν ι}

theorem LinkTree.Sub.root (h : t.Sub t') : t.root = t'.root := by
  unfold LinkTree.root
  rw [h.tree.top]

theorem LinkTree.Sub.base (h : t.Sub t') (l : Link ν) (s : Place ν ι) : l.base t s = l.base t' s := by
  unfold Link.base
  rw [h.root]

theorem advance_sub (h : t.Sub t') (s : Place ν ι) (c : Comp ν) :
    advance t s c = .error (.obstacle .missing) ∨ advance t s c = advance t' s c := by
  cases c with
  | slash => exact Or.inr rfl
  | _ =>
    simp only [advance]
    rcases enter_sub h.tree s.inode (Comp.goal s.path _) with hmiss | hsame
    · exact Or.inl (by rw [hmiss])
    · exact Or.inr (by rw [hsame])

theorem advance_sub_ok (h : t.Sub t') {s s' : Place ν ι} {c : Comp ν} (hadv : advance t s c = .ok s') :
    advance t' s c = .ok s' := by
  rcases advance_sub h s c with hmiss | hsame
  · rw [hadv] at hmiss
    cases hmiss
  · rw [← hsame, hadv]

/-- **Smaller trees.**  With entries gone a walk misses one, or nothing changed for
it. -/
theorem walk_sub (h : t.Sub t') (n : Nat) (s : Place ν ι) (cs : List (Comp ν)) :
    walk t follow n s cs = .error (.obstacle .missing) ∨
      walk t follow n s cs = walk t' follow n s cs := by
  induction n, s, cs using walk_induction t with
  | nil n s => exact Or.inr (by rw [walk_nil, walk_nil])
  | stop n s c cs e hadv =>
    rw [walk_cons_error hadv]
    rcases advance_sub h s c with hmiss | hsame
    · rw [hadv, Except.error.injEq] at hmiss
      exact Or.inl (congrArg _ hmiss)
    · rw [hadv] at hsame
      exact Or.inr (walk_cons_error hsame.symm cs).symm
  | go n s c cs s' hadv hl ih =>
    rw [walk_cons_ok hadv hl, walk_cons_ok (advance_sub_ok h hadv) (h.link ▸ hl)]
    exact ih
  | jump n s c cs s' l hadv hl ih =>
    rw [walk_cons_link hadv hl, walk_cons_link (advance_sub_ok h hadv) (h.link ▸ hl), h.base]
    split
    · exact Or.inr rfl
    · cases n with
      | zero => exact Or.inr rfl
      | succ m => exact ih m rfl _ _

theorem lookup_sub (h : t.Sub t') (n : Nat) (ns : List ν) :
    lookup t n ns = .error (.obstacle .missing) ∨ lookup t n ns = lookup t' n ns := by
  unfold lookup
  rw [← h.root]
  exact walk_sub h n t.root _

/-! ## Cancelling `..` on paper -/

/-- The names left when `.` is dropped and `..` takes back the name before it. -/
def lexical (done : List ν) : List (Comp ν) → List ν
  | [] => done
  | .name x :: cs => lexical (done ++ [x]) cs
  | .dotdot :: cs => lexical done.dropLast cs
  | .dot :: cs | .slash :: cs => lexical done cs

/-- The names left are some of those there were. -/
theorem lexical_forall {P : ν → Prop} (cs : List (Comp ν)) (hcs : ∀ x, .name x ∈ cs → P x) :
    ∀ done : List ν, (∀ x ∈ done, P x) → ∀ x ∈ lexical done cs, P x := by
  induction cs with
  | nil =>
    intro done hdone
    exact hdone
  | cons c cs ih =>
    have ih := ih fun x hx => hcs x (List.mem_cons_of_mem _ hx)
    intro done hdone
    cases c with
    | name y =>
      apply ih (done ++ [y])
      intro x hx
      rcases List.mem_append.1 hx with hx | hx
      · exact hdone x hx
      · rw [List.mem_singleton.1 hx]
        exact hcs y List.mem_cons_self
    | dotdot => exact ih done.dropLast fun x hx => hdone x (List.dropLast_subset _ hx)
    | dot => exact ih done hdone
    | slash => exact ih done hdone

variable (t n) in
/-- Cancelling on paper is what the components do: a `..` leaves a directory that
may be searched, and what follows the last name neither follows a symlink nor
asks for more than what is there. -/
def Cancels (done : List ν) : List (Comp ν) → Prop
  | [] => Finds (fun i => t.link i = none) (lookup t n done)
  | [.name _] => True
  | .name x :: cs => Cancels (done ++ [x]) cs
  | .dotdot :: cs =>
    (∃ q, lookup t n done = .ok q ∧ Enterable q.2.inode) ∧ Cancels done.dropLast cs
  | .dot :: cs =>
    ((∀ c ∈ cs, c = .dot ∨ c = .slash) → Finds Enterable (lookup t n done)) ∧ Cancels done cs
  | .slash :: cs => Finds (fun i => isDir i = true) (lookup t n done) ∧ Cancels done cs

/-- A `.` before a further name or `..` changes nothing: where it fails they do. -/
theorem walk_dot {cs : List (Comp ν)} (hs : t.At s) (hmore : ¬ ∀ c ∈ cs, c = .dot ∨ c = .slash) :
    walk t follow n s (.dot :: cs) = walk t follow n s cs := by
  by_cases hent : Enterable s.inode
  · exact walk_cons_ok (advance_dot hs hent) (link_of_isDir hent.1) cs
  obtain ⟨o, hfail, hnotDir⟩ := advance_not_enterable (t := t) hent
  rw [walk_cons_error (hfail .dot (by simp))]
  induction cs with
  | nil => exact absurd (fun c hc => absurd hc List.not_mem_nil) hmore
  | cons c cs ih =>
    by_cases hc : c = .slash
    · subst hc
      by_cases hd : isDir s.inode = true
      · rw [walk_cons_ok (show advance t s .slash = .ok s from if_pos hd) (link_of_isDir hd)]
        apply ih
        intro hall
        apply hmore
        intro c hc
        rcases List.mem_cons.1 hc with rfl | hc
        · exact Or.inr rfl
        · exact hall c hc
      · rw [walk_cons_error (show advance t s .slash = .error (.obstacle .notDir) from if_neg hd),
          hnotDir (by simpa using hd)]
    · rw [walk_cons_error (hfail c hc)]

/-- **Lexical cancellation.** -/
theorem walk_lexical (cs : List (Comp ν)) : ∀ done : List ν, Cancels t n done cs →
    ((walk t true n t.root (done.map .name)).bind fun r => walk t false r.1 r.2 cs) =
      lookup t n (lexical done cs) := by
  induction cs with
  | nil =>
    intro done h
    rw [walk_eq_lookup h]
    show _ = lookup t n done
    cases lookup t n done with
    | error e => rfl
    | ok r =>
      show walk t false r.1 r.2 [] = _
      rw [walk_nil]
  | cons c cs ih =>
    intro done h
    cases c with
    | name x =>
      have hjoin : walk t false n t.root (done.map .name ++ .name x :: cs) = _ :=
        walk_append (by simp) n t.root (done.map .name)
      rw [← hjoin]
      cases cs with
      | nil =>
        show _ = lookup t n (done ++ [x])
        unfold lookup
        rw [List.map_append, List.map_singleton]
      | cons c cs =>
        have hsnoc : done.map Comp.name ++ .name x :: c :: cs =
            (done ++ [x]).map Comp.name ++ c :: cs := by simp
        rw [hsnoc, walk_append (by simp)]
        exact ih (done ++ [x]) h
    | dotdot =>
      obtain ⟨⟨q, hq, hent⟩, h⟩ := h
      have hlink : Finds (fun i => t.link i = none) (lookup t n done) := by
        intro q' hq'
        rw [hq] at hq'
        cases hq'
        exact link_of_isDir hent.1
      obtain ⟨i, hparent, hi, hd⟩ := walk_parent hq
      have hadv : advance t q.2 .dotdot = .ok ⟨q.2.path.dropLast, i⟩ := by
        simp only [advance, Comp.goal, enter_enterable hent, entry, hi]
      have hih := ih done.dropLast h
      rw [hparent] at hih
      rw [walk_eq_lookup hlink, hq]
      show walk t false q.1 q.2 (.dotdot :: cs) = lookup t n (lexical done.dropLast cs)
      rw [walk_cons_ok hadv (link_of_isDir hd), ← hih]
      rfl
    | dot =>
      obtain ⟨hlast, h⟩ := h
      show _ = lookup t n (lexical done cs)
      rw [← ih done h]
      cases hw : walk t true n t.root (done.map .name) with
      | error e => rfl
      | ok r =>
        show walk t false r.1 r.2 (.dot :: cs) = walk t false r.1 r.2 cs
        have hat := walk_at n _ _ at_root r hw
        by_cases hall : ∀ c ∈ cs, c = .dot ∨ c = .slash
        · have hfinds := hlast hall
          rw [← walk_eq_lookup (finds_notLink (fun i hi => hi.1) hfinds)] at hfinds
          have hent : Enterable r.2.inode := hfinds r hw
          exact walk_cons_ok (advance_dot hat hent) (link_of_isDir hent.1) cs
        · exact walk_dot hat hall
    | slash =>
      obtain ⟨hfinds, h⟩ := h
      show _ = lookup t n (lexical done cs)
      rw [← ih done h]
      rw [← walk_eq_lookup (finds_notLink (fun i hi => hi) hfinds)] at hfinds
      cases hw : walk t true n t.root (done.map .name) with
      | error e => rfl
      | ok r =>
        have hd : isDir r.2.inode = true := hfinds r hw
        exact walk_cons_ok (show advance t r.2 .slash = .ok r.2 from if_pos hd) (link_of_isDir hd) cs

end Namei
